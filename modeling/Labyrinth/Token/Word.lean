import Labyrinth.Token.Basic

/-!
# Words

What a run of word characters stands for: a name, which may be a keyword, or a number. A word that is neither can be
mended if it is made of the characters that names and numbers have.
-/

namespace Labyrinth

namespace Word

/-- A character of a name: a lower-case letter, a digit or the underscore. -/
def isNameChar (c : Char) : Bool :=
  c.isLower || c.isDigit || c == '_'

/-- A digit of a number, or the underscore. -/
def isNumberChar (c : Char) : Bool :=
  ('A' ≤ c && c ≤ 'W') || c.isDigit || c == '_'

/-- A character that names or numbers have. -/
def isMendable (c : Char) : Bool :=
  ('a' ≤ c && c ≤ 'w') || isNumberChar c

/-- Names hold lower-case letters, digits and underscores, and begin with no digit. -/
def isName (word : List Char) : Bool :=
  word.all isNameChar && (word.head?.any fun c => !c.isDigit)

/-- Numbers hold digits up to `W` and underscores, and neither begin nor end with an underscore. -/
def isNumber (word : List Char) : Bool :=
  word.all isNumberChar && (word.head?.any (· != '_')) && (word.getLast?.any (· != '_'))

/-- Whether a word has a letter, and all its letters are upper case. -/
def isUpper (word : List Char) : Bool :=
  word.any Char.isUpper && !word.any Char.isLower

/-- Whether a word has a letter, and all its letters are lower case. -/
def isLower (word : List Char) : Bool :=
  word.any Char.isLower && !word.any Char.isUpper

/-- The kind that a mended word gets, and the complaint about it. -/
def mend (word : List Char) : TokenKind × String :=
  let startsWithDigit := word.head?.any Char.isDigit
  let instead (chars : List Char) := s!"Did you mean '{String.ofList chars}'?"
  let isUnderscore (c : Char) := c == '_'
  if startsWithDigit && !isUpper word then
    (.number, s!"numbers have to be uppercase. {instead (word.map Char.toUpper)}")
  else if word.head?.any isUnderscore then
    (.name, s!"numbers cannot start with an underscore. {instead (word.dropWhile isUnderscore)}")
  else if !startsWithDigit && !isLower word then
    (.name, s!"names have to be lowercase. {instead (word.map Char.toLower)}")
  else if !isUpper word && !isLower word then
    (.number, "numbers have to be uppercase and names have to be lowercase")
  else if word.getLast?.any isUnderscore then
    (.name, "numbers cannot end with an underscore. " ++
      instead (word.reverse.dropWhile isUnderscore).reverse)
  else (.name, "invalid number or name")

/-- The kind of a well-formed word. -/
def kind? (word : List Char) : Option TokenKind :=
  if isName word then
    some (match Keyword.ofChars? word with
      | some k => .keyword k
      | none => .name)
  else if isNumber word then some .number
  else none

end Word

end Labyrinth
