import Labyrinth.Text.Numeral
import Labyrinth.Text.Quoted
import Labyrinth.Text.WordChar

/-!
# Patterns

Regular expressions: their tree, and how it is read from text. Groups are numbered from one in the order of
their opening parentheses and may have names. In the spaced notation blanks outside sets do not count and a
number sign starts a comment.
-/

namespace Labyrinth.Lexing

inductive CharClass where
  | digit
  | blank
  | word
deriving DecidableEq, Repr, Inhabited

inductive SetItem where
  | char (c : Char)
  | range (lo hi : Char)
  /-- The characters of a class, or all others. -/
  | cls (kind : CharClass) (negated : Bool)
deriving DecidableEq, Repr, Inhabited

/-- A condition on a place in the text. -/
inductive Anchor where
  | start
  /-- The end, or a line end before it. -/
  | stop
  /-- The very end. -/
  | veryEnd
  /-- A place between a word character and another character, or any other place. -/
  | wordEdge (negated : Bool)
  /-- A place that a character does not follow. -/
  | notBefore (c : Char)
  /-- A place that does not follow a character. -/
  | notAfter (c : Char)
deriving DecidableEq, Repr, Inhabited

/-- How many rounds of a repetition are tried first. -/
inductive Greed where
  | most
  | fewest
  /-- As many as possible, and no fewer later. -/
  | onlyMost
deriving DecidableEq, Repr, Inhabited

inductive Pattern where
  | empty
  /-- Any character but a line feed. -/
  | any
  | set (negated : Bool) (items : List SetItem)
  | anchor (a : Anchor)
  | seq (first second : Pattern)
  | alt (first second : Pattern)
  | rounds (greed : Greed) (least : Nat) (most : Option Nat) (body : Pattern)
  | group (index : Nat) (body : Pattern)
deriving Inhabited

/-- What is wrong with the text of a pattern, and where. -/
structure PatternError where
  message : String
  position : Nat
deriving DecidableEq, Repr, Inhabited

namespace PatternError

/-- The wording of an error. In a text of several lines the place is given by line and column too. -/
def shown (e : PatternError) (text : String) : String :=
  let chars := text.toList
  let before := chars.take e.position
  let base := s!"{e.message} at position {e.position}"
  if chars.contains '\n' then
    let line := (before.filter (· == '\n')).length + 1
    let column := (before.reverse.takeWhile (· ≠ '\n')).length + 1
    s!"{base} (line {line}, column {column})"
  else base

end PatternError

/-- A character of the text of a pattern, or two of which the first is a backslash. -/
structure PatternMark where
  position : Nat
  chars : List Char
deriving DecidableEq, Repr, Inhabited

namespace PatternMark

/-- Whether a mark is a single given character. -/
def is (m : PatternMark) (c : Char) : Bool := m.chars == [c]

def text (m : PatternMark) : String := String.ofList m.chars

/-- The marks of a text from a position on. -/
def split (position : Nat) : List Char → List PatternMark
  | '\\' :: c :: rest => ⟨position, ['\\', c]⟩ :: split (position + 2) rest
  | c :: rest => ⟨position, [c]⟩ :: split (position + 1) rest
  | [] => []

end PatternMark

/-- What is still to be read of the text of a pattern, and where the text ends. -/
structure PatternRest where
  marks : List PatternMark
  stop : Nat
deriving Inhabited

namespace PatternRest

/-- The position of the next mark. -/
def position (r : PatternRest) : Nat :=
  match r.marks with
  | m :: _ => m.position
  | [] => r.stop

/-- What is left after the next mark. -/
def tail (r : PatternRest) : PatternRest := { r with marks := r.marks.tail }

/-- What is left after a given character, if it is next. -/
def after? (r : PatternRest) (c : Char) : Option PatternRest :=
  match r.marks with
  | m :: _ => if m.is c then some r.tail else none
  | [] => none

end PatternRest

/-- What is known about the groups of a pattern that is being read. -/
structure Groups where
  count : Nat := 0
  /-- Names and numbers of the named groups, in order. -/
  names : List (String × Nat) := []
deriving DecidableEq, Repr, Inhabited

namespace Groups

/-- Whether a text can name a group: word characters that do not start with a digit. -/
def isName (name : String) : Bool :=
  match name.toList with
  | [] => false
  | c :: rest =>
    Text.isWordChar c && (Text.decimalValue? c).isNone && rest.all Text.isWordChar

/-- Opens a group. A name can be used once. -/
def opened (g : Groups) (name : Option String) : Except String (Nat × Groups) :=
  let index := g.count + 1
  match name with
  | none => .ok (index, { g with count := index })
  | some name =>
    match g.names.lookup name with
    | some before =>
      .error s!"redefinition of group name {Text.quoted name} as group {index}; was group {before}"
    | none => .ok (index, ⟨index, g.names ++ [(name, index)]⟩)

end Groups

/-- A piece of a sequence, as far as it matters for the repetition that may follow it. -/
inductive Piece where
  | plain (p : Pattern)
  /-- A condition, which cannot be repeated. -/
  | place (p : Pattern)
  /-- A repetition, which cannot be repeated again. -/
  | repeated (p : Pattern)
deriving Inhabited

namespace Piece

def pattern : Piece → Pattern
  | plain p => p
  | place p => p
  | repeated p => p

end Piece

namespace Pattern

/-- The pattern for pieces one after another, given last first. -/
def ofPieces (pieces : List Piece) : Pattern :=
  pieces.foldl (fun rest piece => match rest with
    | .empty => piece.pattern
    | rest => .seq piece.pattern rest) .empty

def char (c : Char) : Pattern := .set false [.char c]

/-- The pattern for alternatives, given last first. -/
def ofAlternatives : List Pattern → Pattern
  | [] => .empty
  | p :: rest => rest.foldl (fun later first => .alt first later) p

/-- Control characters that escapes with letters stand for. -/
def controlEscape? : Char → Option Char
  | 'a' => some (Char.ofNat 7)
  | 'f' => some (Char.ofNat 12)
  | 'n' => some '\n'
  | 'r' => some '\r'
  | 't' => some '\t'
  | 'v' => some (Char.ofNat 11)
  | '\\' => some '\\'
  | _ => none

/-- Classes of characters that escapes with letters stand for. -/
def classEscape? : Char → Option SetItem
  | 'd' => some (.cls .digit false)
  | 'D' => some (.cls .digit true)
  | 's' => some (.cls .blank false)
  | 'S' => some (.cls .blank true)
  | 'w' => some (.cls .word false)
  | 'W' => some (.cls .word true)
  | _ => none

/-- Whether a character means something of its own after a backslash, so that it cannot stand for itself. -/
def isReserved (c : Char) : Bool := c.isAlpha || c.isDigit

/-- The error for an escape that means nothing. -/
def badEscape {α : Type} (m : PatternMark) : Except PatternError α :=
  .error ⟨"bad escape " ++ m.text, m.position⟩

/-- The item that an escape in a set stands for. -/
def setEscape (m : PatternMark) (c : Char) : Except PatternError SetItem :=
  if c = 'b' then .ok (.char (Char.ofNat 8))
  else match controlEscape? c, classEscape? c with
    | some control, _ => .ok (.char control)
    | _, some item => .ok item
    | none, none => if isReserved c then badEscape m else .ok (.char c)

/-- The piece that an escape outside sets stands for. -/
def escape (m : PatternMark) (c : Char) : Except PatternError Piece :=
  match c with
  | 'A' => .ok (.place (.anchor .start))
  | 'Z' => .ok (.place (.anchor .veryEnd))
  | 'b' => .ok (.place (.anchor (.wordEdge false)))
  | 'B' => .ok (.place (.anchor (.wordEdge true)))
  | c =>
    match controlEscape? c, classEscape? c with
    | some control, _ => .ok (.plain (char control))
    | _, some item => .ok (.plain (.set false [item]))
    | none, none => if isReserved c then badEscape m else .ok (.plain (char c))

/-- The item that a mark in a set stands for. -/
def setItem (m : PatternMark) : Except PatternError SetItem :=
  match m.chars with
  | ['\\', c] => setEscape m c
  | [c] => .ok (.char c)
  | _ => badEscape m

/-- The range between two items of a set, which have to be characters in order. -/
def rangeOf (first last : PatternMark) (lo hi : SetItem) : Except PatternError SetItem :=
  match lo, hi with
  | .char lo, .char hi =>
    if lo ≤ hi then .ok (.range lo hi)
    else .error ⟨s!"bad character range {first.text}-{last.text}", first.position⟩
  | _, _ => .error ⟨s!"bad character range {first.text}-{last.text}", first.position⟩

/-- Reads the items of a set that was opened at a position. A closing bracket that comes first is an item. -/
def readSet (start stop : Nat) (done : List SetItem) :
    List PatternMark → Except PatternError (List SetItem × PatternRest)
  | [] => .error ⟨"unterminated character set", start⟩
  | m :: rest =>
    if m.is ']' && !done.isEmpty then .ok (done.reverse, ⟨rest, stop⟩)
    else match setItem m with
      | .error e => .error e
      | .ok item =>
        match rest with
        | dash :: rest =>
          if dash.is '-' then
            match rest with
            | [] => .error ⟨"unterminated character set", start⟩
            | last :: rest =>
              if last.is ']' then .ok ((.char '-' :: item :: done).reverse, ⟨rest, stop⟩)
              else match setItem last with
                | .error e => .error e
                | .ok hi =>
                  match rangeOf m last item hi with
                  | .error e => .error e
                  | .ok range => readSet start stop (range :: done) rest
          else readSet start stop (item :: done) (dash :: rest)
        | [] => .error ⟨"unterminated character set", start⟩

/-- Reads a name up to a closing character. -/
def readName (close : Char) (stop : Nat) (start : Nat) (done : List Char) :
    List PatternMark → Except PatternError (String × PatternRest)
  | [] =>
    if done.isEmpty then .error ⟨"missing group name", stop⟩
    else .error ⟨s!"missing {close}, unterminated name", start⟩
  | m :: rest =>
    if m.is close then
      if done.isEmpty then .error ⟨"missing group name", start⟩
      else .ok (String.ofList done, ⟨rest, stop⟩)
    else readName close stop start (done ++ m.chars) rest

/-- What an opening parenthesis opens. -/
inductive Opening where
  | capture (name : Option (String × Nat))
  | grouping
  | comment
deriving DecidableEq, Repr, Inhabited

/-- Reads what stands between an opening parenthesis and the content of the group. -/
def readOpening (r : PatternRest) : Except PatternError (Opening × PatternRest) :=
  match r.after? '?' with
  | none => .ok (.capture none, r)
  | some r1 =>
    match r1.marks with
    | [] => .error ⟨"unexpected end of pattern", r1.stop⟩
    | kind :: _ =>
      let r2 := r1.tail
      if kind.is 'P' then
        match r2.after? '<' with
        | some r3 =>
          match readName '>' r3.stop r3.position [] r3.marks with
          | .error e => .error e
          | .ok (name, r4) =>
            if Groups.isName name then .ok (.capture (some (name, r3.position)), r4)
            else .error ⟨s!"bad character in group name {Text.quoted name}", r3.position⟩
        | none =>
          match r2.marks with
          | [] => .error ⟨"unexpected end of pattern", r2.stop⟩
          | other :: _ => .error ⟨"unknown extension ?P" ++ other.text, r.position⟩
      else if kind.is ':' then .ok (.grouping, r2)
      else if kind.is '#' then .ok (.comment, r2)
      else .error ⟨"unknown extension ?" ++ kind.text, r.position⟩

/-- Skips a comment in a group, up to its closing parenthesis. -/
def skipComment (start stop : Nat) : List PatternMark → Except PatternError PatternRest
  | [] => .error ⟨"missing ), unterminated comment", start⟩
  | m :: rest => if m.is ')' then .ok ⟨rest, stop⟩ else skipComment start stop rest

def skipLine : List PatternMark → List PatternMark
  | [] => []
  | m :: rest => if m.is '\n' then rest else skipLine rest

/-- The digits at the start of marks, and what follows them. -/
def takeDigits : List PatternMark → List Char × List PatternMark
  | [] => ([], [])
  | m :: rest =>
    match m.chars with
    | [c] => if c.isDigit then
        let (digits, after) := takeDigits rest
        (c :: digits, after)
      else ([], m :: rest)
    | _ => ([], m :: rest)

/-- The number that digits write, if there are any. -/
def numberOf? (digits : List Char) : Option Nat :=
  if digits.isEmpty then none else some (digits.foldl (fun n c => n * 10 + (c.toNat - '0'.toNat)) 0)

/-- Reads the numbers of rounds after an opening brace; none if the brace stands for itself. -/
def readCounts? (r : PatternRest) : Option (Nat × Option Nat × PatternRest) :=
  if (r.after? '\x7d').isSome then none else
  let (low, marks) := takeDigits r.marks
  let (high, marks) := match marks with
    | m :: rest => if m.is ',' then takeDigits rest else (low, m :: rest)
    | [] => (low, [])
  match marks with
  | m :: rest => if m.is '\x7d' then some ((numberOf? low).getD 0, numberOf? high, ⟨rest, r.stop⟩) else none
  | [] => none

/-- The repetition of the last piece by a sign at a position. -/
def repeatLast (position least : Nat) (most : Option Nat) (pieces : List Piece) (r : PatternRest) :
    Except PatternError (List Piece × PatternRest) :=
  match pieces with
  | [] => .error ⟨"nothing to repeat", position⟩
  | .place _ :: _ => .error ⟨"nothing to repeat", position⟩
  | .repeated _ :: _ => .error ⟨"multiple repeat", position⟩
  | .plain p :: rest =>
    match r.after? '?', r.after? '+' with
    | some r, _ => .ok (.repeated (.rounds .fewest least most p) :: rest, r)
    | _, some r => .ok (.repeated (.rounds .onlyMost least most p) :: rest, r)
    | none, none => .ok (.repeated (.rounds .most least most p) :: rest, r)

/-- Whether a mark is a blank that the spaced notation skips. -/
def isSpace (m : PatternMark) : Bool :=
  match m.chars with
  | [c] => c == ' ' || (9 ≤ c.toNat && c.toNat ≤ 13)
  | _ => false

/-- Reads alternatives up to a closing parenthesis or the end. `pieces` are those of the alternative being
read, last first, and `alternatives` the ones before it. -/
def readAlternatives (spaced : Bool) : Nat → Groups → List Pattern → List Piece → PatternRest →
    Except PatternError (Pattern × Groups × PatternRest)
  | 0, _, _, _, r => .error ⟨"pattern too long", r.position⟩
  | fuel + 1, groups, alternatives, pieces, r =>
    let goOn (piece : Piece) (r : PatternRest) :=
      readAlternatives spaced fuel groups alternatives (piece :: pieces) r
    let repeatWith (position least : Nat) (most : Option Nat) (r : PatternRest) :=
      match repeatLast position least most pieces r with
      | .error e => .error e
      | .ok (pieces, r) => readAlternatives spaced fuel groups alternatives pieces r
    let finish := Except.ok (ofAlternatives (ofPieces pieces :: alternatives), groups, r)
    match r.marks with
    | [] => finish
    | m :: rest =>
      let next : PatternRest := ⟨rest, r.stop⟩
      match m.chars with
      | [')'] => finish
      | ['|'] => readAlternatives spaced fuel groups (ofPieces pieces :: alternatives) [] next
      | ['\\', c] =>
        match escape m c with
        | .error e => .error e
        | .ok piece => goOn piece next
      | [c] =>
        if spaced && isSpace m then readAlternatives spaced fuel groups alternatives pieces next
        else if spaced && c = '#' then
          readAlternatives spaced fuel groups alternatives pieces ⟨skipLine rest, r.stop⟩
        else match c with
          | '.' => goOn (.plain .any) next
          | '^' => goOn (.place (.anchor .start)) next
          | '$' => goOn (.place (.anchor .stop)) next
          | '*' => repeatWith m.position 0 none next
          | '+' => repeatWith m.position 1 none next
          | '?' => repeatWith m.position 0 (some 1) next
          | '\x7b' =>
            match readCounts? next with
            | none => goOn (.plain (char c)) next
            | some (least, most, after) =>
              if most.any (· < least) then .error ⟨"min repeat greater than max repeat", m.position + 1⟩
              else repeatWith m.position least most after
          | '[' =>
            let (negated, inside) := match next.after? '^' with
              | some inside => (true, inside)
              | none => (false, next)
            match readSet m.position r.stop [] inside.marks with
            | .error e => .error e
            | .ok (items, after) => goOn (.plain (.set negated items)) after
          | '(' =>
            match readOpening next with
            | .error e => .error e
            | .ok (.comment, inside) =>
              match skipComment m.position r.stop inside.marks with
              | .error e => .error e
              | .ok after => readAlternatives spaced fuel groups alternatives pieces after
            | .ok (.grouping, inside) =>
              match readAlternatives spaced fuel groups [] [] inside with
              | .error e => .error e
              | .ok (p, groups, after) =>
                match after.after? ')' with
                | none => .error ⟨"missing ), unterminated subpattern", m.position⟩
                | some after => readAlternatives spaced fuel groups alternatives (.plain p :: pieces) after
            | .ok (.capture name, inside) =>
              match groups.opened (name.map Prod.fst) with
              | .error message => .error ⟨message, (name.map Prod.snd).getD m.position⟩
              | .ok (index, groups) =>
                match readAlternatives spaced fuel groups [] [] inside with
                | .error e => .error e
                | .ok (p, groups, after) =>
                  match after.after? ')' with
                  | none => .error ⟨"missing ), unterminated subpattern", m.position⟩
                  | some after =>
                    readAlternatives spaced fuel groups alternatives (.plain (.group index p) :: pieces) after
          | c => goOn (.plain (char c)) next
      | _ => badEscape m

/-- The pattern that a text writes, with its groups. -/
def ofText (text : String) (spaced : Bool) : Except PatternError (Pattern × Groups) :=
  let chars := text.toList
  let r : PatternRest := ⟨PatternMark.split 0 chars, chars.length⟩
  match readAlternatives spaced (chars.length + 1) {} [] [] r with
  | .error e => .error e
  | .ok (p, groups, after) =>
    match after.marks with
    | [] => .ok (p, groups)
    | m :: _ => .error ⟨"unbalanced parenthesis", m.position⟩

end Pattern

end Labyrinth.Lexing
