/-!
# Keywords

Keywords may be shortened as long as only one keyword begins with the rest: `sm` is `small`, but `s` is
nothing, because `sonar` begins with it too.
-/

namespace Labyrinth

inductive Keyword where
  | tiny | small | normal | big | field | begin | endWord | untilWord | doWord | check
  | go | rl | rr | sonar | compass | returnWord
deriving DecidableEq, Hashable, Repr, Inhabited

namespace Keyword

def all : List Keyword :=
  [tiny, small, normal, big, field, begin, endWord, untilWord, doWord, check, go, rl, rr, sonar, compass, returnWord]

/-- The full spelling of a keyword. -/
def word : Keyword → String
  | tiny => "tiny"
  | small => "small"
  | normal => "normal"
  | big => "big"
  | field => "field"
  | begin => "begin"
  | endWord => "end"
  | untilWord => "until"
  | doWord => "do"
  | check => "check"
  | go => "go"
  | rl => "rl"
  | rr => "rr"
  | sonar => "sonar"
  | compass => "compass"
  | returnWord => "return"

def name (k : Keyword) : String :=
  k.word.toUpper

def index (k : Keyword) : Nat :=
  all.idxOf k

def ofIndex? (i : Nat) : Option Keyword :=
  all[i]?

/-- The keywords that begin with some characters. -/
def beginningWith (chars : List Char) : List Keyword :=
  all.filter fun k => chars.isPrefixOf k.word.toList

/-- The keyword that some characters stand for: the only one that begins with them. -/
def ofChars? (chars : List Char) : Option Keyword :=
  match beginningWith chars with
  | [k] => some k
  | _ => none

end Keyword

end Labyrinth
