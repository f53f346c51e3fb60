import Labyrinth.Plain

/-!
# Formats

Texts with places for values: a percent sign, how the value is laid out, and a letter that says how it is
written.
-/

namespace Labyrinth.Plain

/-- How a value is laid out. -/
structure Field where
  left : Bool := false
  zeros : Bool := false
  plus : Bool := false
  space : Bool := false
  marked : Bool := false
  width : Nat := 0
  precision : Option Nat := none
deriving DecidableEq, Repr, Inhabited

namespace Field

def pad (f : Field) (text : String) : String :=
  if f.left then Text.padRight f.width text else Text.padLeft f.width text

/-- A number put into the width of a field: zeros go between the sign and the digits. -/
def padNumber (f : Field) (negative : Bool) (mark digits : String) : String :=
  let sign := if negative then "-" else if f.plus then "+" else if f.space then " " else ""
  let head := sign ++ mark
  if f.zeros && !f.left then
    head ++ Text.repeated "0" (f.width - (head.length + digits.length)) ++ digits
  else f.pad (head ++ digits)

end Field

def readFlags (f : Field) : List Char → Field × List Char
  | '-' :: rest => readFlags { f with left := true } rest
  | '0' :: rest => readFlags { f with zeros := true } rest
  | '+' :: rest => readFlags { f with plus := true } rest
  | ' ' :: rest => readFlags { f with space := true } rest
  | '#' :: rest => readFlags { f with marked := true } rest
  | rest => (f, rest)

/-- A number at the start of a text; zero if there is none. -/
def readNumber (value : Nat) : List Char → Nat × List Char
  | [] => (value, [])
  | c :: rest =>
    if c.isDigit then readNumber (value * 10 + (c.toNat - '0'.toNat)) rest else (value, c :: rest)

/-- The integer that a value is, if it is one; truth values are. -/
def integer? : Plain → Option Int
  | .int n => some n
  | .bool b => some (if b then 1 else 0)
  | _ => none

/-- The complaint about too few values. -/
def notEnough : Fault := .wrongKind "not enough arguments for format string"

/-- What a size in a format is, how large it may be, and the word for numbers up to that. -/
structure SizeLimit where
  name : String
  most : Nat
  word : String
deriving DecidableEq, Repr, Inhabited

def widthLimit : SizeLimit := ⟨"width", Nat.pow 2 63 - 1, "ssize_t"⟩

def precisionLimit : SizeLimit := ⟨"precision", Nat.pow 2 31 - 1, "int"⟩

/-- A size of a format, and the values left: one that stands in the format, or the next value if a star stands
there. A star for the width may be negative. -/
def readSize (limit : SizeLimit) (chars : List Char) (values : List Plain) :
    Except Fault (Int × List Char × List Plain) :=
  match chars, values with
  | '*' :: rest, v :: values =>
    match v.integer? with
    | some n =>
      if -(limit.most : Int) - 1 ≤ n ∧ n ≤ limit.most then .ok (n, rest, values)
      else .error (.overflow s!"Python int too large to convert to C {limit.word}")
    | none => .error (.wrongKind "* wants int")
  | '*' :: _, [] => .error notEnough
  | chars, values =>
    let (n, rest) := readNumber 0 chars
    if n ≤ limit.most then .ok (n, rest, values) else .error (.badValue s!"{limit.name} too big")

/-- The precision of a field and what follows it; a size below zero counts as zero. -/
def readPrecision (chars : List Char) (values : List Plain) :
    Except Fault (Option Nat × List Char × List Plain) :=
  match chars with
  | '.' :: rest => (readSize precisionLimit rest values).map fun (n, rest, values) => (some n.toNat, rest, values)
  | chars => .ok (none, chars, values)

/-- What follows a mark for the size of a number, which means nothing. -/
def skipSizeMark : List Char → List Char
  | 'l' :: rest => rest
  | 'h' :: rest => rest
  | 'L' :: rest => rest
  | chars => chars

/-- How a value is laid out, up to the letter. -/
def readField (chars : List Char) (values : List Plain) : Except Fault (Field × List Char × List Plain) :=
  let (f, chars) := readFlags {} chars
  match readSize widthLimit chars values with
  | .error cause => .error cause
  | .ok (width, chars, values) =>
    let f := { f with width := width.natAbs, left := f.left || width < 0 }
    (readPrecision chars values).map fun (precision, chars, values) =>
      ({ f with precision }, skipSizeMark chars, values)

/-- The digits of a number in a base up to 16. -/
def digitsIn (base : Nat) (upper : Bool) (n : Nat) : String :=
  let digits := String.ofList (Nat.toDigits base n)
  if upper then digits.toUpper else digits

/-- The whole part of a number; other values are refused with a complaint. -/
def whole (complaint : String) : Plain → Except Fault Int
  | .real d => d.whole
  | v => match v.integer? with
    | some n => .ok n
    | none => .error (.wrongKind complaint)

/-- A number as a double; other values are refused. -/
def toDouble : Plain → Except Fault Double
  | .real d => .ok d
  | v => match v.integer? with
    | some n => Double.ofInt n
    | none => .error (.wrongKind s!"must be real number, not {v.kind}")

/-- The fraction that a finite number is. -/
def ratio? : Plain → Option Ratio
  | .real (.finite q) => some q
  | v => v.integer?.map Ratio.ofInt

/-- A numeral without the zeros at the end of its places. -/
def trimPlaces (text : String) : String :=
  if text.toList.contains '.' then
    let chars := text.toList.reverse.dropWhile (· = '0')
    String.ofList (chars.dropWhile (· = '.')).reverse
  else text

/-- A fraction without its sign, as a letter says: with fixed places, with an exponent, or as the shorter of
them. -/
def writeRatio (f : Field) (letter : Char) (q : Ratio) : String :=
  let places := f.precision.getD 6
  let pointed (text : String) := if f.marked && !text.toList.contains '.' then text ++ "." else text
  match letter.toLower with
  | 'f' => pointed (q.fixed places)
  | 'e' =>
    let (mantissa, exponent) := q.exponential places
    pointed mantissa ++ String.ofList [letter] ++ exponent
  | _ =>
    let count := max 1 places
    let (_, power) := q.leadingDigits (count - 1)
    let tidy (text : String) := if f.marked then pointed text else trimPlaces text
    if -4 ≤ power && power < count then tidy (q.fixed (count - 1 - power).toNat)
    else
      let (mantissa, exponent) := q.exponential (count - 1)
      tidy mantissa ++ (if letter = 'G' then "E" else "e") ++ exponent

/-- A double without its sign, as a letter says. Capital letters put words in capitals. -/
def writeDouble (f : Field) (letter : Char) : Double → String
  | .finite q => writeRatio f letter { q with negative := false }
  | .infinite _ => if letter.isUpper then "INF" else "inf"
  | .notNumber => if letter.isUpper then "NAN" else "nan"

/-- A text with the characters outside the first 128 written as escapes. -/
def ascii (text : String) : String :=
  String.ofList (text.toList.flatMap fun c =>
    if c.toNat < 128 then [c]
    else if c.toNat < 256 then ['\\', 'x'] ++ Text.hexDigits 2 c.toNat
    else if c.toNat < 65536 then ['\\', 'u'] ++ Text.hexDigits 4 c.toNat
    else ['\\', 'U'] ++ Text.hexDigits 8 c.toNat)

/-- An integer in a base, with the digits that the precision asks for. The precision leaves room for a sign and a
mark. -/
def writeInteger (f : Field) (base : Nat) (upper : Bool) (mark : String) (n : Int) : Except Fault String :=
  let places := f.precision.getD 0
  if places > precisionLimit.most - 3 then .error (.overflow "precision too large") else
  let digits := digitsIn base upper n.natAbs
  let digits := Text.repeated "0" (places - digits.length) ++ digits
  .ok (f.padNumber (n < 0) (if f.marked then mark else "") digits)

/-- Writes a value as a letter says; the letter stands at an index of the format. -/
def writeAs (f : Field) (letter : Char) (index : Nat) (v : Plain) : Except Fault String :=
  let cut (text : String) := f.pad (match f.precision with
    | some n => Text.firstChars n text
    | none => text)
  let number (base : Nat) (upper : Bool) (mark : String) : Except Fault String :=
    match v.integer? with
    | some n => writeInteger f base upper mark n
    | none => .error (.wrongKind s!"%{letter} format: an integer is required, not {v.kind}")
  match letter with
  | 's' => .ok (cut v.printed)
  | 'r' => .ok (cut v.shown)
  | 'a' => .ok (cut (ascii v.shown))
  | 'x' => number 16 false "0x"
  | 'X' => number 16 true "0X"
  | 'o' => number 8 false "0o"
  | 'c' =>
    match v with
    | .text s => if s.length = 1 then .ok (f.pad s) else .error (.wrongKind "%c requires int or char")
    | v =>
      match v.integer? with
      | some n =>
        if 0 ≤ n && n < 0x110000 then .ok (f.pad (String.ofList [Char.ofNat n.toNat]))
        else .error (.overflow "%c arg not in range(0x110000)")
      | none => .error (.wrongKind "%c requires int or char")
  | letter =>
    if letter = 'd' || letter = 'i' || letter = 'u' then
      (v.whole s!"%{letter} format: a real number is required, not {v.kind}").bind (writeInteger f 10 false "")
    else if "eEfFgG".toList.contains letter then
      v.toDouble.map fun d => f.padNumber d.isNegative "" (writeDouble f letter d)
    else
      let shown := if 31 ≤ letter.toNat && letter.toNat ≤ 127 then letter else '?'
      let code := digitsIn 16 false letter.toNat
      .error (.badValue s!"unsupported format character '{shown}' (0x{code}) at index {index}")

/-- Fills a format of a given length with values. -/
def fill (length : Nat) : Nat → List Char → List Plain → List Char → Except Fault String
  | 0, _, _, done => .ok (String.ofList done.reverse)
  | _, [], [], done => .ok (String.ofList done.reverse)
  | _, [], _ :: _, _ => .error (.wrongKind "not all arguments converted during string formatting")
  | fuel + 1, '%' :: '%' :: rest, values, done => fill length fuel rest values ('%' :: done)
  | _ + 1, '%' :: '(' :: _, _, _ => .error (.wrongKind "format requires a mapping")
  | fuel + 1, '%' :: rest, values, done =>
    match readField rest values with
    | .error cause => .error cause
    | .ok (_, [], _) => .error (.badValue "incomplete format")
    | .ok (_, _ :: _, []) => .error notEnough
    | .ok (f, letter :: after, v :: values) =>
      match writeAs f letter (length - after.length - 1) v with
      | .error cause => .error cause
      | .ok written => fill length fuel after values (written.toList.reverse ++ done)
  | fuel + 1, c :: rest, values, done => fill length fuel rest values (c :: done)

/-- A format filled with values. -/
def format (text : String) (values : List Plain) : Except Fault String :=
  fill text.length (text.length + 1) text.toList values []

end Labyrinth.Plain
