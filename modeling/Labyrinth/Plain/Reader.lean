import Labyrinth.Plain

/-!
# Reading plain values

Reads values back from the form in which `Plain.shown` writes them. Reals are not read.
-/

namespace Labyrinth.Plain

/-- What follows blanks. -/
def skipBlanks (chars : List Char) : List Char := chars.dropWhile (· == ' ')

def hexDigit? (c : Char) : Option Nat :=
  if '0' ≤ c ∧ c ≤ '9' then some (c.toNat - '0'.toNat)
  else if 'a' ≤ c ∧ c ≤ 'f' then some (c.toNat - 'a'.toNat + 10)
  else if 'A' ≤ c ∧ c ≤ 'F' then some (c.toNat - 'A'.toNat + 10)
  else none

/-- The number that hexadecimal digits write. -/
def hexNumber? (value : Nat) : List Char → Option Nat
  | [] => some value
  | c :: rest => (hexDigit? c).bind fun digit => hexNumber? (value * 16 + digit) rest

/-- The character that an escape of a number of digits stands for. -/
def escapedChar? (count : Nat) (chars : List Char) : Option Char :=
  let digits := chars.take count
  if digits.length < count then none else (hexNumber? 0 digits).map Char.ofNat

/-- Reads the characters of a text up to the closing quote; `skip` characters belong to the escape before. -/
def readChars? (quote : Char) (done : List Char) : Nat → List Char → Option (String × List Char)
  | _, [] => none
  | skip + 1, _ :: rest => readChars? quote done skip rest
  | 0, c :: rest =>
    if c = quote then some (String.ofList done.reverse, rest)
    else if c = '\\' then
      match rest with
      | [] => none
      | kind :: after =>
        let escape : Option (Char × Nat) := match kind with
          | 'n' => some ('\n', 1)
          | 'r' => some ('\r', 1)
          | 't' => some ('\t', 1)
          | 'x' => (escapedChar? 2 after).map fun c => (c, 3)
          | 'u' => (escapedChar? 4 after).map fun c => (c, 5)
          | 'U' => (escapedChar? 8 after).map fun c => (c, 9)
          | other => some (other, 1)
        match escape with
        | none => none
        | some (c, length) => readChars? quote (c :: done) length rest
    else readChars? quote (c :: done) 0 rest

def readWord? (word : String) (chars : List Char) : Option (List Char) :=
  Text.afterStart? word.toList chars

mutual

/-- Reads a value, with at most `fuel` values inside one another or side by side. -/
def readValue? : Nat → List Char → Option (Plain × List Char)
  | 0, _ => none
  | fuel + 1, chars =>
    match skipBlanks chars with
    | '\'' :: rest => (readChars? '\'' [] 0 rest).map fun (s, rest) => (text s, rest)
    | '"' :: rest => (readChars? '"' [] 0 rest).map fun (s, rest) => (text s, rest)
    | '(' :: rest => (readItems? fuel ')' [] rest).map fun (items, rest) => (tuple items, rest)
    | '[' :: rest => (readItems? fuel ']' [] rest).map fun (items, rest) => (list items, rest)
    | '\x7b' :: rest =>
      (readEntries? fuel [] [] rest).map fun (names, values, rest) => (table names values, rest)
    | chars =>
      if let some rest := readWord? "None" chars then some (nothing, rest)
      else if let some rest := readWord? "True" chars then some (bool true, rest)
      else if let some rest := readWord? "False" chars then some (bool false, rest)
      else
        let (sign, digits) := match chars with
          | '-' :: rest => ((-1 : Int), rest)
          | chars => (1, chars)
        let number := digits.takeWhile Char.isDigit
        if number.isEmpty then none
        else
          let value := number.foldl (fun n c => n * 10 + (c.toNat - '0'.toNat)) 0
          some (int (sign * value), digits.drop number.length)

def readItems? : Nat → Char → List Plain → List Char → Option (List Plain × List Char)
  | 0, _, _, _ => none
  | fuel + 1, close, done, chars =>
    match skipBlanks chars with
    | [] => none
    | c :: rest =>
      if c = close then some (done.reverse, rest)
      else match readValue? fuel (c :: rest) with
        | none => none
        | some (value, rest) =>
          match skipBlanks rest with
          | ',' :: rest => readItems? fuel close (value :: done) rest
          | c :: rest => if c = close then some ((value :: done).reverse, rest) else none
          | [] => none

def readEntries? : Nat → List String → List Plain → List Char →
    Option (List String × List Plain × List Char)
  | 0, _, _, _ => none
  | fuel + 1, names, values, chars =>
    match skipBlanks chars with
    | '\x7d' :: rest => some (names.reverse, values.reverse, rest)
    | chars =>
      match readValue? fuel chars with
      | some (text name, rest) =>
        match skipBlanks rest with
        | ':' :: rest =>
          match readValue? fuel rest with
          | none => none
          | some (value, rest) =>
            match skipBlanks rest with
            | ',' :: rest => readEntries? fuel (name :: names) (value :: values) rest
            | '\x7d' :: rest => some ((name :: names).reverse, (value :: values).reverse, rest)
            | _ => none
        | _ => none
      | _ => none

end

/-- The value that a text writes, if it writes one and nothing else. -/
def ofText? (text : String) : Option Plain :=
  match readValue? (text.length + 1) text.toList with
  | some (value, rest) => if (skipBlanks rest).isEmpty then some value else none
  | none => none

end Labyrinth.Plain
