/-!
# Layout of text

Repeating, padding, cutting and replacing.
-/

namespace Labyrinth.Text

/-- A text written `count` times; none at all for a negative count. -/
def repeated (text : String) (count : Int) : String :=
  (List.replicate count.toNat text).foldl (· ++ ·) ""

def firstChars (count : Nat) (text : String) : String :=
  String.ofList (text.toList.take count)

/-- A text with blanks after it, up to a width. -/
def padRight (width : Nat) (text : String) : String :=
  text ++ repeated " " (width - text.length)

/-- A text with blanks before it, up to a width. -/
def padLeft (width : Nat) (text : String) : String :=
  repeated " " (width - text.length) ++ text

/-- What follows `start` in `chars`, if `chars` begins with it. -/
def afterStart? : List Char → List Char → Option (List Char)
  | [], chars => some chars
  | _ :: _, [] => none
  | a :: start, c :: chars => if a = c then afterStart? start chars else none

/-- What follows a start is no longer than the whole. -/
theorem length_le_of_afterStart? : ∀ {start chars rest : List Char},
    afterStart? start chars = some rest → rest.length + start.length = chars.length
  | [], chars, rest, h => by simp_all [afterStart?]
  | _ :: _, [], rest, h => by simp [afterStart?] at h
  | a :: start, c :: chars, rest, h => by
    simp only [afterStart?] at h
    split at h
    · have := length_le_of_afterStart? h
      simp only [List.length_cons]
      omega
    · simp at h

/-- Replaces every occurrence of `old`, from the left and without overlap; `done` holds the result so far,
last character first. An empty `old` occurs nowhere. -/
def replaceChars (old new : List Char) (done : List Char) (chars : List Char) : List Char :=
  match chars with
  | [] => done.reverse
  | c :: rest =>
    match h : afterStart? old (c :: rest) with
    | some after =>
      if empty : old = [] then replaceChars old new (c :: done) rest
      else
        have : after.length < rest.length + 1 := by
          have hl := length_le_of_afterStart? h
          have := List.length_pos_iff.mpr empty
          simp only [List.length_cons] at hl
          omega
        replaceChars old new (new.reverse ++ done) after
    | none => replaceChars old new (c :: done) rest
termination_by chars.length

/-- A text with every occurrence of `old` replaced by `new`. -/
def replaceAll (text old new : String) : String :=
  String.ofList (replaceChars old.toList new.toList [] text.toList)

/-- Texts put together with a separator between them. -/
def joined (separator : String) (texts : List String) : String :=
  String.intercalate separator texts

end Labyrinth.Text
