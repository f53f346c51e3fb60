import Labyrinth.Lexing.Pattern

/-!
# Matching

Where a pattern matches from a place in a text on. Alternatives are tried from left to right, and the first way
to match counts. A round of a repetition that goes nowhere is the last one.
-/

namespace Labyrinth.Lexing

/-- A place in a text, and the group that was closed last on the way there. -/
structure MatchPoint where
  /-- The character before the place. -/
  before : Option Char
  /-- The text after the place. -/
  rest : List Char
  lastGroup : Option Nat := none
deriving DecidableEq, Repr, Inhabited

/-- What is left to match after a pattern. -/
abbrev Then := MatchPoint → Option MatchPoint

namespace CharClass

def contains : CharClass → Char → Bool
  | digit, c => (Text.decimalValue? c).isSome
  | blank, c => Text.isBlank c
  | word, c => Text.isWordChar c

end CharClass

namespace SetItem

def covers : SetItem → Char → Bool
  | char d, c => c = d
  | range lo hi, c => lo ≤ c && c ≤ hi
  | cls kind negated, c => kind.contains c != negated

end SetItem

namespace Anchor

def holds (p : MatchPoint) : Anchor → Bool
  | start => p.before.isNone
  | stop => p.rest.isEmpty || p.rest == ['\n']
  | veryEnd => p.rest.isEmpty
  | wordEdge negated =>
    let isWord (c : Option Char) := c.any Text.isWordChar
    (isWord p.before != isWord p.rest.head?) != negated
  | notBefore c => p.rest.head? != some c
  | notAfter c => p.before != some c

end Anchor

/-- Tries rounds of a body, with `done` rounds behind. -/
def tryRounds (greed : Greed) (least : Nat) (most : Option Nat)
    (body : MatchPoint → Then → Option MatchPoint) : Nat → Nat → MatchPoint → Then → Option MatchPoint
  | 0, _, _, _ => none
  | fuel + 1, done, p, next =>
    if done < least then
      body p fun q => tryRounds greed least most body fuel (done + 1) q next
    else
      let another := fun (_ : Unit) =>
        if most.any (· ≤ done) then none
        else body p fun q =>
          if q.rest.length = p.rest.length then next q
          else tryRounds greed least most body fuel (done + 1) q next
      match greed with
      | .fewest => (next p).orElse another
      | _ => (another ()).orElse fun _ => next p

namespace Pattern

/-- The first way to match a pattern at a place such that the rest matches too. -/
def matchThen : Pattern → MatchPoint → Then → Option MatchPoint
  | .empty, p, next => next p
  | .any, p, next =>
    match p.rest with
    | [] => none
    | c :: rest => if c = '\n' then none else next { p with before := some c, rest }
  | .set negated items, p, next =>
    match p.rest with
    | [] => none
    | c :: rest =>
      if (items.any fun item => item.covers c) != negated then next { p with before := some c, rest }
      else none
  | .anchor a, p, next => if a.holds p then next p else none
  | .seq a b, p, next => a.matchThen p fun q => b.matchThen q next
  | .alt a b, p, next => (a.matchThen p next).orElse fun _ => b.matchThen p next
  | .group index body, p, next => body.matchThen p fun q => next { q with lastGroup := some index }
  | .rounds greed least most body, p, next =>
    let fuel := p.rest.length + least + 1
    match greed with
    | .onlyMost =>
      match tryRounds .most least most (fun q k => body.matchThen q k) fuel 0 p some with
      | some q => next q
      | none => none
    | greed => tryRounds greed least most (fun q k => body.matchThen q k) fuel 0 p next

/-- How far a pattern matches from a place on. -/
def matchFrom? (pattern : Pattern) (p : MatchPoint) : Option MatchPoint :=
  pattern.matchThen p some

/-- Whether a pattern matches without taking any characters from an empty text. -/
def matchesEmpty (pattern : Pattern) : Bool :=
  (pattern.matchFrom? ⟨none, [], none⟩).isSome

end Pattern

end Labyrinth.Lexing
