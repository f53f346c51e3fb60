import Labyrinth.Lexing.Lexer
import Labyrinth.Token.Scan

/-!
# The rules of the language

The lexer of the language has two states. In the regular one names, numbers, operators and comments are taken as they
are. Where none of them begins, the text is read again from there in the other state, in which the next word is mended
before the lexer goes back. What cannot be mended either ends the run.
-/

namespace Labyrinth.Rules

open Labyrinth.Lexing

/-- The spellings of the keywords with their names: a beginning of a keyword is one, unless it is in the table. -/
def spellings : List (String × String) :=
  let shorten (table : List (String × String)) (k : Keyword) : List (String × String) :=
    (List.range (k.word.length - 1)).foldl (fun table n =>
      let part := String.ofList (k.word.toList.take (n + 1))
      if (table.lookup part).isSome then setEntry part "" table
      else setEntry part ((table.lookup k.word).getD "") table) table
  (Keyword.all.foldl shorten (Keyword.all.map fun k => (k.word, k.name))).filter fun entry => !entry.2.isEmpty

/-! ### Patterns -/

def edge : Pattern := .anchor (.wordEdge false)

/-- Repetitions of a pattern, as many as there are. -/
def many (least : Nat) (body : Pattern) : Pattern := .rounds .most least none body

/-- Characters one after another. -/
def spelled : List Char → Pattern
  | [] => .empty
  | c :: rest => .seq (.char c) (spelled rest)

def nameFirst : List SetItem := [.range 'a' 'z', .char '_']
def nameRest : List SetItem := [.range 'a' 'z', .range '0' '9', .char '_']
def numberItems : List SetItem := [.range 'A' 'W', .range '0' '9', .char '_']
def mendable : List SetItem := [.range 'a' 'w', .range 'A' 'W', .range '0' '9', .char '_']

/-- `\b[a-z_][a-z0-9_]*\b` -/
def namePattern : Pattern :=
  .seq edge (.seq (.set false nameFirst) (.seq (many 0 (.set false nameRest)) edge))

/-- `\b(?!_)[A-W0-9_]+(?<!_)\b` -/
def numberPattern : Pattern :=
  .seq edge (.seq (.anchor (.notBefore '_')) (.seq (many 1 (.set false numberItems))
    (.seq (.anchor (.notAfter '_')) edge)))

/-- `\b[a-wA-W0-9_]+\b` -/
def mendablePattern : Pattern :=
  .seq edge (.seq (many 1 (.set false mendable)) edge)

/-- `\n+` -/
def feedPattern : Pattern := many 1 (.char '\n')

/-- `\#.*` -/
def commentPattern : Pattern := .seq (.char '#') (many 0 .any)

/-- The operators, one after another. -/
def operatorPattern : Pattern :=
  .ofAlternatives (operators.map fun op => spelled op.toList).reverse

/-! ### The lexer -/

def doing (name : String) (actions : List RuleAction) : Handler :=
  .function ⟨name, 1, 2, true, none, actions⟩

/-- The rules of a state, tried in their order. -/
def together (rules : List (Pattern × GroupRule)) : MasterRule :=
  { pattern := .ofAlternatives ((rules.zipIdx 1).map fun (rule, i) => .group i rule.1).reverse
    groups := none :: rules.map fun rule => some rule.2 }

def feedRule : Pattern × GroupRule := (feedPattern, ⟨doing "newline" [.countLines, .drop], some "newline"⟩)
def operatorRule : Pattern × GroupRule := (operatorPattern, ⟨.none, some "OP"⟩)
def commentRule : Pattern × GroupRule := (commentPattern, ⟨.none, some "COMMENT"⟩)

def regular : String := "INITIAL"

/-- The name of the state in which words are mended. -/
def mending : String := "INVALID"

/-- What applies in the regular state. -/
def regularRules : MasterRule :=
  together [(namePattern, ⟨doing "name" [.typeFrom spellings "NAME"], some "NAME"⟩), feedRule, operatorRule,
    (numberPattern, ⟨.none, some "NUMBER"⟩), commentRule]

/-- What applies where words are mended. -/
def mendingRules : MasterRule :=
  together [(mendablePattern, ⟨doing "word" [.mend, .enter regular], some "NAME_NUMBER"⟩), feedRule, operatorRule,
    commentRule]

def lexer : Lexer :=
  { rules := [(regular, [regularRules]), (mending, [mendingRules])]
    ignore := [(regular, " \t"), (mending, " \t")]
    errors := [(regular, doing "misfit" [.reread mending]), (mending, doing "illegal" [.refuse])]
    optimized := true }

/-- The lexer in a state at a place of a text. -/
def standing (state text : String) (position line : Int) : Scanning :=
  ⟨{ (lexer.inState? state).getD lexer with text := some text, position, line }, []⟩

/-! ### Tokens -/

/-- The kind that a type of tokens stands for. -/
def kindOf (type : String) : TokenKind :=
  ([TokenKind.name, .number, .comment] ++ Keyword.all.map TokenKind.keyword).find? (·.name? == some type) |>.getD .op

/-- What a token of the lexer becomes: it gets its columns and the text of its line. -/
def stepOf (table : Scan.LineTable) (t : LexToken) : ScanStep :=
  let text := t.value.printed
  let starts (line : Int) : Int := table.starts.getD (line - 1).toNat 0
  let stop := t.line + text.toList.count '\n'
  let column := t.position - starts t.line
  let stopColumn := if t.line = stop then column + text.length else t.position + text.length - starts stop
  ⟨⟨kindOf t.type, text, (t.line, column), (stop, stopColumn), table.lines.getD (t.line - 1).toNat ""⟩, t.complaint⟩

/-- All tokens that a lexer gives, at most `fuel` of them. The scan is illegal where the run is ended by a rule. -/
def scanning (table : Scan.LineTable) : Nat → Scanning → Option Scan
  | 0, _ => none
  | fuel + 1, s =>
    match Lexer.token.run s with
    | (.ok none, _) => some ⟨[], .complete⟩
    | (.ok (some t), s) => (scanning table fuel s).map (Scan.push (stepOf table t))
    | (.error (.exit _), s) =>
      let line := s.lexer.line.toNat
      some ⟨[], .illegal line (table.column line s.lexer.position.toNat) (table.text line)⟩
    | (.error (.fault _), _) => none

/-- All tokens that the lexer of the language gives for a text whose line breaks are all line feeds. -/
def scanned (text : String) : Option Scan :=
  scanning (.ofText text) (text.length + 1) (standing regular text 0 1)

end Labyrinth.Rules
