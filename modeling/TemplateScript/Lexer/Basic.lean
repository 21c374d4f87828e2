import TemplateScript.Lexeme.Ahead
import TemplateScript.Lexer.Error
import TemplateScript.Lexer.Reading
import TemplateScript.Source.Cursor

/-!
# The lexer

A lexer is a cursor, the options, the two most recent tokens and whether it has come to its end.

* `Lexer.step` takes one step: an edit of the token list, or an error.  It can be taken again after
  an error, from wherever the cursor then stands.
* `Lexer.next` takes a step and stops for good at the first error or at the end of the input.
* `Lexer.collect` takes all steps and applies them; `tokenize` does so for a whole text.

The operator table is an argument of each step, so it can be exchanged between steps.
-/

namespace TemplateScript

/-- The state of a lexer. -/
structure Lexer where
  options : Options
  cursor : Cursor
  lookback : Lookback := {}
  finished : Bool := false
deriving DecidableEq

/-- What a step answers, the question it put to the operator table, and the lexer after it. -/
structure Lexer.Turn (Answer : Type) where
  answer : Answer
  query : Option Query
  lexer : Lexer

namespace Lexer

/-- The lexer at the start of `source`. -/
def start (source : Bytes) (options : Options) : Lexer :=
  { options, cursor := .start source options.startLine }

/-- The offset of the lexer. -/
def offset (l : Lexer) : Nat := l.cursor.offset

/-- The line of the lexer. -/
def line (l : Lexer) : Line := l.cursor.line

/-- The next edit of the token list, or why there is none. -/
def step (l : Lexer) (resolve : Resolver) : Turn (Except LexError Edit) :=
  let ahead := Ahead.of l.options l.cursor.rest
  let here := l.cursor.advanceBy ahead.skipped
  let there := here.advanceBy ahead.found.length
  match ahead.found with
  | .endOfInput => ⟨.error ⟨.endOfInput, here.offset, here.line⟩, none, { l with cursor := there }⟩
  | .fault cause _ =>
    ⟨.error ⟨.fault cause, here.offset, here.line⟩, none, { l with cursor := there }⟩
  | .lexeme found =>
    let reading := found.read l.lookback here.offset here.line
    let edit := reading.settle resolve
    ⟨.ok edit, reading.query?, { l with cursor := there, lookback := l.lookback.push edit }⟩

/-- The next edit or the error that ends the sequence; nothing at the end of the input and ever
after. -/
def next (l : Lexer) (resolve : Resolver) : Turn (Option (Except LexError Edit)) :=
  if l.finished then ⟨none, none, l⟩
  else
    let turn := l.step resolve
    match turn.answer with
    | .ok edit => ⟨some (.ok edit), turn.query, turn.lexer⟩
    | .error e =>
      ⟨if e.isEndOfInput then none else some (.error e), turn.query,
        { turn.lexer with finished := true }⟩

/-- An edit was found in less than all that was ahead. -/
theorem length_rest_step {l : Lexer} {resolve : Resolver} {edit : Edit}
    (h : (l.step resolve).answer = .ok edit) :
    (l.step resolve).lexer.cursor.rest.length < l.cursor.rest.length := by
  have ha := (Ahead.length_of l.options l.cursor.rest).2
  unfold step at h ⊢
  generalize Ahead.of l.options l.cursor.rest = ahead at h ha ⊢
  obtain ⟨skipped, found⟩ := ahead
  cases found with
  | endOfInput => cases h
  | fault cause length => cases h
  | lexeme found =>
    have ⟨h₁, h₂⟩ := ha nofun
    show ((l.cursor.rest.drop skipped).drop found.length).length < _
    simp only [Ahead.Found.length] at h₁ h₂
    simp only [List.length_drop]
    omega

theorem length_rest_next {l : Lexer} {resolve : Resolver} {edit : Edit}
    (h : (l.next resolve).answer = some (.ok edit)) :
    (l.next resolve).lexer.cursor.rest.length < l.cursor.rest.length := by
  unfold next at h ⊢
  split at h
  · cases h
  · next hf =>
    rw [if_neg hf]
    simp only [] at h ⊢
    split at h
    · next edit he => exact length_rest_step he
    · simp only [] at h
      split at h <;> cases h

/-- Applies all further edits to `tokens`. -/
def collectFrom (l : Lexer) (resolve : Resolver) (tokens : Array Token) :
    Except LexError (Array Token) :=
  match _h : l.next resolve with
  | ⟨none, _, _⟩ => .ok tokens
  | ⟨some (.error e), _, _⟩ => .error e
  | ⟨some (.ok edit), _, further⟩ => further.collectFrom resolve (edit.apply tokens)
termination_by l.cursor.rest.length
decreasing_by
  have h : (l.next resolve).answer = some (.ok edit) := by rw [_h]
  simpa only [_h] using length_rest_next h

/-- Applying all further edits is applying the next one and then the rest. -/
theorem collectFrom_eq (l : Lexer) (resolve : Resolver) (tokens : Array Token) :
    l.collectFrom resolve tokens =
      match (l.next resolve).answer with
      | none => .ok tokens
      | some (.error e) => .error e
      | some (.ok edit) => (l.next resolve).lexer.collectFrom resolve (edit.apply tokens) := by
  rw [collectFrom]
  split <;> next h => simp only [h]

/-- The tokens of all further steps, or the error that ends them. -/
def collect (l : Lexer) (resolve : Resolver) : Except LexError (Array Token) :=
  l.collectFrom resolve #[]

end Lexer

/-- The tokens of a script, with an operator table. -/
def tokenizeWith (resolve : Resolver) (source : Bytes) (options : Options) :
    Except LexError (Array Token) :=
  (Lexer.start source options).collect resolve

/-- The tokens of a script, with the standard operator table. -/
def tokenize (source : Bytes) (options : Options) : Except LexError (Array Token) :=
  tokenizeWith .standard source options

end TemplateScript
