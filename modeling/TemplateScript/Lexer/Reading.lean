import TemplateScript.Lexeme.Basic
import TemplateScript.Token.Edit
import TemplateScript.Token.Resolver
import TemplateScript.Vocabulary.ReservedWord

/-!
# Reading a lexeme as a token

A lexeme becomes an edit of the token list in the light of the two tokens before it.  Either the
edit is settled at once, or one question to the operator table settles it (`Reading`).  The
question is part of the value, so a caller can see what was asked.
-/

namespace TemplateScript

/-- The two most recent tokens. -/
structure Lookback where
  older : Option Token := none
  latest : Option Token := none
deriving DecidableEq, Repr

namespace Lookback

/-- The most recent tokens after an edit.  Behind a merged token nothing is remembered, for the
tokens it replaced are gone. -/
def push (l : Lookback) : Edit → Lookback
  | .emit token => ⟨l.latest, some token⟩
  | .replaceLast _ token => ⟨none, some token⟩

/-- The opening parenthesis and the cast, if the most recent tokens are `(` and a keyword that a
closing parenthesis makes a cast. -/
def openCast? (l : Lookback) : Option (Token × Operator) :=
  match l.older, l.latest with
  | some opening, some word =>
    match word.kind with
    | .keyword keyword =>
      if opening.kind = .openParen then keyword.cast?.map fun cast => (opening, cast) else none
    | _ => none
  | _, _ => none

end Lookback

/-- How a lexeme becomes an edit: settled, or by the answer to one question. -/
inductive Reading
  | settled (edit : Edit)
  | asks (query : Query) (edit : Option Operator → Edit)

namespace Reading

/-- The question that is asked, if one is. -/
def query? : Reading → Option Query
  | settled _ => none
  | asks query _ => some query

/-- The edit, with the answers of an operator table. -/
def settle (resolve : Resolver) : Reading → Edit
  | settled edit => edit
  | asks query edit => edit (resolve query)

end Reading

/-- The token of this kind that stands for an operator. -/
def Token.ofOperator (kind : Token.Kind) (text : Span) (line : Line) (op : Operator) : Token :=
  { kind, text, line, payload := some (.operator op) }

/-- Reads a lexeme that begins at `offset` and `line`, after the tokens of `lookback`. -/
def Lexeme.read (lexeme : Lexeme) (lookback : Lookback) (offset : Nat) (line : Line) : Reading :=
  let text := lexeme.text.shift offset
  let plain (kind : Token.Kind) : Token := { kind, text, line }
  match lexeme.form with
  | .fixed kind => .settled (.emit (plain kind))
  | .annotated kind spelling =>
    .asks ⟨spelling, lookback.latest⟩ fun
      | some op => .emit (.ofOperator kind text line op)
      | none => .emit (plain kind)
  | .word spelling =>
    match ReservedWord.ofBytes? spelling with
    | some (.keyword word) =>
      .settled (.emit { kind := .keyword word, text, line, payload := some (.keyword word) })
    | some (.operator _) =>
      .asks ⟨spelling, lookback.latest⟩ fun
        | some op => .emit (.ofOperator (.operatorWord op) text line op)
        | none => .emit (plain .identifier)
    | none => .settled (.emit (plain .identifier))
  | .symbol spelling =>
    .asks ⟨spelling, lookback.latest⟩ fun
      | some op => .emit (.ofOperator (.operator op) text line op)
      | none => .emit (plain .other)
  | .closeParen =>
    match lookback.openCast? with
    | some (opening, cast) =>
      .asks ⟨cast.lexeme, none⟩ fun
        | some op =>
          .replaceLast 2
            (.ofOperator (.operator op) (.between opening.text.start text.stop) opening.line op)
        | none => .emit (plain .closeParen)
    | none => .settled (.emit (plain .closeParen))

end TemplateScript
