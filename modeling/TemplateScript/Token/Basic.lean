import TemplateScript.Source.Line
import TemplateScript.Source.Span
import TemplateScript.Vocabulary.Keyword
import TemplateScript.Vocabulary.Operator

/-!
# Tokens

A token is a kind, the span of its text, the line it starts on and, where a keyword or an operator
was recognised, which one.  The text of a string literal is its body without the delimiters.
-/

namespace TemplateScript

/-- The kinds of token. -/
inductive Token.Kind
  | identifier
  | keyword (word : Keyword)
  | operatorWord (op : Operator)
  | integer | real
  | singleQuoted | doubleQuoted | backtick | heredoc | nowdoc
  | operator (op : Operator)
  | dollar | openCurly | closeCurly | openParen | closeParen | openBracket | closeBracket
  | comma | semicolon | colon | namespaceSeparator | arrayArrow
  | other
deriving DecidableEq, Repr

/-- The keyword or operator attached to a token. -/
inductive Token.Payload
  | keyword (word : Keyword)
  | operator (op : Operator)
deriving DecidableEq, Repr

/-- A token of a script. -/
structure Token where
  kind : Token.Kind
  text : Span
  line : Line
  payload : Option Token.Payload := none
deriving DecidableEq, Repr

namespace Token

/-- The literal kinds, whose text leaves the delimiters out. -/
def Kind.isString : Kind → Bool
  | .singleQuoted | .doubleQuoted | .backtick | .heredoc | .nowdoc => true
  | _ => false

/-- A token of this kind can end an operand, so that a `+`, `-`, `&` or `[` after it is read as a
binary or postfix operator. -/
def Kind.endsOperand : Kind → Bool
  | .identifier | .integer | .real | .closeParen | .closeBracket => true
  | kind => kind.isString

/-- The source bytes of the token. -/
def textIn (t : Token) (source : Bytes) : Bytes := t.text.slice source

/-- The operator attached to the token. -/
def operator? (t : Token) : Option Operator :=
  match t.payload with
  | some (.operator op) => some op
  | _ => none

end Token

end TemplateScript
