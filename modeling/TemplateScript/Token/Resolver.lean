import TemplateScript.Token.Basic

/-!
# Resolving operators

The lexer only delimits candidate lexemes; whether one is an operator, and which, is decided by a
`Resolver` that its caller supplies.  `Resolver.standard` is the resolver of the script language.
-/

namespace TemplateScript

/-- A candidate lexeme and the last token before it. -/
structure Query where
  lexeme : Bytes
  previous : Option Token
deriving DecidableEq, Repr

/-- A table of operators: what a candidate means, if anything. -/
abbrev Resolver := Query → Option Operator

/-- The token before the candidate can end an operand. -/
def Query.afterOperand (q : Query) : Bool :=
  q.previous.any (·.kind.endsOperand)

/-- The standard table.  After an operand `+`, `-` and `&` are binary and `[` is a subscript;
elsewhere the first three are unary and `[` is no operator. -/
def Resolver.standard : Resolver := fun q =>
  if q.lexeme = ascii "+" then some (if q.afterOperand then .add else .unaryPlus)
  else if q.lexeme = ascii "-" then some (if q.afterOperand then .sub else .unaryMinus)
  else if q.lexeme = ascii "&" then some (if q.afterOperand then .bitAnd else .reference)
  else if q.lexeme = ascii "[" then if q.afterOperand then some .subscript else none
  else Operator.ofLexeme? q.lexeme

end TemplateScript
