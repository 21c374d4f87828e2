import TemplateScript.Lexeme.Basic

/-!
# Lexing errors

An error is a cause and the place of the construct that failed.  The end of the input is reported
in the same way, though it is not a failure.
-/

namespace TemplateScript

/-- Why there is no next token. -/
inductive LexError.Cause
  /-- A construct breaks a rule. -/
  | fault (cause : Fault)
  /-- The input is used up. -/
  | endOfInput
deriving DecidableEq, Repr

/-- Why there is no next token, and the offset and line of the construct concerned. -/
structure LexError where
  cause : LexError.Cause
  offset : Nat
  line : Line
deriving DecidableEq, Repr

/-- The wording of a fault. -/
def Fault.message : Fault → String
  | .unterminatedString => "unterminated string"
  | .unterminatedComment => "unterminated comment"
  | .invalidHeredocDelimiter => "invalid heredoc delimiter"

namespace LexError

/-- The wording of a cause. -/
def Cause.message : Cause → String
  | .fault cause => cause.message
  | .endOfInput => "end of input"

/-- The wording of an error. -/
def message (e : LexError) : String :=
  e.cause.message ++ " at line " ++ toString e.line.number ++ ", offset " ++ toString e.offset

/-- The error only says that the input is used up. -/
def isEndOfInput (e : LexError) : Bool := e.cause == .endOfInput

end LexError

end TemplateScript
