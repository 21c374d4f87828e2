import TemplateScript.Token.Basic

/-!
# Lexemes

A lexeme is the extent of one token before its operator reading is looked up.  Its form and its
spans depend only on the bytes ahead and on the options: positions are counted from the first byte
of the lexeme, and no operator table is asked.

* `Lexeme.Form` says how the lexeme becomes a token.
* `Construct` is what stands at a byte that is not white space: a comment, a lexeme, or a construct
  that breaks a rule (`Fault`).
-/

namespace TemplateScript

/-- What can be wrong with a construct of a script. -/
inductive Fault
  /-- A quoted string or a heredoc is never closed. -/
  | unterminatedString
  /-- A block comment is never closed. -/
  | unterminatedComment
  /-- A heredoc opener has a quote or a delimiter but no proper end of line. -/
  | invalidHeredocDelimiter
deriving DecidableEq, Repr

/-- How a lexeme becomes a token. -/
inductive Lexeme.Form
  /-- The lexeme has this kind whatever surrounds it. -/
  | fixed (kind : Token.Kind)
  /-- The lexeme has this kind; its operator reading, if any, is attached. -/
  | annotated (kind : Token.Kind) (spelling : Bytes)
  /-- A word: reserved or an identifier. -/
  | word (spelling : Bytes)
  /-- A symbol to be looked up among the operators under this spelling. -/
  | symbol (spelling : Bytes)
  /-- A closing parenthesis, which may complete a cast. -/
  | closeParen
deriving DecidableEq, Repr

/-- The extent of one token.  `text` is counted from the first byte of the lexeme, and `length`
counts all bytes of the lexeme, delimiters included. -/
structure Lexeme where
  form : Lexeme.Form
  text : Span
  length : Nat
deriving DecidableEq, Repr

/-- The lexeme whose text is all of its `length` bytes. -/
def Lexeme.whole (form : Lexeme.Form) (length : Nat) : Lexeme := ⟨form, ⟨0, length⟩, length⟩

/-- What stands at a byte that is not white space. -/
inductive Construct
  /-- A comment of this length. -/
  | comment (length : Nat)
  /-- A construct with a fault, noticed after this many bytes. -/
  | fault (cause : Fault) (length : Nat)
  /-- A lexeme. -/
  | lexeme (found : Lexeme)
deriving DecidableEq, Repr

/-- The number of bytes that the construct takes. -/
def Construct.length : Construct → Nat
  | comment length => length
  | fault _ length => length
  | lexeme found => found.length

end TemplateScript
