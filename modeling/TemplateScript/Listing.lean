import TemplateScript.Template.Segment
import TemplateScript.Token.Basic

/-!
# Listings

Plain text lists of segments and tokens, one line for each: the line number, a label and the source
bytes, escaped so that the line is printable.

* `Listing.escape` writes bytes; only a line of the list itself ends in a newline.
* `Listing.segments` and `Listing.tokens` are the two lists.
-/

namespace TemplateScript

namespace Listing

/-! ### Characters and columns -/

/-- A byte in print: a printable ASCII character stands for itself, except that quotes and
backslashes follow a backslash; tab, newline and carriage return have a letter, and any other byte
two hexadecimal digits. -/
def escapeByte (b : UInt8) : List Char :=
  if b = 0x09 then ['\\', 't']
  else if b = 0x0A then ['\\', 'n']
  else if b = 0x0D then ['\\', 'r']
  else if b = Byte.doubleQuote ∨ b = Byte.singleQuote ∨ b = Byte.backslash then
    ['\\', Char.ofNat b.toNat]
  else if 0x20 ≤ b ∧ b ≤ 0x7E then [Char.ofNat b.toNat]
  else ['\\', 'x', Nat.digitChar (b.toNat / 16), Nat.digitChar (b.toNat % 16)]

/-- Bytes in print. -/
def escape (bs : Bytes) : List Char := bs.flatMap escapeByte

/-- `text` at the right of a column of this width, or as it is when it is wider. -/
def alignRight (width : Nat) (text : List Char) : List Char :=
  List.replicate (width - text.length) ' ' ++ text

/-- `text` at the left of a column of this width, or as it is when it is wider. -/
def alignLeft (width : Nat) (text : List Char) : List Char :=
  text ++ List.replicate (width - text.length) ' '

/-- One line of a listing. -/
def row (line : Line) (width : Nat) (label : String) (text : List Char) : List Char :=
  alignRight 4 (Nat.toDigits 10 line.number) ++ [' '] ++ alignLeft width label.toList ++ [' '] ++
    text ++ ['\n']

end Listing

/-! ### Labels -/

/-- How a listing calls this kind of segment. -/
def Segment.Kind.label : Segment.Kind → String
  | .raw => "RAW"
  | .code => "CODE"

/-- How a listing calls this kind of token.  An operator shows its canonical spelling. -/
def Token.Kind.label : Token.Kind → String
  | .identifier => "Identifier"
  | .keyword word => "Keyword(" ++ word.name ++ ")"
  | .operatorWord op => "OperatorWord `" ++ op.spelling ++ "`"
  | .integer => "Integer"
  | .real => "Real"
  | .singleQuoted => "SingleQuotedString"
  | .doubleQuoted => "DoubleQuotedString"
  | .backtick => "BacktickString"
  | .heredoc => "Heredoc"
  | .nowdoc => "Nowdoc"
  | .operator op => "Operator `" ++ op.spelling ++ "`"
  | .dollar => "Dollar"
  | .openCurly => "OpenCurly"
  | .closeCurly => "CloseCurly"
  | .openParen => "OpenParen"
  | .closeParen => "CloseParen"
  | .openBracket => "OpenBracket"
  | .closeBracket => "CloseBracket"
  | .comma => "Comma"
  | .semicolon => "Semicolon"
  | .colon => "Colon"
  | .namespaceSeparator => "NamespaceSep"
  | .arrayArrow => "ArrayArrow"
  | .other => "Other"

namespace Listing

/-! ### The listings -/

/-- The line of a segment. -/
def segmentRow (document : Bytes) (s : Segment) : List Char :=
  row s.startLine 4 s.kind.label (escape (s.textIn document))

/-- The text of a token in print; a string body stands between quotes. -/
def tokenText (source : Bytes) (t : Token) : List Char :=
  let text := escape (t.textIn source)
  if t.kind.isString then ['"'] ++ text ++ ['"'] else text

/-- The line of a token. -/
def tokenRow (source : Bytes) (t : Token) : List Char :=
  row t.line 24 t.kind.label (tokenText source t)

/-- The listing of the segments of a document. -/
def segments (document : Bytes) (segments : List Segment) : String :=
  String.ofList (segments.flatMap (segmentRow document))

/-- The listing of the tokens of a source. -/
def tokens (source : Bytes) (tokens : List Token) : String :=
  String.ofList (tokens.flatMap (tokenRow source))

end Listing

end TemplateScript
