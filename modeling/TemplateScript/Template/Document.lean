import TemplateScript.Lexer.Basic
import TemplateScript.Template.Split

/-!
# Lexing a template

A document is cut into segments, and the script of each block is turned into tokens.  Spans and
lines are those of the whole document.  The first error of any block is the error of the document.
-/

namespace TemplateScript

/-- The lexer over the script of a segment. -/
def Lexer.ofSegment (document : Bytes) (segment : Segment) (options : Options) : Lexer :=
  { options
    cursor := .ofRange document segment.text.start segment.text.stop segment.startLine }

namespace Template

/-- A segment with its tokens. -/
inductive Block
  /-- Literal text. -/
  | raw (segment : Segment)
  /-- A block of script with its tokens. -/
  | code (segment : Segment) (tokens : Array Token)
deriving DecidableEq, Repr

namespace Block

/-- The segment of the block. -/
def segment : Block → Segment
  | raw segment => segment
  | code segment _ => segment

/-- The tokens of a block of script; literal text has none. -/
def tokens? : Block → Option (Array Token)
  | raw _ => none
  | code _ tokens => some tokens

/-- Lexes one segment. -/
def ofSegment (document : Bytes) (options : Options) (segment : Segment) :
    Except LexError Block :=
  match segment.kind with
  | .raw => .ok (.raw segment)
  | .code => ((Lexer.ofSegment document segment options).collect .standard).map (.code segment)

end Block

/-- The blocks of a document, or the first error. -/
def lex (document : Bytes) (options : Options) : Except LexError (List Block) :=
  (split document options).mapM (Block.ofSegment document options)

end Template

end TemplateScript
