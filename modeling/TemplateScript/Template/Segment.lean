import TemplateScript.Source.Line
import TemplateScript.Source.Span

/-!
# Segments of a template

A template document is a sequence of segments: literal text and blocks of script.
-/

namespace TemplateScript

/-- What a segment holds. -/
inductive Segment.Kind
  /-- Literal text. -/
  | raw
  /-- A block of script. -/
  | code
deriving DecidableEq, Repr

/-- A piece of a template document.  `span` is the whole segment, so the spans of all segments tile
the document; `text` is its content, which for a block leaves out the tags and the white space
around the script.  `startLine` is the line on which the text starts. -/
structure Segment where
  kind : Segment.Kind
  span : Span
  text : Span
  startLine : Line
deriving DecidableEq, Repr

namespace Segment

/-- The segment is a block of script. -/
def isCode (s : Segment) : Bool := s.kind == .code

/-- The content of the segment. -/
def textIn (s : Segment) (document : Bytes) : Bytes := s.text.slice document

end Segment

end TemplateScript
