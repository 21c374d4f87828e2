import TemplateScript.Lexeme.Comment
import TemplateScript.Lexeme.Heredoc
import TemplateScript.Lexeme.Quoted
import TemplateScript.Source.Cursor
import TemplateScript.Template.Segment

/-!
# Cutting a template into segments

A block of script opens with `<?`, or with `<?php` in any mixture of cases, and closes with `?>` or
with the document.  A `?>` inside a comment, a quoted string or a heredoc does not close it.

* `Template.closeTag?` finds the closing tag of a block.
* `Template.split` cuts a document into segments.
-/

namespace TemplateScript.Template

/-! ### The closing tag -/

/-- The number of bytes at `first` that are passed as a whole in search of a closing tag: a
comment, a quoted string, a heredoc, or that byte alone. -/
def itemLength (rule : DelimiterRule) (first : UInt8) (tail : Bytes) : Nat :=
  match Comment.scan? first tail with
  | some comment => comment.length
  | none =>
    if Byte.isQuote first then Quoted.length first tail
    else if (ascii "<<<").isPrefixOf (first :: tail) then
      3 + Heredoc.hiddenLength rule (tail.drop 2)
    else 1

/-- The offset of the first closing tag that no item hides, counted from `offset`. -/
def closeTagFrom? (rule : DelimiterRule) (offset : Nat) : Bytes → Option Nat
  | [] => none
  | first :: tail =>
    if first = Byte.question ∧ tail.head? = some Byte.greater then some offset
    else
      let length := itemLength rule first tail
      closeTagFrom? rule (offset + length) (tail.drop (length - 1))
termination_by bs => bs.length
decreasing_by
  simp only [List.length_drop, List.length_cons]
  omega

/-- The offset of the first closing tag in a script that no comment, string or heredoc hides. -/
def closeTag? (rule : DelimiterRule) (bs : Bytes) : Option Nat := closeTagFrom? rule 0 bs

/-- Where the count starts only shifts the answer. -/
theorem closeTagFrom?_eq (rule : DelimiterRule) (offset : Nat) (bs : Bytes) :
    closeTagFrom? rule offset bs = (closeTag? rule bs).map (offset + ·) := by
  unfold closeTag?
  suffices h : ∀ m n, closeTagFrom? rule (m + n) bs = (closeTagFrom? rule n bs).map (m + ·) from
    h offset 0
  intro m n
  fun_induction closeTagFrom? rule n bs with
  | case1 n => simp only [closeTagFrom?, Option.map_none]
  | case2 n first tail hc => simp only [closeTagFrom?, hc, and_self, if_true, Option.map_some]
  | case3 n first tail hc length ih =>
    rw [closeTagFrom?, if_neg hc, ← ih, ← Nat.add_assoc]

/-! ### Segments -/

/-- The length of the opening tag at the start of `bs`: `<?` and an optional `php`. -/
def openTagLength (bs : Bytes) : Nat :=
  if ((bs.drop 2).take 3).map Byte.toLower = ascii "php" then 5 else 2

/-- The literal text of the next `length` bytes: one segment, or none when there is no text. -/
def literal (c : Cursor) (length : Nat) : List Segment :=
  if length = 0 then []
  else
    let span : Span := ⟨c.offset, length⟩
    [{ kind := .raw, span, text := span, startLine := c.line }]

/-- The cursor at the first byte of a script whose opening tag stands at `c`. -/
def openBlock (c : Cursor) : Cursor :=
  (c.advanceBy (openTagLength c.rest)).skipWhile Byte.isSpace

/-- The number of bytes of script at the cursor, up to the closing tag. -/
def scriptLength (rule : DelimiterRule) (c : Cursor) : Nat :=
  (closeTag? rule c.rest).getD c.remaining

/-- The cursor right after the script at `c` and its closing tag. -/
def closeBlock (rule : DelimiterRule) (c : Cursor) : Cursor :=
  c.advanceBy (scriptLength rule c + 2)

/-- The block whose opening tag stands at `c`. -/
def block (rule : DelimiterRule) (c : Cursor) : Segment :=
  let script := openBlock c
  { kind := .code
    span := .between c.offset (closeBlock rule script).offset
    text := ⟨script.offset, Bytes.trimmedLength (script.rest.take (scriptLength rule script))⟩
    startLine := script.line }

theorem two_le_openTagLength (bs : Bytes) : 2 ≤ openTagLength bs := by
  unfold openTagLength
  split <;> decide

theorem length_rest_closeBlock_openBlock (rule : DelimiterRule) {c : Cursor}
    (h : 0 < c.rest.length) :
    (closeBlock rule (openBlock c)).rest.length < c.rest.length := by
  have := two_le_openTagLength c.rest
  simp only [closeBlock, openBlock, Cursor.skipWhile, Cursor.rest_advanceBy, List.length_drop]
  omega

/-- The segments from the cursor on. -/
def segmentsFrom (rule : DelimiterRule) (c : Cursor) : List Segment :=
  match _h : Bytes.findPair? Byte.less Byte.question c.rest with
  | none => literal c c.remaining
  | some length =>
    let tag := c.advanceBy length
    literal c length ++ block rule tag :: segmentsFrom rule (closeBlock rule (openBlock tag))
termination_by c.rest.length
decreasing_by
  have hlt := Bytes.findPair?_lt _h
  have htag : (c.advanceBy length).rest.length = c.rest.length - length := List.length_drop
  have := length_rest_closeBlock_openBlock rule (c := c.advanceBy length) (by omega)
  omega

/-- Without a further opening tag, what is left is literal text. -/
theorem segmentsFrom_of_none (rule : DelimiterRule) {c : Cursor}
    (h : Bytes.findPair? Byte.less Byte.question c.rest = none) :
    segmentsFrom rule c = literal c c.remaining := by
  rw [segmentsFrom]
  split <;> simp_all

/-- Up to the next opening tag stands literal text; a block follows. -/
theorem segmentsFrom_of_some (rule : DelimiterRule) {c : Cursor} {length : Nat}
    (h : Bytes.findPair? Byte.less Byte.question c.rest = some length) :
    segmentsFrom rule c =
      literal c length ++ block rule (c.advanceBy length) ::
        segmentsFrom rule (closeBlock rule (openBlock (c.advanceBy length))) := by
  rw [segmentsFrom]
  split <;> simp_all

/-- The segments of a document. -/
def split (document : Bytes) (options : Options) : List Segment :=
  segmentsFrom options.delimiters (.start document options.startLine)

end TemplateScript.Template
