import TemplateScript.Proofs.Lines
import TemplateScript.Proofs.Bytes
import TemplateScript.Template.Split

/-!
# What segments are made of

* `Template.segments_induction` — what holds of the segments from a cursor on, by the tags that are
  found one after the other;
* `Template.Cut` — a segment is a piece of literal text, or the block at an opening tag, and
  `Template.cut_of_mem_split` says so of every segment of a document;
* `Template.exists_closeTag` — at the offset that is found stands a closing tag.
-/

namespace TemplateScript.Template

variable {rule : DelimiterRule} {c : Cursor} {bs : Bytes}

/-! ### The closing tag -/

/-- An item takes at least one byte and no more than there are. -/
theorem length_item (rule : DelimiterRule) (first : UInt8) (tail : Bytes) :
    0 < itemLength rule first tail ∧ itemLength rule first tail ≤ tail.length + 1 := by
  rw [itemLength]
  split
  · next found hfound => exact Comment.length_of_scan? hfound
  · split
    · exact ⟨Quoted.length_pos first tail, Quoted.length_le first tail⟩
    · split
      · next hmarks =>
        have hhidden := Heredoc.hiddenLength_le rule (tail.drop 2)
        have hle := (List.isPrefixOf_iff_prefix.mp hmarks).length_le
        have hthree : (ascii "<<<").length = 3 := rfl
        rw [hthree, List.length_cons] at hle
        rw [List.length_drop] at hhidden
        omega
      · omega

theorem closeTag?_nil : closeTag? rule [] = none := by
  rw [closeTag?, closeTagFrom?]

theorem closeTag?_of_close (rest : Bytes) : closeTag? rule (ascii "?>" ++ rest) = some 0 := by
  show closeTagFrom? rule 0 (Byte.question :: Byte.greater :: rest) = some 0
  rw [closeTagFrom?, if_pos ⟨rfl, rfl⟩]

/-- Where no closing tag stands, the search goes on behind the item. -/
theorem closeTag?_of_item {first : UInt8} {tail : Bytes}
    (h : ¬ (first = Byte.question ∧ tail.head? = some Byte.greater)) :
    closeTag? rule (first :: tail) =
      (closeTag? rule (tail.drop (itemLength rule first tail - 1))).map
        (itemLength rule first tail + ·) := by
  rw [closeTag?, closeTagFrom?, if_neg h]
  show closeTagFrom? rule (0 + itemLength rule first tail) _ = _
  rw [Nat.zero_add, closeTagFrom?_eq]

/-- A closing tag stands at the offset that is found. -/
theorem exists_closeTag {n : Nat} (h : closeTag? rule bs = some n) :
    ∃ script rest, bs = script ++ (ascii "?>" ++ rest) ∧ script.length = n := by
  induction hlen : bs.length using Nat.strongRecOn generalizing bs n with
  | ind length ih =>
    cases bs with
    | nil => rw [closeTag?_nil] at h; cases h
    | cons first tail =>
      by_cases hclose : first = Byte.question ∧ tail.head? = some Byte.greater
      · obtain ⟨rfl, hgreater⟩ := hclose
        obtain ⟨rest, rfl⟩ := List.head?_eq_some_iff.mp hgreater
        have hzero : closeTag? rule (Byte.question :: Byte.greater :: rest) = some 0 :=
          closeTag?_of_close rest
        rw [hzero] at h
        cases h
        exact ⟨[], rest, rfl, rfl⟩
      · rw [closeTag?_of_item hclose] at h
        obtain ⟨hpos, hle⟩ := length_item rule first tail
        generalize itemLength rule first tail = item at h hpos hle
        obtain ⟨m, hm, rfl⟩ := Option.map_eq_some_iff.mp h
        rw [List.length_cons] at hlen
        obtain ⟨script, rest, hdrop, hscript⟩ := ih _ (by rw [List.length_drop]; omega) hm rfl
        refine ⟨first :: (tail.take (item - 1) ++ script), rest, ?_, ?_⟩
        · rw [List.cons_append, List.append_assoc, ← hdrop, List.take_append_drop]
        · rw [List.length_cons, List.length_append, List.length_take, hscript]
          omega

/-! ### Segments by the tags that are found -/

/-- What holds without a further tag, and at a tag when it holds behind its block, holds of all
segments from a cursor on. -/
theorem segments_induction (rule : DelimiterRule) {motive : Cursor → List Segment → Prop}
    (none : ∀ c, Bytes.findPair? Byte.less Byte.question c.rest = none →
      motive c (literal c c.remaining))
    (some : ∀ c length, Bytes.findPair? Byte.less Byte.question c.rest = some length →
      motive (closeBlock rule (openBlock (c.advanceBy length)))
        (segmentsFrom rule (closeBlock rule (openBlock (c.advanceBy length)))) →
      motive c (literal c length ++ block rule (c.advanceBy length) ::
        segmentsFrom rule (closeBlock rule (openBlock (c.advanceBy length)))))
    (c : Cursor) : motive c (segmentsFrom rule c) := by
  induction hlen : c.rest.length using Nat.strongRecOn generalizing c with
  | ind n ih =>
    cases hfind : Bytes.findPair? Byte.less Byte.question c.rest with
    | none =>
      rw [segmentsFrom_of_none rule hfind]
      exact none c hfind
    | some length =>
      rw [segmentsFrom_of_some rule hfind]
      have hlt := Bytes.findPair?_lt hfind
      have htag : (c.advanceBy length).rest.length = c.rest.length - length := List.length_drop
      have hless := length_rest_closeBlock_openBlock rule (c := c.advanceBy length) (by omega)
      exact some c length hfind (ih _ (by omega) _ rfl)

/-- A segment of `document` is a piece of its literal text, with no opening tag in it, or the
block at an opening tag. -/
inductive Cut (rule : DelimiterRule) (document : Bytes) (line : Line) : Segment → Prop
  | literal {c : Cursor} {length : Nat} (source : c.source = document) (counts : c.Counts 0 line)
      (pos : 0 < length) (le : length ≤ c.rest.length)
      (free : ¬ ascii "<?" <:+: c.rest.take length) :
      Cut rule document line ⟨.raw, ⟨c.offset, length⟩, ⟨c.offset, length⟩, c.line⟩
  | block {tag : Cursor} (source : tag.source = document) (counts : tag.Counts 0 line)
      (opens : ascii "<?" <+: tag.rest) : Cut rule document line (block rule tag)

theorem cut_of_mem_literal {line : Line} {length : Nat} (counts : c.Counts 0 line)
    (le : length ≤ c.rest.length) (free : ¬ ascii "<?" <:+: c.rest.take length) {s : Segment}
    (hs : s ∈ literal c length) : Cut rule c.source line s := by
  rw [literal] at hs
  split at hs
  · cases hs
  · next hzero =>
    obtain rfl := List.mem_singleton.mp hs
    exact .literal rfl counts (Nat.pos_of_ne_zero hzero) le free

theorem cut_of_mem_segmentsFrom {line : Line} (counts : c.Counts 0 line) :
    ∀ s ∈ segmentsFrom rule c, Cut rule c.source line s := by
  refine segments_induction rule
    (motive := fun c segments => c.Counts 0 line → ∀ s ∈ segments, Cut rule c.source line s)
    ?_ ?_ c counts
  · intro c hfind counts s hs
    refine cut_of_mem_literal counts (Nat.le_refl _) ?_ hs
    show ¬ ascii "<?" <:+: c.rest.take c.rest.length
    rw [List.take_length]
    exact Bytes.findPair?_eq_none hfind
  · intro c length hfind ih counts s hs
    obtain ⟨text, rest, hrest, rfl, hfree⟩ := Bytes.exists_findPair hfind
    have hdrop : c.rest.drop text.length = Byte.less :: Byte.question :: rest := by
      rw [hrest, List.drop_append_length]
    rcases List.mem_append.mp hs with hs | hs
    · refine cut_of_mem_literal counts ?_ ?_ hs
      · rw [hrest, List.length_append]
        exact Nat.le_add_right _ _
      · rw [hrest, List.take_append_length]
        exact hfree
    · rcases List.mem_cons.mp hs with rfl | hs
      · exact .block rfl (counts.advanceBy _) ⟨rest, hdrop.symm⟩
      · exact ih (((counts.advanceBy _).advanceBy _).advanceBy _ |>.advanceBy _) s hs

/-- Every segment of a document is cut out of it like that. -/
theorem cut_of_mem_split {document : Bytes} {options : Options} {s : Segment}
    (h : s ∈ split document options) :
    Cut options.delimiters document options.startLine s :=
  cut_of_mem_segmentsFrom (Cursor.counts_start document options.startLine) s h

end TemplateScript.Template
