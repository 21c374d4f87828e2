import Mathlib.Data.List.Chain
import TemplateScript.Proofs.Template.Parts

/-!
# Segments tile a document

* `Template.Tiles start stop segments` — no span is empty, each starts where the one before it
  stops, and together they reach from `start` to `stop`;
* `Template.IsLiteral` and `Template.IsBlock` — what the bytes of a segment look like;
* `Template.tiles_segmentsFrom` — the segments from a cursor on tile what is left of its text;
* `Template.split_tiles` — the segments of a document tile it, literal texts do not meet, each
  segment looks as its kind says, and its line counts the newlines before its text.
-/

namespace TemplateScript.Template

variable {rule : DelimiterRule} {document : Bytes} {line : Line} {c : Cursor} {s : Segment}

/-! ### Spans -/

/-- The spans are not empty and follow each other without a gap from `start` to `stop`. -/
inductive Tiles (stop : Nat) : Nat → List Segment → Prop
  | nil : Tiles stop stop []
  | cons {s : Segment} {segments : List Segment} (pos : 0 < s.span.length)
      (further : Tiles stop s.span.stop segments) : Tiles stop s.span.start (s :: segments)

theorem tiles_literal {stop length : Nat} {segments : List Segment}
    (h : Tiles stop (c.offset + length) segments) :
    Tiles stop c.offset (literal c length ++ segments) := by
  rw [literal]
  split
  · next hzero =>
    rw [hzero] at h
    exact h
  · next hzero => exact .cons (s := ⟨.raw, ⟨c.offset, length⟩, _, _⟩) (Nat.pos_of_ne_zero hzero) h

theorem length_source (c : Cursor) : c.source.length = c.offset + c.rest.length := by
  have := c.offset_le
  rw [c.length_rest]
  omega

/-- The segments from a cursor on tile what is left of its text. -/
theorem tiles_segmentsFrom (rule : DelimiterRule) (c : Cursor) :
    Tiles c.source.length c.offset (segmentsFrom rule c) := by
  refine segments_induction rule
    (motive := fun c segments => Tiles c.source.length c.offset segments) ?_ ?_ c
  · intro c _
    have h : Tiles c.source.length (c.offset + c.remaining) [] := by
      rw [length_source]
      exact .nil
    rw [← List.append_nil (literal c c.remaining)]
    exact tiles_literal h
  · intro c length hfind ih
    obtain ⟨text, rest, hrest, rfl, -⟩ := Bytes.exists_findPair hfind
    have hdrop : (c.advanceBy text.length).rest = Byte.less :: Byte.question :: rest := by
      rw [Cursor.rest_advanceBy, hrest, List.drop_append_length]
    have hoffset : (c.advanceBy text.length).offset = c.offset + text.length := by
      refine Cursor.offset_advanceBy_of_le ?_
      rw [hrest, List.length_append]
      exact Nat.le_add_right _ _
    obtain ⟨parts, hblock⟩ := exists_parts rule
      (show ascii "<?" <+: (c.advanceBy text.length).rest from ⟨rest, hdrop.symm⟩)
    have hspan := congrArg Segment.span hblock
    have hstop : (block rule (c.advanceBy text.length)).span.stop =
        (closeBlock rule (openBlock (c.advanceBy text.length))).offset := by
      refine Span.stop_between ?_
      exact Nat.le_trans (Nat.le_trans (Nat.le_add_right _ _) (Nat.le_add_right _ _))
        (Nat.le_add_right _ _)
    refine tiles_literal ?_
    rw [← hoffset]
    refine .cons (s := block rule (c.advanceBy text.length)) ?_ ?_
    · rw [hspan]
      exact parts.length_whole_pos
    · rw [hstop]
      exact ih

theorem Tiles.eq_nil_iff {start stop : Nat} {segments : List Segment}
    (h : Tiles stop start segments) : segments = [] ↔ start = stop := by
  have hle : ∀ {start segments}, Tiles stop start segments → start ≤ stop := by
    intro start segments h
    induction h with
    | nil => exact Nat.le_refl _
    | @cons s _ _ _ ih => exact Nat.le_trans (Nat.le_add_right s.span.start s.span.length) ih
  cases h with
  | nil => exact ⟨fun _ => rfl, fun _ => rfl⟩
  | @cons s segments pos further =>
    refine ⟨fun h => absurd h (List.cons_ne_nil _ _), fun h => ?_⟩
    have : s.span.start + s.span.length ≤ stop := hle further
    omega

/-! ### Kinds -/

/-- Two pieces of literal text do not meet. -/
theorem isChain_segmentsFrom (rule : DelimiterRule) (c : Cursor) :
    (segmentsFrom rule c).IsChain fun s t => ¬ (s.kind = .raw ∧ t.kind = .raw) := by
  refine segments_induction rule
    (motive := fun _ segments => segments.IsChain fun s t => ¬ (s.kind = .raw ∧ t.kind = .raw))
    ?_ ?_ c
  · intro c _
    rw [literal]
    split
    · exact .nil
    · exact .singleton _
  · intro c length _ ih
    -- a block stands between the literal text and what follows
    have hblock : (block rule (c.advanceBy length) ::
        segmentsFrom rule (closeBlock rule (openBlock (c.advanceBy length)))).IsChain
          fun s t => ¬ (s.kind = .raw ∧ t.kind = .raw) := by
      refine List.isChain_cons.mpr ⟨fun t _ h => ?_, ih⟩
      cases h.1
    rw [literal]
    split
    · exact hblock
    · refine List.isChain_cons.mpr ⟨fun t ht h => ?_, hblock⟩
      obtain rfl := Option.some.inj ht
      cases h.2

/-- Literal text is its own text and holds no opening tag. -/
structure IsLiteral (document : Bytes) (s : Segment) : Prop where
  text_eq : s.text = s.span
  free : ¬ ascii "<?" <:+: s.span.slice document

/-- The bytes of a block are those of its parts, its text is the script among them, and without a
closing tag it reaches to the end of the document. -/
structure IsBlock (rule : DelimiterRule) (document : Bytes) (s : Segment) : Prop where
  parts : ∃ parts : Parts rule (document.drop s.span.start),
    s.span.slice document = parts.whole ∧ s.span.length = parts.whole.length ∧
      s.text = ⟨s.span.start + parts.opening.length, parts.script.length⟩ ∧
      (parts.close = ascii "?>" ∨ parts.close = [] ∧ s.span.stop = document.length)

theorem isLiteral_of_cut (h : Cut rule document line s) (hkind : s.kind = .raw) :
    IsLiteral document s := by
  cases h with
  | @literal c length source _ _ le free =>
    subst source
    refine ⟨rfl, ?_⟩
    have hstop : (Span.mk c.offset length).stop ≤ c.source.length := by
      rw [length_source, Span.stop_mk]
      omega
    rw [Span.slice_of_le hstop, ← c.rest_eq]
    exact free
  | block => cases hkind

theorem isBlock_of_cut (h : Cut rule document line s) (hkind : s.kind = .code) :
    IsBlock rule document s := by
  cases h with
  | literal => cases hkind
  | @block tag source _ opens =>
    subst source
    obtain ⟨parts, hblock⟩ := exists_parts rule opens
    have hsource := length_source tag
    have hlength := congrArg List.length parts.eq_whole
    rw [List.length_append] at hlength
    have htotal : tag.source.length = tag.offset + (parts.whole.length + parts.rest.length) := by
      rw [hsource, hlength]
    rw [hblock]
    clear hblock
    -- the bytes ahead of the tag are those of the document from its offset on
    obtain ⟨source, offset, _, _, rfl, _⟩ := tag
    change source.length = offset + (parts.whole.length + parts.rest.length) at htotal
    have hstop : (Span.mk offset parts.whole.length).stop ≤ source.length := by
      rw [Span.stop_mk]
      omega
    refine ⟨⟨parts, ?_, rfl, rfl, ?_⟩⟩
    · show (Span.mk offset parts.whole.length).slice source = _
      rw [Span.slice_of_le hstop]
      exact (congrArg (List.take _) parts.eq_whole).trans List.take_append_length
    · rcases parts.closes with ⟨hclose, -⟩ | ⟨hclose, hrest, -⟩
      · exact Or.inl hclose
      · refine Or.inr ⟨hclose, ?_⟩
        rw [hrest, List.length_nil] at htotal
        exact htotal.symm

/-- The text of a block lies within the document. -/
theorem stop_text_le (h : Cut rule document line s) (hkind : s.kind = .code) :
    s.text.stop ≤ document.length := by
  obtain ⟨parts, -, -, htext, -⟩ := (isBlock_of_cut h hkind).parts
  rw [htext, Span.stop_mk]
  exact parts.stop_le

/-! ### Lines -/

theorem number_of_counts (h : c.Counts 0 line) :
    c.line.number =
      min Line.maximum (line.number + (c.source.take c.offset).count Byte.newline) := by
  rw [h.number_eq, Nat.min_comm]
  rfl

/-- The line of a segment counts the newlines before its text. -/
theorem startLine_of_cut (h : Cut rule document line s) :
    s.startLine.number =
      min Line.maximum (line.number + (document.take s.text.start).count Byte.newline) := by
  cases h with
  | literal source counts => rw [← source]; exact number_of_counts counts
  | @block tag source counts _ =>
    rw [← source]
    exact number_of_counts ((counts.advanceBy _).advanceBy _)

/-! ### Documents -/

/-- The segments of a document tile it; two literal texts are never next to each other; literal
texts and blocks look as they should; and the line of a segment is the line of its text. -/
theorem split_tiles (document : Bytes) (options : Options) :
    Tiles document.length 0 (split document options) ∧
      (split document options = [] ↔ document = []) ∧
      ((split document options).IsChain fun s t => ¬ (s.kind = .raw ∧ t.kind = .raw)) ∧
      ∀ s ∈ split document options,
        (s.kind = .raw → IsLiteral document s) ∧
        (s.kind = .code → IsBlock options.delimiters document s) ∧
        s.startLine.number = min Line.maximum
          (options.startLine.number + (document.take s.text.start).count Byte.newline) := by
  have htiles : Tiles document.length 0 (split document options) :=
    tiles_segmentsFrom options.delimiters (.start document options.startLine)
  refine ⟨htiles, ?_, isChain_segmentsFrom _ _, fun s hs => ?_⟩
  · rw [htiles.eq_nil_iff, eq_comm, List.length_eq_zero_iff]
  · have hcut := cut_of_mem_split hs
    exact ⟨isLiteral_of_cut hcut, isBlock_of_cut hcut, startLine_of_cut hcut⟩

end TemplateScript.Template
