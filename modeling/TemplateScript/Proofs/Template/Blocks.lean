import Mathlib.Data.List.Forall2
import TemplateScript.Proofs.Lexer.Places
import TemplateScript.Proofs.Template.Tiling
import TemplateScript.Template.Document

/-!
# The blocks of a document

* `Template.lex_eq_ok_iff` and `Template.lex_eq_error_iff` — a document is lexed when each of its
  segments is, and then its blocks are theirs, in order; or it has the error of the first segment
  that has one;
* `Template.ofSegment_eq_ok_iff` and `Template.ofSegment_eq_error_iff` — what the block of a segment
  is, and when there is none;
* `Template.collect_of_mem_lex` — so the tokens of a block are those of the lexer of its segment;
* `Template.counts_ofSegment` — that lexer starts on the line of the document that its segment
  starts on;
* `Template.placed_of_lex` — every token of a document lies in the text of its segment and has the
  line that the document has there.
-/

namespace TemplateScript.Template

variable {document : Bytes} {options : Options} {segment : Segment} {e : LexError}
  {blocks : List Block} {tokens : Array Token}

/-! ### Blocks and segments -/

/-- A list is mapped without an error when each of its members is. -/
theorem mapM_eq_ok_iff {α β ε : Type} {f : α → Except ε β} {xs : List α} {ys : List β} :
    xs.mapM f = .ok ys ↔ List.Forall₂ (fun x y => f x = .ok y) xs ys := by
  induction xs generalizing ys with
  | nil => cases ys <;> simp [pure, Except.pure]
  | cons x xs ih =>
    rw [List.mapM_cons, List.forall₂_cons_left_iff]
    cases hx : f x with
    | error e => simp [bind, Except.bind]
    | ok y =>
      cases hxs : xs.mapM f with
      | error e => simp [bind, Except.bind, ← ih, hxs]
      | ok rest => simp [bind, Except.bind, pure, Except.pure, ← ih, hxs, eq_comm]

/-- A list is mapped with the error of its first member that has one. -/
theorem mapM_eq_error_iff {α β ε : Type} {f : α → Except ε β} {xs : List α} {e : ε} :
    xs.mapM f = .error e ↔ ∃ before x after, xs = before ++ x :: after ∧ f x = .error e ∧
      ∀ y ∈ before, ∃ z, f y = .ok z := by
  induction xs with
  | nil => simp [pure, Except.pure]
  | cons x xs ih =>
    rw [List.mapM_cons]
    cases hx : f x with
    | error e' =>
      constructor
      · intro h
        obtain rfl : e' = e := Except.error.inj h
        exact ⟨[], x, xs, rfl, hx, fun y hy => absurd hy List.not_mem_nil⟩
      · rintro ⟨before, y, after, hsplit, hy, hbefore⟩
        cases before with
        | nil =>
          obtain ⟨rfl, -⟩ := List.cons.inj hsplit
          obtain rfl : e' = e := Except.error.inj (hx.symm.trans hy)
          rfl
        | cons z before =>
          obtain ⟨rfl, -⟩ := List.cons.inj hsplit
          obtain ⟨w, hw⟩ := hbefore x List.mem_cons_self
          cases hx.symm.trans hw
    | ok y =>
      have hrest : (do let ys ← xs.mapM f; pure (y :: ys)) = Except.error e ↔
          xs.mapM f = .error e := by
        cases xs.mapM f with
        | error _ => exact Iff.rfl
        | ok _ => exact ⟨nofun, nofun⟩
      refine hrest.trans (ih.trans ⟨?_, ?_⟩)
      · rintro ⟨before, z, after, rfl, hz, hbefore⟩
        exact ⟨x :: before, z, after, rfl, hz, List.forall_mem_cons.mpr ⟨⟨y, hx⟩, hbefore⟩⟩
      · rintro ⟨before, z, after, hsplit, hz, hbefore⟩
        cases before with
        | nil =>
          obtain ⟨rfl, -⟩ := List.cons.inj hsplit
          cases hx.symm.trans hz
        | cons w before =>
          obtain ⟨rfl, rfl⟩ := List.cons.inj hsplit
          exact ⟨before, z, after, rfl, hz, (List.forall_mem_cons.mp hbefore).2⟩

/-- A document is lexed when each of its segments is. -/
theorem lex_eq_ok_iff :
    lex document options = .ok blocks ↔
      List.Forall₂ (fun segment block => Block.ofSegment document options segment = .ok block)
        (split document options) blocks :=
  mapM_eq_ok_iff

/-- A document has the error of its first segment that has one. -/
theorem lex_eq_error_iff :
    lex document options = .error e ↔ ∃ before segment after,
      split document options = before ++ segment :: after ∧
        Block.ofSegment document options segment = .error e ∧
        ∀ earlier ∈ before, ∃ block, Block.ofSegment document options earlier = .ok block :=
  mapM_eq_error_iff

/-- A segment is literal text, or a block with the tokens that its lexer collects. -/
theorem ofSegment_eq_ok_iff {block : Block} :
    Block.ofSegment document options segment = .ok block ↔
      (segment.kind = .raw ∧ block = .raw segment) ∨
        (segment.kind = .code ∧ ∃ tokens,
          (Lexer.ofSegment document segment options).collect .standard = .ok tokens ∧
          block = .code segment tokens) := by
  rw [Block.ofSegment]
  cases segment.kind with
  | raw => simp [eq_comm]
  | code =>
    cases (Lexer.ofSegment document segment options).collect .standard with
    | error e => simp [Except.map]
    | ok tokens => simp [Except.map, eq_comm]

/-- Only a block of script fails, with the error of its lexer. -/
theorem ofSegment_eq_error_iff :
    Block.ofSegment document options segment = .error e ↔
      segment.kind = .code ∧
        (Lexer.ofSegment document segment options).collect .standard = .error e := by
  rw [Block.ofSegment]
  cases segment.kind with
  | raw => simp
  | code =>
    cases (Lexer.ofSegment document segment options).collect .standard with
    | error e => simp [Except.map]
    | ok tokens => simp [Except.map]

/-- Every block is that of a segment. -/
theorem exists_segment_of_mem_lex (h : lex document options = .ok blocks) :
    ∀ block ∈ blocks, ∃ segment ∈ split document options,
      Block.ofSegment document options segment = .ok block := by
  have hall := lex_eq_ok_iff.mp h
  generalize split document options = segments at hall
  clear h
  induction hall with
  | nil => exact fun _ hblock => absurd hblock List.not_mem_nil
  | cons hfirst _ ih =>
    intro block hblock
    rcases List.mem_cons.mp hblock with rfl | hblock
    · exact ⟨_, List.mem_cons_self, hfirst⟩
    · obtain ⟨segment, hsegment, hof⟩ := ih block hblock
      exact ⟨segment, List.mem_cons_of_mem _ hsegment, hof⟩

/-- A block of script has the tokens of its segment. -/
theorem collect_of_mem_lex (h : lex document options = .ok blocks)
    (hmem : .code segment tokens ∈ blocks) :
    segment ∈ split document options ∧ segment.kind = .code ∧
      (Lexer.ofSegment document segment options).collect .standard = .ok tokens := by
  obtain ⟨source, hsource, hof⟩ := exists_segment_of_mem_lex h _ hmem
  rcases ofSegment_eq_ok_iff.mp hof with ⟨-, hblock⟩ | ⟨hkind, found, hcollect, hblock⟩
  · cases hblock
  · cases hblock
    exact ⟨hsource, hkind, hcollect⟩

/-! ### Places -/

/-- The lexer of a segment of the document starts at the text of the segment. -/
theorem offset_ofSegment (hstop : segment.text.stop ≤ document.length) (options : Options) :
    (Lexer.ofSegment document segment options).offset = segment.text.start := by
  have hstart : segment.text.start ≤ segment.text.stop := Nat.le_add_right _ _
  show min segment.text.start (document.take segment.text.stop).length = _
  rw [List.length_take_of_le hstop, Nat.min_eq_left hstart]

/-- The lexer of a block starts at its text, on the line that the document has there. -/
theorem counts_ofSegment (h : segment ∈ split document options) (hkind : segment.kind = .code) :
    (Lexer.ofSegment document segment options).offset = segment.text.start ∧
      (Lexer.ofSegment document segment options).cursor.Counts 0 options.startLine := by
  have hstop := stop_text_le (cut_of_mem_split h) hkind
  have hstart : segment.text.start ≤ segment.text.stop := Nat.le_add_right _ _
  have hoffset := offset_ofSegment hstop options
  refine ⟨hoffset, Nat.zero_le _, Line.ext_number ?_⟩
  rw [Lexer.offset] at hoffset
  rw [Cursor.sliceFrom, hoffset]
  show segment.startLine.number = min (_ + (((document.take segment.text.stop).take _).drop 0).count _) _
  rw [startLine_of_cut (cut_of_mem_split h), List.drop_zero, List.take_take,
    Nat.min_eq_left hstart, Nat.min_comm]

/-- Every token of a document lies in the text of its segment, and its line counts the newlines of
the document before the token. -/
theorem placed_of_lex (h : lex document options = .ok blocks) :
    ∀ segment tokens, .code segment tokens ∈ blocks → ∀ token ∈ tokens.toList,
      token.Placed document options.startLine segment.text.start segment.text.stop := by
  intro segment tokens hmem token htoken
  obtain ⟨hsegment, hkind, hcollect⟩ := collect_of_mem_lex h hmem
  obtain ⟨hoffset, hcounts⟩ := counts_ofSegment hsegment hkind
  have hplaced := Lexer.placed_of_collect hcounts rfl hcollect token htoken
  have hsource : (Lexer.ofSegment document segment options).cursor.source =
      document.take segment.text.stop := rfl
  rw [hoffset, hsource, List.length_take_of_le (stop_text_le (cut_of_mem_split hsegment) hkind)] at hplaced
  refine ⟨hplaced.start_le, hplaced.stop_le, ?_⟩
  -- a token starts before the segment stops, so the bytes before it are those of the document
  have hle : token.text.start ≤ segment.text.stop :=
    Nat.le_trans (Nat.le_add_right _ _) hplaced.stop_le
  obtain ⟨count, hcount, hline⟩ := hplaced.line
  rw [List.take_take, Nat.min_eq_left hle] at hcount
  exact ⟨count, hcount, hline⟩

/-- A cast over two lines, a string over two lines, a heredoc and a semicolon, near the last line
number there is. -/
theorem placed_of_lex_lines :
    let document := ascii "a\n<? (\nint ) 'x\ny' <<<E\nz\nE;\n?>"
    let options : Options := { startLine := .ofNat 0xFFFFFFFB }
    ∃ segment tokens,
      lex document options = .ok [.raw ⟨.raw, ⟨0, 2⟩, ⟨0, 2⟩, options.startLine⟩,
        .code segment tokens] ∧
      tokens.toList.map (·.line.number) = [0xFFFFFFFC, 0xFFFFFFFD, 0xFFFFFFFE, 0xFFFFFFFF] ∧
      ∀ token ∈ tokens.toList,
        token.Placed document options.startLine segment.text.start segment.text.stop := by
  intro document options
  have h : lex document options = .ok [.raw ⟨.raw, ⟨0, 2⟩, ⟨0, 2⟩, options.startLine⟩,
      .code ⟨.code, ⟨2, 29⟩, ⟨5, 23⟩, .ofNat 0xFFFFFFFC⟩
        #[⟨.operator .castInt, ⟨5, 7⟩, .ofNat 0xFFFFFFFC, some (.operator .castInt)⟩,
          ⟨.singleQuoted, ⟨14, 3⟩, .ofNat 0xFFFFFFFD, none⟩,
          ⟨.heredoc, ⟨24, 1⟩, .ofNat 0xFFFFFFFE, none⟩,
          ⟨.semicolon, ⟨27, 1⟩, .ofNat 0xFFFFFFFF, none⟩]] := by
    decide +kernel
  exact ⟨_, _, h, rfl, placed_of_lex h _ _ (List.mem_cons_of_mem _ List.mem_cons_self)⟩

end TemplateScript.Template
