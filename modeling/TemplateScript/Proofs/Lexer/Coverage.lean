import TemplateScript.Proofs.Lexer.Run

/-!
# Tokens cover their source

`Laid rule offset tokens bs rest` says that `bs`, which stands at `offset` of a source, is made up
of a gap and the bytes of a token in turn, for all of `tokens` in order, and then of `rest`.  Gaps
are trivia and no token starts with trivia.

* `Laid.bounds` and `Laid.pairwise` — so the texts of the tokens lie within `bs` and do not overlap;
* `Laid.append` and `Laid.exists_append` — a list of tokens can be cut anywhere;
* `Laid.merge` — an opening parenthesis, a token and what comes next can be taken as one token;
* `Lexer.Covers.step` — the tokens behind a lexer cover all that it has read, after an edit as well;
* `Lexer.covers_of_reaches` — and so at the end of every run they cover the source.
-/

namespace TemplateScript

/-- `bs` is a gap and the bytes of a token, for each of `tokens` in turn, and then `rest`. -/
inductive Laid (rule : DelimiterRule) : Nat → List Token → Bytes → Bytes → Prop
  | nil {offset : Nat} {rest : Bytes} : Laid rule offset [] rest rest
  | cons {offset : Nat} {token : Token} {tokens : List Token} {gap extent more rest : Bytes}
      {text : Span} (trivia : Trivia gap (extent ++ more))
      (starts : ¬ StartsTrivia (extent ++ more)) (nonempty : extent ≠ [])
      (takes : Extent rule token.kind text extent more)
      (text_eq : token.text = text.shift (offset + gap.length))
      (further : Laid rule (offset + gap.length + extent.length) tokens more rest) :
      Laid rule offset (token :: tokens) (gap ++ (extent ++ more)) rest

/-! ### Extents -/

namespace Extent

variable {rule : DelimiterRule} {kind : Token.Kind} {text : Span} {extent rest : Bytes}

/-- The text of a token lies within its bytes. -/
theorem stop_le (h : Extent rule kind text extent rest) : text.stop ≤ extent.length := by
  cases h with
  | string _ _ text_eq =>
    rw [text_eq, Span.stop_mk, List.length_cons, List.length_append]
    omega
  | openString _ _ text_eq =>
    rw [text_eq, Span.stop_mk, List.length_cons]
    omega
  | heredoc _ _ text_eq _ _ =>
    simp only [text_eq, Span.stop_mk, List.length_append]
    omega
  | openHeredoc _ _ text_eq _ =>
    simp only [text_eq, Span.stop_mk, List.length_append]
    omega
  | whole _ text_eq =>
    rw [text_eq, Span.stop_mk]
    omega

/-- A token that is no string literal is its text. -/
theorem text_eq_of_not_isString (h : Extent rule kind text extent rest)
    (hkind : kind.isString = false) : text = ⟨0, extent.length⟩ := by
  cases h with
  | string _ kind_eq _ => rw [kind_eq, Quoted.isString_kind] at hkind; cases hkind
  | openString _ kind_eq _ => rw [kind_eq, Quoted.isString_kind] at hkind; cases hkind
  | heredoc _ kind_eq _ _ _ => rw [kind_eq, Heredoc.isString_kind] at hkind; cases hkind
  | openHeredoc _ kind_eq _ _ => rw [kind_eq, Heredoc.isString_kind] at hkind; cases hkind
  | whole _ text_eq => exact text_eq

end Extent

namespace Laid

variable {rule : DelimiterRule} {offset : Nat} {tokens a b : List Token} {bs middle rest : Bytes}

/-! ### Order -/

/-- The texts of the tokens lie where `bs` stands, before `rest`. -/
theorem bounds (h : Laid rule offset tokens bs rest) :
    rest.length ≤ bs.length ∧ ∀ token ∈ tokens,
      offset ≤ token.text.start ∧ token.text.stop + rest.length ≤ offset + bs.length := by
  induction h with
  | nil => exact ⟨Nat.le_refl _, fun _ ht => absurd ht List.not_mem_nil⟩
  | @cons offset token tokens gap extent more rest text _ _ _ takes text_eq _ ih =>
    obtain ⟨hle, hmem⟩ := ih
    have hstop := takes.stop_le
    have htext : token.text.stop = offset + gap.length + text.stop := by
      rw [text_eq, Span.stop_shift]
    simp only [List.length_append]
    refine ⟨by omega, fun t ht => ?_⟩
    rcases List.mem_cons.mp ht with rfl | ht
    · refine ⟨?_, by omega⟩
      rw [text_eq]
      show offset ≤ offset + gap.length + text.start
      omega
    · have := hmem t ht
      omega

/-- The text of a token ends before that of a later one starts. -/
theorem pairwise (h : Laid rule offset tokens bs rest) :
    tokens.Pairwise fun s t => s.text.stop ≤ t.text.start := by
  induction h with
  | nil => exact .nil
  | @cons offset token tokens gap extent more rest text _ _ _ takes text_eq further ih =>
    refine .cons (fun t ht => ?_) ih
    have hstop := takes.stop_le
    have hstart := (further.bounds.2 t ht).1
    rw [text_eq, Span.stop_shift]
    omega

/-! ### Cutting and joining -/

theorem append {offset' : Nat} (h : Laid rule offset a bs middle)
    (hoffset : offset + bs.length = offset' + middle.length)
    (h' : Laid rule offset' b middle rest) : Laid rule offset (a ++ b) bs rest := by
  induction h with
  | nil =>
    obtain rfl := Nat.add_right_cancel hoffset
    exact h'
  | cons trivia starts nonempty takes text_eq _ ih =>
    refine .cons trivia starts nonempty takes text_eq (ih ?_ h')
    simp only [List.length_append] at hoffset
    omega

theorem exists_append (h : Laid rule offset (a ++ b) bs rest) :
    ∃ offset' middle, Laid rule offset a bs middle ∧
      offset + bs.length = offset' + middle.length ∧ Laid rule offset' b middle rest := by
  induction a generalizing offset bs with
  | nil => exact ⟨offset, bs, .nil, rfl, h⟩
  | cons token a ih =>
    rw [List.cons_append] at h
    cases h with
    | cons trivia starts nonempty takes text_eq further =>
      obtain ⟨offset', middle, ha, hoffset, hb⟩ := ih further
      refine ⟨offset', middle, .cons trivia starts nonempty takes text_eq ha, ?_, hb⟩
      simp only [List.length_append]
      omega

/-- What stands between the first byte of a token that is its text and the end of a later token is
the text of one token. -/
theorem merge {first second merged : Token} {gap close : Bytes} {stop : Nat}
    (h : Laid rule offset [first, second] bs (gap ++ (close ++ rest)))
    (hfirst : first.kind.isString = false) (hmerged : merged.kind.isString = false)
    (hstop : offset + bs.length = stop + rest.length)
    (htext : merged.text = .between first.text.start stop) :
    Laid rule offset [merged] bs rest := by
  cases h with
  | @cons _ _ _ gap₁ extent₁ more₁ _ text₁ trivia starts nonempty takes text_eq further =>
    cases further with
    | @cons _ _ _ gap₂ extent₂ _ _ _ _ _ _ _ _ further =>
      cases further
      have hwhole := takes.text_eq_of_not_isString hfirst
      have hstart : first.text.start = offset + gap₁.length := by
        rw [text_eq, hwhole]
        rfl
      have hshape : extent₁ ++ (gap₂ ++ (extent₂ ++ (gap ++ (close ++ rest)))) =
          extent₁ ++ (gap₂ ++ (extent₂ ++ (gap ++ close))) ++ rest := by
        simp only [List.append_assoc]
      rw [hshape] at trivia starts hstop ⊢
      refine .cons trivia starts ?_ (.whole hmerged rfl) ?_ .nil
      · exact List.append_ne_nil_of_left_ne_nil nonempty _
      · rw [htext, hstart, Span.between, Span.shift, Nat.add_zero]
        congr 1
        simp only [List.length_append] at hstop ⊢
        omega

end Laid

namespace Lexer

variable {l l' : Lexer} {source : Bytes} {tokens tokens' : Array Token} {resolve : Resolver}
  {edit : Edit}

/-! ### What a step preserves -/

/-- The tokens cover all that the lexer has read of `source`, and the lexer remembers the last of
them. -/
structure Covers (source : Bytes) (l : Lexer) (tokens : Array Token) : Prop where
  laid : Laid l.options.delimiters 0 tokens.toList source l.cursor.rest
  offset : source.length = l.cursor.offset + l.cursor.rest.length
  recalls : l.lookback.Recalls tokens.toList

theorem Covers.step (h : Covers source l tokens) (answer : (l.step resolve).answer = .ok edit) :
    Covers source (l.step resolve).lexer (edit.apply tokens) := by
  obtain ⟨gap, extent, rest, found, hrest, htrivia, hstarts, hnonempty, hextent, hsettles, hlexer⟩ :=
    exists_step answer
  have hread : (gap ++ (extent ++ rest)).drop (gap.length + extent.length) = rest := by
    rw [← List.drop_drop, List.drop_append_length, List.drop_append_length]
  have hlength : gap.length + extent.length ≤ l.cursor.rest.length := by
    rw [hrest, List.length_append, List.length_append]
    omega
  have hlaid := h.laid
  have hoffset := h.offset
  rw [hrest] at hlaid hoffset
  rw [hlexer]
  refine ⟨?_, ?_, h.recalls.push edit⟩
  · show Laid l.options.delimiters 0 (edit.apply tokens).toList source
      (l.cursor.rest.drop (gap.length + extent.length))
    rw [hrest, hread, Edit.toList_apply]
    rcases hsettles.emits_or_merges with
      ⟨token, rfl, hkind, htext⟩ | ⟨opening, cast, op, hform, hcast, rfl⟩
    · rw [Edit.take_dropped_emit]
      refine hlaid.append (by rw [Nat.zero_add]; exact hoffset) ?_
      exact .cons htrivia hstarts hnonempty (hextent _ hkind) htext .nil
    · -- a cast takes back the two tokens that the lexer remembers
      obtain ⟨word, keyword, holder, hlatest, hopening, -, -⟩ := Lookback.of_openCast? hcast
      obtain ⟨before, word', hbefore⟩ := h.recalls.older opening holder
      have htake : tokens.toList.take (tokens.size - 2) = before := by
        rw [← Array.length_toList, hbefore, List.length_append]
        exact List.take_append_length
      rw [Edit.dropped, htake]
      rw [hbefore] at hlaid
      obtain ⟨offset', middle, hlaid, hmiddle, hlast⟩ := hlaid.exists_append
      refine hlaid.append hmiddle (hlast.merge ?_ rfl ?_ rfl)
      · rw [hopening]
        rfl
      · have hclose := (hextent .closeParen (by rw [hform]; rfl)).text_eq_of_not_isString rfl
        rw [hclose, Span.stop_shift, Span.stop_mk]
        simp only [List.length_append] at hoffset
        omega
  · show source.length = (l.cursor.advanceBy (gap.length + extent.length)).offset +
      (l.cursor.rest.drop (gap.length + extent.length)).length
    rw [Cursor.offset_advanceBy_of_le hlength, List.length_drop, h.offset]
    omega

/-- The tokens cover all that was read, at the end of a run as at its start. -/
theorem covers_of_reaches (hrun : Reaches l tokens l' tokens') (h : Covers source l tokens) :
    Covers source l' tokens' := by
  induction hrun with
  | refl => exact h
  | step answer _ ih => exact ih (h.step answer)

theorem covers_start (source : Bytes) (options : Options) :
    Covers source (start source options) #[] :=
  ⟨.nil, (Nat.zero_add _).symm, Lookback.recalls_nil⟩

/-- The tokens of a source lie within it in order, and the source is nothing but their bytes with
trivia before each of them and at the end.  So it is with whatever operator table each step asks; a
collection with one table is the case in which all of them ask that one. -/
theorem laid_of_collect (source : Bytes) (options : Options) :
    (∀ resolve, (start source options).collect resolve =
      (start source options).collectTables (fun _ => resolve) #[]) ∧
    ∀ tables tokens, (start source options).collectTables tables #[] = .ok tokens →
      (∀ token ∈ tokens.toList, token.text.stop ≤ source.length) ∧
      (tokens.toList.Pairwise fun s t => s.text.stop ≤ t.text.start) ∧
      ∃ gap, Laid options.delimiters 0 tokens.toList source gap ∧ Trivia gap [] := by
  refine ⟨fun resolve => (collectTables_const _ resolve #[]).symm, fun tables tokens h => ?_⟩
  obtain ⟨l, last, hrun, hnone⟩ := exists_reaches h
  have hcovers := covers_of_reaches hrun (covers_start source options)
  obtain ⟨e, hstep, hend⟩ := step_of_next_none hnone hrun.finished_eq
  have hlaid := hcovers.laid
  rw [hrun.options_eq] at hlaid
  refine ⟨fun token htoken => ?_, hlaid.pairwise, l.cursor.rest, hlaid, trivia_of_step hstep hend⟩
  have := (hlaid.bounds.2 token htoken).2
  omega

/-- A cast, a heredoc and a semicolon, with white space in the cast and a comment at the end. -/
theorem laid_of_collect_cast :
    ∃ tokens : Array Token,
      (start (ascii "( int )<<<E\nx\nE;\n#b") {}).collect .standard = .ok tokens ∧
      ∃ gap, Laid .relaxed 0 tokens.toList (ascii "( int )<<<E\nx\nE;\n#b") gap ∧
        Trivia gap [] := by
  have h : (start (ascii "( int )<<<E\nx\nE;\n#b") {}).collect .standard = .ok
      #[⟨.operator .castInt, ⟨0, 7⟩, .first, some (.operator .castInt)⟩,
        ⟨.heredoc, ⟨12, 1⟩, .first, none⟩, ⟨.semicolon, ⟨15, 1⟩, ⟨3, by decide⟩, none⟩] := by
    decide +kernel
  obtain ⟨hcollect, hlaid⟩ := laid_of_collect (ascii "( int )<<<E\nx\nE;\n#b") {}
  rw [hcollect] at h
  obtain ⟨-, -, hgap⟩ := hlaid _ _ h
  exact ⟨_, (hcollect .standard).trans h, hgap⟩

end Lexer

end TemplateScript
