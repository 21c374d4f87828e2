import TemplateScript.Proofs.Lexer.Calls
import TemplateScript.Proofs.Trivia

/-!
# The construct that a step comes to

`l.Meets gap bs` holds when the next step of `l` skips `gap` and then looks at `bs`.  What the step
does is settled by the construct that stands at the start of `bs`.

* `Lexer.exists_meets` — every step meets something, and `Lexer.meets_of_trivia` — behind trivia it
  meets whatever comes there;
* `Lexer.Meets.step_of_lexeme` and `Lexer.Meets.step_of_fault` — the answer of a step that meets a
  lexeme or a fault.
-/

namespace TemplateScript.Lexer

variable {l : Lexer} {gap bs tail : Bytes} {first : UInt8}

/-- The next step of the lexer skips `gap`, and `bs` is what comes after it. -/
structure Meets (l : Lexer) (gap bs : Bytes) : Prop where
  rest : l.cursor.rest = gap ++ bs
  skipped : gap.length = (Ahead.of l.options l.cursor.rest).skipped

theorem exists_meets (l : Lexer) : ∃ gap bs, l.Meets gap bs := by
  obtain ⟨gap, bs, hrest, hgap, -, -⟩ := Ahead.stands l.options l.cursor.rest
  exact ⟨gap, bs, hrest, hgap⟩

/-- A step meets what comes behind the trivia ahead. -/
theorem meets_of_trivia (rest : l.cursor.rest = gap ++ first :: tail)
    (trivia : Trivia gap (first :: tail)) (starts : ¬ StartsTrivia (first :: tail)) :
    l.Meets gap (first :: tail) :=
  ⟨rest, by rw [rest, Ahead.skipped_of_trivia l.options trivia starts]⟩

namespace Meets

/-- What is skipped is trivia, and what the step finds stands right behind it. -/
theorem stands (h : l.Meets gap bs) :
    Trivia gap bs ∧ (Ahead.of l.options l.cursor.rest).found.Stands l.options bs := by
  obtain ⟨gap', bs', hrest, hgap, htrivia, hstands⟩ := Ahead.stands l.options l.cursor.rest
  have hsplit : gap ++ bs = gap' ++ bs' := h.rest.symm.trans hrest
  obtain ⟨rfl, rfl⟩ := List.append_inj hsplit (h.skipped.trans hgap.symm)
  exact ⟨htrivia, hstands⟩

theorem found_of_lexeme {found : Lexeme} (h : l.Meets gap (first :: tail))
    (scan : Construct.scan l.options first tail = .lexeme found) :
    (Ahead.of l.options l.cursor.rest).found = .lexeme found := by
  have hstands := h.stands.2
  generalize (Ahead.of l.options l.cursor.rest).found = ahead at hstands ⊢
  cases hstands with
  | fault _ hscan => rw [scan] at hscan; cases hscan
  | lexeme _ hscan => rw [scan] at hscan; cases hscan; rfl

theorem found_of_fault {cause : Fault} {length : Nat} (h : l.Meets gap (first :: tail))
    (scan : Construct.scan l.options first tail = .fault cause length) :
    (Ahead.of l.options l.cursor.rest).found = .fault cause length := by
  have hstands := h.stands.2
  generalize (Ahead.of l.options l.cursor.rest).found = ahead at hstands ⊢
  cases hstands with
  | fault _ hscan => rw [scan] at hscan; cases hscan; rfl
  | lexeme _ hscan => rw [scan] at hscan; cases hscan

/-- Behind the gap the cursor stands where the construct begins. -/
theorem advanceBy_gap (h : l.Meets gap bs) :
    (l.cursor.advanceBy gap.length).offset = l.offset + gap.length ∧
      (l.cursor.advanceBy gap.length).line = l.line.after gap := by
  constructor
  · refine Cursor.offset_advanceBy_of_le ?_
    rw [h.rest, List.length_append]
    exact Nat.le_add_right _ _
  · show l.cursor.line.after (l.cursor.rest.take gap.length) = _
    rw [h.rest, List.take_append_length]
    rfl

theorem advanceBy_skipped (h : l.Meets gap bs) :
    (l.cursor.advanceBy (Ahead.of l.options l.cursor.rest).skipped).offset =
        l.offset + gap.length ∧
      (l.cursor.advanceBy (Ahead.of l.options l.cursor.rest).skipped).line =
        l.line.after gap := by
  rw [← h.skipped]
  exact h.advanceBy_gap

/-- What the source holds from there on. -/
theorem drop_source (h : l.Meets gap bs) :
    l.cursor.source.drop (l.offset + gap.length) = bs := by
  rw [offset, ← List.drop_drop, ← l.cursor.rest_eq, h.rest, List.drop_append_length]

theorem slice_source (h : l.Meets gap bs) {n : Nat} (hn : n ≤ bs.length) :
    (Span.mk (l.offset + gap.length) n).slice l.cursor.source = bs.take n := by
  have hlength := congrArg List.length h.drop_source
  have hle := l.cursor.offset_le
  have hrest := l.cursor.length_rest
  rw [h.rest, List.length_append] at hrest
  rw [Span.slice_of_le, h.drop_source]
  show l.cursor.offset + gap.length + n ≤ l.cursor.source.length
  omega

/-- A step that meets a lexeme reads it and moves behind it. -/
theorem step_of_lexeme {found : Lexeme} (h : l.Meets gap (first :: tail))
    (scan : Construct.scan l.options first tail = .lexeme found) (resolve : Resolver) :
    (l.step resolve).answer = .ok
        ((found.read l.lookback (l.offset + gap.length) (l.line.after gap)).settle resolve) ∧
      (l.step resolve).lexer.offset = l.offset + gap.length + found.length := by
  have hfound := h.found_of_lexeme scan
  obtain ⟨hoffset, hline⟩ := h.advanceBy_skipped
  constructor
  · rw [step, hfound]
    simp only [hoffset, hline]
  · have hlength := (Construct.length_scan l.options first tail).2
    rw [scan] at hlength
    rw [offset, cursor_step, hfound, ← h.skipped, Nat.add_assoc]
    refine Cursor.offset_advanceBy_of_le ?_
    rw [h.rest, List.length_append, List.length_cons]
    exact Nat.add_le_add_left hlength gap.length

/-- A step that meets a fault answers with it. -/
theorem step_of_fault {cause : Fault} {length : Nat} (h : l.Meets gap (first :: tail))
    (scan : Construct.scan l.options first tail = .fault cause length) (resolve : Resolver) :
    (l.step resolve).answer =
      .error ⟨.fault cause, l.offset + gap.length, l.line.after gap⟩ := by
  obtain ⟨hoffset, hline⟩ := h.advanceBy_skipped
  rw [step, h.found_of_fault scan]
  simp only [hoffset, hline]

end Meets

end TemplateScript.Lexer
