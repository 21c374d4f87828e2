import TemplateScript.Token.Resolver

/-!
# What the standard table answers

* `Operator.spelledBy_of_mem` and `Operator.ofLexeme?_lexeme` — the table of fixed readings and the
  canonical spellings agree, in both directions;
* `Resolver.standard_of_longer` — a candidate of more than one byte is read without regard to what comes
  before it;
* `Resolver.spelledBy_of_standard` — an operator of the standard table is one that the candidate
  spells; only `<>` is a second spelling, of `!=`;
* `Resolver.unknown_of_standard` — what the standard table does not know has no fixed reading, and
  is none of the symbols that are always some operator.
-/

namespace TemplateScript

/-- The bytes spell the operator. -/
def Operator.SpelledBy (op : Operator) (lexeme : Bytes) : Prop :=
  lexeme = op.lexeme ∨ lexeme = ascii "<>" ∧ op = .notEqual

theorem Operator.mem_fixedReadings {op : Operator} {lexeme : Bytes}
    (h : Operator.ofLexeme? lexeme = some op) : (lexeme, op) ∈ fixedReadings := by
  obtain ⟨before, after, hreadings, -⟩ := List.lookup_eq_some_iff.mp h
  rw [hreadings]
  exact List.mem_append_right _ List.mem_cons_self

/-- The table of fixed readings and the canonical spellings are two lists, which agree entry by
entry. -/
theorem Operator.spelledBy_of_mem : ∀ reading ∈ fixedReadings, reading.2.SpelledBy reading.1 := by
  unfold SpelledBy
  decide +kernel

theorem Operator.spelledBy_of_ofLexeme? {op : Operator} {lexeme : Bytes}
    (h : Operator.ofLexeme? lexeme = some op) : op.SpelledBy lexeme :=
  spelledBy_of_mem _ (mem_fixedReadings h)

/-- Conversely every canonical spelling has its own operator as its fixed reading, but for the single
bytes that are read according to what comes before them. -/
theorem Operator.ofLexeme?_lexeme (op : Operator) :
    ofLexeme? op.lexeme = some op ∨
      op.lexeme ∈ [ascii "+", ascii "-", ascii "&", ascii "["] := by
  cases op <;> first | exact Or.inl rfl | exact Or.inr (by decide)

/-- Only single bytes are read according to what comes before them. -/
theorem Resolver.standard_of_longer {q : Query} (longer : 1 < q.lexeme.length) :
    Resolver.standard q = Operator.ofLexeme? q.lexeme := by
  have hne : ∀ lexeme : Bytes, lexeme.length = 1 → q.lexeme ≠ lexeme := by
    rintro lexeme hlength rfl
    exact absurd longer (Nat.not_lt.mpr (Nat.le_of_eq hlength))
  rw [Resolver.standard, if_neg (hne (ascii "+") rfl), if_neg (hne (ascii "-") rfl),
    if_neg (hne (ascii "&") rfl), if_neg (hne (ascii "[") rfl)]

/-- So a longer canonical spelling is read as its own operator. -/
theorem Resolver.standard_lexeme {op : Operator} (longer : 1 < op.lexeme.length)
    (previous : Option Token) : Resolver.standard ⟨op.lexeme, previous⟩ = some op := by
  rw [Resolver.standard_of_longer longer]
  rcases op.ofLexeme?_lexeme with hread | hmem
  · exact hread
  · have hsingle : ∀ lexeme ∈ [ascii "+", ascii "-", ascii "&", ascii "["], lexeme.length = 1 := by
      decide
    exact absurd longer (Nat.not_lt.mpr (Nat.le_of_eq (hsingle _ hmem)))

/-- What the standard table answers is spelled by the candidate. -/
theorem Resolver.spelledBy_of_standard {q : Query} {op : Operator}
    (h : Resolver.standard q = some op) : op.SpelledBy q.lexeme := by
  rw [Resolver.standard] at h
  by_cases hplus : q.lexeme = ascii "+"
  · rw [if_pos hplus] at h
    cases hoperand : q.afterOperand <;> rw [hoperand] at h <;> cases h <;> exact Or.inl hplus
  rw [if_neg hplus] at h
  by_cases hminus : q.lexeme = ascii "-"
  · rw [if_pos hminus] at h
    cases hoperand : q.afterOperand <;> rw [hoperand] at h <;> cases h <;> exact Or.inl hminus
  rw [if_neg hminus] at h
  by_cases hampersand : q.lexeme = ascii "&"
  · rw [if_pos hampersand] at h
    cases hoperand : q.afterOperand <;> rw [hoperand] at h <;> cases h <;>
      exact Or.inl hampersand
  rw [if_neg hampersand] at h
  by_cases hbracket : q.lexeme = ascii "["
  · rw [if_pos hbracket] at h
    cases hoperand : q.afterOperand <;> rw [hoperand] at h <;> cases h
    exact Or.inl hbracket
  · rw [if_neg hbracket] at h
    exact Operator.spelledBy_of_ofLexeme? h

/-- What the standard table does not know is no operator, whatever comes before it. -/
theorem Resolver.unknown_of_standard {q : Query} (h : Resolver.standard q = none) :
    Operator.ofLexeme? q.lexeme = none ∧
      q.lexeme ≠ ascii "+" ∧ q.lexeme ≠ ascii "-" ∧ q.lexeme ≠ ascii "&" := by
  rw [Resolver.standard] at h
  by_cases hplus : q.lexeme = ascii "+"
  · rw [if_pos hplus] at h
    cases h
  by_cases hminus : q.lexeme = ascii "-"
  · rw [if_neg hplus, if_pos hminus] at h
    cases h
  by_cases hampersand : q.lexeme = ascii "&"
  · rw [if_neg hplus, if_neg hminus, if_pos hampersand] at h
    cases h
  refine ⟨?_, hplus, hminus, hampersand⟩
  rw [if_neg hplus, if_neg hminus, if_neg hampersand] at h
  by_cases hbracket : q.lexeme = ascii "["
  · rw [hbracket]
    rfl
  · rwa [if_neg hbracket] at h

end TemplateScript
