import TemplateScript.Lexeme.Quoted

/-!
# The closing quote of a string

* `Quoted.exists_closing` — at the offset that is found stands the quote;
* `Quoted.closing?_append` and `Quoted.closingFrom?_append_of_some` — a closing quote that lies
  within a text is found there whatever follows the text.
-/

namespace TemplateScript.Quoted

variable {quote : UInt8} {bs xs ys : Bytes}

theorem closingFrom?_cons {mode : Mode} {b : UInt8} (h : ¬ (mode = .body ∧ b = quote)) :
    closingFrom? quote 0 mode (b :: bs) =
      (closingFrom? quote 0 (mode.next quote b bs.head?) bs).map (1 + ·) := by
  rw [closingFrom?, if_neg h, closingFrom?_eq]

theorem exists_closingFrom {mode : Mode} {n : Nat} (h : closingFrom? quote 0 mode bs = some n) :
    ∃ body rest, bs = body ++ quote :: rest ∧ body.length = n := by
  induction bs generalizing mode n with
  | nil => cases h
  | cons b bs ih =>
    by_cases hb : mode = .body ∧ b = quote
    · rw [closingFrom?, if_pos hb] at h
      cases h
      exact ⟨[], bs, by rw [hb.2]; rfl, rfl⟩
    · rw [closingFrom?_cons hb] at h
      obtain ⟨m, hm, rfl⟩ := Option.map_eq_some_iff.mp h
      obtain ⟨body, rest, rfl, rfl⟩ := ih hm
      exact ⟨b :: body, rest, rfl, by rw [List.length_cons]; omega⟩

/-- The closing quote stands at the offset that is found. -/
theorem exists_closing {n : Nat} (h : closing? quote bs = some n) :
    ∃ body rest, bs = body ++ quote :: rest ∧ body.length = n :=
  exists_closingFrom h

theorem closingFrom?_append {mode : Mode} {n : Nat}
    (h : closingFrom? quote 0 mode (xs ++ ys) = some n) (hn : n < xs.length) :
    closingFrom? quote 0 mode xs = some n := by
  induction xs generalizing mode n with
  | nil => exact absurd hn (Nat.not_lt_zero n)
  | cons b xs ih =>
    rw [List.cons_append] at h
    by_cases hb : mode = .body ∧ b = quote
    · rw [closingFrom?, if_pos hb] at h ⊢
      exact h
    · rw [closingFrom?_cons hb] at h ⊢
      obtain ⟨m, hm, rfl⟩ := Option.map_eq_some_iff.mp h
      rw [List.length_cons] at hn
      -- the byte after `b` is looked at, and as the quote comes later it lies within `xs`
      have hahead : (xs ++ ys).head? = xs.head? := by
        cases xs with
        | nil => exact absurd hn (by rw [List.length_nil]; omega)
        | cons c xs => rfl
      rw [hahead] at hm
      exact Option.map_eq_some_iff.mpr ⟨m, ih hm (by omega), rfl⟩

/-- A reader that finds the closing quote does not look at what follows it. -/
theorem closingFrom?_append_of_some {mode : Mode} {n : Nat}
    (h : closingFrom? quote 0 mode xs = some n) (ys : Bytes) :
    closingFrom? quote 0 mode (xs ++ ys) = some n := by
  induction xs generalizing mode n with
  | nil => cases h
  | cons b xs ih =>
    rw [List.cons_append]
    by_cases hb : mode = .body ∧ b = quote
    · rw [closingFrom?, if_pos hb] at h ⊢
      exact h
    · rw [closingFrom?_cons hb] at h ⊢
      obtain ⟨m, hm, rfl⟩ := Option.map_eq_some_iff.mp h
      have hahead : (xs ++ ys).head? = xs.head? := by
        cases xs with
        | nil => cases hm
        | cons c xs => rfl
      rw [hahead]
      exact Option.map_eq_some_iff.mpr ⟨m, ih hm, rfl⟩

/-- A closing quote within a text is the one of that text. -/
theorem closing?_append {n : Nat} (h : closing? quote (xs ++ ys) = some n) (hn : n < xs.length) :
    closing? quote xs = some n :=
  closingFrom?_append h hn

end TemplateScript.Quoted
