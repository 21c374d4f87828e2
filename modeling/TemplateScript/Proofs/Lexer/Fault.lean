import TemplateScript.Proofs.Lexer.Run

/-!
# The fault that ends a lexer

Whether a lexer fails depends only on the bytes ahead of it and on its options.

* `Construct.Reads options bs rest` — reading whole constructs, one after the other, leads from `bs`
  to `rest`;
* `Construct.firstFault?` — the fault that reading on meets;
* `Construct.Reads.firstFault?_eq` — it is the same from every place on the way;
* `Construct.LeavesOpen` — it is a string, a heredoc or a comment that is never closed;
* `Lexer.collectFrom_eq_error_iff` — a lexer fails with the fault that is met ahead of it;
* `Lexer.unterminated_iff_leavesOpen` — it leaves a construct open if one is left open there.
-/

namespace TemplateScript

namespace Construct

variable {options : Options} {first : UInt8} {tail bs rest : Bytes}

/-- Reading constructs without a fault leads from `bs` to `rest`. -/
inductive Reads (options : Options) : Bytes → Bytes → Prop
  | refl {bs : Bytes} : Reads options bs bs
  | space {b : UInt8} {bs rest : Bytes} (space : Byte.isSpace b = true)
      (further : Reads options bs rest) : Reads options (b :: bs) rest
  | construct {first : UInt8} {tail rest : Bytes} (space : Byte.isSpace first = false)
      (sound : ∀ cause length, scan options first tail ≠ .fault cause length)
      (further : Reads options (tail.drop ((scan options first tail).length - 1)) rest) :
      Reads options (first :: tail) rest

/-- The fault of the first construct that has one. -/
def firstFault? (options : Options) : Bytes → Option Fault
  | [] => none
  | first :: tail =>
    if Byte.isSpace first then firstFault? options tail
    else
      match scan options first tail with
      | .fault cause _ => some cause
      | .comment length => firstFault? options (tail.drop (length - 1))
      | .lexeme found => firstFault? options (tail.drop (found.length - 1))
termination_by bs => bs.length
decreasing_by
  · exact Nat.lt_succ_self _
  · simp only [List.length_drop, List.length_cons]
    omega
  · simp only [List.length_drop, List.length_cons]
    omega

@[simp] theorem firstFault?_nil : firstFault? options [] = none := by
  rw [firstFault?]

theorem firstFault?_of_space (h : Byte.isSpace first = true) :
    firstFault? options (first :: tail) = firstFault? options tail := by
  rw [firstFault?, if_pos h]

theorem firstFault?_of_fault {cause : Fault} {length : Nat} (h : Byte.isSpace first = false)
    (hscan : scan options first tail = .fault cause length) :
    firstFault? options (first :: tail) = some cause := by
  rw [firstFault?, h, hscan, if_neg Bool.false_ne_true]

theorem firstFault?_of_sound (h : Byte.isSpace first = false)
    (sound : ∀ cause length, scan options first tail ≠ .fault cause length) :
    firstFault? options (first :: tail) =
      firstFault? options (tail.drop ((scan options first tail).length - 1)) := by
  rw [firstFault?, h, if_neg Bool.false_ne_true]
  cases hscan : scan options first tail with
  | fault cause length => exact absurd hscan (sound cause length)
  | comment length => rfl
  | lexeme found => rfl

namespace Reads

theorem trans {middle : Bytes} (h : Reads options bs middle) (h' : Reads options middle rest) :
    Reads options bs rest := by
  induction h with
  | refl => exact h'
  | space space _ ih => exact .space space (ih h')
  | construct space sound _ ih => exact .construct space sound (ih h')

theorem firstFault?_eq (h : Reads options bs rest) :
    firstFault? options bs = firstFault? options rest := by
  induction h with
  | refl => rfl
  | space space _ ih => rw [firstFault?_of_space space, ih]
  | construct space sound _ ih => rw [firstFault?_of_sound space sound, ih]

theorem of_lexeme {found : Lexeme} (space : Byte.isSpace first = false)
    (hscan : scan options first tail = .lexeme found) :
    Reads options (first :: tail) (tail.drop (found.length - 1)) := by
  refine .construct space (fun cause length h => ?_) ?_
  · rw [hscan] at h
    cases h
  · rw [hscan]
    exact .refl

theorem of_comment {length : Nat} (space : Byte.isSpace first = false)
    (hscan : scan options first tail = .comment length) :
    Reads options (first :: tail) (tail.drop (length - 1)) := by
  refine .construct space (fun cause length h => ?_) ?_
  · rw [hscan] at h
    cases h
  · rw [hscan]
    exact .refl

end Reads

/-- What the lexer skips is read. -/
theorem reads_skip (options : Options) (bs : Bytes) :
    Reads options bs (bs.drop (Ahead.of options bs).skipped) := by
  suffices h : ∀ n, ∃ k, (Ahead.after options n bs).skipped = n + k ∧
      Reads options bs (bs.drop k) by
    obtain ⟨k, hk, hreads⟩ := h 0
    rw [Ahead.of, hk, Nat.zero_add]
    exact hreads
  intro n
  fun_induction Ahead.after options n bs with
  | case1 n => exact ⟨0, rfl, .refl⟩
  | case2 n first tail hs ih =>
    obtain ⟨k, hk, hreads⟩ := ih
    exact ⟨k + 1, by omega, .space hs hreads⟩
  | case3 n first tail hs length hc ih =>
    obtain ⟨k, hk, hreads⟩ := ih
    have hpos := (Construct.length_scan options first tail).1
    rw [hc] at hpos
    refine ⟨length + k, by omega, ?_⟩
    rw [Bytes.drop_cons_add (show 0 < length from hpos)]
    exact (Reads.of_comment (by simpa using hs) hc).trans hreads
  | case4 n first tail hs cause length hc => exact ⟨0, rfl, .refl⟩
  | case5 n first tail hs found hc => exact ⟨0, rfl, .refl⟩

/-! ### What is left open -/

/-- Reading on from here comes to a string, a heredoc or a comment that is never closed. -/
def LeavesOpen (options : Options) (bs : Bytes) : Prop :=
  firstFault? options bs = some .unterminatedString ∨
    firstFault? options bs = some .unterminatedComment

theorem Reads.leavesOpen_iff (h : Reads options bs rest) :
    LeavesOpen options bs ↔ LeavesOpen options rest := by
  rw [LeavesOpen, LeavesOpen, h.firstFault?_eq]

theorem not_leavesOpen_nil : ¬ LeavesOpen options [] := by
  rintro (h | h) <;> rw [firstFault?_nil] at h <;> cases h

end Construct

/-- The error is a string, a heredoc or a comment that is never closed. -/
def LexError.IsUnterminated (error : LexError) : Prop :=
  error.cause = .fault .unterminatedString ∨ error.cause = .fault .unterminatedComment

namespace Lexer

/-- A lexer fails with the fault that is met ahead of it, whatever the operator table says. -/
theorem collectFrom_eq_error_iff (l : Lexer) (running : l.finished = false) (resolve : Resolver)
    (tokens : Array Token) (cause : Fault) :
    (∃ e, l.collectFrom resolve tokens = .error e ∧ e.cause = .fault cause) ↔
      Construct.firstFault? l.options l.cursor.rest = some cause := by
  revert running tokens
  refine step_induction resolve (motive := fun l => l.finished = false → ∀ tokens,
    (∃ e, l.collectFrom resolve tokens = .error e ∧ e.cause = .fault cause) ↔
      Construct.firstFault? l.options l.cursor.rest = some cause) ?_ ?_ l
  · intro l e hstep running tokens
    rw [(Construct.reads_skip l.options l.cursor.rest).firstFault?_eq,
      collectFrom_of_error running hstep]
    rcases exists_fault hstep with ⟨hcause, hfound, -⟩ |
      ⟨gap, first, tail, fault, length, hrest, hgap, hspace, hscan, hcause⟩
    · have hend : e.isEndOfInput = true := by rw [LexError.isEndOfInput, hcause]; rfl
      rw [(Ahead.length_of l.options l.cursor.rest).1 hfound, List.drop_length,
        Construct.firstFault?_nil]
      simp only [hend, if_true]
      constructor
      · rintro ⟨_, h, -⟩
        cases h
      · intro h
        cases h
    · have hend : e.isEndOfInput = false := by rw [LexError.isEndOfInput, hcause]; rfl
      rw [← hgap, hrest, List.drop_append_length, Construct.firstFault?_of_fault hspace hscan]
      simp only [hend, Bool.false_eq_true, if_false, Except.error.injEq, exists_eq_left', hcause,
        LexError.Cause.fault.injEq, Option.some.injEq]
  · intro l edit hstep ih running tokens
    obtain ⟨gap, first, tail, found, htakes⟩ := exists_takes hstep
    have hread := (Construct.Reads.of_lexeme htakes.space htakes.scan).firstFault?_eq
    have hfurther := ih (htakes.finished_eq.trans running) (edit.apply tokens)
    rw [htakes.options_eq, htakes.rest_eq] at hfurther
    rw [(Construct.reads_skip l.options l.cursor.rest).firstFault?_eq,
      collectFrom_of_ok running hstep, ← htakes.skipped, htakes.rest, List.drop_append_length, hread]
    exact hfurther

/-- A lexer leaves a construct open exactly when one is left open ahead of it. -/
theorem unterminated_iff_leavesOpen (l : Lexer) (running : l.finished = false)
    (resolve : Resolver) :
    (∃ error, l.collect resolve = .error error ∧ error.IsUnterminated) ↔
      Construct.LeavesOpen l.options l.cursor.rest := by
  simp only [collect, LexError.IsUnterminated, and_or_left, exists_or,
    collectFrom_eq_error_iff l running]
  rfl

end Lexer

end TemplateScript
