import TemplateScript.Lexer.Basic

/-!
# Further calls

A step can be taken after any other, also after one that answered with an error.  `l.afterCalls
resolve calls` is the lexer after so many steps, and `l.afterTables tables calls` the one after steps
that each ask an operator table of their own.

* `Lexer.lexer_step` — whatever a step answers, it moves the cursor over what it skips and what it
  finds, remembers the edit if there is one, and leaves the rest alone;
* `Lexer.afterCalls_succ` and `Lexer.afterTables_succ` — of several steps the last one can be taken
  off, and the first one as well;
* `Lexer.afterTables_const` — one table for all of them is a case of a table for each;
* `Lexer.cursor_afterTables` — several steps only move the cursor on.
-/

namespace TemplateScript.Lexer

variable {l : Lexer} {resolve : Resolver}

/-! ### One step -/

/-- Whatever a step answers, it moves the cursor over what is skipped and what is found; an edit is
remembered, an error is not. -/
theorem lexer_step (l : Lexer) (resolve : Resolver) :
    (l.step resolve).lexer =
      { l with
        cursor := l.cursor.advanceBy ((Ahead.of l.options l.cursor.rest).skipped +
          (Ahead.of l.options l.cursor.rest).found.length)
        lookback := match (l.step resolve).answer with
          | .ok edit => l.lookback.push edit
          | .error _ => l.lookback } := by
  rw [step, ← Cursor.advanceBy_advanceBy]
  generalize Ahead.of l.options l.cursor.rest = ahead
  obtain ⟨skipped, found⟩ := ahead
  cases found <;> rfl

@[simp] theorem options_step (l : Lexer) (resolve : Resolver) :
    (l.step resolve).lexer.options = l.options := by
  rw [lexer_step]

@[simp] theorem finished_step (l : Lexer) (resolve : Resolver) :
    (l.step resolve).lexer.finished = l.finished := by
  rw [lexer_step]

theorem cursor_step (l : Lexer) (resolve : Resolver) :
    (l.step resolve).lexer.cursor = l.cursor.advanceBy
      ((Ahead.of l.options l.cursor.rest).skipped +
        (Ahead.of l.options l.cursor.rest).found.length) := by
  rw [lexer_step]

theorem lookback_step_of_ok {edit : Edit} (h : (l.step resolve).answer = .ok edit) :
    (l.step resolve).lexer.lookback = l.lookback.push edit := by
  rw [lexer_step, h]

theorem lookback_step_of_error {e : LexError} (h : (l.step resolve).answer = .error e) :
    (l.step resolve).lexer.lookback = l.lookback := by
  rw [lexer_step, h]

theorem offset_le_step (l : Lexer) (resolve : Resolver) :
    l.offset ≤ (l.step resolve).lexer.offset := by
  rw [offset, offset, cursor_step]
  exact Nat.le_add_right _ _

/-! ### Several steps -/

/-- The lexer after this many further steps. -/
def afterCalls (l : Lexer) (resolve : Resolver) : Nat → Lexer
  | 0 => l
  | calls + 1 => (l.step resolve).lexer.afterCalls resolve calls

theorem afterCalls_succ (l : Lexer) (resolve : Resolver) (calls : Nat) :
    l.afterCalls resolve (calls + 1) = ((l.afterCalls resolve calls).step resolve).lexer := by
  induction calls generalizing l with
  | zero => rfl
  | succ calls ih => exact ih (l.step resolve).lexer

/-- The lexer after this many steps, each of which asks a table of its own. -/
def afterTables (l : Lexer) (tables : Nat → Resolver) : Nat → Lexer
  | 0 => l
  | calls + 1 => ((l.afterTables tables calls).step (tables calls)).lexer

/-- The steps behind the first one ask the tables from the second on. -/
theorem afterTables_succ (l : Lexer) (tables : Nat → Resolver) (calls : Nat) :
    l.afterTables tables (calls + 1) =
      (l.step (tables 0)).lexer.afterTables (fun k => tables (k + 1)) calls := by
  induction calls with
  | zero => rfl
  | succ calls ih => rw [afterTables, ih, afterTables]

theorem afterTables_const (l : Lexer) (resolve : Resolver) (calls : Nat) :
    l.afterTables (fun _ => resolve) calls = l.afterCalls resolve calls := by
  induction calls with
  | zero => rfl
  | succ calls ih => rw [afterTables, ih, afterCalls_succ]

theorem options_afterTables (l : Lexer) (tables : Nat → Resolver) (calls : Nat) :
    (l.afterTables tables calls).options = l.options := by
  induction calls with
  | zero => rfl
  | succ calls ih => rw [afterTables, options_step, ih]

/-- Calls only move the cursor on. -/
theorem cursor_afterTables (l : Lexer) (tables : Nat → Resolver) (calls : Nat) :
    ∃ n, (l.afterTables tables calls).cursor = l.cursor.advanceBy n := by
  induction calls with
  | zero => exact ⟨0, (Cursor.advanceBy_zero _).symm⟩
  | succ calls ih =>
    obtain ⟨n, hn⟩ := ih
    rw [afterTables, cursor_step, hn, Cursor.advanceBy_advanceBy]
    exact ⟨_, rfl⟩

end TemplateScript.Lexer
