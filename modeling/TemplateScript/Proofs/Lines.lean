import TemplateScript.Source.Cursor

/-!
# The line of a cursor

`Cursor.Counts start line c` says that `c` has counted every newline from offset `start` on, the
line there being `line`.

* `Cursor.Counts.advanceBy` — every move keeps the count;
* `Cursor.counts_start` — a cursor at the start of a text has counted from there.
-/

namespace TemplateScript.Cursor

/-- The line of the cursor is `line` and the newlines from `start` up to the cursor. -/
structure Counts (start : Nat) (line : Line) (c : Cursor) : Prop where
  start_le : start ≤ c.offset
  line_eq : c.line = line.after (c.sliceFrom start)

variable {start : Nat} {line : Line} {c : Cursor}

/-- Where a cursor is, it has counted from there on. -/
theorem counts_self (c : Cursor) : c.Counts c.offset c.line := by
  refine ⟨Nat.le_refl _, ?_⟩
  have hnone : c.sliceFrom c.offset = [] := by
    rw [sliceFrom, List.drop_take, Nat.sub_self, List.take_zero]
  rw [hnone, Line.after_nil]

theorem counts_start (source : Bytes) (line : Line) : (Cursor.start source line).Counts 0 line :=
  counts_self (Cursor.start source line)

/-- What lies behind the cursor after a move is what lay behind it before and what it passed. -/
theorem sliceFrom_advanceBy (h : start ≤ c.offset) (n : Nat) :
    (c.advanceBy n).sliceFrom start = c.sliceFrom start ++ c.rest.take n := by
  have hle := c.offset_le
  have hpassed : c.rest.take n = (c.source.drop c.offset).take (c.rest.take n).length := by
    rw [c.rest_eq]
    exact List.prefix_iff_eq_take.mp (List.take_prefix n _)
  show (c.source.take (c.offset + (c.rest.take n).length)).drop start = _
  rw [List.take_add, ← hpassed, List.drop_append_of_le_length]
  · rfl
  · rw [List.length_take]
    omega

theorem Counts.advanceBy (h : c.Counts start line) (n : Nat) :
    (c.advanceBy n).Counts start line := by
  refine ⟨Nat.le_trans h.start_le (Nat.le_add_right _ _), ?_⟩
  rw [sliceFrom_advanceBy h.start_le, Line.after_append, ← h.line_eq]
  rfl

/-- The number of the line is the number of newlines behind the cursor, up to the last line. -/
theorem Counts.number_eq (h : c.Counts start line) :
    c.line.number = min (line.number + (c.sliceFrom start).count Byte.newline) Line.maximum := by
  rw [h.line_eq]
  rfl

end TemplateScript.Cursor
