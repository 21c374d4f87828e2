import TemplateScript.Byte

/-!
# Line numbers

A line number is counted from the number given to the first line of the text and stops growing at
`2 ^ 32 - 1`.  The bound is part of the type, so counting in one go and counting newline by newline
agree (`Line.advance_advance`).
-/

namespace TemplateScript

/-- The number of a line, at most `2 ^ 32 - 1`. -/
structure Line where
  number : Nat
  number_le : number ≤ 0xFFFFFFFF
deriving DecidableEq, Repr

namespace Line

/-- The last line number there is. -/
def maximum : Nat := 0xFFFFFFFF

/-- The line of this number, or the last line for a larger number. -/
def ofNat (n : Nat) : Line :=
  ⟨min n maximum, Nat.min_le_right _ _⟩

/-- The line of this number, if it is a line number. -/
def ofNat? (n : Nat) : Option Line :=
  if h : n ≤ maximum then some ⟨n, h⟩ else none

/-- The number of the first line unless a caller says otherwise. -/
def first : Line := ⟨1, by decide⟩

instance : Inhabited Line := ⟨first⟩

/-- The line `n` newlines further down. -/
def advance (l : Line) (n : Nat) : Line :=
  ofNat (l.number + n)

/-- The line reached from `l` by reading `passed`. -/
def after (l : Line) (passed : Bytes) : Line :=
  l.advance (passed.count Byte.newline)

theorem ext_number {l m : Line} (h : l.number = m.number) : l = m := by
  cases l; cases m; cases h; rfl

@[simp] theorem number_ofNat (n : Nat) : (ofNat n).number = min n maximum := rfl

@[simp] theorem number_advance (l : Line) (n : Nat) :
    (l.advance n).number = min (l.number + n) maximum := rfl

@[simp] theorem advance_zero (l : Line) : l.advance 0 = l :=
  ext_number (Nat.min_eq_left l.number_le)

theorem advance_advance (l : Line) (m n : Nat) :
    (l.advance m).advance n = l.advance (m + n) := by
  apply ext_number
  simp only [number_advance]
  omega

@[simp] theorem after_nil (l : Line) : l.after [] = l := advance_zero l

/-- Reading two pieces of text one after the other counts the lines of both. -/
theorem after_append (l : Line) (a b : Bytes) : l.after (a ++ b) = (l.after a).after b := by
  simp only [after, List.count_append, advance_advance]

end Line

end TemplateScript
