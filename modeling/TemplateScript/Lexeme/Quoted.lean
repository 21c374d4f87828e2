import TemplateScript.Lexeme.Basic

/-!
# Quoted strings

A quoted string ends at the next quote of its own kind that no backslash takes.  Between double
quotes, a `{` directly followed by `$` opens an interpolation region, which ends at the `}` that
balances it; within the region, quoted literals hide their braces, and a backslash is special only
inside such a literal.

`Quoted.Mode` is the state of a reader that takes one byte at a time, and `Quoted.closing?` is
where that reader finds the closing quote.
-/

namespace TemplateScript

namespace Quoted

/-- Where in a quoted body a reader stands. -/
inductive Mode
  /-- In the body itself. -/
  | body
  /-- Right after a backslash of the body. -/
  | bodyEscape
  /-- In an interpolation region with this many open braces. -/
  | region (depth : Nat)
  /-- In a literal of a region. -/
  | literal (depth : Nat) (quote : UInt8)
  /-- Right after a backslash of such a literal. -/
  | literalEscape (depth : Nat) (quote : UInt8)
deriving DecidableEq, Repr

/-- Where the reader stands after the byte `b`, which does not close the string; `ahead` is the
byte after it. -/
def Mode.next (quote b : UInt8) (ahead : Option UInt8) : Mode → Mode
  | body =>
    if b = Byte.backslash then bodyEscape
    else if quote = Byte.doubleQuote ∧ b = Byte.openCurly ∧ ahead = some Byte.dollar then region 1
    else body
  | bodyEscape => body
  | region depth =>
    if b = Byte.openCurly then region (depth + 1)
    else if b = Byte.closeCurly then if depth ≤ 1 then body else region (depth - 1)
    else if b = Byte.singleQuote ∨ b = Byte.doubleQuote then literal depth b
    else region depth
  | literal depth q =>
    if b = Byte.backslash then literalEscape depth q
    else if b = q then region depth
    else literal depth q
  | literalEscape depth q => literal depth q

/-- The offset of the closing quote, counted from `offset`, for a reader that stands at `mode`. -/
def closingFrom? (quote : UInt8) (offset : Nat) (mode : Mode) : Bytes → Option Nat
  | [] => none
  | b :: bs =>
    if mode = .body ∧ b = quote then some offset
    else closingFrom? quote (offset + 1) (mode.next quote b bs.head?) bs

/-- The offset of the closing quote of a string whose body begins with `bs`. -/
def closing? (quote : UInt8) (bs : Bytes) : Option Nat := closingFrom? quote 0 .body bs

/-- The kind of string that a quote opens. -/
def kind (quote : UInt8) : Token.Kind :=
  if quote = Byte.singleQuote then .singleQuoted
  else if quote = Byte.doubleQuote then .doubleQuoted
  else .backtick

/-- The length of a quoted string, its quotes included; without a closing quote it takes all that
is left. -/
def length (quote : UInt8) (bs : Bytes) : Nat :=
  match closing? quote bs with
  | some offset => 1 + offset + 1
  | none => 1 + bs.length

/-- The quoted string that `quote` opens right before `bs`. -/
def scan (strict : Bool) (quote : UInt8) (bs : Bytes) : Construct :=
  match closing? quote bs with
  | some offset => .lexeme ⟨.fixed (kind quote), ⟨1, offset⟩, 1 + offset + 1⟩
  | none =>
    if strict then .fault .unterminatedString (1 + bs.length)
    else .lexeme ⟨.fixed (kind quote), ⟨1, bs.length⟩, 1 + bs.length⟩

/-- Where the count starts only shifts the answer. -/
theorem closingFrom?_eq (quote : UInt8) (offset : Nat) (mode : Mode) (bs : Bytes) :
    closingFrom? quote offset mode bs = (closingFrom? quote 0 mode bs).map (offset + ·) := by
  suffices h : ∀ m n, closingFrom? quote (m + n) mode bs =
      (closingFrom? quote n mode bs).map (m + ·) from h offset 0
  intro m n
  induction bs generalizing n mode with
  | nil => rfl
  | cons b bs ih =>
    simp only [closingFrom?]
    split
    · rfl
    · rw [Nat.add_assoc, ih]

theorem closingFrom?_lt {quote : UInt8} {offset : Nat} {mode : Mode} {bs : Bytes} {n : Nat}
    (h : closingFrom? quote offset mode bs = some n) : offset ≤ n ∧ n < offset + bs.length := by
  induction bs generalizing offset mode with
  | nil => cases h
  | cons b bs ih =>
    simp only [closingFrom?] at h
    split at h
    · cases h; simp
    · have := ih h
      simp only [List.length_cons]
      omega

theorem closing?_lt {quote : UInt8} {bs : Bytes} {n : Nat} (h : closing? quote bs = some n) :
    n < bs.length := by
  simpa using (closingFrom?_lt h).2

@[simp] theorem length_scan (strict : Bool) (quote : UInt8) (bs : Bytes) :
    (scan strict quote bs).length = length quote bs := by
  unfold scan length
  cases closing? quote bs with
  | some offset => rfl
  | none => cases strict <;> rfl

theorem length_pos (quote : UInt8) (bs : Bytes) : 0 < length quote bs := by
  unfold length
  split <;> omega

theorem length_le (quote : UInt8) (bs : Bytes) : length quote bs ≤ bs.length + 1 := by
  unfold length
  split
  · next n h =>
    have := closing?_lt h
    omega
  · omega

end Quoted

end TemplateScript
