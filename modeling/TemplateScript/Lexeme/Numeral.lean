import TemplateScript.Lexeme.Basic

/-!
# Numerals

A numeral is `0x` with hexadecimal digits, `0b` with binary digits, or decimal digits with an
optional fraction and an optional exponent.  A radix mark or an exponent mark counts only when a
digit of its kind follows; a point always counts.  With a fraction or an exponent the numeral is
real, otherwise it is an integer.
-/

namespace TemplateScript

namespace Numeral

/-- The digits that a radix mark announces: hexadecimal after `x`, binary after `b`. -/
def radixDigit? (mark : UInt8) : Option (UInt8 → Bool) :=
  if mark = 0x78 ∨ mark = 0x58 then some Byte.isHexDigit
  else if mark = 0x62 ∨ mark = 0x42 then some Byte.isBinaryDigit
  else none

/-- The length of the numeral with a radix prefix at the start of `bs`. -/
def radixLength? : Bytes → Option Nat
  | zero :: mark :: digits =>
    if zero = Byte.zero then
      match radixDigit? mark with
      | some isDigit =>
        let count := Bytes.runLength isDigit digits
        if count = 0 then none else some (2 + count)
      | none => none
    else none
  | _ => none

/-- The length of the fraction at the start of `bs`: a point and any digits after it. -/
def fractionLength : Bytes → Nat
  | point :: bs => if point = Byte.dot then 1 + Bytes.runLength Byte.isDigit bs else 0
  | [] => 0

/-- The length of the sign at the start of `bs`. -/
def signLength : Bytes → Nat
  | sign :: _ => if sign = Byte.plus ∨ sign = Byte.minus then 1 else 0
  | [] => 0

/-- The length of the exponent at the start of `bs`: a mark, an optional sign and at least one
digit. -/
def exponentLength : Bytes → Nat
  | mark :: bs =>
    if mark = 0x65 ∨ mark = 0x45 then
      let digits := Bytes.runLength Byte.isDigit (bs.drop (signLength bs))
      if digits = 0 then 0 else 1 + signLength bs + digits
    else 0
  | [] => 0

end Numeral

/-- The numeral at the start of `bs`. -/
def Lexeme.numeral (bs : Bytes) : Lexeme :=
  match Numeral.radixLength? bs with
  | some length => .whole (.fixed .integer) length
  | none =>
    let whole := Bytes.runLength Byte.isDigit bs
    let fraction := Numeral.fractionLength (bs.drop whole)
    let exponent := Numeral.exponentLength (bs.drop (whole + fraction))
    .whole (.fixed (if fraction + exponent = 0 then .integer else .real))
      (whole + fraction + exponent)

namespace Numeral

theorem radixLength?_le {bs : Bytes} {n : Nat} (h : radixLength? bs = some n) :
    2 < n ∧ n ≤ bs.length := by
  match bs, h with
  | zero :: mark :: digits, h =>
    simp only [radixLength?] at h
    split at h
    · split at h
      · next isDigit _ =>
        have := Bytes.runLength_le isDigit digits
        split at h
        · cases h
        · cases h
          simp only [List.length_cons]
          omega
      · cases h
    · cases h
  | [_], h => cases h
  | [], h => cases h

theorem fractionLength_le (bs : Bytes) : fractionLength bs ≤ bs.length := by
  cases bs with
  | nil => exact Nat.le_refl _
  | cons b bs =>
    have := Bytes.runLength_le Byte.isDigit bs
    simp only [fractionLength, List.length_cons]
    split <;> omega

theorem exponentLength_le (bs : Bytes) : exponentLength bs ≤ bs.length := by
  cases bs with
  | nil => exact Nat.le_refl _
  | cons b bs =>
    have h := Bytes.runLength_le Byte.isDigit (bs.drop (signLength bs))
    simp only [exponentLength, List.length_cons]
    simp only [List.length_drop] at h
    split
    · split <;> omega
    · omega

end Numeral

theorem Lexeme.length_numeral_le (bs : Bytes) : (Lexeme.numeral bs).length ≤ bs.length := by
  unfold Lexeme.numeral
  split
  · next n h => exact (Numeral.radixLength?_le h).2
  · have h₁ := Bytes.runLength_le Byte.isDigit bs
    have h₂ := Numeral.fractionLength_le (bs.drop (Bytes.runLength Byte.isDigit bs))
    have h₃ := Numeral.exponentLength_le (bs.drop (Bytes.runLength Byte.isDigit bs +
      Numeral.fractionLength (bs.drop (Bytes.runLength Byte.isDigit bs))))
    simp only [List.length_drop] at h₂ h₃
    simp only [Lexeme.whole]
    omega

theorem Lexeme.length_numeral_pos {b : UInt8} (h : Byte.isDigit b = true) (bs : Bytes) :
    0 < (Lexeme.numeral (b :: bs)).length := by
  unfold Lexeme.numeral
  split
  · next n h =>
    have := (Numeral.radixLength?_le h).1
    exact Nat.lt_trans (by decide) this
  · simp only [Lexeme.whole, Bytes.runLength_cons_of_pos h]
    omega

end TemplateScript
