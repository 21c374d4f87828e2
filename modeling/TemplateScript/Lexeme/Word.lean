import TemplateScript.Lexeme.Basic

/-!
# Words

A word is a run of word bytes and multi-byte characters, a character being a lead byte with the
continuation bytes after it.  A continuation byte that no lead byte precedes ends the word.
-/

namespace TemplateScript

namespace Word

/-- The length of the word ahead, counted from `counted`.  `inCharacter` says that the byte before
belongs to a multi-byte character, so that continuation bytes may follow. -/
def lengthFrom (counted : Nat) (inCharacter : Bool) : Bytes → Nat
  | [] => counted
  | b :: bs =>
    if Byte.isLead b then lengthFrom (counted + 1) true bs
    else if Byte.isWordByte b then lengthFrom (counted + 1) false bs
    else if inCharacter && Byte.isContinuation b then lengthFrom (counted + 1) true bs
    else counted

/-- The length of the longest word at the start of `bs`. -/
def length (bs : Bytes) : Nat := lengthFrom 0 false bs

theorem lengthFrom_eq (counted : Nat) (inCharacter : Bool) (bs : Bytes) :
    lengthFrom counted inCharacter bs = counted + lengthFrom 0 inCharacter bs := by
  induction bs generalizing counted inCharacter with
  | nil => rfl
  | cons b bs ih =>
    simp only [lengthFrom]
    split
    · rw [ih (counted + 1), ih (0 + 1)]; omega
    · split
      · rw [ih (counted + 1), ih (0 + 1)]; omega
      · split
        · rw [ih (counted + 1), ih (0 + 1)]; omega
        · rfl

theorem lengthFrom_le (counted : Nat) (inCharacter : Bool) (bs : Bytes) :
    lengthFrom counted inCharacter bs ≤ counted + bs.length := by
  induction bs generalizing counted inCharacter with
  | nil => exact Nat.le_refl _
  | cons b bs ih =>
    simp only [lengthFrom, List.length_cons]
    have h := fun c => ih (counted + 1) c
    split
    · have := h true; omega
    · split
      · have := h false; omega
      · split
        · have := h true; omega
        · omega

theorem length_le (bs : Bytes) : length bs ≤ bs.length := by
  simpa [length] using lengthFrom_le 0 false bs

theorem length_pos {b : UInt8} (h : (Byte.isLead b || Byte.isWordByte b) = true) (bs : Bytes) :
    0 < length (b :: bs) := by
  simp only [length, lengthFrom]
  split
  · rw [lengthFrom_eq]; omega
  · next hl =>
    rw [if_pos (by simpa [hl] using h), lengthFrom_eq]
    omega

end Word

/-- The word at the start of `bs`. -/
def Lexeme.word (bs : Bytes) : Lexeme :=
  let length := Word.length bs
  .whole (.word (bs.take length)) length

end TemplateScript
