import TemplateScript.Byte

/-!
# Comments

`#` and `//` open a comment that ends before the next newline; `/*` opens one that ends after the
first `*/`.  A block comment that is never closed takes all that is left.
-/

namespace TemplateScript

/-- The extent of a comment and whether it is closed. -/
structure Comment where
  length : Nat
  closed : Bool
deriving DecidableEq, Repr

namespace Comment

/-- The comment up to the end of the line that `bs` begins. -/
def line (bs : Bytes) : Comment := ⟨Bytes.lineLength bs, true⟩

/-- The block comment whose opening `/*` stands right before `body`. -/
def block (body : Bytes) : Comment :=
  match Bytes.findPair? Byte.star Byte.slash body with
  | some offset => ⟨2 + offset + 2, true⟩
  | none => ⟨2 + body.length, false⟩

/-- The comment that begins with `first`, if one does; `tail` is what follows that byte. -/
def scan? (first : UInt8) (tail : Bytes) : Option Comment :=
  if first = Byte.hash then some (line (first :: tail))
  else if first = Byte.slash then
    if tail.head? = some Byte.slash then some (line (first :: tail))
    else if tail.head? = some Byte.star then some (block tail.tail)
    else none
  else none

/-- A comment takes at least one byte and no more than there are. -/
theorem length_of_scan? {first : UInt8} {tail : Bytes} {found : Comment}
    (h : scan? first tail = some found) : 0 < found.length ∧ found.length ≤ tail.length + 1 := by
  have hline : ∀ b : UInt8, b ≠ Byte.newline →
      0 < (line (b :: tail)).length ∧ (line (b :: tail)).length ≤ tail.length + 1 := by
    intro b hb
    refine ⟨?_, Bytes.lineLength_le (b :: tail)⟩
    show 0 < Bytes.runLength _ (b :: tail)
    rw [Bytes.runLength_cons_of_pos (by simpa using hb)]
    exact Nat.succ_pos _
  unfold scan? at h
  split at h
  · next hf =>
    cases h
    exact hline first (by rw [hf]; decide)
  · split at h
    · next hf =>
      split at h
      · cases h
        exact hline first (by rw [hf]; decide)
      · split at h
        · next hs =>
          cases h
          cases tail with
          | nil => cases hs
          | cons b body =>
            unfold block
            simp only [List.tail_cons, List.length_cons]
            split
            · next offset ho =>
              have := Bytes.findPair?_lt ho
              exact ⟨by simp only []; omega, by simp only []; omega⟩
            · exact ⟨by simp only []; omega, by simp only []; omega⟩
        · cases h
    · cases h

end Comment

end TemplateScript
