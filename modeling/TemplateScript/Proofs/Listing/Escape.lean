import Mathlib.Data.Bool.AllAny
import Mathlib.Data.List.Forall2
import TemplateScript.Listing
import TemplateScript.Proofs.Bytes

/-!
# Bytes in print

* `Listing.flatMap_eq_flatMap_iff` — two lists written piece by piece read the same exactly if their
  members are alike, when a piece can be told from what follows it;
* `Listing.IsCode.append_inj` — so it is with the codes of bytes, and `Listing.escape_inj` — bytes in
  print are read back in one way;
* `Listing.isPrintable_of_mem_escape` — they are made of printable characters, so no line ends in
  them.
-/

namespace TemplateScript.Listing

/-! ### Pieces one after the other -/

/-- Two lists are written alike exactly if they agree member by member, when the pieces `f a` and
`g b` can stand at the start of one text only for `a` and `b` that are related, with the same text
behind them. -/
theorem flatMap_eq_flatMap_iff {α β γ : Type} {f : α → List γ} {g : β → List γ}
    {related : α → β → Prop} (alike : ∀ a b, related a b → f a = g b)
    (split : ∀ a b s t, f a ++ s = g b ++ t → related a b ∧ s = t)
    (left : ∀ a, f a ≠ []) (right : ∀ b, g b ≠ []) (xs : List α) (ys : List β) :
    xs.flatMap f = ys.flatMap g ↔ List.Forall₂ related xs ys := by
  constructor
  · intro h
    induction xs generalizing ys with
    | nil =>
      cases ys with
      | nil => exact .nil
      | cons b ys =>
        rw [List.flatMap_nil, List.flatMap_cons] at h
        exact absurd (List.append_eq_nil_iff.mp h.symm).1 (right b)
    | cons a xs ih =>
      cases ys with
      | nil =>
        rw [List.flatMap_nil, List.flatMap_cons] at h
        exact absurd (List.append_eq_nil_iff.mp h).1 (left a)
      | cons b ys =>
        rw [List.flatMap_cons, List.flatMap_cons] at h
        obtain ⟨hrelated, hrest⟩ := split a b _ _ h
        exact .cons hrelated (ih ys hrest)
  · intro h
    induction h with
    | nil => rfl
    | @cons a b xs ys hrelated _ ih =>
      rw [List.flatMap_cons, List.flatMap_cons, alike a b hrelated, ih]

/-! ### The code of a byte -/

/-- What a byte is in print: a character that is no backslash; a backslash and a character that is no
`x`; or a backslash, an `x` and two more characters. -/
inductive IsCode : List Char → Prop
  | plain {c : Char} (free : c ≠ '\\') : IsCode [c]
  | marked {c : Char} (free : c ≠ 'x') : IsCode ['\\', c]
  | digits (high low : Char) : IsCode ['\\', 'x', high, low]

theorem isCode_escapeByte (b : UInt8) : IsCode (escapeByte b) := by
  have hplain : ∀ b : UInt8, b ≠ Byte.backslash → Char.ofNat b.toNat ≠ '\\' := by decide +kernel
  rw [escapeByte]
  split_ifs with htab hnewline hreturn hquote hprintable
  · exact .marked (by decide)
  · exact .marked (by decide)
  · exact .marked (by decide)
  · rcases hquote with rfl | rfl | rfl <;> exact .marked (by decide)
  · exact .plain (hplain b fun h => hquote (Or.inr (Or.inr h)))
  · exact .digits _ _

/-- A code ends where it does, whatever follows it. -/
theorem IsCode.append_inj {u v s t : List Char} (hu : IsCode u) (hv : IsCode v)
    (h : u ++ s = v ++ t) : u = v ∧ s = t := by
  -- the first character tells a plain code from the others, the second one tells those apart
  cases hu with
  | plain free =>
    cases hv with
    | plain _ => exact ⟨congrArg ([·]) (List.cons.inj h).1, (List.cons.inj h).2⟩
    | marked _ => exact absurd (List.cons.inj h).1 free
    | digits _ _ => exact absurd (List.cons.inj h).1 free
  | marked free =>
    cases hv with
    | plain free' => exact absurd (List.cons.inj h).1.symm free'
    | marked _ =>
      obtain ⟨hc, hrest⟩ := List.cons.inj (List.cons.inj h).2
      exact ⟨congrArg (['\\', ·]) hc, hrest⟩
    | digits _ _ => exact absurd (List.cons.inj (List.cons.inj h).2).1 free
  | digits high low =>
    cases hv with
    | plain free' => exact absurd (List.cons.inj h).1.symm free'
    | marked free' => exact absurd (List.cons.inj (List.cons.inj h).2).1.symm free'
    | digits high' low' =>
      obtain ⟨hhigh, hlow⟩ := List.cons.inj (List.cons.inj (List.cons.inj h).2).2
      obtain ⟨hlow, hrest⟩ := List.cons.inj hlow
      rw [hhigh, hlow]
      exact ⟨rfl, hrest⟩

/-- The value of a hexadecimal digit. -/
def digitValue (c : Char) : Nat :=
  if c.toNat < 'a'.toNat then c.toNat - '0'.toNat else c.toNat - 'a'.toNat + 10

/-- The byte of a code. -/
def byteOfCode : List Char → UInt8
  | ['\\', 't'] => 0x09
  | ['\\', 'n'] => 0x0A
  | ['\\', 'r'] => 0x0D
  | ['\\', c] => UInt8.ofNat c.toNat
  | ['\\', 'x', high, low] => UInt8.ofNat (digitValue high * 16 + digitValue low)
  | [c] => UInt8.ofNat c.toNat
  | _ => 0

theorem byteOfCode_escapeByte : ∀ b, byteOfCode (escapeByte b) = b := by
  decide +kernel

theorem escapeByte_append_inj {a b : UInt8} {s t : List Char}
    (h : escapeByte a ++ s = escapeByte b ++ t) : a = b ∧ s = t := by
  obtain ⟨hcode, hrest⟩ := (isCode_escapeByte a).append_inj (isCode_escapeByte b) h
  refine ⟨?_, hrest⟩
  rw [← byteOfCode_escapeByte a, hcode, byteOfCode_escapeByte]

theorem escapeByte_ne_nil (b : UInt8) : escapeByte b ≠ [] := by
  have hcode := isCode_escapeByte b
  intro hnil
  rw [hnil] at hcode
  cases hcode

/-! ### Texts -/

/-- Different bytes are different in print. -/
theorem escape_inj {as bs : Bytes} : escape as = escape bs ↔ as = bs := by
  have hbytes : as.flatMap escapeByte = bs.flatMap escapeByte ↔ List.Forall₂ Eq as bs :=
    flatMap_eq_flatMap_iff (fun _ _ h => congrArg escapeByte h)
      (fun _ _ _ _ => escapeByte_append_inj) escapeByte_ne_nil escapeByte_ne_nil as bs
  rw [escape, escape, hbytes, List.forall₂_eq_eq_eq]

/-- A character that ASCII prints, the space included. -/
def IsPrintable (c : Char) : Prop := 0x20 ≤ c.toNat ∧ c.toNat ≤ 0x7E

instance (c : Char) : Decidable (IsPrintable c) := inferInstanceAs (Decidable (_ ∧ _))

theorem isPrintable_of_mem_escape {bs : Bytes} {c : Char} (h : c ∈ escape bs) : IsPrintable c := by
  have hbyte : ∀ b : UInt8, (escapeByte b).all (fun c => decide (IsPrintable c)) = true := by
    decide +kernel
  obtain ⟨b, -, hc⟩ := List.mem_flatMap.mp h
  exact List.all_iff_forall_prop.mp (hbyte b) c hc

end TemplateScript.Listing
