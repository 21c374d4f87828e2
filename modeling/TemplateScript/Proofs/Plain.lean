import TemplateScript.Lexeme.Numeral
import TemplateScript.Proofs.Symbol
import TemplateScript.Proofs.Word

/-!
# Plain bytes

A byte is plain when it begins none of the constructs that can hide a closing tag.  Words and
numerals are made of plain bytes, and so is what follows the first byte of a symbol, but for the
second `<` of a shift:

* `Word.isPlain_of_mem`, `Numeral.isPlain_of_mem`, `Symbol.isPlain_or_shift`.
-/

namespace TemplateScript

/-- The byte begins no closing tag, no comment, no quoted string and no heredoc. -/
def Byte.isPlain (b : UInt8) : Bool :=
  !(b == question || b == hash || b == slash || b == less || isQuote b)

theorem Byte.isPlain_of_isSpace : ∀ b, isSpace b = true → isPlain b = true := by decide +kernel

theorem Byte.isPlain_of_isDigit : ∀ b, isDigit b = true → isPlain b = true := by decide +kernel

theorem Byte.isPlain_of_isHexDigit : ∀ b, isHexDigit b = true → isPlain b = true := by
  decide +kernel

theorem Byte.isPlain_of_isBinaryDigit : ∀ b, isBinaryDigit b = true → isPlain b = true := by
  decide +kernel

/-! ### Words -/

namespace Word

theorem isPlain_of_continues : ∀ b, Continues b → Byte.isPlain b = true := by
  unfold Continues
  decide +kernel

theorem isPlain_of_mem {bs : Bytes} : ∀ b ∈ bs.take (length bs), Byte.isPlain b = true :=
  fun b hb => isPlain_of_continues b (continues_of_text (text_take_length bs) b hb)

end Word

/-! ### Numerals -/

namespace Numeral

variable {bs : Bytes}

theorem isPlain_of_mem_run {p : UInt8 → Bool} (hp : ∀ b, p b = true → Byte.isPlain b = true) :
    ∀ b ∈ bs.take (Bytes.runLength p bs), Byte.isPlain b = true :=
  fun b hb => hp b (Bytes.of_mem_take_runLength hb)

/-- What holds of the bytes of two pieces holds of both together. -/
theorem forall_mem_take_add {m n : Nat} {q : UInt8 → Prop} (h : ∀ b ∈ bs.take m, q b)
    (h' : ∀ b ∈ (bs.drop m).take n, q b) : ∀ b ∈ bs.take (m + n), q b := by
  intro b hb
  rw [List.take_add] at hb
  rcases List.mem_append.mp hb with hb | hb
  · exact h b hb
  · exact h' b hb

theorem forall_mem_take_one_add {first : UInt8} {n : Nat} {q : UInt8 → Prop} (h : q first)
    (h' : ∀ b ∈ bs.take n, q b) : ∀ b ∈ (first :: bs).take (1 + n), q b := by
  rw [Nat.add_comm, List.take_succ_cons]
  exact List.forall_mem_cons.mpr ⟨h, h'⟩

theorem isPlain_of_mem_radix {n : Nat} (h : radixLength? bs = some n) :
    ∀ b ∈ bs.take n, Byte.isPlain b = true := by
  match bs, h with
  | zero :: mark :: digits, h =>
    simp only [radixLength?] at h
    split at h
    · next hzero =>
      split at h
      · next isDigit hmark =>
        have hdigits : Byte.isPlain mark = true ∧
            ∀ b, isDigit b = true → Byte.isPlain b = true := by
          rw [radixDigit?] at hmark
          split at hmark
          · next hx =>
            cases hmark
            exact ⟨by rcases hx with rfl | rfl <;> decide, Byte.isPlain_of_isHexDigit⟩
          · split at hmark
            · next hb =>
              cases hmark
              exact ⟨by rcases hb with rfl | rfl <;> decide, Byte.isPlain_of_isBinaryDigit⟩
            · cases hmark
        split at h
        · cases h
        · cases h
          rw [show 2 + Bytes.runLength isDigit digits = 1 + (1 + Bytes.runLength isDigit digits) by
            omega]
          refine forall_mem_take_one_add (by rw [hzero]; decide) ?_
          exact forall_mem_take_one_add hdigits.1 (isPlain_of_mem_run hdigits.2)
      · cases h
    · cases h
  | [_], h => cases h
  | [], h => cases h

theorem isPlain_of_mem_fraction : ∀ b ∈ bs.take (fractionLength bs), Byte.isPlain b = true := by
  cases bs with
  | nil => exact fun _ hb => absurd hb List.not_mem_nil
  | cons point bs =>
    rw [fractionLength]
    split
    · next hpoint =>
      refine forall_mem_take_one_add (by rw [hpoint]; decide) ?_
      exact isPlain_of_mem_run Byte.isPlain_of_isDigit
    · exact fun _ hb => absurd hb List.not_mem_nil

theorem isPlain_of_mem_sign : ∀ b ∈ bs.take (signLength bs), Byte.isPlain b = true := by
  cases bs with
  | nil => exact fun _ hb => absurd hb List.not_mem_nil
  | cons sign bs =>
    rw [signLength]
    split
    · next hsign =>
      intro b hb
      obtain rfl := List.mem_singleton.mp hb
      rcases hsign with rfl | rfl <;> decide
    · exact fun _ hb => absurd hb List.not_mem_nil

theorem isPlain_of_mem_exponent : ∀ b ∈ bs.take (exponentLength bs), Byte.isPlain b = true := by
  cases bs with
  | nil => exact fun _ hb => absurd hb List.not_mem_nil
  | cons mark bs =>
    simp only [exponentLength]
    split
    · next hmark =>
      split
      · exact fun _ hb => absurd hb List.not_mem_nil
      · rw [Nat.add_assoc]
        refine forall_mem_take_one_add (by rcases hmark with rfl | rfl <;> decide) ?_
        exact forall_mem_take_add isPlain_of_mem_sign (isPlain_of_mem_run Byte.isPlain_of_isDigit)
    · exact fun _ hb => absurd hb List.not_mem_nil

theorem isPlain_of_mem : ∀ b ∈ bs.take (Lexeme.numeral bs).length, Byte.isPlain b = true := by
  rw [Lexeme.numeral]
  split
  · next n h => exact isPlain_of_mem_radix h
  · refine forall_mem_take_add (forall_mem_take_add ?_ ?_) isPlain_of_mem_exponent
    · exact isPlain_of_mem_run Byte.isPlain_of_isDigit
    · exact isPlain_of_mem_fraction

end Numeral

/-! ### Symbols -/

/-- What follows the first byte of a symbol is plain, unless the symbol is a shift to the left. -/
theorem Symbol.isPlain_or_shift {first : UInt8} {tail : Bytes} {found : Lexeme}
    (h : At first tail found) :
    ∃ more rest, tail = more ++ rest ∧ found.length = 1 + more.length ∧
      ((∀ b ∈ more, Byte.isPlain b = true) ∨
        first :: more = ascii "<<" ∨ first :: more = ascii "<<=") := by
  have hall : spellings.all (fun s =>
      s.tail.all Byte.isPlain || s == ascii "<<" || s == ascii "<<=") = true := by rfl
  have hspelled : ∃ more rest, tail = more ++ rest ∧ length (first :: tail) = 1 + more.length ∧
      ((∀ b ∈ more, Byte.isPlain b = true) ∨
        first :: more = ascii "<<" ∨ first :: more = ascii "<<=") := by
    obtain ⟨more, rest, rfl, hlength, hmore⟩ := exists_length first tail
    refine ⟨more, rest, rfl, hlength, ?_⟩
    rcases hmore with rfl | hmem
    · exact Or.inl fun _ hb => absurd hb List.not_mem_nil
    · have hmore := List.all_eq_true.mp hall _ hmem
      simp only [List.tail_cons, Bool.or_eq_true, List.all_eq_true, beq_iff_eq] at hmore
      rwa [or_assoc] at hmore
  cases h with
  | mark _ => exact ⟨[], tail, rfl, rfl, Or.inl fun _ hb => absurd hb List.not_mem_nil⟩
  | reference _ follows =>
    obtain ⟨space, rest, rfl, hspace, -, rfl⟩ := exists_reference follows
    refine ⟨space ++ [Byte.ampersand], rest, by rw [List.append_assoc]; rfl, ?_, Or.inl ?_⟩
    · rw [List.length_append]
      rfl
    · intro b hb
      rcases List.mem_append.mp hb with hb | hb
      · exact Byte.isPlain_of_isSpace b (hspace b hb)
      · rw [List.mem_singleton.mp hb]
        decide
  | arrow _ => exact hspelled
  | spelled => exact hspelled

end TemplateScript
