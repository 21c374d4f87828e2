import TemplateScript.Lexeme.Word
import TemplateScript.Proofs.Bytes

/-!
# Words as a language

`Word.Text` says which bytes make up a word: word bytes, and characters of a lead byte with the
continuation bytes after it.  `Word.length` measures the longest word at the start of a text:

* `Word.text_take_length` — what it measures is a word;
* `Word.exists_lengthFrom_text` — every word ahead is counted in full, so `Word.isLongest_take_length`
  — nothing longer is a word, and `Word.length_append` — a word that no further byte continues is
  measured exactly.
-/

namespace TemplateScript.Word

/-- The bytes are word bytes and multi-byte characters, in any order. -/
inductive Text : Bytes → Prop
  | nil : Text []
  | character {lead : UInt8} {later rest : Bytes} (first : Byte.isLead lead = true)
      (continues : ∀ b ∈ later, Byte.isContinuation b = true) (further : Text rest) :
      Text (lead :: (later ++ rest))
  | byte {b : UInt8} {rest : Bytes} (first : Byte.isWordByte b = true) (further : Text rest) :
      Text (b :: rest)

/-- The byte may stand in a word. -/
def Continues (b : UInt8) : Prop :=
  Byte.isLead b = true ∨ Byte.isWordByte b = true ∨ Byte.isContinuation b = true

theorem not_isLead_of_isContinuation :
    ∀ b, Byte.isContinuation b = true → Byte.isLead b = false := by
  decide +kernel

theorem not_isWordByte_of_isContinuation :
    ∀ b, Byte.isContinuation b = true → Byte.isWordByte b = false := by
  decide +kernel

/-- Every byte of a word may stand in one. -/
theorem continues_of_text {text : Bytes} (h : Text text) : ∀ b ∈ text, Continues b := by
  induction h with
  | nil => exact fun _ hb => absurd hb List.not_mem_nil
  | character first continues _ ih =>
    intro b hb
    rcases List.mem_cons.mp hb with rfl | hb
    · exact Or.inl first
    · rcases List.mem_append.mp hb with hb | hb
      · exact Or.inr (Or.inr (continues b hb))
      · exact ih b hb
  | byte first _ ih =>
    intro b hb
    rcases List.mem_cons.mp hb with rfl | hb
    · exact Or.inr (Or.inl first)
    · exact ih b hb

/-! ### What is measured is a word -/

theorem text_take_lengthFrom (bs : Bytes) :
    Text (bs.take (lengthFrom 0 false bs)) ∧
      ∃ later text, bs.take (lengthFrom 0 true bs) = later ++ text ∧
        (∀ b ∈ later, Byte.isContinuation b = true) ∧ Text text := by
  induction bs with
  | nil => exact ⟨.nil, [], [], rfl, nofun, .nil⟩
  | cons b bs ih =>
    obtain ⟨hfalse, later, text, htrue, hlater, htext⟩ := ih
    have hstep : ∀ inCharacter : Bool,
        (b :: bs).take (lengthFrom (0 + 1) inCharacter bs) =
          b :: bs.take (lengthFrom 0 inCharacter bs) := by
      intro inCharacter
      rw [lengthFrom_eq, Nat.add_comm, List.take_succ_cons]
    have hlead : Byte.isLead b = true → Text (b :: bs.take (lengthFrom 0 true bs)) := by
      intro hb
      rw [htrue]
      exact .character hb hlater htext
    simp only [lengthFrom]
    by_cases hl : Byte.isLead b = true
    · simp only [hl, if_true, hstep]
      exact ⟨hlead hl, [], _, rfl, nofun, hlead hl⟩
    · by_cases hw : Byte.isWordByte b = true
      · simp only [hl, hw, if_true, hstep, Bool.false_eq_true, if_false]
        exact ⟨.byte hw hfalse, [], _, rfl, nofun, .byte hw hfalse⟩
      · by_cases hc : Byte.isContinuation b = true
        · simp only [hl, hw, hc, Bool.false_eq_true, if_false, Bool.false_and, Bool.true_and,
            if_true, hstep, htrue]
          exact ⟨.nil, b :: later, text, rfl, List.forall_mem_cons.mpr ⟨hc, hlater⟩, htext⟩
        · simp only [hl, hw, hc, Bool.false_eq_true, if_false, Bool.false_and, Bool.true_and]
          exact ⟨.nil, [], [], rfl, nofun, .nil⟩

theorem text_take_length (bs : Bytes) : Text (bs.take (length bs)) :=
  (text_take_lengthFrom bs).1

/-! ### A word is measured in full -/

theorem lengthFrom_later (counted : Nat) (later rest : Bytes)
    (h : ∀ b ∈ later, Byte.isContinuation b = true) :
    lengthFrom counted true (later ++ rest) = lengthFrom (counted + later.length) true rest := by
  induction later generalizing counted with
  | nil => rfl
  | cons b later ih =>
    obtain ⟨hb, hlater⟩ := List.forall_mem_cons.mp h
    rw [List.cons_append, lengthFrom, not_isLead_of_isContinuation b hb,
      not_isWordByte_of_isContinuation b hb, hb]
    simp only [Bool.false_eq_true, if_false, Bool.and_self, if_true]
    rw [ih _ hlater, List.length_cons]
    congr 1
    omega

/-- The bytes of a word are counted before anything behind them is looked at. -/
theorem exists_lengthFrom_text {text : Bytes} (h : Text text) (rest : Bytes) (counted : Nat)
    (inCharacter : Bool) : ∃ inside, lengthFrom counted inCharacter (text ++ rest) =
      lengthFrom (counted + text.length) inside rest := by
  induction h generalizing counted inCharacter with
  | nil => exact ⟨inCharacter, rfl⟩
  | @character lead later text first continues _ ih =>
    obtain ⟨inside, hinside⟩ := ih (counted + 1 + later.length) true
    refine ⟨inside, ?_⟩
    rw [List.cons_append, lengthFrom, if_pos first, List.append_assoc,
      lengthFrom_later _ _ _ continues, hinside, List.length_cons, List.length_append]
    congr 1
    omega
  | @byte b text first _ ih =>
    rw [List.cons_append, lengthFrom, List.length_cons, Nat.add_comm text.length,
      ← Nat.add_assoc]
    by_cases hl : Byte.isLead b = true
    · rw [if_pos hl]
      exact ih (counted + 1) true
    · rw [if_neg hl, if_pos first]
      exact ih (counted + 1) false

/-- What is measured is the longest word ahead. -/
theorem isLongest_take_length (bs : Bytes) : Bytes.IsLongest Text bs (bs.take (length bs)) := by
  refine Bytes.isLongest_take (length_le bs) (text_take_length bs) fun other hother hbegins => ?_
  obtain ⟨rest, rfl⟩ := hbegins
  obtain ⟨inside, hinside⟩ := exists_lengthFrom_text hother rest 0 false
  rw [length, hinside, lengthFrom_eq, Nat.zero_add]
  exact Nat.le_add_right _ _

theorem length_append {text rest : Bytes} (h : Text text)
    (stop : ∀ b, rest.head? = some b → ¬ Continues b) :
    length (text ++ rest) = text.length := by
  obtain ⟨inside, hinside⟩ := exists_lengthFrom_text h rest 0 false
  rw [length, hinside, Nat.zero_add]
  cases rest with
  | nil => rfl
  | cons b rest =>
    have hb := stop b rfl
    simp only [Continues, not_or, Bool.not_eq_true] at hb
    simp [lengthFrom, hb.1, hb.2.1, hb.2.2]

/-! ### Words that are not empty -/

/-- The bytes are a word, and there are some. -/
structure IsWord (text : Bytes) : Prop where
  ne_nil : text ≠ []
  text : Text text

/-- At a byte that starts a word stands a longest word, and it is not empty. -/
theorem isLongest_isWord {first : UInt8} (start : Byte.isWordStart first = true) (tail : Bytes) :
    Bytes.IsLongest IsWord (first :: tail) ((first :: tail).take (length (first :: tail))) := by
  have hlongest := isLongest_take_length (first :: tail)
  have hpos : 0 < length (first :: tail) := by
    refine length_pos ?_ tail
    simp only [Byte.isWordStart, Byte.isWordByte, Bool.or_eq_true] at start ⊢
    rcases start with (h | h) | h <;> simp [h]
  refine Bytes.isLongest_take (length_le _) ⟨?_, hlongest.mem⟩ fun other hother hbegins =>
    hlongest.length_le hother.text hbegins
  rw [← List.length_pos_iff, List.length_take_of_le (length_le _)]
  exact hpos

end TemplateScript.Word
