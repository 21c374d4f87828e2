import TemplateScript.Proofs.Lexer.Dispatch

/-!
# Numerals as a language

`Numeral.Text` says which bytes make up a numeral: `0x` or `0b` with digits of that radix, or decimal
digits with an optional fraction and an optional exponent.  `Lexeme.numeral` measures the longest
numeral at the start of a text:

* `Numeral.isLongest_fraction` and `Numeral.isLongest_exponent` — so do the scanners of its parts;
* `Numeral.isLongest_radix` and `Numeral.isLongest_decimal` — a radix mark with a digit behind it
  leaves nothing to the decimal form, and without one nothing else is left;
* `Numeral.isReal_decimal_iff` — which numerals are real can be seen from their bytes;
* `Lexer.step_numeral` — the token that a lexer hands out where the next byte is a digit.
-/

namespace TemplateScript

namespace Numeral

/-! ### The language -/

/-- At least one digit, all of them of one class. -/
structure Digits (isDigit : UInt8 → Bool) (text : Bytes) : Prop where
  ne_nil : text ≠ []
  all : ∀ b ∈ text, isDigit b = true

/-- Nothing, or a point and any digits after it. -/
inductive Fraction : Bytes → Prop
  | absent : Fraction []
  | point {digits : Bytes} (all : ∀ b ∈ digits, Byte.isDigit b = true) :
      Fraction (Byte.dot :: digits)

/-- Nothing, or a sign. -/
def Sign (text : Bytes) : Prop := text = [] ∨ text = [Byte.plus] ∨ text = [Byte.minus]

/-- Nothing, or `e` or `E`, perhaps a sign, and digits. -/
inductive Exponent : Bytes → Prop
  | absent : Exponent []
  | mark {mark : UInt8} {sign digits : Bytes} (marks : mark = 0x65 ∨ mark = 0x45)
      (signs : Sign sign) (h : Digits Byte.isDigit digits) : Exponent (mark :: (sign ++ digits))

/-- The bytes are one numeral. -/
inductive Text : Bytes → Prop
  | hexadecimal {mark : UInt8} {digits : Bytes} (marks : mark = 0x78 ∨ mark = 0x58)
      (h : Digits Byte.isHexDigit digits) : Text (Byte.zero :: mark :: digits)
  | binary {mark : UInt8} {digits : Bytes} (marks : mark = 0x62 ∨ mark = 0x42)
      (h : Digits Byte.isBinaryDigit digits) : Text (Byte.zero :: mark :: digits)
  | decimal {whole fraction exponent : Bytes} (h : Digits Byte.isDigit whole)
      (hfraction : Fraction fraction) (hexponent : Exponent exponent) :
      Text (whole ++ (fraction ++ exponent))

/-- The bytes begin with `0x` or `0b`, in either case. -/
def HasRadix (text : Bytes) : Prop :=
  ∃ mark ∈ [0x78, 0x58, 0x62, 0x42], [Byte.zero, mark] <+: text

/-- The bytes have no radix prefix and hold a point or the mark of an exponent. -/
def IsReal (text : Bytes) : Prop :=
  ¬ HasRadix text ∧ ∃ b ∈ text, b = Byte.dot ∨ b = 0x65 ∨ b = 0x45

instance decidableHasRadix (text : Bytes) : Decidable (HasRadix text) :=
  inferInstanceAs (Decidable (∃ mark ∈ [0x78, 0x58, 0x62, 0x42], [Byte.zero, mark] <+: text))

instance decidableIsReal (text : Bytes) : Decidable (IsReal text) :=
  inferInstanceAs (Decidable (_ ∧ ∃ b ∈ text, b = Byte.dot ∨ b = 0x65 ∨ b = 0x45))

variable {isDigit : UInt8 → Bool} {bs digits whole sign exponent parts : Bytes} {b : UInt8}

/-! ### Digits -/

theorem digits_take_runLength (h : Bytes.runLength isDigit bs ≠ 0) :
    Digits isDigit (bs.take (Bytes.runLength isDigit bs)) := by
  refine ⟨fun hnil => h ?_, fun b hb => Bytes.of_mem_take_runLength hb⟩
  have hlength := congrArg List.length hnil
  rwa [List.length_take_of_le (Bytes.runLength_le isDigit bs)] at hlength

theorem Digits.exists_cons (h : Digits isDigit digits) :
    ∃ b more, digits = b :: more ∧ isDigit b = true := by
  obtain ⟨b, more, rfl⟩ := List.exists_cons_of_ne_nil h.ne_nil
  exact ⟨b, more, rfl, h.all b List.mem_cons_self⟩

theorem Digits.length_pos (h : Digits isDigit digits) : 0 < digits.length :=
  List.length_pos_iff.mpr h.ne_nil

/-- A digit is no radix mark, no point, no sign and no exponent mark. -/
theorem ne_of_isDigit :
    ∀ b, Byte.isDigit b = true → b ∉ [0x78, 0x58, 0x62, 0x42] ∧ b ≠ Byte.dot ∧
      ¬ (b = 0x65 ∨ b = 0x45) ∧ ¬ (b = Byte.plus ∨ b = Byte.minus) := by
  decide +kernel

/-! ### The parts of a decimal numeral -/

/-- An exponent that is not empty begins with its mark. -/
theorem head?_of_exponent (h : Exponent exponent) (hb : exponent.head? = some b) :
    b = 0x65 ∨ b = 0x45 := by
  cases h with
  | absent => cases hb
  | mark marks _ _ => exact Option.some.inj hb ▸ marks

/-- The fraction that is scanned is the longest one. -/
theorem isLongest_fraction (bs : Bytes) :
    Bytes.IsLongest Fraction bs (bs.take (fractionLength bs)) := by
  refine Bytes.isLongest_take (fractionLength_le bs) ?_ fun other hother hbegins => ?_
  · cases bs with
    | nil => exact .absent
    | cons point bs =>
      rw [fractionLength]
      split
      · next hpoint =>
        rw [hpoint, Nat.add_comm, List.take_succ_cons]
        exact .point fun b hb => Bytes.of_mem_take_runLength hb
      · exact .absent
  · cases hother with
    | absent => exact Nat.zero_le _
    | @point digits all =>
      obtain ⟨point, bs, rfl⟩ := List.exists_cons_of_ne_nil (hbegins.ne_nil (List.cons_ne_nil _ _))
      obtain ⟨rfl, hdigits⟩ := List.cons_prefix_cons.mp hbegins
      rw [fractionLength, if_pos rfl, List.length_cons, Nat.add_comm]
      exact Nat.add_le_add_left (Bytes.length_le_runLength hdigits all) 1

/-- What is scanned as a sign is one. -/
theorem sign_take (bs : Bytes) : Sign (bs.take (signLength bs)) := by
  cases bs with
  | nil => exact Or.inl rfl
  | cons b bs =>
    rw [signLength]
    split
    · next signs => exact Or.inr (signs.imp (congrArg ([·])) (congrArg ([·])))
    · exact Or.inl rfl

/-- A sign with digits behind it is scanned as one. -/
theorem signLength_of_append (signs : Sign sign) (h : Digits Byte.isDigit digits)
    (hbegins : sign ++ digits <+: bs) :
    signLength bs = sign.length ∧ digits <+: bs.drop sign.length := by
  obtain ⟨rest, rfl⟩ := hbegins
  rw [List.append_assoc, List.drop_append_length]
  refine ⟨?_, List.prefix_append _ _⟩
  rcases signs with rfl | rfl | rfl
  · obtain ⟨b, more, rfl, hb⟩ := h.exists_cons
    exact if_neg (ne_of_isDigit b hb).2.2.2
  · rfl
  · rfl

/-- The exponent that is scanned is the longest one. -/
theorem isLongest_exponent (bs : Bytes) :
    Bytes.IsLongest Exponent bs (bs.take (exponentLength bs)) := by
  refine Bytes.isLongest_take (exponentLength_le bs) ?_ fun other hother hbegins => ?_
  · cases bs with
    | nil => exact .absent
    | cons mark bs =>
      simp only [exponentLength]
      split
      · next marks =>
        split
        · exact .absent
        · next hdigits =>
          rw [Nat.add_assoc, Nat.add_comm, List.take_succ_cons, List.take_add]
          exact .mark marks (sign_take bs) (digits_take_runLength hdigits)
      · exact .absent
  · cases hother with
    | absent => exact Nat.zero_le _
    | @mark mark sign digits marks signs h =>
      obtain ⟨_, bs, rfl⟩ := List.exists_cons_of_ne_nil (hbegins.ne_nil (List.cons_ne_nil _ _))
      obtain ⟨rfl, hrest⟩ := List.cons_prefix_cons.mp hbegins
      obtain ⟨hsign, hdigits⟩ := signLength_of_append signs h hrest
      have hrun := Bytes.length_le_runLength hdigits h.all
      have hpos := h.length_pos
      simp only [exponentLength, if_pos marks, hsign, List.length_cons, List.length_append]
      rw [if_neg (by omega)]
      omega

/-- A fraction and an exponent. -/
inductive Parts : Bytes → Prop
  | mk {fraction exponent : Bytes} (hfraction : Fraction fraction) (hexponent : Exponent exponent) :
      Parts (fraction ++ exponent)

/-- The length of the fraction and the exponent at the start of `bs`. -/
def partsLength (bs : Bytes) : Nat := fractionLength bs + exponentLength (bs.drop (fractionLength bs))

theorem partsLength_le (bs : Bytes) : partsLength bs ≤ bs.length := by
  have hfraction := fractionLength_le bs
  have hexponent := exponentLength_le (bs.drop (fractionLength bs))
  rw [List.length_drop] at hexponent
  rw [partsLength]
  omega

/-- The two parts begin with a point or an exponent mark. -/
theorem Parts.head? {parts : Bytes} (h : Parts parts) (hb : parts.head? = some b) :
    b = Byte.dot ∨ b = 0x65 ∨ b = 0x45 := by
  obtain ⟨hfraction, hexponent⟩ := h
  cases hfraction with
  | absent => exact Or.inr (head?_of_exponent hexponent hb)
  | point _ => exact Or.inl (Option.some.inj hb).symm

/-- Neither of them goes on with the digits before it. -/
theorem Parts.isDigit_of_head? {parts : Bytes} (h : Parts parts) (hb : parts.head? = some b) :
    Byte.isDigit b = false := by
  rcases h.head? hb with rfl | rfl | rfl <;> rfl

/-- The two parts that are scanned are the longest ones together. -/
theorem isLongest_parts (bs : Bytes) : Bytes.IsLongest Parts bs (bs.take (partsLength bs)) := by
  refine Bytes.isLongest_take (partsLength_le bs) ?_ fun other hother hbegins => ?_
  · rw [partsLength, List.take_add]
    exact .mk (isLongest_fraction bs).mem (isLongest_exponent _).mem
  rw [partsLength]
  obtain ⟨hfraction, hexponent⟩ := hother
  rw [List.length_append]
  cases hfraction with
  | absent =>
    -- an exponent leaves no room for a fraction before it
    cases hexponent with
    | absent => exact Nat.zero_le _
    | @mark mark sign digits marks signs h =>
      have hlongest := (isLongest_exponent bs).length_le (.mark marks signs h) hbegins
      obtain ⟨_, bs, rfl⟩ := List.exists_cons_of_ne_nil (hbegins.ne_nil (List.cons_ne_nil _ _))
      obtain ⟨rfl, -⟩ := List.cons_prefix_cons.mp hbegins
      have hnone : fractionLength (mark :: bs) = 0 := by
        refine if_neg ?_
        rintro rfl
        rcases marks with hmark | hmark <;> cases hmark
      rw [hnone, List.drop_zero, List.length_nil]
      exact Nat.add_le_add_left hlongest 0
  | @point digits all =>
    obtain ⟨_, bs, rfl⟩ := List.exists_cons_of_ne_nil (hbegins.ne_nil (List.cons_ne_nil _ _))
    obtain ⟨rfl, hrest⟩ := List.cons_prefix_cons.mp hbegins
    have hlength : fractionLength (Byte.dot :: bs) = 1 + Bytes.runLength Byte.isDigit bs := by
      rw [fractionLength, if_pos rfl]
    have hforeign := fun b => (Parts.mk .absent hexponent).isDigit_of_head? (b := b)
    rw [hlength, Nat.add_comm 1, List.drop_succ_cons, List.length_cons]
    rcases Bytes.run_of_append hrest all hforeign with ⟨rfl, hle⟩ | ⟨-, heq, hexp⟩
    · rw [List.length_nil]
      omega
    · have hlongest := (isLongest_exponent _).length_le hexponent hexp
      omega

/-! ### Numerals with a radix -/

/-- The marks that announce digits of a radix. -/
theorem mem_marks_iff :
    ∀ mark, mark ∈ [0x78, 0x58, 0x62, 0x42] ↔ (radixDigit? mark).isSome = true := by
  decide +kernel

/-- A numeral has a radix mark with digits of the radix behind it, or the parts of a decimal one. -/
theorem Text.radix_or_decimal {text : Bytes} (h : Text text) :
    (∃ mark isDigit digits, radixDigit? mark = some isDigit ∧ Digits isDigit digits ∧
      text = Byte.zero :: mark :: digits) ∨
    ∃ whole parts, Digits Byte.isDigit whole ∧ Parts parts ∧ text = whole ++ parts := by
  cases h with
  | hexadecimal marks h => exact Or.inl ⟨_, _, _, if_pos marks, h, rfl⟩
  | @binary mark digits marks h =>
    refine Or.inl ⟨_, _, _, ?_, h, rfl⟩
    rcases marks with rfl | rfl <;> rfl
  | decimal h hfraction hexponent => exact Or.inr ⟨_, _, h, .mk hfraction hexponent, rfl⟩

theorem text_of_decimal (h : Digits Byte.isDigit whole) (hparts : Parts parts) :
    Text (whole ++ parts) := by
  obtain ⟨hfraction, hexponent⟩ := hparts
  exact .decimal h hfraction hexponent

theorem text_of_radix {mark : UInt8} (hmark : radixDigit? mark = some isDigit)
    (h : Digits isDigit digits) : Text (Byte.zero :: mark :: digits) := by
  rw [radixDigit?] at hmark
  split at hmark
  · next marks =>
    cases hmark
    exact .hexadecimal marks h
  · split at hmark
    · next marks =>
      cases hmark
      exact .binary marks h
    · cases hmark

/-- The scanner finds a numeral with a radix exactly if a mark with a digit behind it is ahead. -/
theorem radixLength?_eq_some_iff {n : Nat} : radixLength? bs = some n ↔
    ∃ mark isDigit digits, radixDigit? mark = some isDigit ∧ bs = Byte.zero :: mark :: digits ∧
      Bytes.runLength isDigit digits ≠ 0 ∧ 2 + Bytes.runLength isDigit digits = n := by
  constructor
  · intro h
    match bs, h with
    | zero :: mark :: digits, h =>
      simp only [radixLength?] at h
      split at h
      · next hzero =>
        split at h
        · next isDigit hmark =>
          split at h
          · cases h
          · next hdigits =>
            cases h
            exact ⟨mark, isDigit, digits, hmark, by rw [hzero], hdigits, rfl⟩
        · cases h
      · cases h
    | [_], h => cases h
    | [], h => cases h
  · rintro ⟨mark, isDigit, digits, hmark, rfl, hdigits, rfl⟩
    simp only [radixLength?, if_true, hmark, if_neg hdigits]

/-- Before a radix mark a decimal numeral is a single zero. -/
theorem length_decimal_le_one {mark : UInt8} (hmark : (radixDigit? mark).isSome = true)
    (h : Digits Byte.isDigit whole) (hparts : Parts parts)
    (hbegins : whole ++ parts <+: Byte.zero :: mark :: bs) : (whole ++ parts).length ≤ 1 := by
  obtain ⟨b, whole, rfl, -⟩ := h.exists_cons
  rw [List.cons_append] at hbegins ⊢
  obtain ⟨-, hahead⟩ := List.cons_prefix_cons.mp hbegins
  -- the next byte would be a digit, a point or an exponent mark, and a radix mark is none of them
  have hnil : whole ++ parts = [] := by
    cases hmore : whole ++ parts with
    | nil => rfl
    | cons c more =>
      rw [hmore] at hahead
      obtain ⟨rfl, -⟩ := List.cons_prefix_cons.mp hahead
      cases whole with
      | cons d whole =>
        obtain ⟨rfl, -⟩ := List.cons.inj hmore
        have hdigit := h.all d (List.mem_cons_of_mem b List.mem_cons_self)
        exact absurd ((mem_marks_iff d).mpr hmark) (ne_of_isDigit d hdigit).1
      | nil =>
        rcases hparts.head? (congrArg List.head? hmore) with rfl | rfl | rfl <;> cases hmark
  rw [hnil]
  exact Nat.le_refl 1

/-- Where a radix mark with a digit behind it stands, the longest numeral has that radix. -/
theorem isLongest_radix {n : Nat} (h : radixLength? bs = some n) :
    Bytes.IsLongest Text bs (bs.take n) := by
  have hn := (radixLength?_le h).2
  obtain ⟨mark, isDigit, digits, hmark, rfl, hdigits, rfl⟩ := radixLength?_eq_some_iff.mp h
  refine Bytes.isLongest_take hn ?_ fun other hother hbegins => ?_
  · rw [Nat.add_comm]
    exact text_of_radix hmark (digits_take_runLength hdigits)
  · rcases hother.radix_or_decimal with ⟨mark', isDigit', digits', hmark', hdigits', rfl⟩ |
      ⟨whole, parts, hwhole, hparts, rfl⟩
    · obtain ⟨rfl, hahead⟩ := List.cons_prefix_cons.mp (List.cons_prefix_cons.mp hbegins).2
      obtain rfl := Option.some.inj (hmark.symm.trans hmark')
      have hrun := Bytes.length_le_runLength hahead hdigits'.all
      rw [List.length_cons, List.length_cons]
      omega
    · have hle := length_decimal_le_one (hmark ▸ rfl) hwhole hparts hbegins
      omega

/-! ### Decimal numerals -/

/-- The length of the decimal numeral at the start of `bs`. -/
def decimalLength (bs : Bytes) : Nat :=
  Bytes.runLength Byte.isDigit bs + partsLength (bs.drop (Bytes.runLength Byte.isDigit bs))

theorem take_decimalLength (bs : Bytes) : bs.take (decimalLength bs) =
    bs.take (Bytes.runLength Byte.isDigit bs) ++ (bs.drop (Bytes.runLength Byte.isDigit bs)).take
      (partsLength (bs.drop (Bytes.runLength Byte.isDigit bs))) := by
  rw [decimalLength, List.take_add]

theorem decimalLength_le (bs : Bytes) : decimalLength bs ≤ bs.length := by
  have hwhole := Bytes.runLength_le Byte.isDigit bs
  have hparts := partsLength_le (bs.drop (Bytes.runLength Byte.isDigit bs))
  rw [List.length_drop] at hparts
  rw [decimalLength]
  omega

/-- Where no radix mark with a digit behind it stands, the longest numeral is decimal. -/
theorem isLongest_decimal (h : radixLength? bs = none)
    (digit : Bytes.runLength Byte.isDigit bs ≠ 0) :
    Bytes.IsLongest Text bs (bs.take (decimalLength bs)) := by
  have hparts := isLongest_parts (bs.drop (Bytes.runLength Byte.isDigit bs))
  refine Bytes.isLongest_take (decimalLength_le bs) ?_ fun other hother hbegins => ?_
  · rw [take_decimalLength]
    exact text_of_decimal (digits_take_runLength digit) hparts.mem
  · rw [decimalLength]
    rcases hother.radix_or_decimal with ⟨mark, isDigit, digits, hmark, hdigits, rfl⟩ |
      ⟨whole, parts, hwhole, hmore, rfl⟩
    · -- a numeral with a radix would have been found
      obtain ⟨rest, rfl⟩ := hbegins
      have hrun := Bytes.length_le_runLength (List.prefix_append digits rest) hdigits.all
      have hpos := hdigits.length_pos
      have hfound := radixLength?_eq_some_iff.mpr
        ⟨mark, isDigit, digits ++ rest, hmark, rfl, by omega, rfl⟩
      rw [List.cons_append, List.cons_append, hfound] at h
      cases h
    · rw [List.length_append]
      rcases Bytes.run_of_append hbegins hwhole.all fun b => hmore.isDigit_of_head? with
        ⟨rfl, hle⟩ | ⟨-, heq, hahead⟩
      · exact Nat.le_trans hle (Nat.le_add_right _ _)
      · rw [heq]
        exact Nat.add_le_add_left (hparts.length_le hmore hahead) _

/-! ### Which numerals are real -/

/-- A numeral with a radix is an integer. -/
theorem not_isReal_take_radix {n : Nat} (h : radixLength? bs = some n) : ¬ IsReal (bs.take n) := by
  obtain ⟨mark, isDigit, digits, hmark, rfl, -, rfl⟩ := radixLength?_eq_some_iff.mp h
  refine fun hreal => hreal.1 ⟨mark, (mem_marks_iff mark).mpr (by rw [hmark]; rfl), ?_⟩
  rw [Nat.add_comm]
  exact List.prefix_append [Byte.zero, mark] _

/-- A decimal numeral has no radix prefix. -/
theorem not_hasRadix_decimal (h : Digits Byte.isDigit whole) (hparts : Parts parts) :
    ¬ HasRadix (whole ++ parts) := by
  rintro ⟨mark, hmem, hbegins⟩
  have hmark := (mem_marks_iff mark).mp hmem
  obtain ⟨rest, hrest⟩ := hbegins
  have hahead : whole ++ parts <+: Byte.zero :: mark :: rest := hrest ▸ List.prefix_rfl
  have hle := length_decimal_le_one hmark h hparts hahead
  rw [← hrest] at hle
  simp at hle

/-- A decimal numeral is real if it has a fraction or an exponent. -/
theorem isReal_decimal_iff (h : Digits Byte.isDigit whole) (hparts : Parts parts) :
    IsReal (whole ++ parts) ↔ parts ≠ [] := by
  constructor
  · rintro ⟨-, b, hb, hmark⟩ rfl
    rw [List.append_nil] at hb
    have hdigit := ne_of_isDigit b (h.all b hb)
    exact hmark.elim hdigit.2.1 hdigit.2.2.1
  · intro hne
    obtain ⟨b, more, rfl⟩ := List.exists_cons_of_ne_nil hne
    exact ⟨not_hasRadix_decimal h hparts, b, by simp, hparts.head? rfl⟩

theorem isReal_take_decimal_iff (digit : Bytes.runLength Byte.isDigit bs ≠ 0) :
    IsReal (bs.take (decimalLength bs)) ↔
      partsLength (bs.drop (Bytes.runLength Byte.isDigit bs)) ≠ 0 := by
  have hparts := isLongest_parts (bs.drop (Bytes.runLength Byte.isDigit bs))
  rw [take_decimalLength, isReal_decimal_iff (digits_take_runLength digit) hparts.mem,
    ← List.length_pos_iff, List.length_take_of_le (partsLength_le _), Nat.pos_iff_ne_zero]

end Numeral

/-! ### The scanner -/

namespace Lexeme

variable {bs : Bytes}

theorem numeral_of_radix {n : Nat} (h : Numeral.radixLength? bs = some n) :
    numeral bs = .whole (.fixed .integer) n := by
  rw [numeral, h]

theorem numeral_of_decimal (h : Numeral.radixLength? bs = none) :
    numeral bs = .whole
      (.fixed (if Numeral.partsLength (bs.drop (Bytes.runLength Byte.isDigit bs)) = 0 then .integer
        else .real))
      (Numeral.decimalLength bs) := by
  rw [numeral, h]
  simp only [Numeral.decimalLength, Numeral.partsLength, List.drop_drop, Nat.add_assoc]

/-- The numeral at a digit is the longest one there, and its bytes say whether it is real. -/
theorem exists_numeral {first : UInt8} (digit : Byte.isDigit first = true) (tail : Bytes) :
    ∃ text, Bytes.IsLongest Numeral.Text (first :: tail) text ∧ numeral (first :: tail) =
      .whole (.fixed (if Numeral.IsReal text then .real else .integer)) text.length := by
  have hrun : Bytes.runLength Byte.isDigit (first :: tail) ≠ 0 := by
    rw [Bytes.runLength_cons_of_pos digit]
    exact Nat.succ_ne_zero _
  generalize first :: tail = bs at hrun
  cases hradix : Numeral.radixLength? bs with
  | some n =>
    refine ⟨bs.take n, Numeral.isLongest_radix hradix, ?_⟩
    rw [numeral_of_radix hradix, if_neg (Numeral.not_isReal_take_radix hradix),
      List.length_take_of_le (Numeral.radixLength?_le hradix).2]
  | none =>
    refine ⟨bs.take (Numeral.decimalLength bs), Numeral.isLongest_decimal hradix hrun, ?_⟩
    rw [numeral_of_decimal hradix, List.length_take_of_le (Numeral.decimalLength_le bs)]
    simp only [Numeral.isReal_take_decimal_iff hrun, ne_eq, ite_not]

end Lexeme

namespace Lexer

/-- A step that comes to a digit hands out the longest numeral there, real if it has a point or an
exponent and no radix prefix, and moves right behind it. -/
theorem step_numeral {l : Lexer} {gap tail : Bytes} {first : UInt8}
    (rest : l.cursor.rest = gap ++ first :: tail) (trivia : Trivia gap (first :: tail))
    (digit : Byte.isDigit first = true) (resolve : Resolver) :
    ∃ token : Token, (l.step resolve).answer = .ok (.emit token) ∧
      Bytes.IsLongest Numeral.Text (first :: tail) (token.textIn l.cursor.source) ∧
      token.text.start = l.offset + gap.length ∧
      (l.step resolve).lexer.offset = token.text.stop ∧
      token.kind =
        if Numeral.IsReal (token.textIn l.cursor.source) then .real else .integer := by
  have hmeets := meets_of_trivia rest trivia (not_startsTrivia (Or.inr (Or.inl digit)) tail)
  obtain ⟨text, hlongest, hnumeral⟩ := Lexeme.exists_numeral digit tail
  have hscan : Construct.scan l.options first tail = .lexeme (.numeral (first :: tail)) :=
    Construct.scan_of_digit digit
  obtain ⟨hanswer, hoffset⟩ := hmeets.step_of_lexeme hscan resolve
  have htext : (Span.mk (l.offset + gap.length) text.length).slice l.cursor.source = text := by
    rw [hmeets.slice_source hlongest.begins.length_le]
    exact (List.prefix_iff_eq_take.mp hlongest.begins).symm
  rw [hnumeral] at hanswer hoffset
  let token : Token :=
    { kind := if Numeral.IsReal text then .real else .integer
      text := ⟨l.offset + gap.length, text.length⟩
      line := l.line.after gap }
  have htextIn : token.textIn l.cursor.source = text := htext
  refine ⟨token, hanswer, ?_, rfl, hoffset, ?_⟩
  · rw [htextIn]
    exact hlongest
  · rw [htextIn]

/-- An exponent without digits is left behind. -/
theorem step_numeral_of_bare_exponent :
    let l := Lexer.start (ascii " 1.e+x") {}
    l.cursor.rest = ascii " " ++ ascii "1.e+x" ∧ Trivia (ascii " ") (ascii "1.e+x") ∧
      Byte.isDigit 0x31 = true ∧ ∃ token, (l.step .standard).answer = .ok (.emit token) ∧
        Bytes.IsLongest Numeral.Text (ascii "1.e+x") (token.textIn l.cursor.source) ∧
        token = { kind := .real, text := ⟨1, 2⟩, line := .first } := by
  have htrivia : Trivia (ascii " ") (ascii "1.e+x") := .space rfl .nil
  refine ⟨rfl, htrivia, rfl, ?_⟩
  obtain ⟨token, hanswer, hlongest, -⟩ := step_numeral
    (l := Lexer.start (ascii " 1.e+x") {}) rfl htrivia rfl .standard
  have hrun : ((Lexer.start (ascii " 1.e+x") {}).step .standard).answer =
      .ok (.emit { kind := .real, text := ⟨1, 2⟩, line := .first }) := by decide +kernel
  exact ⟨token, hanswer, hlongest, Edit.emit.inj (Except.ok.inj (hanswer.symm.trans hrun))⟩

end Lexer

end TemplateScript
