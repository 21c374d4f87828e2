import Mathlib.Data.List.TakeWhile
import TemplateScript.Byte

/-!
# What the measurements measure

The scanners see a text only through `Bytes.runLength`, `Bytes.lineLength`, `Bytes.trimmedLength`
and `Bytes.findPair?`.  Here each of them is a cut of the text into two pieces:

* `runLength_append` — a run that a foreign byte or the end follows is the whole run, and
  `runLength_append_eq` — what more bytes behind a text make of a run;
* `prefix_of_prefix_append` — a prefix of two pieces that cannot reach into the second;
* `IsLongest` — the longest prefix of a text in a language, `isLongest_take` and `IsLongest.length_le`
  — for the prefixes that are measured, and `run_of_append` — how far a run at the start of one goes;
* `exists_line` — the bytes before the first newline, `lineLength_append` — which do not change if
  more follows it;
* `exists_trim` — a text without the white space at its end, and that white space;
* `exists_findPair` and `findPair?_eq_none` — the bytes before the first place of a pair of bytes;
* `findPair?_append` and `findPair?_append_of_some` — a pair that lies within a text is found there
  whatever follows the text;
* `findPair?_of_not_infix` — a pair behind bytes that do not hold it is found there.
-/

namespace TemplateScript

/-- A fact about every byte can be checked byte by byte. -/
instance Byte.decidableForall (p : UInt8 → Prop) [DecidablePred p] : Decidable (∀ b, p b) :=
  decidable_of_iff (∀ n : Fin 256, p (UInt8.ofFin n))
    ⟨fun h b => h b.toFin, fun h n => h (UInt8.ofFin n)⟩

/-- What trimming drops is white space. -/
theorem Byte.isSpace_of_isTrailingSpace : ∀ b, isTrailingSpace b = true → isSpace b = true := by
  decide +kernel

namespace Bytes

variable {p : UInt8 → Bool} {bs xs ys : Bytes} {a b : UInt8}

/-! ### Runs -/

theorem take_runLength (p : UInt8 → Bool) (bs : Bytes) :
    bs.take (runLength p bs) = bs.takeWhile p :=
  (List.prefix_iff_eq_take.mp (List.takeWhile_prefix p)).symm

theorem drop_runLength (p : UInt8 → Bool) (bs : Bytes) :
    bs.drop (runLength p bs) = bs.dropWhile p := by
  have h : bs.take (runLength p bs) ++ bs.drop (runLength p bs) = _ :=
    (List.take_append_drop _ bs).trans (List.takeWhile_append_dropWhile (p := p)).symm
  rw [take_runLength] at h
  exact List.append_cancel_left h

theorem of_mem_take_runLength (h : b ∈ bs.take (runLength p bs)) : p b = true := by
  rw [take_runLength] at h
  exact List.mem_takeWhile_imp h

/-- The byte right after a run does not belong to it. -/
theorem of_head?_drop_runLength (h : (bs.drop (runLength p bs)).head? = some b) : p b = false := by
  have hn := List.head?_dropWhile_not p bs
  rw [← drop_runLength, h] at hn
  exact hn

/-- Behind a run that does not take all there is a byte. -/
theorem exists_drop_runLength (h : runLength p bs ≠ bs.length) :
    ∃ b rest, bs.drop (runLength p bs) = b :: rest := by
  refine List.exists_cons_of_ne_nil fun hnil => h ?_
  exact Nat.le_antisymm (runLength_le p bs) (List.drop_eq_nil_iff.mp hnil)

/-- A run is measured exactly when a foreign byte, or nothing, follows it. -/
theorem runLength_append (hx : ∀ b ∈ xs, p b = true) (hy : ∀ b, ys.head? = some b → p b = false) :
    runLength p (xs ++ ys) = xs.length := by
  have hstop : ys.takeWhile p = [] := by
    cases ys with
    | nil => rfl
    | cons b ys => simp [hy b rfl]
  rw [runLength, List.takeWhile_append_of_pos hx, hstop, List.append_nil]

/-- A run goes on behind a text exactly if it takes all of the text. -/
theorem runLength_append_eq (p : UInt8 → Bool) (xs ys : Bytes) : runLength p (xs ++ ys) =
    if runLength p xs = xs.length then xs.length + runLength p ys else runLength p xs := by
  rw [runLength, List.takeWhile_append, apply_ite List.length, List.length_append]
  rfl

/-- A run of all there is. -/
theorem runLength_of_forall (h : ∀ b ∈ xs, p b = true) : runLength p xs = xs.length := by
  rw [runLength, List.takeWhile_eq_self_iff.mpr h]

/-- A run goes at least as far as the bytes of its class that are ahead. -/
theorem length_le_runLength (h : xs <+: bs) (hx : ∀ b ∈ xs, p b = true) :
    xs.length ≤ runLength p bs := by
  obtain ⟨rest, rfl⟩ := h
  rw [runLength_append_eq, if_pos (runLength_of_forall hx)]
  exact Nat.le_add_right _ _

/-! ### Prefixes -/

/-- A prefix without the first byte of the second piece lies within the first. -/
theorem prefix_of_prefix_append (h : xs <+: ys ++ bs) (hfree : ∀ b ∈ xs, bs.head? ≠ some b) :
    xs <+: ys := by
  rcases List.prefix_or_prefix_of_prefix h (List.prefix_append ys bs) with h' | ⟨more, rfl⟩
  · exact h'
  · cases more with
    | nil => exact (List.append_nil ys).symm ▸ List.prefix_rfl
    | cons b more =>
      obtain ⟨rest, hrest⟩ := (List.prefix_append_right_inj ys).mp h
      have hhead : bs.head? = some b := by rw [← hrest]; rfl
      exact absurd hhead (hfree b (List.mem_append_right _ List.mem_cons_self))

/-- `text` is the longest of the texts of `Language` that `bs` begins with. -/
structure IsLongest (Language : Bytes → Prop) (bs text : Bytes) : Prop where
  mem : Language text
  begins : text <+: bs
  longest : ∀ other, Language other → other <+: bs → other.length ≤ text.length

/-- The first `n` bytes are the longest text if they are one and no longer one is ahead. -/
theorem isLongest_take {Language : Bytes → Prop} {n : Nat} (hn : n ≤ bs.length)
    (mem : Language (bs.take n))
    (longest : ∀ other, Language other → other <+: bs → other.length ≤ n) :
    IsLongest Language bs (bs.take n) :=
  ⟨mem, List.take_prefix n bs, by rwa [List.length_take_of_le hn]⟩

theorem IsLongest.length_le {Language : Bytes → Prop} {n : Nat}
    (h : IsLongest Language bs (bs.take n)) (hxs : Language xs) (hbegins : xs <+: bs) :
    xs.length ≤ n :=
  Nat.le_trans (h.longest xs hxs hbegins) (List.length_take_le n bs)

/-- A run at the start of `bs`, before a foreign byte, goes as far as it can; with nothing behind it
it may stop earlier. -/
theorem run_of_append (h : xs ++ ys <+: bs) (hx : ∀ b ∈ xs, p b = true)
    (hy : ∀ b, ys.head? = some b → p b = false) :
    (ys = [] ∧ xs.length ≤ runLength p bs) ∨
      (ys ≠ [] ∧ xs.length = runLength p bs ∧ ys <+: bs.drop (runLength p bs)) := by
  cases ys with
  | nil => exact Or.inl ⟨rfl, length_le_runLength (List.append_nil xs ▸ h) hx⟩
  | cons b ys =>
    obtain ⟨rest, rfl⟩ := h
    rw [List.append_assoc]
    have hrun : runLength p (xs ++ (b :: ys ++ rest)) = xs.length :=
      runLength_append hx fun c hc => hy c hc
    refine Or.inr ⟨List.cons_ne_nil b ys, hrun.symm, ?_⟩
    rw [hrun, List.drop_append_length]
    exact List.prefix_append _ _

/-- What is left after a construct and `n` more bytes. -/
theorem drop_cons_add {length : Nat} (hpos : 0 < length) (n : Nat) :
    (b :: bs).drop (length + n) = (bs.drop (length - 1)).drop n := by
  obtain ⟨m, rfl⟩ := Nat.exists_eq_add_of_lt hpos
  rw [List.drop_drop, Nat.zero_add, Nat.add_right_comm, List.drop_succ_cons, Nat.add_sub_cancel]

/-! ### Lines -/

/-- A text is its first line and what the newline, if there is one, begins. -/
theorem exists_line (bs : Bytes) :
    ∃ text rest, bs = text ++ rest ∧ text.length = lineLength bs ∧ Byte.newline ∉ text ∧
      (rest = [] ∨ rest.head? = some Byte.newline) := by
  refine ⟨bs.take (lineLength bs), bs.drop (lineLength bs), (List.take_append_drop _ _).symm,
    List.length_take_of_le (lineLength_le bs), fun hn => ?_, ?_⟩
  · simpa using of_mem_take_runLength hn
  · cases hr : bs.drop (lineLength bs) with
    | nil => exact Or.inl rfl
    | cons b rest =>
      have hb : (b != Byte.newline) = false :=
        of_head?_drop_runLength (p := (· != Byte.newline)) (congrArg List.head? hr)
      exact Or.inr (congrArg some (by simpa using hb))

/-- A newline that lies within a text ends its first line whatever follows the text. -/
theorem lineLength_append (h : lineLength xs < xs.length) (ys : Bytes) :
    lineLength (xs ++ ys) = lineLength xs := by
  rw [lineLength] at h
  rw [lineLength, lineLength, runLength_append_eq, if_neg (Nat.ne_of_lt h)]

/-! ### White space at the end -/

/-- A text is what is left of it after trimming and the white space that was dropped. -/
theorem exists_trim (bs : Bytes) :
    ∃ text space, bs = text ++ space ∧ text.length = trimmedLength bs ∧
      (∀ b ∈ space, Byte.isTrailingSpace b = true) ∧
      (∀ b, text.getLast? = some b → Byte.isTrailingSpace b = false) := by
  have hsplit := List.takeWhile_append_dropWhile (p := Byte.isTrailingSpace) (l := bs.reverse)
  refine ⟨(bs.reverse.dropWhile Byte.isTrailingSpace).reverse,
    (bs.reverse.takeWhile Byte.isTrailingSpace).reverse, ?_, List.length_reverse, ?_, ?_⟩
  · rw [← List.reverse_append, hsplit, List.reverse_reverse]
  · intro b hb
    exact List.mem_takeWhile_imp (List.mem_reverse.mp hb)
  · intro b hb
    rw [List.getLast?_reverse] at hb
    have hn := List.head?_dropWhile_not Byte.isTrailingSpace bs.reverse
    rw [hb] at hn
    exact hn

/-! ### Pairs -/

/-- The bytes before the pair that is found do not hold the pair. -/
theorem exists_findPair {n : Nat} (h : findPair? a b bs = some n) :
    ∃ body rest, bs = body ++ a :: b :: rest ∧ body.length = n ∧ ¬ [a, b] <:+: body := by
  unfold findPair? at h
  induction bs generalizing n with
  | nil => cases h
  | cons c bs ih =>
    rw [findPairFrom?] at h
    split at h
    · next hc =>
      cases h
      simp only [Bool.and_eq_true, beq_iff_eq] at hc
      obtain ⟨rfl, hb⟩ := hc
      obtain ⟨rest, rfl⟩ : ∃ rest, bs = b :: rest := by
        cases bs with
        | nil => cases hb
        | cons d rest => exact ⟨rest, by rw [Option.some.inj hb]⟩
      exact ⟨[], rest, rfl, rfl, by simp⟩
    · next hc =>
      rw [findPairFrom?_eq] at h
      obtain ⟨m, hm, rfl⟩ := Option.map_eq_some_iff.mp h
      obtain ⟨body, rest, rfl, rfl, hfree⟩ := ih hm
      refine ⟨c :: body, rest, rfl, by rw [List.length_cons]; omega, ?_⟩
      intro hin
      rcases List.infix_cons_iff.mp hin with hpre | hin
      · obtain ⟨hc', hpre⟩ := List.cons_prefix_cons.mp hpre
        cases body with
        | nil => simp at hpre
        | cons d body =>
          obtain ⟨hd, -⟩ := List.cons_prefix_cons.mp hpre
          simp [hc', hd] at hc
      · exact hfree hin

/-- A pair that is not found does not occur. -/
theorem findPair?_eq_none (h : findPair? a b bs = none) : ¬ [a, b] <:+: bs := by
  unfold findPair? at h
  induction bs with
  | nil => simp
  | cons c bs ih =>
    rw [findPairFrom?] at h
    split at h
    · cases h
    · next hc =>
      rw [findPairFrom?_eq, Option.map_eq_none_iff] at h
      intro hin
      rcases List.infix_cons_iff.mp hin with hpre | hin
      · obtain ⟨hc', rest, rfl⟩ := List.cons_prefix_cons.mp hpre
        simp [hc'] at hc
      · exact ih h hin

/-- A pair of two different bytes is found behind bytes that do not hold it. -/
theorem findPair?_of_not_infix (hne : a ≠ b) (h : ¬ [a, b] <:+: xs) (ys : Bytes) :
    findPair? a b (xs ++ a :: b :: ys) = some xs.length := by
  unfold findPair?
  induction xs with
  | nil =>
    rw [List.nil_append, findPairFrom?]
    simp
  | cons c xs ih =>
    have hfree : ¬ [a, b] <:+: xs := fun hin => h (List.infix_cons hin)
    have hhead : ¬ (c = a ∧ (xs ++ a :: b :: ys).head? = some b) := by
      rintro ⟨rfl, hb⟩
      cases xs with
      | nil => exact hne (Option.some.inj hb)
      | cons d xs =>
        obtain rfl := Option.some.inj hb
        exact h ⟨[], xs, rfl⟩
    rw [List.cons_append, findPairFrom?, if_neg (by simpa using hhead), findPairFrom?_eq]
    show (findPairFrom? a b 0 _).map (0 + 1 + ·) = _
    rw [ih hfree, List.length_cons, Option.map_some, Nat.zero_add, Nat.add_comm]

/-- A pair that lies within a text is the first one there as well. -/
theorem findPair?_append {n : Nat} (h : findPair? a b (xs ++ ys) = some n)
    (hn : n + 2 ≤ xs.length) : findPair? a b xs = some n := by
  unfold findPair? at h ⊢
  induction xs generalizing n with
  | nil => simp at hn
  | cons c xs ih =>
    rw [List.cons_append, findPairFrom?] at h
    rw [findPairFrom?]
    cases xs with
    | nil => simp only [List.length_cons, List.length_nil] at hn; omega
    | cons d xs =>
      by_cases hc : (c == a && some d == some b) = true
      · rw [if_pos (by simpa using hc)] at h ⊢
        exact h
      · rw [if_neg (by simpa using hc), findPairFrom?_eq] at h ⊢
        obtain ⟨m, hm, rfl⟩ := Option.map_eq_some_iff.mp h
        rw [List.length_cons] at hn
        exact Option.map_eq_some_iff.mpr ⟨m, ih hm (by omega), rfl⟩

/-- A pair of a text is the first one whatever follows the text. -/
theorem findPair?_append_of_some {n : Nat} (h : findPair? a b xs = some n) (ys : Bytes) :
    findPair? a b (xs ++ ys) = some n := by
  unfold findPair? at h ⊢
  induction xs generalizing n with
  | nil => cases h
  | cons c xs ih =>
    rw [findPairFrom?] at h
    rw [List.cons_append, findPairFrom?]
    cases xs with
    | nil => simp [findPairFrom?] at h
    | cons d xs =>
      by_cases hc : (c == a && some d == some b) = true
      · rw [if_pos (by simpa using hc)] at h ⊢
        exact h
      · rw [if_neg (by simpa using hc), findPairFrom?_eq] at h ⊢
        obtain ⟨m, hm, rfl⟩ := Option.map_eq_some_iff.mp h
        exact Option.map_eq_some_iff.mpr ⟨m, ih hm, rfl⟩

end Bytes

end TemplateScript
