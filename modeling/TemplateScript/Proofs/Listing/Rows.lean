import TemplateScript.Proofs.Listing.Escape

/-!
# Reading a line of a listing back

A line is its number, a label and a text, the first two in columns that they may
overflow.  It can be read back all the same:

* `Listing.eq_of_append_cons` — a field ends at the first separator that it does not hold;
* `Listing.IsLabel.append_inj` — a label that holds spaces still ends where it does;
* `Listing.row_append_inj` — a line is cut into its fields, and off what follows it, in one way;
* `Listing.isListing_flatMap` — printable lines one after the other, a newline for each of them.
-/

namespace TemplateScript.Listing

variable {u v s t : List Char}

/-! ### Fields -/

/-- A field ends at the first separator that it does not hold. -/
theorem eq_of_append_cons {c : Char} (hu : c ∉ u) (hv : c ∉ v)
    (h : u ++ c :: s = v ++ c :: t) : u = v ∧ s = t := by
  rcases List.append_eq_append_iff.mp h with ⟨more, rfl, hrest⟩ | ⟨more, rfl, hrest⟩
  · cases more with
    | nil => exact ⟨(List.append_nil u).symm, (List.cons.inj hrest).2⟩
    | cons d more =>
      obtain ⟨rfl, -⟩ := List.cons.inj hrest
      exact absurd (List.mem_append_right u List.mem_cons_self) hv
  · cases more with
    | nil => exact ⟨List.append_nil v, (List.cons.inj hrest).2.symm⟩
    | cons d more =>
      obtain ⟨rfl, -⟩ := List.cons.inj hrest
      exact absurd (List.mem_append_right v List.mem_cons_self) hu

/-! ### The number -/

/-- Before a field at the right of its column there are only spaces. -/
theorem dropWhile_alignRight (width : Nat) (free : ' ' ∉ u) (ne : u ≠ []) (s : List Char) :
    (alignRight width u ++ s).dropWhile (· == ' ') = u ++ s := by
  obtain ⟨c, u, rfl⟩ := List.exists_cons_of_ne_nil ne
  have hc : (c == ' ') = false := by
    rw [beq_eq_false_iff_ne]
    rintro rfl
    exact free List.mem_cons_self
  have hspaces : ∀ d ∈ List.replicate (width - (c :: u).length) ' ', (d == ' ') = true := by
    intro d hd
    rw [List.eq_of_mem_replicate hd]
    rfl
  rw [alignRight, List.append_assoc, List.dropWhile_append_of_pos hspaces, List.cons_append,
    List.dropWhile_cons, hc]
  rfl

theorem isDigit_of_mem_toDigits {n : Nat} {c : Char} (h : c ∈ Nat.toDigits 10 n) :
    '0'.toNat ≤ c.toNat ∧ c.toNat ≤ '9'.toNat := by
  have hdigit := Nat.isDigit_of_mem_toDigits (by decide) (by decide) h
  simp only [Char.isDigit, Bool.and_eq_true, decide_eq_true_eq] at hdigit
  exact hdigit

theorem number_append_inj {width m n : Nat}
    (h : alignRight width (Nat.toDigits 10 m) ++ ' ' :: s =
      alignRight width (Nat.toDigits 10 n) ++ ' ' :: t) : m = n ∧ s = t := by
  have hfree : ∀ n, ' ' ∉ Nat.toDigits 10 n := by
    intro n hmem
    have hdigit := isDigit_of_mem_toDigits hmem
    revert hdigit
    decide
  have hdrop := congrArg (List.dropWhile (· == ' ')) h
  rw [dropWhile_alignRight width (hfree m) Nat.toDigits_ne_nil,
    dropWhile_alignRight width (hfree n) Nat.toDigits_ne_nil] at hdrop
  obtain ⟨hdigits, hrest⟩ := eq_of_append_cons (hfree m) (hfree n) hdrop
  refine ⟨?_, hrest⟩
  rw [← Nat.ofDigitChars_toDigits (n := m) (by decide : 1 < 10) (Nat.le_refl 10), hdigits,
    Nat.ofDigitChars_toDigits (by decide) (Nat.le_refl 10)]

/-! ### The label -/

/-- The words behind which a label goes on with a spelling. -/
def spelledWords : List (List Char) := ["Operator".toList, "OperatorWord".toList]

/-- A label is one word, or one of two words and a spelling between backticks. -/
inductive IsLabel : List Char → Prop
  | word {word : List Char} (free : ' ' ∉ word) (other : word ∉ spelledWords) : IsLabel word
  | spelled {word spelling : List Char} (mem : word ∈ spelledWords) (free : '`' ∉ spelling) :
      IsLabel (word ++ ' ' :: '`' :: (spelling ++ ['`']))

/-- Before a space, a label ends where it does, whatever follows. -/
theorem IsLabel.append_inj (hu : IsLabel u) (hv : IsLabel v)
    (h : u ++ ' ' :: s = v ++ ' ' :: t) : u = v ∧ s = t := by
  have hspace : ∀ word ∈ spelledWords, ' ' ∉ word := by decide
  cases hu with
  | word free other =>
    cases hv with
    | word free' _ => exact eq_of_append_cons free free' h
    | spelled mem _ =>
      rw [List.append_assoc, List.cons_append] at h
      exact absurd ((eq_of_append_cons free (hspace _ mem) h).1 ▸ mem) other
  | spelled mem free =>
    cases hv with
    | word free' other =>
      rw [List.append_assoc, List.cons_append] at h
      exact absurd ((eq_of_append_cons (hspace _ mem) free' h).1 ▸ mem) other
    | spelled mem' free' =>
      simp only [List.append_assoc, List.cons_append] at h
      obtain ⟨rfl, hspelled⟩ := eq_of_append_cons (hspace _ mem) (hspace _ mem') h
      obtain ⟨rfl, hrest⟩ := eq_of_append_cons free free' (List.cons.inj hspelled).2
      exact ⟨rfl, (List.cons.inj hrest).2⟩

/-- Behind a label at the left of its column stands at least one space. -/
theorem alignLeft_append_space (width : Nat) (u s : List Char) :
    alignLeft width u ++ ' ' :: s =
      u ++ ' ' :: (List.replicate (width - u.length) ' ' ++ s) := by
  rw [alignLeft, List.append_assoc, ← List.singleton_append, ← List.append_assoc (List.replicate _ _),
    ← List.replicate_succ', List.replicate_succ, List.cons_append]

theorem label_append_inj {width : Nat} (hu : IsLabel u) (hv : IsLabel v)
    (h : alignLeft width u ++ ' ' :: s = alignLeft width v ++ ' ' :: t) : u = v ∧ s = t := by
  rw [alignLeft_append_space, alignLeft_append_space] at h
  obtain ⟨rfl, hrest⟩ := hu.append_inj hv h
  exact ⟨rfl, List.append_cancel_left hrest⟩

/-! ### The line -/

theorem row_append (line : Line) (width : Nat) (label : String) (text s : List Char) :
    row line width label text ++ s =
      alignRight 4 (Nat.toDigits 10 line.number) ++
        ' ' :: (alignLeft width label.toList ++ ' ' :: (text ++ '\n' :: s)) := by
  simp only [row, List.append_assoc, List.cons_append, List.nil_append]

/-- A line is cut into its number, its label and its text, and off what follows, in one way. -/
theorem row_append_inj {line line' : Line} {width : Nat} {label label' : String}
    {text text' : List Char} (labelled : IsLabel label.toList) (labelled' : IsLabel label'.toList)
    (free : '\n' ∉ text) (free' : '\n' ∉ text')
    (h : row line width label text ++ s = row line' width label' text' ++ t) :
    line = line' ∧ label = label' ∧ text = text' ∧ s = t := by
  rw [row_append, row_append] at h
  obtain ⟨hnumber, hlabelled⟩ := number_append_inj h
  obtain ⟨hlabel, hrest⟩ := label_append_inj labelled labelled' hlabelled
  obtain ⟨htext, hafter⟩ := eq_of_append_cons free free' hrest
  exact ⟨Line.ext_number hnumber, String.toList_inj.mp hlabel, htext, hafter⟩

/-! ### Printable lines -/

theorem isPrintable_space : IsPrintable ' ' := by decide

theorem newline_not_mem (h : ∀ c ∈ u, IsPrintable c) : '\n' ∉ u := by
  intro hmem
  have hprintable := h _ hmem
  revert hprintable
  decide

/-- A line is printable up to the newline at its end. -/
theorem exists_row (line : Line) (width : Nat) {label : String} {text : List Char}
    (hlabel : ∀ c ∈ label.toList, IsPrintable c) (htext : ∀ c ∈ text, IsPrintable c) :
    ∃ content, row line width label text = content ++ ['\n'] ∧ ∀ c ∈ content, IsPrintable c := by
  refine ⟨_, rfl, fun c hc => ?_⟩
  have hspaces : ∀ n, ∀ c ∈ List.replicate n ' ', IsPrintable c := by
    intro n c hc
    rw [List.eq_of_mem_replicate hc]
    exact isPrintable_space
  have hdigits : ∀ c ∈ Nat.toDigits 10 line.number, IsPrintable c := by
    intro c hc
    obtain ⟨hzero, hnine⟩ := isDigit_of_mem_toDigits hc
    exact ⟨Nat.le_trans (by decide) hzero, Nat.le_trans hnine (by decide)⟩
  simp only [alignRight, alignLeft, List.mem_append, List.mem_singleton] at hc
  rcases hc with (((((hc | hc) | rfl) | hc | hc) | rfl) | hc)
  · exact hspaces _ c hc
  · exact hdigits c hc
  · exact isPrintable_space
  · exact hlabel c hc
  · exact hspaces _ c hc
  · exact isPrintable_space
  · exact htext c hc

/-- The text is printable but for one newline for each item. -/
structure IsListing (items : Nat) (text : String) : Prop where
  printable : ∀ c ∈ text.toList, IsPrintable c ∨ c = '\n'
  newlines : text.toList.count '\n' = items

theorem isListing_flatMap {α : Type} {f : α → List Char}
    (h : ∀ a, ∃ content, f a = content ++ ['\n'] ∧ ∀ c ∈ content, IsPrintable c) (xs : List α) :
    IsListing xs.length (String.ofList (xs.flatMap f)) := by
  constructor
  · intro c hc
    rw [String.toList_ofList] at hc
    obtain ⟨a, -, hc⟩ := List.mem_flatMap.mp hc
    obtain ⟨content, hcontent, hprintable⟩ := h a
    rw [hcontent] at hc
    rcases List.mem_append.mp hc with hc | hc
    · exact Or.inl (hprintable c hc)
    · exact Or.inr (List.mem_singleton.mp hc)
  · rw [String.toList_ofList]
    induction xs with
    | nil => rfl
    | cons a xs ih =>
      obtain ⟨content, hcontent, hprintable⟩ := h a
      rw [List.flatMap_cons, List.count_append, ih, hcontent, List.count_append,
        List.count_eq_zero.mpr (newline_not_mem hprintable), List.count_singleton_self,
        List.length_cons, Nat.zero_add, Nat.add_comm]

end TemplateScript.Listing
