import TemplateScript.Proofs.Heredoc.Opener

/-!
# The closing line of a heredoc

* `Heredoc.firstLine?_eq_some_iff` and `Heredoc.firstLine?_eq_none_iff` — the search for a line
  finds the least line start that is accepted;
* `Heredoc.closingLength?_eq_some_iff` and `Heredoc.delimiterLength?_eq_some_iff` — the lines that
  the two readers of heredocs accept;
* `Heredoc.delimiterLength?_of_closingLength?` — every line that ends a token also ends the search
  for its delimiter;
* `Heredoc.exists_body` — how a closing line cuts the text behind an opener;
* `Heredoc.firstLine?_append` — a delimiter that is found within a text is found there whatever
  follows the text.
-/

namespace TemplateScript.Heredoc

variable {accepts : Bytes → Option Nat} {bs delimiter : Bytes} {rule : DelimiterRule}

/-! ### The first line that is accepted -/

/-- Offset `n` begins a line: it is the first offset or stands right behind a newline. -/
def IsLineStart (bs : Bytes) (n : Nat) : Prop :=
  n = 0 ∨ ∃ m, n = m + 1 ∧ bs[m]? = some Byte.newline

/-- Offset `n` begins a line, the first offset only if `atLineStart` says so. -/
def IsLineStartFrom (atLineStart : Bool) (bs : Bytes) (n : Nat) : Prop :=
  (n = 0 ∧ atLineStart = true) ∨ ∃ m, n = m + 1 ∧ bs[m]? = some Byte.newline

theorem isLineStartFrom_true {n : Nat} : IsLineStartFrom true bs n ↔ IsLineStart bs n := by
  simp [IsLineStartFrom, IsLineStart]

theorem isLineStartFrom_cons {atLineStart : Bool} {b : UInt8} {n : Nat} :
    IsLineStartFrom atLineStart (b :: bs) n ↔
      (n = 0 ∧ atLineStart = true) ∨
        ∃ m, n = m + 1 ∧ IsLineStartFrom (b == Byte.newline) bs m := by
  constructor
  · rintro (h | ⟨m, rfl, hm⟩)
    · exact Or.inl h
    · refine Or.inr ⟨m, rfl, ?_⟩
      cases m with
      | zero => exact Or.inl ⟨rfl, by simpa using hm⟩
      | succ m => exact Or.inr ⟨m, rfl, by simpa using hm⟩
  · rintro (h | ⟨m, rfl, ⟨rfl, hb⟩ | ⟨k, rfl, hk⟩⟩)
    · exact Or.inl h
    · exact Or.inr ⟨0, rfl, by simpa using hb⟩
    · exact Or.inr ⟨k + 1, rfl, by simpa using hk⟩

theorem firstLineFrom?_eq_some {atLineStart : Bool} {line answer : Nat}
    (h : firstLineFrom? accepts 0 atLineStart bs = some (line, answer)) :
    IsLineStartFrom atLineStart bs line ∧ accepts (bs.drop line) = some answer ∧
      ∀ m < line, IsLineStartFrom atLineStart bs m → accepts (bs.drop m) = none := by
  induction bs generalizing atLineStart line with
  | nil =>
    rw [firstLineFrom?] at h
    split at h
    · next hat =>
      obtain ⟨m, hm, he⟩ := Option.map_eq_some_iff.mp h
      cases he
      exact ⟨Or.inl ⟨rfl, hat⟩, hm, fun m hlt => absurd hlt (Nat.not_lt_zero m)⟩
    · cases h
  | cons b bs ih =>
    rw [firstLineFrom?] at h
    split at h
    · next m hm =>
      cases h
      split at hm
      · next hat => exact ⟨Or.inl ⟨rfl, hat⟩, hm, fun m hlt => absurd hlt (Nat.not_lt_zero m)⟩
      · cases hm
    · next hnone =>
      rw [firstLineFrom?_eq] at h
      obtain ⟨⟨n, a⟩, hn, he⟩ := Option.map_eq_some_iff.mp h
      cases he
      obtain ⟨hstart, haccepts, hleast⟩ := ih hn
      rw [Nat.zero_add, Nat.add_comm]
      refine ⟨isLineStartFrom_cons.mpr (Or.inr ⟨n, rfl, hstart⟩), haccepts, fun m hm hms => ?_⟩
      rcases isLineStartFrom_cons.mp hms with ⟨rfl, hat⟩ | ⟨k, rfl, hk⟩
      · simpa [hat] using hnone
      · exact hleast k (Nat.lt_of_succ_lt_succ hm) hk

theorem firstLineFrom?_eq_none {atLineStart : Bool}
    (h : firstLineFrom? accepts 0 atLineStart bs = none) {m : Nat}
    (hm : IsLineStartFrom atLineStart bs m) : accepts (bs.drop m) = none := by
  induction bs generalizing atLineStart m with
  | nil =>
    rcases hm with ⟨rfl, hat⟩ | ⟨k, rfl, hk⟩
    · simpa [firstLineFrom?, hat] using h
    · simp at hk
  | cons b bs ih =>
    rw [firstLineFrom?] at h
    split at h
    · cases h
    · next hnone =>
      rw [firstLineFrom?_eq, Option.map_eq_none_iff] at h
      rcases isLineStartFrom_cons.mp hm with ⟨rfl, hat⟩ | ⟨k, rfl, hk⟩
      · simpa [hat] using hnone
      · exact ih h hk

/-- The line that is found is the least line start that is accepted. -/
theorem firstLine?_eq_some_iff {line answer : Nat} :
    firstLine? accepts bs = some (line, answer) ↔
      IsLineStart bs line ∧ accepts (bs.drop line) = some answer ∧
        ∀ m < line, IsLineStart bs m → accepts (bs.drop m) = none := by
  simp only [← isLineStartFrom_true]
  constructor
  · exact firstLineFrom?_eq_some
  · rintro ⟨hstart, haccepts, hleast⟩
    cases h : firstLine? accepts bs with
    | none => rw [firstLineFrom?_eq_none h hstart] at haccepts; cases haccepts
    | some found =>
      obtain ⟨n, a⟩ := found
      obtain ⟨hstart', haccepts', hleast'⟩ := firstLineFrom?_eq_some h
      rcases Nat.lt_trichotomy n line with hlt | rfl | hlt
      · rw [hleast n hlt hstart'] at haccepts'; cases haccepts'
      · rw [haccepts] at haccepts'; cases haccepts'; rfl
      · rw [hleast' line hlt hstart] at haccepts; cases haccepts

/-- No line is found exactly when no line start is accepted. -/
theorem firstLine?_eq_none_iff :
    firstLine? accepts bs = none ↔ ∀ m, IsLineStart bs m → accepts (bs.drop m) = none := by
  constructor
  · intro h m hm
    exact firstLineFrom?_eq_none h (isLineStartFrom_true.mpr hm)
  · intro h
    cases hf : firstLine? accepts bs with
    | none => rfl
    | some found =>
      obtain ⟨hstart, haccepts, -⟩ := firstLine?_eq_some_iff.mp hf
      rw [h _ hstart] at haccepts
      cases haccepts

theorem le_length_of_isLineStart {n : Nat} (h : IsLineStart bs n) : n ≤ bs.length := by
  rcases h with rfl | ⟨m, rfl, hm⟩
  · exact Nat.zero_le _
  · exact (List.getElem?_eq_some_iff.mp hm).1

/-! ### Lines that are accepted -/

/-- Where a line ends stands neither horizontal space nor a byte of a word. -/
theorem head?_of_endsLine {rest : Bytes} (h : endsLine rest = true) {b : UInt8}
    (hb : rest.head? = some b) : Byte.isHorizontalSpace b = false ∧ ¬ Word.Continues b := by
  cases rest with
  | nil => cases hb
  | cons c rest =>
    obtain rfl := Option.some.inj hb
    simp only [endsLine, Bool.or_eq_true, Bool.and_eq_true, beq_iff_eq] at h
    unfold Word.Continues
    rcases h with rfl | ⟨rfl, -⟩ <;> decide

/-- A heredoc token ends with its delimiter and the horizontal space after it. -/
theorem closingLength?_eq_some_iff {n : Nat} :
    closingLength? delimiter bs = some n ↔
      ∃ blank rest, bs = delimiter ++ (blank ++ rest) ∧
        (∀ b ∈ blank, Byte.isHorizontalSpace b = true) ∧ endsLine rest = true ∧
        n = delimiter.length + blank.length := by
  constructor
  · intro h
    rw [closingLength?] at h
    split at h
    · next hp =>
      obtain ⟨after, rfl⟩ := List.isPrefixOf_iff_prefix.mp hp
      simp only [List.drop_append_length] at h
      split at h
      · next hends =>
        cases h
        have hle := Bytes.runLength_le Byte.isHorizontalSpace after
        refine ⟨after.take (Bytes.runLength Byte.isHorizontalSpace after), _,
          by rw [List.take_append_drop], fun b hb => Bytes.of_mem_take_runLength hb, hends, ?_⟩
        rw [List.length_take, Nat.min_eq_left hle]
      · cases h
    · cases h
  · rintro ⟨blank, rest, rfl, hblank, hends, rfl⟩
    have hrun : Bytes.runLength Byte.isHorizontalSpace (blank ++ rest) = blank.length :=
      Bytes.runLength_append hblank fun b hb => (head?_of_endsLine hends hb).1
    rw [closingLength?, if_pos (List.isPrefixOf_iff_prefix.mpr (List.prefix_append _ _))]
    simp only [List.drop_append_length, hrun, hends, if_true]

/-- The search for a delimiter ends where it is a whole word. -/
theorem delimiterLength?_eq_some_iff {n : Nat} :
    delimiterLength? rule delimiter bs = some n ↔
      ∃ rest, bs = delimiter ++ rest ∧ (∀ b, rest.head? = some b → ¬ Word.Continues b) ∧
        n = delimiter.length := by
  have hword : ∀ b, (!rule.isDelimiterByte b && !Byte.isContinuation b) = true ↔
      ¬ Word.Continues b := by
    intro b
    simp only [DelimiterRule.isDelimiterByte, Word.Continues, Bool.and_eq_true,
      Bool.not_eq_true', Bool.or_eq_false_iff, not_or, Bool.not_eq_true]
    constructor
    · rintro ⟨⟨hw, hl⟩, hc⟩
      exact ⟨hl, hw, hc⟩
    · rintro ⟨hl, hw, hc⟩
      exact ⟨⟨hw, hl⟩, hc⟩
  rw [delimiterLength?]
  constructor
  · intro h
    split at h
    · next hp =>
      cases h
      obtain ⟨rest, rfl⟩ := List.isPrefixOf_iff_prefix.mp hp.1
      refine ⟨rest, rfl, fun b hb => (hword b).mp ?_, rfl⟩
      simpa [hb] using hp.2
    · cases h
  · rintro ⟨rest, rfl, hrest, rfl⟩
    rw [if_pos]
    refine ⟨List.isPrefixOf_iff_prefix.mpr (List.prefix_append _ _), ?_⟩
    rw [List.drop_append_length]
    cases hb : rest.head? with
    | none => rfl
    | some b => exact (hword b).mpr (hrest b hb)

/-- What ends a token begins with its delimiter as a whole word. -/
theorem delimiterLength?_of_closingLength? {n : Nat} (h : closingLength? delimiter bs = some n) :
    delimiterLength? rule delimiter bs = some delimiter.length := by
  obtain ⟨blank, rest, rfl, hblank, hends, -⟩ := closingLength?_eq_some_iff.mp h
  refine delimiterLength?_eq_some_iff.mpr ⟨blank ++ rest, rfl, fun b hb => ?_, rfl⟩
  cases blank with
  | nil => exact (head?_of_endsLine hends hb).2
  | cons c blank =>
    obtain rfl := Option.some.inj hb
    exact not_continues_of_isHorizontalSpace _ (hblank _ List.mem_cons_self)

/-! ### The body -/

theorem take_line {line : Nat} (h : IsLineStart bs line) :
    ∃ newline, bs.take line = bs.take (line - 1) ++ newline ∧
      ∀ b ∈ newline, b = Byte.newline := by
  rcases h with rfl | ⟨m, rfl, hm⟩
  · exact ⟨[], rfl, nofun⟩
  · refine ⟨[Byte.newline], ?_, by simp⟩
    rw [List.take_add_one, hm]
    rfl

/-- Text, white space, the delimiter and horizontal space make up what is before the end of the
closing line. -/
theorem exists_body {body : Bytes} {line length : Nat}
    (h : firstLine? (closingLength? delimiter) body = some (line, length)) :
    ∃ text space blank rest, body = text ++ (space ++ (delimiter ++ (blank ++ rest))) ∧
      text.length = Bytes.trimmedLength (body.take (line - 1)) ∧
      (∀ b ∈ space, Byte.isTrailingSpace b = true) ∧
      (∀ b ∈ blank, Byte.isHorizontalSpace b = true) ∧
      text.length + space.length = line ∧ length = delimiter.length + blank.length := by
  obtain ⟨hstart, haccepts, -⟩ := firstLine?_eq_some_iff.mp h
  obtain ⟨blank, rest, hrest, hblank, -, hlength⟩ := closingLength?_eq_some_iff.mp haccepts
  obtain ⟨newline, htake, hnewline⟩ := take_line hstart
  obtain ⟨text, space, hsplit, htext, hspace, -⟩ := Bytes.exists_trim (body.take (line - 1))
  have hbefore : body.take line = text ++ (space ++ newline) := by
    rw [htake, hsplit, List.append_assoc]
  refine ⟨text, space ++ newline, blank, rest, ?_, htext, ?_, hblank, ?_, hlength⟩
  · rw [← hrest, ← List.append_assoc, ← hbefore, List.take_append_drop]
  · intro b hb
    rcases List.mem_append.mp hb with hb | hb
    · exact hspace b hb
    · rw [hnewline b hb]
      decide
  · have hlen := congrArg List.length hbefore
    rw [List.length_take, Nat.min_eq_left (le_length_of_isLineStart hstart),
      List.length_append] at hlen
    exact hlen.symm

/-! ### Lines within a text -/

/-- Whether a line begins at an offset depends only on the bytes before it. -/
theorem isLineStart_append {body after : Bytes} {n : Nat} (hn : n ≤ body.length) :
    IsLineStart (body ++ after) n ↔ IsLineStart body n := by
  have hbyte : ∀ m, n = m + 1 → (body ++ after)[m]? = body[m]? := by
    intro m hm
    exact List.getElem?_append_left (by omega)
  constructor
  · rintro (rfl | ⟨m, rfl, hm⟩)
    · exact Or.inl rfl
    · exact Or.inr ⟨m, rfl, hbyte m rfl ▸ hm⟩
  · rintro (rfl | ⟨m, rfl, hm⟩)
    · exact Or.inl rfl
    · exact Or.inr ⟨m, rfl, (hbyte m rfl).trans hm⟩

/-- A delimiter that is found within a text is found there whatever follows the text. -/
theorem firstLine?_append {body after : Bytes} {line length : Nat}
    (h : firstLine? (delimiterLength? rule delimiter) (body ++ after) = some (line, length))
    (hle : line + delimiter.length ≤ body.length) :
    firstLine? (delimiterLength? rule delimiter) body = some (line, length) := by
  obtain ⟨hstart, haccepts, hleast⟩ := firstLine?_eq_some_iff.mp h
  have hdrop : ∀ m ≤ body.length, (body ++ after).drop m = body.drop m ++ after :=
    fun m hm => List.drop_append_of_le_length hm
  refine firstLine?_eq_some_iff.mpr ⟨(isLineStart_append (by omega)).mp hstart, ?_, ?_⟩
  · obtain ⟨rest, hrest, hword, rfl⟩ := delimiterLength?_eq_some_iff.mp haccepts
    rw [hdrop line (by omega)] at hrest
    have hlength : (body.drop line).length = body.length - line := List.length_drop
    rcases List.append_eq_append_iff.mp hrest with ⟨more, hdelimiter, -⟩ | ⟨more, hmore, rfl⟩
    · have hlong := congrArg List.length hdelimiter
      rw [List.length_append] at hlong
      obtain rfl := List.eq_nil_of_length_eq_zero (by omega : more.length = 0)
      rw [List.append_nil] at hdelimiter
      exact delimiterLength?_eq_some_iff.mpr ⟨[], by rw [List.append_nil, hdelimiter], nofun, rfl⟩
    · refine delimiterLength?_eq_some_iff.mpr ⟨more, hmore, fun b hb => hword b ?_, rfl⟩
      rw [List.head?_append, hb]
      rfl
  · intro m hm hms
    have hnone := hleast m hm ((isLineStart_append (by omega)).mpr hms)
    cases haccepted : delimiterLength? rule delimiter (body.drop m) with
    | none => rfl
    | some n =>
      -- an earlier delimiter would end before the text does, so what follows it is in the text
      obtain ⟨rest, hrest, hword, -⟩ := delimiterLength?_eq_some_iff.mp haccepted
      have hlength := congrArg List.length hrest
      rw [List.length_drop, List.length_append] at hlength
      obtain ⟨b, rest, rfl⟩ : ∃ b rest', rest = b :: rest' :=
        List.exists_cons_of_length_pos (by omega)
      rw [hdrop m (by omega), hrest, List.append_assoc] at hnone
      rw [delimiterLength?_eq_some_iff.mpr ⟨b :: rest ++ after, rfl, hword, rfl⟩] at hnone
      cases hnone

/-- Where the delimiter first stands as a word, the body of the token ends if that line may. -/
theorem firstLine?_closing {body : Bytes} {line length closing : Nat}
    (h : firstLine? (delimiterLength? rule delimiter) body = some (line, length))
    (hclosing : closingLength? delimiter (body.drop line) = some closing) :
    firstLine? (closingLength? delimiter) body = some (line, closing) := by
  obtain ⟨hstart, -, hleast⟩ := firstLine?_eq_some_iff.mp h
  refine firstLine?_eq_some_iff.mpr ⟨hstart, hclosing, fun m hm hms => ?_⟩
  cases hc : closingLength? delimiter (body.drop m) with
  | none => rfl
  | some n =>
    have hnone := hleast m hm hms
    rw [delimiterLength?_of_closingLength? hc] at hnone
    cases hnone

/-- No byte of a delimiter is white space. -/
theorem isTrailingSpace_of_mem (h : IsDelimiter rule delimiter) {b : UInt8} (hb : b ∈ delimiter) :
    Byte.isTrailingSpace b = false := by
  have hword : ∀ b, Word.Continues b → Byte.isTrailingSpace b = false := by
    unfold Word.Continues
    decide +kernel
  exact hword b (Word.continues_of_text h.2 b hb)

/-- A delimiter does not end in white space. -/
theorem isTrailingSpace_of_getLast? (h : IsDelimiter rule delimiter) {b : UInt8}
    (hb : delimiter.getLast? = some b) : Byte.isTrailingSpace b = false :=
  isTrailingSpace_of_mem h (List.mem_of_getLast? hb)

end TemplateScript.Heredoc
