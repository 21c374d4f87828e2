import Mathlib.Data.List.Find
import TemplateScript.Proofs.Heredoc.Closing
import TemplateScript.Proofs.Quoted
import TemplateScript.Proofs.Spelling

/-!
# White space behind a text

What the scanners find in a text, and what they find in it with white space behind.  White space
here is what trimming drops; it goes on with no construct but one that already goes on to the end.

* `Lexeme.word_append`, `Lexeme.numeral_append`, `Lexeme.symbol_append` — words, numerals and
  symbols are the same ones;
* `Quoted.closing?_append_trail` — so are the closing quotes;
* `Comment.exists_scan?_append` — a comment is the same one, or it reached the end of the text;
* `Heredoc.firstLine?_append_trail` — the closing line of a heredoc is the same one, though the
  blanks at its end may be more.
-/

namespace TemplateScript

variable {trail bs xs : Bytes} {b : UInt8}

/-! ### The bytes of the white space -/

/-- White space that trimming drops belongs to no other class, and only a newline of it ends a
line. -/
theorem Byte.classes_of_isTrailingSpace :
    ∀ b, isTrailingSpace b = true →
      isLead b = false ∧ isWordByte b = false ∧ isContinuation b = false ∧
        isDigit b = false ∧ isHexDigit b = false ∧ isBinaryDigit b = false ∧
        isQuote b = false ∧ (isHorizontalSpace b = false → b = newline) := by
  decide +kernel

/-- What begins with white space, if with anything. -/
theorem Bytes.isTrailingSpace_of_head? (trails : ∀ b ∈ trail, Byte.isTrailingSpace b = true)
    (h : trail.head? = some b) : Byte.isTrailingSpace b = true :=
  trails b (List.mem_of_head? h)

namespace Bytes

/-- Without its white space a prefix of both lies within the text. -/
theorem prefix_append_iff (trails : ∀ b ∈ trail, Byte.isTrailingSpace b = true) (bs : Bytes)
    (hfree : xs.all (fun b => !Byte.isTrailingSpace b) = true) :
    xs <+: bs ++ trail ↔ xs <+: bs := by
  refine ⟨fun h => prefix_of_prefix_append h fun b hb hhead => ?_,
    fun h => h.trans (List.prefix_append _ _)⟩
  have hfree := List.all_eq_true.mp hfree b hb
  rw [isTrailingSpace_of_head? trails hhead] at hfree
  cases hfree

/-- A run that the white space does not go on with. -/
theorem runLength_append_trail {p : UInt8 → Bool}
    (hp : ∀ b, trail.head? = some b → p b = false) :
    runLength p (bs ++ trail) = runLength p bs := by
  have hzero : runLength p ([] ++ trail) = 0 := runLength_append nofun hp
  rw [List.nil_append] at hzero
  rw [runLength_append_eq, hzero]
  split
  · next hall => exact hall.symm
  · rfl

end Bytes

/-! ### Words -/

theorem Word.lengthFrom_append (trails : ∀ b ∈ trail, Byte.isTrailingSpace b = true)
    (counted : Nat) (inCharacter : Bool) (bs : Bytes) :
    lengthFrom counted inCharacter (bs ++ trail) = lengthFrom counted inCharacter bs := by
  induction bs generalizing counted inCharacter with
  | nil =>
    cases trail with
    | nil => rfl
    | cons b trail =>
      obtain ⟨hlead, hword, hlater, -⟩ :=
        Byte.classes_of_isTrailingSpace b (trails b List.mem_cons_self)
      simp [lengthFrom, hlead, hword, hlater]
  | cons b bs ih => simp only [List.cons_append, lengthFrom, ih]

theorem Lexeme.word_append (trails : ∀ b ∈ trail, Byte.isTrailingSpace b = true) (bs : Bytes) :
    Lexeme.word (bs ++ trail) = Lexeme.word bs := by
  have hlength : Word.length (bs ++ trail) = Word.length bs :=
    Word.lengthFrom_append trails 0 false bs
  rw [Lexeme.word, Lexeme.word, hlength, List.take_append_of_le_length (Word.length_le bs)]

/-! ### Numerals -/

namespace Numeral

theorem runLength_isDigit_append (trails : ∀ b ∈ trail, Byte.isTrailingSpace b = true)
    (bs : Bytes) :
    Bytes.runLength Byte.isDigit (bs ++ trail) = Bytes.runLength Byte.isDigit bs := by
  refine Bytes.runLength_append_trail fun b hb => ?_
  obtain ⟨-, -, -, hdigit, -⟩ :=
    Byte.classes_of_isTrailingSpace b (Bytes.isTrailingSpace_of_head? trails hb)
  exact hdigit

theorem isDigit_of_radixDigit? {mark : UInt8} {isDigit : UInt8 → Bool}
    (h : radixDigit? mark = some isDigit) (hb : Byte.isTrailingSpace b = true) :
    isDigit b = false := by
  obtain ⟨-, -, -, -, hhex, hbinary, -⟩ := Byte.classes_of_isTrailingSpace b hb
  rw [radixDigit?] at h
  split at h
  · cases h
    exact hhex
  · split at h
    · cases h
      exact hbinary
    · cases h

theorem ne_of_isTrailingSpace :
    ∀ b, Byte.isTrailingSpace b = true → b ≠ Byte.zero ∧ (radixDigit? b).isNone = true ∧
      b ≠ Byte.dot ∧ ¬ (b = 0x65 ∨ b = 0x45) ∧ ¬ (b = Byte.plus ∨ b = Byte.minus) := by
  decide +kernel

theorem radixLength?_append (trails : ∀ b ∈ trail, Byte.isTrailingSpace b = true) (bs : Bytes) :
    radixLength? (bs ++ trail) = radixLength? bs := by
  cases bs with
  | nil =>
    cases trail with
    | nil => rfl
    | cons b trail =>
      obtain ⟨hzero, -⟩ := ne_of_isTrailingSpace b (trails b List.mem_cons_self)
      cases trail with
      | nil => rfl
      | cons mark digits => simp [radixLength?, hzero]
  | cons zero bs =>
    cases bs with
    | nil =>
      cases trail with
      | nil => rfl
      | cons b trail =>
        obtain ⟨-, hmark, -⟩ := ne_of_isTrailingSpace b (trails b List.mem_cons_self)
        simp [radixLength?, Option.isNone_iff_eq_none.mp hmark]
    | cons mark digits =>
      simp only [List.cons_append, radixLength?]
      split
      · split
        · next isDigit hmark =>
          rw [Bytes.runLength_append_trail fun b hb =>
            isDigit_of_radixDigit? hmark (Bytes.isTrailingSpace_of_head? trails hb)]
        · rfl
      · rfl

theorem fractionLength_append (trails : ∀ b ∈ trail, Byte.isTrailingSpace b = true) (bs : Bytes) :
    fractionLength (bs ++ trail) = fractionLength bs := by
  cases bs with
  | nil =>
    cases trail with
    | nil => rfl
    | cons b trail =>
      obtain ⟨-, -, hdot, -⟩ := ne_of_isTrailingSpace b (trails b List.mem_cons_self)
      exact if_neg hdot
  | cons b bs =>
    rw [List.cons_append, fractionLength, fractionLength, runLength_isDigit_append trails]

theorem signLength_append (trails : ∀ b ∈ trail, Byte.isTrailingSpace b = true) (bs : Bytes) :
    signLength (bs ++ trail) = signLength bs := by
  cases bs with
  | nil =>
    cases trail with
    | nil => rfl
    | cons b trail =>
      obtain ⟨-, -, -, -, hsign⟩ := ne_of_isTrailingSpace b (trails b List.mem_cons_self)
      exact if_neg hsign
  | cons b bs => rfl

theorem signLength_le (bs : Bytes) : signLength bs ≤ bs.length := by
  cases bs with
  | nil => exact Nat.le_refl _
  | cons b bs =>
    rw [signLength, List.length_cons]
    split <;> omega

theorem exponentLength_append (trails : ∀ b ∈ trail, Byte.isTrailingSpace b = true) (bs : Bytes) :
    exponentLength (bs ++ trail) = exponentLength bs := by
  cases bs with
  | nil =>
    cases trail with
    | nil => rfl
    | cons b trail =>
      obtain ⟨-, -, -, hmark, -⟩ := ne_of_isTrailingSpace b (trails b List.mem_cons_self)
      exact if_neg hmark
  | cons b bs =>
    rw [List.cons_append, exponentLength, exponentLength, signLength_append trails,
      List.drop_append_of_le_length (signLength_le bs), runLength_isDigit_append trails]

end Numeral

theorem Lexeme.numeral_append (trails : ∀ b ∈ trail, Byte.isTrailingSpace b = true) (bs : Bytes) :
    Lexeme.numeral (bs ++ trail) = Lexeme.numeral bs := by
  have hwhole := Bytes.runLength_le Byte.isDigit bs
  have hfraction := Numeral.fractionLength_le (bs.drop (Bytes.runLength Byte.isDigit bs))
  rw [List.length_drop] at hfraction
  simp only [Lexeme.numeral, Numeral.radixLength?_append trails,
    Numeral.runLength_isDigit_append trails, List.drop_append_of_le_length hwhole,
    Numeral.fractionLength_append trails]
  rw [List.drop_append_of_le_length (by omega), Numeral.exponentLength_append trails]

/-! ### Symbols -/

namespace Symbol

theorem length_append (trails : ∀ b ∈ trail, Byte.isTrailingSpace b = true) (bs : Bytes) :
    length (bs ++ trail) = length bs := by
  have hfree : ∀ s ∈ spellings, s.all (fun b => !Byte.isTrailingSpace b) = true := by decide
  have hfind : spellings.find? (·.isPrefixOf (bs ++ trail)) = spellings.find? (·.isPrefixOf bs) := by
    refine List.find?_congr fun s hs => Bool.eq_iff_iff.mpr ?_
    rw [List.isPrefixOf_iff_prefix, List.isPrefixOf_iff_prefix]
    exact Bytes.prefix_append_iff trails bs (hfree s hs)
  rw [length, length, hfind]

/-- The white space may go on with that before an `&`, but it holds none. -/
theorem referenceLength?_append (trails : ∀ b ∈ trail, Byte.isTrailingSpace b = true)
    (bs : Bytes) : referenceLength? (bs ++ trail) = referenceLength? bs := by
  have hspace : ∀ b ∈ trail, Byte.isSpace b = true := fun b hb =>
    Byte.isSpace_of_isTrailingSpace b (trails b hb)
  have hle := Bytes.runLength_le Byte.isSpace bs
  rw [referenceLength?, referenceLength?, Bytes.runLength_append_eq]
  by_cases hall : Bytes.runLength Byte.isSpace bs = bs.length
  · rw [if_pos hall, Bytes.runLength_of_forall hspace, hall, ← List.length_append]
    simp only [List.drop_length]
  · rw [if_neg hall]
    obtain ⟨b, rest, hdrop⟩ := Bytes.exists_drop_runLength hall
    have hahead : (rest ++ trail).head? ≠ some Byte.ampersand ↔
        rest.head? ≠ some Byte.ampersand := by
      cases rest with
      | nil =>
        refine ⟨fun _ => by rintro ⟨⟩, fun _ hampersand => ?_⟩
        cases Bytes.isTrailingSpace_of_head? trails hampersand
      | cons c rest => rfl
    simp only [List.drop_append_of_le_length hle, hdrop, List.cons_append, hahead]

end Symbol

theorem Lexeme.candidate_append (trails : ∀ b ∈ trail, Byte.isTrailingSpace b = true)
    (first : UInt8) (tail : Bytes) :
    Lexeme.candidate (first :: (tail ++ trail)) = Lexeme.candidate (first :: tail) := by
  have hlength : Symbol.length (first :: (tail ++ trail)) = Symbol.length (first :: tail) :=
    Symbol.length_append trails (first :: tail)
  have htake : (first :: (tail ++ trail)).take (Symbol.length (first :: tail)) =
      (first :: tail).take (Symbol.length (first :: tail)) :=
    List.take_append_of_le_length (Symbol.length_le (List.cons_ne_nil first tail))
  simp only [Lexeme.candidate, hlength, htake, List.drop_succ_cons, List.drop_zero,
    Symbol.referenceLength?_append trails]

theorem Lexeme.symbol_append (trails : ∀ b ∈ trail, Byte.isTrailingSpace b = true)
    (first : UInt8) (tail : Bytes) :
    Lexeme.symbol first (tail ++ trail) = Lexeme.symbol first tail := by
  have hlength : Symbol.length (first :: (tail ++ trail)) = Symbol.length (first :: tail) :=
    Symbol.length_append trails (first :: tail)
  simp only [Lexeme.symbol, hlength, Lexeme.candidate_append trails]

/-! ### Quoted strings -/

/-- The white space holds no quote, so it closes no string. -/
theorem Quoted.closing?_append_trail (trails : ∀ b ∈ trail, Byte.isTrailingSpace b = true)
    {quote : UInt8} (hquote : Byte.isQuote quote = true) (bs : Bytes) :
    closing? quote (bs ++ trail) = closing? quote bs := by
  cases hbs : closing? quote bs with
  | some n => exact closingFrom?_append_of_some hbs trail
  | none =>
    cases hboth : closing? quote (bs ++ trail) with
    | none => rfl
    | some n =>
      by_cases hn : n < bs.length
      · rw [closing?_append hboth hn] at hbs
        cases hbs
      · obtain ⟨body, rest, hsplit, rfl⟩ := exists_closing hboth
        have hbyte : (bs ++ trail)[body.length]? = some quote := by
          rw [hsplit, List.getElem?_append_right (Nat.le_refl _), Nat.sub_self]
          rfl
        rw [List.getElem?_append_right (Nat.le_of_not_lt hn)] at hbyte
        obtain ⟨-, -, -, -, -, -, hfree, -⟩ :=
          Byte.classes_of_isTrailingSpace quote (trails quote (List.mem_of_getElem? hbyte))
        rw [hquote] at hfree
        cases hfree

/-! ### Comments -/

namespace Comment

variable {first : UInt8} {tail : Bytes}

/-- Whatever follows a text, a comment in it is the same one, unless it reaches the end of the
text, which it then still does. -/
theorem exists_scan?_append {found : Comment} (h : scan? first tail = some found) (after : Bytes) :
    ∃ found', scan? first (tail ++ after) = some found' ∧
      (found' = found ∨ found.length = tail.length + 1 ∧ tail.length + 1 ≤ found'.length) := by
  rcases line_or_block h with ⟨rfl, hafter⟩ | ⟨body, hbody, rfl, hafter⟩
  · refine ⟨_, hafter after, ?_⟩
    have hle := Bytes.lineLength_le (first :: tail)
    by_cases hlt : Bytes.lineLength (first :: tail) < (first :: tail).length
    · refine Or.inl ?_
      rw [line, line, ← List.cons_append, Bytes.lineLength_append hlt]
    · have hall : Bytes.lineLength (first :: tail) = (first :: tail).length := by omega
      refine Or.inr ⟨hall, ?_⟩
      show tail.length + 1 ≤ Bytes.lineLength (first :: tail ++ after)
      rw [Bytes.lineLength] at hall ⊢
      rw [Bytes.runLength_append_eq, if_pos hall]
      exact Nat.le_add_right _ _
  · refine ⟨_, hafter after, ?_⟩
    have hlength := congrArg List.length hbody
    rw [List.length_append, List.length_cons] at hlength
    rw [block, block]
    cases hfound : Bytes.findPair? Byte.star Byte.slash body with
    | some n =>
      rw [Bytes.findPair?_append_of_some hfound]
      exact Or.inl rfl
    | none =>
      refine Or.inr ⟨hlength.symm, ?_⟩
      rw [hlength]
      show 2 + body.length ≤ _
      cases hboth : Bytes.findPair? Byte.star Byte.slash (body ++ after) with
      | some n =>
        -- the `*/` does not lie within the text
        have hn : ¬ n + 2 ≤ body.length := by
          intro hn
          rw [Bytes.findPair?_append hboth hn] at hfound
          cases hfound
        simp only []
        omega
      | none =>
        simp only [List.length_append]
        omega

end Comment

/-! ### Heredocs -/

namespace Heredoc

variable {rule : DelimiterRule} {delimiter : Bytes}

/-- The opening line that begins with `bs` ends within the white space behind it. -/
def IsCut (rule : DelimiterRule) (bs trail : Bytes) : Prop :=
  ∃ line rest opener, trail = line ++ rest ∧ line ≠ [] ∧ OpenerLine rule opener (bs ++ line)

/-- Then an opener is read that reaches into the white space. -/
theorem isCut_iff : IsCut rule bs trail ↔
    ∃ opener, readOpener rule (bs ++ trail) = .ok opener ∧ bs.length < opener.length := by
  constructor
  · rintro ⟨line, rest, opener, rfl, hline, hopens⟩
    refine ⟨opener, ?_, ?_⟩
    · rw [← List.append_assoc]
      exact readOpener_of_line hopens rest
    · rw [hopens.length_eq, List.length_append]
      exact Nat.lt_add_of_pos_right (List.length_pos_iff.mpr hline)
  · rintro ⟨opener, hopens, hlt⟩
    obtain ⟨line, body, hsplit, hline⟩ := readOpener_eq_ok_iff.mp hopens
    rw [hline.length_eq] at hlt
    rcases List.append_eq_append_iff.mp hsplit with ⟨more, rfl, htrail⟩ | ⟨more, rfl, -⟩
    · refine ⟨more, body, opener, htrail, ?_, hline⟩
      rintro rfl
      rw [List.append_nil] at hlt
      exact Nat.lt_irrefl _ hlt
    · rw [List.length_append] at hlt
      omega

theorem readOpener_append_trail (hcut : ¬ IsCut rule bs trail) {opener : Opener} :
    readOpener rule (bs ++ trail) = .ok opener ↔ readOpener rule bs = .ok opener := by
  constructor
  · intro h
    refine (readOpener_append trail ?_).mp h
    exact Nat.le_of_not_lt fun hlt => hcut (isCut_iff.mpr ⟨opener, h, hlt⟩)
  · intro h
    exact (readOpener_append trail (length_le_of_readOpener h)).mpr h

theorem isBlankLine_trail (trails : ∀ b ∈ trail, Byte.isTrailingSpace b = true) :
    isBlankLine trail = true := by
  have hstop := List.head?_dropWhile_not Byte.isHorizontalSpace trail
  rw [isBlankLine]
  cases hdrop : trail.dropWhile Byte.isHorizontalSpace with
  | nil => rfl
  | cons b rest =>
    rw [hdrop] at hstop
    have hmem : b ∈ trail :=
      (List.dropWhile_sublist _).subset (hdrop ▸ List.mem_cons_self)
    obtain ⟨-, -, -, -, -, -, -, hnewline⟩ := Byte.classes_of_isTrailingSpace b (trails b hmem)
    exact beq_iff_eq.mpr (hnewline hstop)

theorem isBlankLine_append (trails : ∀ b ∈ trail, Byte.isTrailingSpace b = true) (bs : Bytes) :
    isBlankLine (bs ++ trail) = isBlankLine bs := by
  have htrail := isBlankLine_trail trails
  rw [isBlankLine] at htrail
  rw [isBlankLine, isBlankLine, List.dropWhile_append]
  cases hdrop : bs.dropWhile Byte.isHorizontalSpace with
  | nil => exact htrail
  | cons b rest => rfl

theorem endsLine_append (trails : ∀ b ∈ trail, Byte.isTrailingSpace b = true) (b : UInt8)
    (bs : Bytes) : endsLine (b :: bs ++ trail) = endsLine (b :: bs) := by
  rw [List.cons_append, endsLine, endsLine, isBlankLine_append trails]

/-- A line may end with white space. -/
theorem endsLine_trail (trails : ∀ b ∈ trail, Byte.isTrailingSpace b = true) :
    endsLine (trail.drop (Bytes.runLength Byte.isHorizontalSpace trail)) = true := by
  have hblank := isBlankLine_trail trails
  rw [isBlankLine, ← Bytes.drop_runLength] at hblank
  cases hdrop : trail.drop (Bytes.runLength Byte.isHorizontalSpace trail) with
  | nil => rfl
  | cons b rest =>
    rw [hdrop] at hblank
    rw [endsLine, beq_iff_eq.mp hblank]
    rfl

theorem prefix_append_iff (trails : ∀ b ∈ trail, Byte.isTrailingSpace b = true)
    (hdelimiter : IsDelimiter rule delimiter) (bs : Bytes) :
    delimiter <+: bs ++ trail ↔ delimiter <+: bs := by
  refine Bytes.prefix_append_iff trails bs (List.all_eq_true.mpr fun b hb => ?_)
  rw [isTrailingSpace_of_mem hdelimiter hb]
  rfl

/-- A line closes a heredoc as it did, or it was closed by the end of the text and now takes more
blanks. -/
theorem closingLength?_append (trails : ∀ b ∈ trail, Byte.isTrailingSpace b = true)
    (hdelimiter : IsDelimiter rule delimiter) (bs : Bytes) :
    closingLength? delimiter (bs ++ trail) = closingLength? delimiter bs ∨
      closingLength? delimiter bs = some bs.length ∧
        ∃ n, closingLength? delimiter (bs ++ trail) = some n ∧ bs.length ≤ n := by
  have hstarts := prefix_append_iff trails hdelimiter bs
  by_cases hp : delimiter <+: bs
  · obtain ⟨after, rfl⟩ := hp
    have hle := Bytes.runLength_le Byte.isHorizontalSpace after
    rw [List.append_assoc, closingLength?, closingLength?,
      if_pos (List.isPrefixOf_iff_prefix.mpr (List.prefix_append _ _)),
      if_pos (List.isPrefixOf_iff_prefix.mpr (List.prefix_append _ _))]
    simp only [List.drop_append_length]
    by_cases hall : Bytes.runLength Byte.isHorizontalSpace after = after.length
    · refine Or.inr ⟨?_, ?_⟩
      · rw [hall, List.drop_length, List.length_append]
        rfl
      · have hends := endsLine_trail trails
        rw [Bytes.runLength_append_eq, if_pos hall, ← List.drop_drop, List.drop_append_length,
          if_pos hends]
        refine ⟨_, rfl, ?_⟩
        rw [List.length_append]
        omega
    · refine Or.inl ?_
      obtain ⟨b, rest, hdrop⟩ := Bytes.exists_drop_runLength hall
      rw [Bytes.runLength_append_eq, if_neg hall, List.drop_append_of_le_length hle, hdrop,
        endsLine_append trails]
  · refine Or.inl ?_
    rw [closingLength?, closingLength?,
      if_neg fun h => hp (hstarts.mp (List.isPrefixOf_iff_prefix.mp h)),
      if_neg fun h => hp (List.isPrefixOf_iff_prefix.mp h)]

/-- No line within the white space closes a heredoc. -/
theorem closingLength?_trail (trails : ∀ b ∈ trail, Byte.isTrailingSpace b = true)
    (hdelimiter : IsDelimiter rule delimiter) : closingLength? delimiter trail = none := by
  have hpos := length_pos_of_isDelimiter hdelimiter
  rw [closingLength?, if_neg]
  intro h
  have hnil := (prefix_append_iff trails hdelimiter []).mp (List.isPrefixOf_iff_prefix.mp h)
  rw [List.prefix_nil.mp hnil] at hpos
  exact Nat.lt_irrefl 0 hpos

/-- Where no line closes a heredoc, none does with white space behind. -/
theorem closingLength?_append_of_none (trails : ∀ b ∈ trail, Byte.isTrailingSpace b = true)
    (hdelimiter : IsDelimiter rule delimiter) (h : closingLength? delimiter bs = none) :
    closingLength? delimiter (bs ++ trail) = none := by
  rcases closingLength?_append trails hdelimiter bs with hsame | ⟨hsome, -⟩
  · rw [hsame, h]
  · rw [h] at hsome
    cases hsome

/-- The closing line is the same one, and it takes more only if the text ends with it. -/
theorem firstLine?_append_trail (trails : ∀ b ∈ trail, Byte.isTrailingSpace b = true)
    (hdelimiter : IsDelimiter rule delimiter) {line n : Nat}
    (h : firstLine? (closingLength? delimiter) bs = some (line, n)) :
    ∃ n', firstLine? (closingLength? delimiter) (bs ++ trail) = some (line, n') ∧
      (n' = n ∨ line + n = bs.length ∧ n ≤ n') := by
  obtain ⟨hstart, haccepts, hleast⟩ := firstLine?_eq_some_iff.mp h
  have hline := le_length_of_isLineStart hstart
  have hsome : ∃ n', closingLength? delimiter (bs.drop line ++ trail) = some n' ∧
      (n' = n ∨ line + n = bs.length ∧ n ≤ n') := by
    rcases closingLength?_append trails hdelimiter (bs.drop line) with
      hsame | ⟨hwhole, n', hn', hle⟩
    · exact ⟨n, hsame.trans haccepts, Or.inl rfl⟩
    · rw [haccepts] at hwhole
      cases hwhole
      refine ⟨n', hn', Or.inr ⟨?_, hle⟩⟩
      rw [List.length_drop]
      omega
  obtain ⟨n', hn', hmore⟩ := hsome
  refine ⟨n', firstLine?_eq_some_iff.mpr ⟨(isLineStart_append hline).mpr hstart, ?_, ?_⟩, hmore⟩
  · rw [List.drop_append_of_le_length hline]
    exact hn'
  · intro m hm hms
    rw [List.drop_append_of_le_length (by omega)]
    exact closingLength?_append_of_none trails hdelimiter
      (hleast m hm ((isLineStart_append (by omega)).mp hms))

/-- A heredoc that no line closes stays open. -/
theorem firstLine?_append_trail_of_none (trails : ∀ b ∈ trail, Byte.isTrailingSpace b = true)
    (hdelimiter : IsDelimiter rule delimiter)
    (h : firstLine? (closingLength? delimiter) bs = none) :
    firstLine? (closingLength? delimiter) (bs ++ trail) = none := by
  rw [firstLine?_eq_none_iff] at h ⊢
  intro m hm
  by_cases hle : m ≤ bs.length
  · rw [List.drop_append_of_le_length hle]
    exact closingLength?_append_of_none trails hdelimiter (h m ((isLineStart_append hle).mp hm))
  · rw [List.drop_append, List.drop_eq_nil_of_le (by omega), List.nil_append]
    exact closingLength?_trail (fun b hb => trails b (List.mem_of_mem_drop hb)) hdelimiter

end Heredoc

end TemplateScript
