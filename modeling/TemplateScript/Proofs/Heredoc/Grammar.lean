import TemplateScript.Proofs.Construct
import TemplateScript.Proofs.Heredoc.Closing

/-!
# Heredocs as a language

What stands after `<<<`, said without a scanner: an opening line, a body and the first line that
closes it.

* `Heredoc.ClosesWith` and `Heredoc.IsClosing` — a line that closes a body, and the first one;
* `Bytes.Trims` — a text without the white space at its end;
* `Heredoc.Begins` — the bytes at which a strict reader insists on a heredoc;
* `Heredoc.scan?_of_closing`, `Heredoc.scan?_of_open` and `Heredoc.scan?_of_not_opens` — what the
  scanner makes of a body that is closed, of one that is not, and of bytes that open no heredoc.
-/

namespace TemplateScript

/-- `text` is what is left of `bs` without the white space at its end. -/
def Bytes.Trims (bs text : Bytes) : Prop :=
  ∃ space, bs = text ++ space ∧ (∀ b ∈ space, Byte.isTrailingSpace b = true) ∧
    ∀ b, text.getLast? = some b → Byte.isTrailingSpace b = false

theorem Bytes.exists_trims (bs : Bytes) :
    ∃ text, Trims bs text ∧ text.length = trimmedLength bs := by
  obtain ⟨text, space, hsplit, hlength, hspace, hlast⟩ := exists_trim bs
  exact ⟨text, ⟨space, hsplit, hspace, hlast⟩, hlength⟩

namespace Heredoc

variable {rule : DelimiterRule} {options : Options} {opener : Opener}
  {delimiter blank opening body bs : Bytes} {line : Nat}

/-! ### The closing line -/

/-- The line that `bs` begins is the delimiter, horizontal space `blank`, and perhaps a `;` and more
horizontal space. -/
def ClosesWith (delimiter blank bs : Bytes) : Prop :=
  ∃ mark rest, bs = delimiter ++ (blank ++ (mark ++ rest)) ∧
    (∀ b ∈ blank, Byte.isHorizontalSpace b = true) ∧
    (mark = [] ∨ ∃ space, mark = Byte.semicolon :: space ∧
      ∀ b ∈ space, Byte.isHorizontalSpace b = true) ∧
    (rest = [] ∨ rest.head? = some Byte.newline)

/-- The first line of `body` that closes it begins at offset `line`, with `blank` behind the
delimiter. -/
structure IsClosing (delimiter body : Bytes) (line : Nat) (blank : Bytes) : Prop where
  isLineStart : IsLineStart body line
  closes : ClosesWith delimiter blank (body.drop line)
  first : ∀ m < line, IsLineStart body m → ∀ blank, ¬ ClosesWith delimiter blank (body.drop m)

theorem isBlankLine_iff :
    isBlankLine bs = true ↔ ∃ space rest, bs = space ++ rest ∧
      (∀ b ∈ space, Byte.isHorizontalSpace b = true) ∧
      (rest = [] ∨ rest.head? = some Byte.newline) := by
  constructor
  · intro h
    refine ⟨bs.takeWhile Byte.isHorizontalSpace, bs.dropWhile Byte.isHorizontalSpace,
      List.takeWhile_append_dropWhile.symm, fun b hb => List.mem_takeWhile_imp hb, ?_⟩
    rw [isBlankLine] at h
    split at h
    · next hrest => exact Or.inl hrest
    · next b rest hrest =>
      rw [hrest, beq_iff_eq.mp h]
      exact Or.inr rfl
  · rintro ⟨space, rest, rfl, hspace, hrest⟩
    rw [isBlankLine, List.dropWhile_append_of_pos hspace]
    rcases hrest with rfl | hrest
    · rfl
    · obtain ⟨rest, rfl⟩ := List.head?_eq_some_iff.mp hrest
      rfl

theorem endsLine_iff :
    endsLine bs = true ↔ ∃ mark rest, bs = mark ++ rest ∧
      (mark = [] ∨ ∃ space, mark = Byte.semicolon :: space ∧
        ∀ b ∈ space, Byte.isHorizontalSpace b = true) ∧
      (rest = [] ∨ rest.head? = some Byte.newline) := by
  constructor
  · intro h
    cases bs with
    | nil => exact ⟨[], [], rfl, Or.inl rfl, Or.inl rfl⟩
    | cons b bs =>
      simp only [endsLine, Bool.or_eq_true, Bool.and_eq_true, beq_iff_eq] at h
      rcases h with rfl | ⟨rfl, hblank⟩
      · exact ⟨[], _, rfl, Or.inl rfl, Or.inr rfl⟩
      · obtain ⟨space, rest, rfl, hspace, hrest⟩ := isBlankLine_iff.mp hblank
        exact ⟨Byte.semicolon :: space, rest, rfl, Or.inr ⟨space, rfl, hspace⟩, hrest⟩
  · rintro ⟨mark, rest, rfl, rfl | ⟨space, rfl, hspace⟩, hrest⟩
    · rcases hrest with rfl | hrest
      · rfl
      · obtain ⟨rest, rfl⟩ := List.head?_eq_some_iff.mp hrest
        rfl
    · simp only [List.cons_append, endsLine, Bool.or_eq_true, Bool.and_eq_true, beq_self_eq_true,
        true_and]
      exact Or.inr (isBlankLine_iff.mpr ⟨space, rest, rfl, hspace, hrest⟩)

/-- The line is accepted, up to the horizontal space behind the delimiter, when it closes. -/
theorem closingLength?_eq_some_iff_closesWith {n : Nat} :
    closingLength? delimiter bs = some n ↔
      ∃ blank, ClosesWith delimiter blank bs ∧ n = delimiter.length + blank.length := by
  simp only [closingLength?_eq_some_iff, endsLine_iff]
  constructor
  · rintro ⟨blank, _, rfl, hblank, ⟨mark, rest, rfl, hmark, hrest⟩, hn⟩
    exact ⟨blank, ⟨mark, rest, rfl, hblank, hmark, hrest⟩, hn⟩
  · rintro ⟨blank, ⟨mark, rest, rfl, hblank, hmark, hrest⟩, hn⟩
    exact ⟨blank, mark ++ rest, rfl, hblank, ⟨mark, rest, rfl, hmark, hrest⟩, hn⟩

theorem closingLength?_eq_none_iff :
    closingLength? delimiter bs = none ↔ ∀ blank, ¬ ClosesWith delimiter blank bs := by
  constructor
  · intro h blank hcloses
    rw [closingLength?_eq_some_iff_closesWith.mpr ⟨blank, hcloses, rfl⟩] at h
    cases h
  · intro h
    cases hclosing : closingLength? delimiter bs with
    | none => rfl
    | some n =>
      obtain ⟨blank, hcloses, -⟩ := closingLength?_eq_some_iff_closesWith.mp hclosing
      exact absurd hcloses (h blank)

/-- The search finds the first closing line. -/
theorem firstLine?_of_isClosing (h : IsClosing delimiter body line blank) :
    firstLine? (closingLength? delimiter) body = some (line, delimiter.length + blank.length) := by
  refine firstLine?_eq_some_iff.mpr ⟨h.isLineStart, ?_, fun m hm hstart => ?_⟩
  · exact closingLength?_eq_some_iff_closesWith.mpr ⟨blank, h.closes, rfl⟩
  · exact closingLength?_eq_none_iff.mpr (h.first m hm hstart)

/-- The search finds nothing when no line closes. -/
theorem firstLine?_of_not_closes
    (h : ∀ m, IsLineStart body m → ∀ blank, ¬ ClosesWith delimiter blank (body.drop m)) :
    firstLine? (closingLength? delimiter) body = none :=
  firstLine?_eq_none_iff.mpr fun m hm => closingLength?_eq_none_iff.mpr (h m hm)

/-- What the search finds is the first closing line. -/
theorem exists_isClosing {n : Nat}
    (h : firstLine? (closingLength? delimiter) body = some (line, n)) :
    ∃ blank, IsClosing delimiter body line blank ∧ n = delimiter.length + blank.length := by
  obtain ⟨hstart, haccepts, hfirst⟩ := firstLine?_eq_some_iff.mp h
  obtain ⟨blank, hcloses, hn⟩ := closingLength?_eq_some_iff_closesWith.mp haccepts
  refine ⟨blank, ⟨hstart, hcloses, fun m hm hms => ?_⟩, hn⟩
  exact closingLength?_eq_none_iff.mp (hfirst m hm hms)

/-- A body is closed by a first line or by none. -/
theorem exists_isClosing_or (delimiter body : Bytes) :
    (∃ line blank, IsClosing delimiter body line blank) ∨
      ∀ m, IsLineStart body m → ∀ blank, ¬ ClosesWith delimiter blank (body.drop m) := by
  cases h : firstLine? (closingLength? delimiter) body with
  | none =>
    exact Or.inr fun m hm => closingLength?_eq_none_iff.mp (firstLine?_eq_none_iff.mp h m hm)
  | some found =>
    obtain ⟨blank, hclosing, -⟩ := exists_isClosing h
    exact Or.inl ⟨found.1, blank, hclosing⟩

/-! ### Bytes that begin no opener -/

/-- Behind horizontal space stands a quote or a byte that may begin a delimiter. -/
def Begins (rule : DelimiterRule) (bs : Bytes) : Prop :=
  ∃ indent first rest, bs = indent ++ first :: rest ∧
    (∀ b ∈ indent, Byte.isHorizontalSpace b = true) ∧
    (first = Byte.singleQuote ∨ first = Byte.doubleQuote ∨ rule.isLead first = true)

theorem delimiterRun_eq_zero_iff :
    delimiterRun rule bs = 0 ↔ ∀ b, bs.head? = some b → rule.isLead b = false := by
  cases bs with
  | nil =>
    refine ⟨fun _ b hb => ?_, fun _ => rfl⟩
    cases hb
  | cons b bs =>
    rw [delimiterRun]
    cases hlead : rule.isLead b with
    | false =>
      refine ⟨fun _ c hc => ?_, fun _ => rfl⟩
      rw [← Option.some.inj hc]
      exact hlead
    | true =>
      rw [if_pos rfl]
      constructor
      · intro hzero
        have hword := DelimiterRule.isDelimiterByte_of_isLead hlead
        rw [DelimiterRule.isDelimiterByte, Bool.or_comm] at hword
        have hpos := Word.length_pos hword bs
        omega
      · intro h
        rw [h b rfl] at hlead
        cases hlead

theorem readDelimiter_eq_absent_iff {quote : Option UInt8} {read : Nat} :
    readDelimiter rule quote read bs = .error .absent ↔ quote = none ∧ delimiterRun rule bs = 0 := by
  rw [readDelimiter]
  by_cases hzero : delimiterRun rule bs = 0
  · simp only [hzero, if_true, and_true]
    cases quote with
    | none => exact ⟨fun _ => rfl, fun _ => rfl⟩
    | some q =>
      constructor
      · intro h
        cases h
      · intro h
        cases h
  · simp only [hzero, if_false, and_false, iff_false]
    intro h
    split at h <;> cases h

theorem quote?_eq_none_iff :
    quote? bs = none ↔ ∀ b, bs.head? = some b → b ≠ Byte.singleQuote ∧ b ≠ Byte.doubleQuote := by
  cases bs with
  | nil =>
    refine ⟨fun _ b hb => ?_, fun _ => rfl⟩
    cases hb
  | cons b bs =>
    simp only [quote?, ite_eq_right_iff, reduceCtorEq, imp_false, not_or, List.head?_cons,
      Option.some.injEq, forall_eq']

/-- No opener is read exactly where none begins. -/
theorem readOpener_eq_absent_iff : readOpener rule bs = .error .absent ↔ ¬ Begins rule bs := by
  have hindent : ∀ b ∈ bs.take (Bytes.runLength Byte.isHorizontalSpace bs),
      Byte.isHorizontalSpace b = true := fun b hb => Bytes.of_mem_take_runLength hb
  have habsent : readOpener rule bs = .error .absent ↔
      quote? (bs.drop (Bytes.runLength Byte.isHorizontalSpace bs)) = none ∧
        delimiterRun rule (bs.drop (Bytes.runLength Byte.isHorizontalSpace bs)) = 0 := by
    rw [readOpener]
    cases hquote : quote? (bs.drop (Bytes.runLength Byte.isHorizontalSpace bs)) with
    | none => simp only [readDelimiter_eq_absent_iff]
    | some q => simp only [readDelimiter_eq_absent_iff, reduceCtorEq, false_and]
  rw [habsent, quote?_eq_none_iff, delimiterRun_eq_zero_iff]
  constructor
  · rintro ⟨hquote, hlead⟩ ⟨indent, first, rest, hbs, hspaces, hfirst⟩
    have hspace : Byte.isHorizontalSpace first = false := by
      rcases hfirst with rfl | rfl | hfirst
      · rfl
      · rfl
      · exact not_isHorizontalSpace_of_isLead rule first hfirst
    have hrun : Bytes.runLength Byte.isHorizontalSpace bs = indent.length := by
      rw [hbs]
      refine Bytes.runLength_append hspaces fun b hb => ?_
      rw [← Option.some.inj hb]
      exact hspace
    have hhead : (bs.drop (Bytes.runLength Byte.isHorizontalSpace bs)).head? = some first := by
      rw [hrun, hbs, List.drop_append_length]
      rfl
    rcases hfirst with hfirst | hfirst | hfirst
    · exact (hquote first hhead).1 hfirst
    · exact (hquote first hhead).2 hfirst
    · rw [hlead first hhead] at hfirst
      cases hfirst
  · intro h
    have hbegins : ∀ b, (bs.drop (Bytes.runLength Byte.isHorizontalSpace bs)).head? = some b →
        ¬ (b = Byte.singleQuote ∨ b = Byte.doubleQuote ∨ rule.isLead b = true) := by
      intro b hb hfirst
      obtain ⟨rest, hrest⟩ := List.head?_eq_some_iff.mp hb
      refine h ⟨_, b, rest, ?_, hindent, hfirst⟩
      rw [← hrest, List.take_append_drop]
    constructor
    · intro b hb
      exact ⟨fun hq => hbegins b hb (Or.inl hq), fun hq => hbegins b hb (Or.inr (Or.inl hq))⟩
    · intro b hb
      exact Bool.not_eq_true _ ▸ fun hq => hbegins b hb (Or.inr (Or.inr hq))

/-! ### The scanner -/

/-- A body that a line closes is the body without the white space before that line. -/
theorem scan?_of_closing (opens : OpenerLine options.delimiters opener opening)
    (closing : IsClosing opener.delimiter body line blank) :
    ∃ text, Bytes.Trims (body.take (line - 1)) text ∧
      scan? options (opening ++ body) = some (.lexeme ⟨.fixed opener.kind,
        ⟨3 + opening.length, text.length⟩,
        3 + opening.length + (line + opener.delimiter.length + blank.length)⟩) := by
  obtain ⟨text, htrims, hlength⟩ := Bytes.exists_trims (body.take (line - 1))
  refine ⟨text, htrims, ?_⟩
  rw [scan?, readOpener_of_line opens]
  simp only [opens.length_eq, List.drop_append_length, firstLine?_of_isClosing closing, hlength,
    Nat.add_assoc]

/-- A body that no line closes is a fault, or all that is left without the white space at the
end. -/
theorem scan?_of_open (opens : OpenerLine options.delimiters opener opening)
    (unclosed : ∀ m, IsLineStart body m → ∀ blank,
      ¬ ClosesWith opener.delimiter blank (body.drop m)) :
    (options.isStrict = true →
      scan? options (opening ++ body) =
        some (.fault .unterminatedString (3 + (opening ++ body).length))) ∧
    (options.isStrict = false → ∃ text, Bytes.Trims body text ∧
      scan? options (opening ++ body) = some (.lexeme ⟨.fixed opener.kind,
        ⟨3 + opening.length, text.length⟩, 3 + (opening ++ body).length⟩)) := by
  have hscan : scan? options (opening ++ body) =
      if options.isStrict then some (.fault .unterminatedString (3 + (opening ++ body).length))
      else some (.lexeme ⟨.fixed opener.kind, ⟨3 + opening.length, Bytes.trimmedLength body⟩,
        3 + (opening ++ body).length⟩) := by
    rw [scan?, readOpener_of_line opens]
    simp only [opens.length_eq, List.drop_append_length, firstLine?_of_not_closes unclosed]
  constructor
  · intro strict
    rw [hscan, if_pos strict]
  · intro lenient
    obtain ⟨text, htrims, hlength⟩ := Bytes.exists_trims body
    refine ⟨text, htrims, ?_⟩
    rw [hscan, lenient, if_neg Bool.false_ne_true, hlength]

/-- Where no heredoc opens, a strict reader finds a fault if one begins there; otherwise the bytes
are left to the operators. -/
theorem scan?_of_not_opens (closed : ¬ ∃ opener opening body, bs = opening ++ body ∧
      OpenerLine options.delimiters opener opening) :
    (options.isStrict = true ∧ Begins options.delimiters bs →
      ∃ length, scan? options bs = some (.fault .invalidHeredocDelimiter length)) ∧
    (¬ (options.isStrict = true ∧ Begins options.delimiters bs) → scan? options bs = none) := by
  rw [scan?]
  cases hread : readOpener options.delimiters bs with
  | ok opener =>
    obtain ⟨opening, body, hbs, hopening⟩ := readOpener_eq_ok_iff.mp hread
    exact absurd ⟨opener, opening, body, hbs, hopening⟩ closed
  | error refusal =>
    cases refusal with
    | absent =>
      refine ⟨fun hbegins => ?_, fun _ => rfl⟩
      exact absurd hbegins.2 (readOpener_eq_absent_iff.mp hread)
    | malformed length =>
      have hbegins : Begins options.delimiters bs := by
        by_contra hnot
        rw [readOpener_eq_absent_iff.mpr hnot] at hread
        cases hread
      cases strict : options.isStrict with
      | true => exact ⟨fun _ => ⟨3 + length, rfl⟩, fun h => absurd ⟨rfl, hbegins⟩ h⟩
      | false => exact ⟨fun h => absurd h.1 Bool.false_ne_true, fun _ => rfl⟩

end Heredoc

end TemplateScript
