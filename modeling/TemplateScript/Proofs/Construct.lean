import TemplateScript.Lexeme.Ahead
import TemplateScript.Proofs.Bytes

/-!
# What can stand at a byte

`Construct.At` lists, case by case, what `Construct.scan` answers and when; `Construct.scan_at`
says that the list is complete.  Proofs about the scanner split along this list and do not open
its definition.
-/

namespace TemplateScript

/-- The construct that stands at `first`, which is not white space, before `tail`. -/
inductive Construct.At (options : Options) (first : UInt8) (tail : Bytes) : Construct → Prop
  | word (start : Byte.isWordStart first = true) :
      At options first tail (.lexeme (.word (first :: tail)))
  | numeral (start : Byte.isWordStart first = false) (digit : Byte.isDigit first = true) :
      At options first tail (.lexeme (.numeral (first :: tail)))
  | string {offset : Nat} (quote : Byte.isQuote first = true)
      (closing : Quoted.closing? first tail = some offset) :
      At options first tail (.lexeme ⟨.fixed (Quoted.kind first), ⟨1, offset⟩, 1 + offset + 1⟩)
  | openString (quote : Byte.isQuote first = true) (closing : Quoted.closing? first tail = none)
      (ending : options.isStrict = false) :
      At options first tail
        (.lexeme ⟨.fixed (Quoted.kind first), ⟨1, tail.length⟩, 1 + tail.length⟩)
  | stringFault (quote : Byte.isQuote first = true) (closing : Quoted.closing? first tail = none)
      (ending : options.isStrict = true) :
      At options first tail (.fault .unterminatedString (1 + tail.length))
  | comment {found : Comment} (scan : Comment.scan? first tail = some found)
      (ending : options.isStrict = true → found.closed = true) :
      At options first tail (.comment found.length)
  | commentFault {found : Comment} (scan : Comment.scan? first tail = some found)
      (ending : options.isStrict = true) (closed : found.closed = false) :
      At options first tail (.fault .unterminatedComment found.length)
  | heredoc {bs : Bytes} {opener : Heredoc.Opener} {line length : Nat}
      (marks : first :: tail = ascii "<<<" ++ bs)
      (opens : Heredoc.readOpener options.delimiters bs = .ok opener)
      (closes : Heredoc.firstLine? (Heredoc.closingLength? opener.delimiter)
        (bs.drop opener.length) = some (line, length)) :
      At options first tail (.lexeme ⟨.fixed opener.kind,
        ⟨3 + opener.length, Bytes.trimmedLength ((bs.drop opener.length).take (line - 1))⟩,
        3 + opener.length + line + length⟩)
  | openHeredoc {bs : Bytes} {opener : Heredoc.Opener}
      (marks : first :: tail = ascii "<<<" ++ bs)
      (opens : Heredoc.readOpener options.delimiters bs = .ok opener)
      (closes : Heredoc.firstLine? (Heredoc.closingLength? opener.delimiter)
        (bs.drop opener.length) = none) (ending : options.isStrict = false) :
      At options first tail (.lexeme ⟨.fixed opener.kind,
        ⟨3 + opener.length, Bytes.trimmedLength (bs.drop opener.length)⟩, 3 + bs.length⟩)
  | heredocFault {bs : Bytes} {opener : Heredoc.Opener}
      (marks : first :: tail = ascii "<<<" ++ bs)
      (opens : Heredoc.readOpener options.delimiters bs = .ok opener)
      (closes : Heredoc.firstLine? (Heredoc.closingLength? opener.delimiter)
        (bs.drop opener.length) = none) (ending : options.isStrict = true) :
      At options first tail (.fault .unterminatedString (3 + bs.length))
  | openerFault {bs : Bytes} {length : Nat} (marks : first :: tail = ascii "<<<" ++ bs)
      (opens : Heredoc.readOpener options.delimiters bs = .error (.malformed length))
      (ending : options.isStrict = true) :
      At options first tail (.fault .invalidHeredocDelimiter (3 + length))
  | symbol (start : Byte.isWordStart first = false) (digit : Byte.isDigit first = false)
      (quote : Byte.isQuote first = false) (comment : Comment.scan? first tail = none)
      (refused : ∀ bs, first :: tail = ascii "<<<" ++ bs → ∃ refusal,
        Heredoc.readOpener options.delimiters bs = .error refusal ∧
          (options.isStrict = true → refusal = .absent)) :
      At options first tail (.lexeme (.symbol first tail))

/-- A quote is no white space and begins neither a word nor a numeral. -/
theorem Byte.classes_of_isQuote :
    ∀ b, isQuote b = true → isSpace b = false ∧ isWordStart b = false ∧ isDigit b = false := by
  decide +kernel

namespace Construct

variable {options : Options} {first : UInt8} {tail : Bytes}

/-- At a quote stands a quoted string. -/
theorem scan_of_quote (quote : Byte.isQuote first = true) :
    scan options first tail = Quoted.scan options.isStrict first tail := by
  obtain ⟨-, hword, hdigit⟩ := Byte.classes_of_isQuote first quote
  rw [scan, hword, hdigit, quote]
  simp only [Bool.false_eq_true, if_false, if_true]

/-- At a byte that starts a word stands a word. -/
theorem scan_of_wordStart (start : Byte.isWordStart first = true) :
    scan options first tail = .lexeme (.word (first :: tail)) :=
  if_pos start

/-- At a digit stands a numeral. -/
theorem scan_of_digit (digit : Byte.isDigit first = true) :
    scan options first tail = .lexeme (.numeral (first :: tail)) := by
  have hword : ∀ b, Byte.isDigit b = true → Byte.isWordStart b = false := by decide +kernel
  rw [scan, hword first digit, digit]
  simp only [Bool.false_eq_true, if_false, if_true]

theorem at_quoted (quote : Byte.isQuote first = true) :
    At options first tail (Quoted.scan options.isStrict first tail) := by
  rw [Quoted.scan]
  cases closing : Quoted.closing? first tail with
  | some offset => exact .string quote closing
  | none =>
    cases ending : options.isStrict with
    | false => exact .openString quote closing ending
    | true => exact .stringFault quote closing ending

theorem at_heredoc {bs : Bytes} {found : Construct} (marks : first :: tail = ascii "<<<" ++ bs)
    (scan : Heredoc.scan? options bs = some found) : At options first tail found := by
  rw [Heredoc.scan?] at scan
  split at scan
  · cases scan
  · next length opens =>
    cases ending : options.isStrict with
    | false =>
      rw [ending] at scan
      cases scan
    | true =>
      rw [ending] at scan
      cases scan
      exact .openerFault marks opens ending
  · next opener opens =>
    simp only [] at scan
    split at scan
    · next line length closes =>
      cases scan
      exact .heredoc marks opens closes
    · next closes =>
      cases ending : options.isStrict with
      | false =>
        rw [ending] at scan
        cases scan
        exact .openHeredoc marks opens closes ending
      | true =>
        rw [ending] at scan
        cases scan
        exact .heredocFault marks opens closes ending

theorem refusal_of_scan? {bs : Bytes} (scan : Heredoc.scan? options bs = none) :
    ∃ refusal, Heredoc.readOpener options.delimiters bs = .error refusal ∧
      (options.isStrict = true → refusal = .absent) := by
  rw [Heredoc.scan?] at scan
  split at scan
  · next opens => exact ⟨.absent, opens, fun _ => rfl⟩
  · next length opens =>
    refine ⟨.malformed length, opens, fun ending => ?_⟩
    rw [if_pos ending] at scan
    cases scan
  · simp only [] at scan
    split at scan
    · cases scan
    · split at scan <;> cases scan

/-- The list of constructs is complete. -/
theorem scan_at (options : Options) (first : UInt8) (tail : Bytes) :
    At options first tail (scan options first tail) := by
  rw [scan]
  by_cases start : Byte.isWordStart first = true
  · rw [if_pos start]
    exact .word start
  rw [if_neg start]
  by_cases digit : Byte.isDigit first = true
  · rw [if_pos digit]
    exact .numeral (Bool.not_eq_true _ ▸ start) digit
  rw [if_neg digit]
  by_cases quote : Byte.isQuote first = true
  · rw [if_pos quote]
    exact at_quoted quote
  rw [if_neg quote]
  rw [Bool.not_eq_true] at start digit quote
  split
  · next found scan =>
    by_cases h : options.isStrict = true ∧ found.closed = false
    · rw [if_pos h]
      exact .commentFault scan h.1 h.2
    · rw [if_neg h]
      exact .comment scan fun ending => by simpa [ending] using h
  · next comment =>
    have marks : ∀ {bs}, (ascii "<<<").isPrefixOf (first :: tail) = true →
        first :: tail = ascii "<<<" ++ bs → bs = tail.drop 2 := by
      intro bs _ hbs
      obtain ⟨-, rfl⟩ := List.cons.inj hbs
      rfl
    by_cases hp : (ascii "<<<").isPrefixOf (first :: tail) = true
    · obtain ⟨bs, hbs⟩ := List.isPrefixOf_iff_prefix.mp hp
      have hbs' := hbs.symm
      obtain rfl := marks hp hbs'
      simp only [hp, if_true]
      cases scan : Heredoc.scan? options (tail.drop 2) with
      | some found => exact at_heredoc hbs' scan
      | none =>
        exact .symbol start digit quote comment fun bs hbs => marks hp hbs ▸ refusal_of_scan? scan
    · simp only [hp, Bool.false_eq_true, if_false, Option.getD_none]
      refine .symbol start digit quote comment fun bs hbs => absurd ?_ hp
      rw [List.isPrefixOf_iff_prefix, hbs]
      exact List.prefix_append _ _

/-- A lenient reader finds no fault. -/
theorem ne_fault_of_lenient (lenient : options.isStrict = false) (cause : Fault) (length : Nat) :
    Construct.scan options first tail ≠ .fault cause length := by
  intro scan
  have hat := scan_at options first tail
  rw [scan] at hat
  cases hat with
  | stringFault _ _ ending => rw [lenient] at ending; cases ending
  | commentFault _ ending _ => rw [lenient] at ending; cases ending
  | heredocFault _ _ _ ending => rw [lenient] at ending; cases ending
  | openerFault _ _ ending => rw [lenient] at ending; cases ending

end Construct

end TemplateScript
