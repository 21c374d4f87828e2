import TemplateScript.Proofs.Lexer.Run
import TemplateScript.Proofs.Resolver
import TemplateScript.Proofs.Template.Passing
import TemplateScript.Proofs.Template.Tiling

/-!
# Where a block closes, read by the lexer

A block closes at the first `?` that the lenient lexer, let loose on all that follows the opening
tag, reads as the ternary operator with a `>` right behind it — as long as no `<<<` is about.

* `Template.closeTagFrom?_eq_find` — the search for a closing tag and the lexer, started at the same
  place, stop at the same place: they pass trivia and lexemes together;
* `Template.closeTag?_of_mem_split` — so it is for every block of a document.
-/

namespace TemplateScript

/-- The edit emits a ternary `?` that a `>` follows in `source`. -/
def Edit.closesBlock (source : Bytes) : Edit → Bool
  | emit token =>
    token.kind == .operator .ternary && source[token.text.stop]? == some Byte.greater
  | replaceLast _ _ => false

/-! ### The question mark -/

/-- No spelling of more than one byte begins with `?`. -/
theorem Symbol.length_question (tail : Bytes) : Symbol.length (Byte.question :: tail) = 1 := by
  have hall : spellings.all (fun s => s.head? != some Byte.question) = true := by rfl
  obtain ⟨more, rest, -, hlength, hmore⟩ := exists_length Byte.question tail
  rcases hmore with rfl | hmem
  · exact hlength
  · have hne := List.all_eq_true.mp hall _ hmem
    simp at hne

theorem Symbol.eq_of_question {tail : Bytes} {found : Lexeme}
    (h : Symbol.At Byte.question tail found) :
    found = .whole (.symbol [Byte.question]) 1 := by
  cases h with
  | mark marks => cases marks
  | reference equals _ => cases equals
  | arrow spells =>
    rw [length_question] at spells
    cases spells
  | spelled =>
    rw [length_question]
    rfl

/-- A symbol that is spelled `?` is that byte. -/
theorem Symbol.first_eq_of_question {first : UInt8} {tail : Bytes} {found : Lexeme}
    (h : Symbol.At first tail found) (hform : found.form = .symbol [Byte.question]) :
    first = Byte.question := by
  cases h with
  | @mark form marks =>
    have hmark := isMark_of_mark? marks
    rw [show form = _ from hform] at hmark
    cases hmark
  | reference _ _ => cases hform
  | arrow _ => cases hform
  | spelled =>
    obtain ⟨n, hn⟩ := Nat.exists_eq_succ_of_ne_zero (Nat.ne_of_gt (length_pos (first :: tail)))
    have hspelling := Lexeme.Form.symbol.inj hform
    rw [hn, List.take_succ_cons] at hspelling
    exact (List.cons.inj hspelling).1

namespace Construct

variable {options : Options} {first : UInt8} {tail : Bytes} {found : Lexeme}

/-- A `?` is a lexeme of its own. -/
theorem eq_of_scan_question
    (scan : Construct.scan options Byte.question tail = .lexeme found) :
    found = .whole (.symbol [Byte.question]) 1 := by
  have hat := scan_at options Byte.question tail
  rw [scan] at hat
  cases hat with
  | word start => cases start
  | numeral _ digit => cases digit
  | string quote _ => cases quote
  | openString quote _ _ => cases quote
  | heredoc marks _ _ => cases marks
  | openHeredoc marks _ _ _ => cases marks
  | symbol _ _ _ _ _ => exact Symbol.eq_of_question (Lexeme.symbol_at _ _)

theorem first_eq_of_scan_question (scan : Construct.scan options first tail = .lexeme found)
    (hform : found.form = .symbol [Byte.question]) : first = Byte.question := by
  have hat := scan_at options first tail
  rw [scan] at hat
  cases hat with
  | word _ => cases hform
  | numeral _ _ =>
    rw [Lexeme.numeral] at hform
    split at hform <;> cases hform
  | string _ _ => cases hform
  | openString _ _ _ => cases hform
  | heredoc _ _ _ => cases hform
  | openHeredoc _ _ _ _ => cases hform
  | symbol _ _ _ _ _ => exact Symbol.first_eq_of_question (Lexeme.symbol_at _ _) hform

/-- A lenient reader takes as much of a quoted string as the search for a closing tag does. -/
theorem length_of_quote (scan : Construct.scan options first tail = .lexeme found)
    (hquote : Byte.isQuote first = true) : found.length = Quoted.length first tail := by
  have hlength := Quoted.length_scan options.isStrict first tail
  rw [← scan_of_quote hquote, scan] at hlength
  exact hlength

end Construct

namespace Template

variable {edit : Edit}

/-! ### Side by side -/

/-- The edit of a `?` before a `>` closes a block. -/
theorem closesBlock_of_question {source : Bytes} {lookback : Lookback} {offset : Nat} {line : Line}
    (hsettles : (Lexeme.whole (.symbol [Byte.question]) 1).Settles lookback offset line .standard
      edit) (hnext : source[offset + 1]? = some Byte.greater) :
    edit.closesBlock source = true ∧ edit.token.text.start = offset := by
  have hternary : Resolver.standard ⟨[Byte.question], lookback.latest⟩ = some .ternary := rfl
  cases hsettles with
  | fixed form => cases form
  | annotated form => cases form
  | keyword form _ => cases form
  | operatorWord form _ _ => cases form
  | identifier form _ => cases form
  | operator form answer =>
    cases form
    rw [hternary] at answer
    cases answer
    refine ⟨?_, Nat.add_zero offset⟩
    show (true && source[offset + 0 + 1]? == some Byte.greater) = true
    rw [Nat.add_zero, hnext]
    rfl
  | other form answer =>
    cases form
    rw [hternary] at answer
    cases answer
  | cast form _ _ => cases form
  | closeParen form _ => cases form

/-- No other edit does. -/
theorem question_of_closesBlock {source tail : Bytes} {first : UInt8} {found : Lexeme}
    {options : Options} {lookback : Lookback} {offset : Nat} {line : Line}
    (scan : Construct.scan options first tail = .lexeme found)
    (hsettles : found.Settles lookback offset line .standard edit)
    (hcloses : edit.closesBlock source = true) :
    first = Byte.question ∧ source[offset + 1]? = some Byte.greater := by
  cases edit with
  | replaceLast _ _ => cases hcloses
  | emit token =>
    simp only [Edit.closesBlock, Bool.and_eq_true, beq_iff_eq] at hcloses
    obtain ⟨spelling, hform, hanswer, htext⟩ :=
      hsettles.of_operator (Construct.hasFixedKind_of_scan scan) hcloses.1
    obtain rfl : spelling = [Byte.question] := by
      rcases Resolver.spelledBy_of_standard hanswer with h | ⟨-, h⟩
      · exact h
      · cases h
    obtain rfl := Construct.first_eq_of_scan_question scan hform
    obtain rfl := Construct.eq_of_scan_question scan
    refine ⟨rfl, ?_⟩
    have hstop : token.text.stop = offset + 1 := by
      rw [htext, Span.stop_shift]
      rfl
    rw [← hstop]
    exact hcloses.2

/-- Without a heredoc, the search for a closing tag passes every lexeme of a lenient lexer. -/
theorem passes_found (rule : DelimiterRule) {options : Options} {first : UInt8} {tail : Bytes}
    {found : Lexeme} (scan : Construct.scan options first tail = .lexeme found)
    (noTag : ¬ (first = Byte.question ∧ tail.head? = some Byte.greater))
    (hmarks : ¬ ascii "<<<" <+: first :: tail) :
    Passes rule (first :: tail) (tail.drop (found.length - 1)) := by
  by_cases hquote : Byte.isQuote first = true
  · rw [Construct.length_of_quote scan hquote]
    exact passes_quoted rule tail hquote
  · have h : Passes rule (first :: (tail ++ [])) (tail.drop (found.length - 1) ++ []) :=
      passes_lexeme scan (fun b hb => by cases hb) (by rwa [List.append_nil])
        (Bool.not_eq_true _ ▸ hquote) hmarks
    rwa [List.append_nil, List.append_nil] at h

section Takes

variable {l : Lexer} {gap : Bytes} {first : UInt8} {tail : Bytes} {found : Lexeme}

/-- The search passes what a lexer skips. -/
theorem passes_gap (h : l.Takes .standard edit gap first tail found) :
    Passes l.options.delimiters (gap ++ first :: tail) (first :: tail) := by
  have hskip := passes_skip l.options.delimiters l.options l.cursor.rest
  rw [← h.skipped, h.rest, List.drop_append_length] at hskip
  exact hskip

/-- The edit of a lexeme closes a block exactly when the search finds a closing tag there. -/
theorem closesBlock_iff_of_takes (h : l.Takes .standard edit gap first tail found) :
    edit.closesBlock l.cursor.source = true ↔
      first = Byte.question ∧ tail.head? = some Byte.greater := by
  have hbyte : l.cursor.source[l.cursor.offset + gap.length + 1]? = tail.head? := by
    rw [Nat.add_assoc, ← List.getElem?_drop, ← l.cursor.rest_eq, h.rest,
      List.getElem?_append_right (Nat.le_add_right _ _), Nat.add_sub_cancel_left]
    exact List.head?_eq_getElem?.symm
  have hsettles := h.settles
  constructor
  · intro hcloses
    rw [← hbyte]
    exact question_of_closesBlock h.scan hsettles hcloses
  · rintro ⟨rfl, hgreater⟩
    obtain rfl := Construct.eq_of_scan_question h.scan
    exact (closesBlock_of_question hsettles (hbyte.trans hgreater)).1

/-- The token of such an edit stands where the search finds the closing tag. -/
theorem closeTagFrom?_of_close (h : l.Takes .standard edit gap first tail found)
    (hcloses : edit.closesBlock l.cursor.source = true) :
    closeTagFrom? l.options.delimiters l.cursor.offset l.cursor.rest =
      some edit.token.text.start := by
  have hstart : edit.token.text.start = l.cursor.offset + gap.length := by
    obtain ⟨-, hgreater⟩ := question_of_closesBlock h.scan h.settles hcloses
    obtain ⟨rfl, -⟩ := (closesBlock_iff_of_takes h).mp hcloses
    have hsettles := h.settles
    obtain rfl := Construct.eq_of_scan_question h.scan
    exact (closesBlock_of_question hsettles hgreater).2
  rw [h.rest, (passes_gap h).closeTagFrom?_append, hstart, closeTagFrom?,
    if_pos ((closesBlock_iff_of_takes h).mp hcloses)]

/-- Past any other lexeme, if no heredoc is about, the search goes on where the lexer does. -/
theorem closeTagFrom?_of_takes (h : l.Takes .standard edit gap first tail found)
    (hopen : ¬ edit.closesBlock l.cursor.source = true) (hfree : ¬ ascii "<<<" <:+: l.cursor.rest) :
    closeTagFrom? l.options.delimiters l.cursor.offset l.cursor.rest =
      closeTagFrom? l.options.delimiters (l.step .standard).lexer.cursor.offset
        (l.step .standard).lexer.cursor.rest := by
  have hmarks : ¬ ascii "<<<" <+: first :: tail := by
    intro hmarks
    rw [h.rest] at hfree
    exact hfree (hmarks.isInfix.trans (List.suffix_append _ _).isInfix)
  have hpasses := passes_found l.options.delimiters h.scan
    (fun htag => hopen ((closesBlock_iff_of_takes h).mpr htag)) hmarks
  have hdrop : (first :: tail).drop found.length = tail.drop (found.length - 1) :=
    Bytes.drop_cons_add h.length.1 0
  have hsplit : first :: tail = (first :: tail).take found.length ++ tail.drop (found.length - 1) := by
    rw [← hdrop, List.take_append_drop]
  have hlength : ((first :: tail).take found.length).length = found.length :=
    List.length_take_of_le h.length.2
  rw [h.rest, (passes_gap h).closeTagFrom?_append, h.offset_eq, h.rest_eq]
  rw [hsplit] at hpasses ⊢
  rw [hpasses.closeTagFrom?_append, hlength]

end Takes

/-- From the same place on, the search for a closing tag and the lexer come to the same place. -/
theorem closeTagFrom?_eq_find (l : Lexer) (lenient : l.options.isStrict = false)
    (running : l.finished = false) (hfree : ¬ ascii "<<<" <:+: l.cursor.rest) :
    closeTagFrom? l.options.delimiters l.cursor.offset l.cursor.rest =
      ((l.edits .standard).find? (Edit.closesBlock l.cursor.source)).map
        (·.token.text.start) := by
  induction hlen : l.cursor.rest.length using Nat.strongRecOn generalizing l with
  | ind n ih =>
    cases hstep : (l.step .standard).answer with
    | error e =>
      have hfound : (Ahead.of l.options l.cursor.rest).found = .endOfInput := by
        rcases Lexer.exists_fault hstep with ⟨-, hfound, -⟩ | ⟨_, _, _, _, _, -, -, -, hscan, -⟩
        · exact hfound
        · exact absurd hscan (Construct.ne_fault_of_lenient lenient _ _)
      have hskip := passes_skip l.options.delimiters l.options l.cursor.rest
      rw [(Ahead.length_of l.options l.cursor.rest).1 hfound, List.drop_length] at hskip
      obtain ⟨passed, -, hclose⟩ := hskip.closeTag?_eq
      rw [closeTagFrom?_eq, hclose, closeTag?_nil, Lexer.edits_of_error running hstep]
      rfl
    | ok edit =>
      obtain ⟨gap, first, tail, found, htakes⟩ := Lexer.exists_takes hstep
      rw [Lexer.edits_of_ok running hstep]
      by_cases hcloses : edit.closesBlock l.cursor.source = true
      · rw [List.find?_cons_of_pos hcloses]
        exact closeTagFrom?_of_close htakes hcloses
      · have hrest : (l.step .standard).lexer.cursor.rest <:+ l.cursor.rest := by
          rw [htakes.lexer]
          exact List.drop_suffix _ _
        have hfurther := ih _ (hlen ▸ Lexer.length_rest_step hstep) (l.step .standard).lexer
          (by rw [htakes.options_eq]; exact lenient) (htakes.finished_eq.trans running)
          (fun h => hfree (h.trans hrest.isInfix)) rfl
        rw [htakes.options_eq, htakes.source_eq] at hfurther
        rw [List.find?_cons_of_neg hcloses, closeTagFrom?_of_takes htakes hcloses hfree]
        exact hfurther

/-! ### Blocks -/

/-- A block closes where the lenient lexer, reading all of the document behind its opening tag,
first meets a ternary `?` before a `>`, and its span ends behind that tag; or else it has no closing
tag and its span ends with the document. -/
theorem closeTag?_of_mem_split {document : Bytes} {options : Options} {s : Segment}
    (h : s ∈ split document options) (hcode : s.kind = .code)
    (hfree : ¬ ascii "<<<" <:+: document) :
    let script := document.drop s.text.start
    let closing := ((Lexer.start script options.lenient).edits .standard).find?
      (Edit.closesBlock script)
    closeTag? options.delimiters script = closing.map (·.token.text.start) ∧
      s.span.stop =
        closing.elim document.length fun edit => s.text.start + edit.token.text.start + 2 := by
  intro script closing
  have hfind : closeTag? options.delimiters script = closing.map (·.token.text.start) :=
    closeTagFrom?_eq_find (Lexer.start script options.lenient) rfl rfl
      fun h => hfree (h.trans (List.drop_suffix _ _).isInfix)
  refine ⟨hfind, ?_⟩
  obtain ⟨parts, -, hspan, htext, hend⟩ := (isBlock_of_cut (cut_of_mem_split h) hcode).parts
  have hscript : script = parts.script ++ (parts.trail ++ (parts.close ++ parts.rest)) := by
    show document.drop s.text.start = _
    rw [htext]
    exact parts.drop_text
  have hstop : s.span.stop = s.text.start + ((parts.script ++ parts.trail).length +
      parts.close.length) := by
    rw [Span.stop, hspan, htext, Parts.whole]
    simp only [List.length_append]
    omega
  rcases parts.closes with ⟨hclose, hfound⟩ | ⟨hclose, hrest, hfound⟩
  · rw [← hscript, hfind] at hfound
    obtain ⟨edit, hedit, hstart⟩ := Option.map_eq_some_iff.mp hfound
    rw [hedit, hstop, ← hstart, hclose]
    exact (Nat.add_assoc _ _ _).symm
  · rw [← hscript, hfind, Option.map_eq_none_iff] at hfound
    rw [hfound]
    rcases hend with hend | ⟨-, hend⟩
    · rw [hclose] at hend
      cases hend
    · exact hend

/-- The tag in the string does not close the block; the `?` and the `>` behind it do. -/
theorem closeTag?_of_mem_split_string :
    let s : Segment := ⟨.code, ⟨0, 19⟩, ⟨3, 13⟩, .first⟩
    let document := ascii "<? $a ? '?>' : 1 ?>b"
    s ∈ split document {} ∧ s.kind = .code ∧ ¬ ascii "<<<" <:+: document ∧
      (((Lexer.start (document.drop 3) {}).edits .standard).find?
        (Edit.closesBlock (document.drop 3))).map (·.token.text.start) = some 14 := by
  intro s document
  have hmem : s ∈ split document {} := by decide +kernel
  have hfree : ¬ ascii "<<<" <:+: document := by decide +kernel
  have hfound : closeTag? .relaxed (document.drop 3) = some 14 := by decide +kernel
  exact ⟨hmem, rfl, hfree, (closeTag?_of_mem_split hmem rfl hfree).1.symm.trans hfound⟩

end Template

end TemplateScript
