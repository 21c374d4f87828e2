import TemplateScript.Proofs.Ending
import TemplateScript.Proofs.Heredoc.Grammar

/-!
# The error of a document

A document that is not lexed has an error in the first block that fails, at the place and on the
line of a construct that really breaks a rule.

* `Fault.IsAt` — what a construct with a fault looks like, up to the end of the text;
* `Construct.isAt_of_scan` — a fault that is reported is one;
* `Lexer.exists_place_of_collect` — a lexer fails at a place that its cursor comes to;
* `LexError.Located` and `Template.located_of_collect` — where the error of a block stands;
* `Template.located_of_lex` — where the error of a document stands.
-/

namespace TemplateScript

/-! ### Faults -/

/-- The bytes up to the end of the text begin with a construct that has this fault. -/
inductive Fault.IsAt (rule : DelimiterRule) : Fault → Bytes → Prop
  /-- No `*/` comes after the `/*` of a comment. -/
  | comment {body : Bytes} (unclosed : ¬ ascii "*/" <:+: body) :
      IsAt rule .unterminatedComment (ascii "/*" ++ body)
  /-- No quote closes a string. -/
  | string {quote : UInt8} {body : Bytes} (isQuote : Byte.isQuote quote = true)
      (unclosed : Quoted.closing? quote body = none) :
      IsAt rule .unterminatedString (quote :: body)
  /-- No line closes a heredoc. -/
  | heredoc {opener : Heredoc.Opener} {opening body : Bytes}
      (opens : Heredoc.OpenerLine rule opener opening)
      (unclosed : ∀ m, Heredoc.IsLineStart body m → ∀ blank,
        ¬ Heredoc.ClosesWith opener.delimiter blank (body.drop m)) :
      IsAt rule .unterminatedString (ascii "<<<" ++ (opening ++ body))
  /-- An opener of a heredoc begins, but is none. -/
  | opener {bs : Bytes} {length : Nat} (begins : Heredoc.Begins rule bs)
      (refused : Heredoc.readOpener rule bs = .error (.malformed length)) :
      IsAt rule .invalidHeredocDelimiter (ascii "<<<" ++ bs)

theorem Fault.IsAt.ne_nil {rule : DelimiterRule} {fault : Fault} {bs : Bytes}
    (h : fault.IsAt rule bs) : bs ≠ [] := by
  cases h <;> exact List.cons_ne_nil _ _

/-- A fault that is found stands there. -/
theorem Construct.isAt_of_scan {options : Options} {first : UInt8} {tail : Bytes} {fault : Fault}
    {length : Nat} (scan : Construct.scan options first tail = .fault fault length) :
    fault.IsAt options.delimiters (first :: tail) := by
  have hat := scan_at options first tail
  rw [scan] at hat
  cases hat with
  | stringFault quote closing _ => exact .string quote closing
  | commentFault hscan _ closed =>
    rcases Comment.line_or_block hscan with ⟨rfl, -⟩ | ⟨body, hbody, rfl, -⟩
    · cases closed
    · rw [Comment.block] at closed
      split at closed
      · cases closed
      · next hfind =>
        rw [hbody]
        exact .comment (Bytes.findPair?_eq_none hfind)
  | heredocFault marks opens closes _ =>
    obtain ⟨opening, body, rfl, hopening⟩ := Heredoc.readOpener_eq_ok_iff.mp opens
    rw [hopening.length_eq, List.drop_append_length] at closes
    rw [marks]
    refine .heredoc hopening fun m hm => ?_
    exact Heredoc.closingLength?_eq_none_iff.mp (Heredoc.firstLine?_eq_none_iff.mp closes m hm)
  | openerFault marks opens _ =>
    rw [marks]
    refine .opener ?_ opens
    by_contra hnot
    rw [Heredoc.readOpener_eq_absent_iff.mpr hnot] at opens
    cases opens

/-! ### Lexers -/

namespace Lexer

variable {l : Lexer} {resolve : Resolver} {e : LexError}

/-- A step that fails reports the place of the construct that it comes to. -/
theorem exists_place_of_step (h : (l.step resolve).answer = .error e)
    (hend : e.isEndOfInput = false) :
    ∃ n fault,
      e = ⟨.fault fault, (l.cursor.advanceBy n).offset, (l.cursor.advanceBy n).line⟩ ∧
      fault.IsAt l.options.delimiters (l.cursor.advanceBy n).rest := by
  rcases exists_fault h with
    ⟨hcause, -, -⟩ | ⟨gap, first, tail, fault, length, hrest, hgap, -, hscan, -⟩
  · rw [LexError.isEndOfInput, hcause] at hend
    cases hend
  · have hmeets : l.Meets gap (first :: tail) := ⟨hrest, hgap⟩
    obtain ⟨hoffset, hline⟩ := hmeets.advanceBy_gap
    rw [hmeets.step_of_fault hscan] at h
    refine ⟨gap.length, fault, ?_, ?_⟩
    · rw [hoffset, hline]
      exact (Except.error.inj h).symm
    · rw [Cursor.rest_advanceBy, hrest, List.drop_append_length]
      exact Construct.isAt_of_scan hscan

/-- A lexer that fails reports the place of a construct that its cursor comes to. -/
theorem exists_place_of_collect (running : l.finished = false) (h : l.collect resolve = .error e) :
    ∃ n fault,
      e = ⟨.fault fault, (l.cursor.advanceBy n).offset, (l.cursor.advanceBy n).line⟩ ∧
      fault.IsAt l.options.delimiters (l.cursor.advanceBy n).rest := by
  rw [collect, ← collectTables_const] at h
  obtain ⟨calls, hstep, hend, -⟩ := exists_failing_call running h
  obtain ⟨m, hm⟩ := cursor_afterTables l (fun _ => resolve) calls
  obtain ⟨n, fault, he, hat⟩ := exists_place_of_step hstep hend
  rw [hm, Cursor.advanceBy_advanceBy] at he hat
  rw [options_afterTables] at hat
  exact ⟨m + n, fault, he, hat⟩

end Lexer

/-! ### Segments -/

/-- The error stands in the text of the segment, on the line that the document has there, and what
follows it in that text has the fault that it reports. -/
structure LexError.Located (document : Bytes) (options : Options) (segment : Segment)
    (e : LexError) : Prop where
  start_le : segment.text.start ≤ e.offset
  lt_stop : e.offset < segment.text.stop
  line : e.line.number = min Line.maximum
    (options.startLine.number + (document.take e.offset).count Byte.newline)
  cause : ∃ fault, e.cause = .fault fault ∧
    fault.IsAt options.delimiters
      ((segment.textIn document).drop (e.offset - segment.text.start))

namespace Template

variable {document : Bytes} {options : Options} {segment : Segment} {e : LexError}

/-- What follows an offset in the text of a segment, counted from the start of the document. -/
theorem drop_textIn {offset : Nat} (hle : segment.text.start ≤ offset)
    (hstop : segment.text.stop ≤ document.length) :
    (segment.textIn document).drop (offset - segment.text.start) =
      (document.take segment.text.stop).drop offset := by
  have hlength : segment.text.stop - segment.text.start = segment.text.length :=
    Nat.add_sub_cancel_left _ _
  rw [Segment.textIn, Span.slice_of_le hstop, ← hlength, ← List.drop_take, List.drop_drop,
    Nat.add_sub_cancel' hle]

/-- The error of a block stands in its text. -/
theorem located_of_collect (hmem : segment ∈ split document options) (hkind : segment.kind = .code)
    {resolve : Resolver}
    (h : (Lexer.ofSegment document segment options).collect resolve = .error e) :
    e.Located document options segment := by
  have hstop := stop_text_le (cut_of_mem_split hmem) hkind
  obtain ⟨hoffset, hcounts⟩ := counts_ofSegment hmem hkind
  obtain ⟨n, fault, rfl, hat⟩ := Lexer.exists_place_of_collect rfl h
  rw [Lexer.offset] at hoffset
  generalize hc : (Lexer.ofSegment document segment options).cursor = c at hoffset hcounts hat
  have hsource : (c.advanceBy n).source = document.take segment.text.stop := by
    rw [Cursor.source_advanceBy, ← hc]
    rfl
  have hle : segment.text.start ≤ (c.advanceBy n).offset := by
    rw [← hoffset]
    exact Nat.le_add_right _ _
  -- something is ahead of the cursor, so it stands before the stop
  have hlt : (c.advanceBy n).offset < segment.text.stop := by
    have hpos := List.length_pos_iff.mpr hat.ne_nil
    rw [Cursor.length_rest, hsource, List.length_take_of_le hstop] at hpos
    omega
  refine ⟨hle, hlt, ?_, fault, rfl, ?_⟩
  · have hnumber := (hcounts.advanceBy n).number_eq
    rw [Cursor.sliceFrom, hsource, List.drop_zero, List.take_take,
      Nat.min_eq_left (Nat.le_of_lt hlt), Nat.min_comm] at hnumber
    exact hnumber
  · rw [Cursor.rest_eq, hsource] at hat
    show fault.IsAt _ ((segment.textIn document).drop ((c.advanceBy n).offset - _))
    rw [drop_textIn hle hstop]
    exact hat

/-! ### Documents -/

/-- The error of a document is that of the first block that is not lexed, and it stands in the text
of that block, at a construct that breaks a rule. -/
theorem located_of_lex (h : lex document options = .error e) :
    ∃ before segment after, split document options = before ++ segment :: after ∧
      (∀ earlier ∈ before, earlier.kind = .code → ∃ tokens,
        (Lexer.ofSegment document earlier options).collect .standard = .ok tokens) ∧
      segment.kind = .code ∧
      (Lexer.ofSegment document segment options).collect .standard = .error e ∧
      e.Located document options segment := by
  obtain ⟨before, segment, after, hsplit, herror, hbefore⟩ := lex_eq_error_iff.mp h
  obtain ⟨hkind, hcollect⟩ := ofSegment_eq_error_iff.mp herror
  have hmem : segment ∈ split document options := by
    rw [hsplit]
    exact List.mem_append_right _ List.mem_cons_self
  refine ⟨before, segment, after, hsplit, fun earlier hearlier hcode => ?_, hkind, hcollect,
    located_of_collect hmem hkind hcollect⟩
  obtain ⟨block, hblock⟩ := hbefore earlier hearlier
  rcases ofSegment_eq_ok_iff.mp hblock with ⟨hraw, -⟩ | ⟨-, tokens, htokens, -⟩
  · rw [hcode] at hraw
    cases hraw
  · exact ⟨tokens, htokens⟩

/-- The first block is lexed; the second one holds a heredoc in which only a `+` keeps a line from
closing it. -/
theorem located_of_lex_heredoc :
    let document := ascii "a\n<? '?>' ?>b<? y\n <<<'E'\nz\nE+"
    let options := Options.strict {}
    ∃ e segment, e.cause = .fault .unterminatedString ∧ e.offset = 19 ∧ e.line.number = 3 ∧
      lex document options = .error e ∧ segment ∈ split document options ∧
      e.Located document options segment := by
  intro document options
  have h : lex document options = .error ⟨.fault .unterminatedString, 19, .ofNat 3⟩ := by
    decide +kernel
  obtain ⟨before, segment, after, hsplit, -, -, -, hlocated⟩ := located_of_lex h
  refine ⟨_, segment, rfl, rfl, rfl, h, ?_, hlocated⟩
  rw [hsplit]
  exact List.mem_append_right _ List.mem_cons_self

end Template

end TemplateScript
