import TemplateScript.Proofs.Heredoc.Closing
import TemplateScript.Proofs.Lexer.Displacement
import TemplateScript.Proofs.Marks
import TemplateScript.Proofs.Template.Tiling
import TemplateScript.Proofs.Template.Together

/-!
# Where the lexer and the search for a closing tag part

The lexer of a block and the search for its closing tag go together, construct by construct, unless
they come to a run of `<` at which only one of them opens a heredoc, or at which both do but the
line that ends it for the search does not end it for the lexer.

* `Template.Parting` — they part here;
* `Template.parting_or_goesOn` — from any place they came to together they go on, or they part;
* `Template.exists_parting_of_leavesOpen` — if the text of a closed block leaves a construct open, the
  two part somewhere, and a construct is left open from there on;
* `Template.leavesOpen_iff` — and only then is one left open;
* `Template.exists_trail` — what comes behind the text of a block;
* `Template.unterminated_iff_partsAt` — so it is with the error of the strict lexer of a block.
-/

namespace TemplateScript.Template

open Construct

/-- At the start of these bytes the lexer and the search for a closing tag part. -/
inductive Parting (rule : DelimiterRule) : Bytes → Prop
  /-- Only the lexer opens a heredoc at the end of the run. -/
  | lexerOpens {count : Nat} {bs : Bytes} {opener : Heredoc.Opener} (three : 3 ≤ count)
      (odd : count % 2 = 1) (uneven : count % 3 ≠ 0)
      (opens : Heredoc.readOpener rule bs = .ok opener) : Parting rule (marks count ++ bs)
  /-- Only the search does. -/
  | searchOpens {count : Nat} {bs : Bytes} {opener : Heredoc.Opener} (three : 3 ≤ count)
      (even : count % 2 = 0) (triple : count % 3 = 0)
      (opens : Heredoc.readOpener rule bs = .ok opener) : Parting rule (marks count ++ bs)
  /-- Both do, but the first line that begins with the delimiter as a whole word, where the search
  goes on, does not end the heredoc of the lexer. -/
  | endsApart {count line length : Nat} {bs : Bytes} {opener : Heredoc.Opener} (three : 3 ≤ count)
      (odd : count % 2 = 1) (triple : count % 3 = 0)
      (opens : Heredoc.readOpener rule bs = .ok opener)
      (ends : Heredoc.firstLine? (Heredoc.delimiterLength? rule opener.delimiter)
        (bs.drop opener.length) = some (line, length))
      (further : Heredoc.closingLength? opener.delimiter
        ((bs.drop opener.length).drop line) = none) : Parting rule (marks count ++ bs)

variable {options : Options} {trail after bs text : Bytes} {count : Nat}

/-! ### At a run of `<` -/

theorem head?_append_of_followsText (h : FollowsText after) (hbs : bs.head? ≠ some Byte.less) :
    (bs ++ after).head? ≠ some Byte.less := by
  cases bs with
  | nil =>
    intro hless
    rcases h Byte.less hless with h | h <;> cases h
  | cons b bs => exact hbs

/-- Where neither opens a heredoc, both come to the end of the run. -/
theorem goesOn_of_run (options : Options) (three : 3 ≤ count) (hbs : bs.head? ≠ some Byte.less)
    (hfollows : FollowsText after)
    (lexer : count % 2 = 0 ∨ Heredoc.readOpener options.delimiters bs = .error .absent)
    (search : count % 3 ≠ 0 ∨
      ∃ refusal, Heredoc.readOpener options.delimiters (bs ++ after) = .error refusal) :
    GoesOn options after (marks count ++ bs) := by
  obtain ⟨more, rest, rfl, hplain, hreads⟩ := reads_run three hbs lexer
  refine ⟨rest, ⟨hreads, ?_⟩, ?_⟩
  · have hrun := passes_run three (head?_append_of_followsText hfollows hbs) search
    rw [List.append_assoc more] at hrun
    rw [List.append_assoc, List.append_assoc]
    exact hrun.trans (passes_plain hplain (rest ++ after))
  · rw [List.length_append, List.length_append, marks, List.length_replicate]
    omega

/-- At an odd run a strict lexer does not get past an opener that breaks off. -/
theorem not_leavesOpen_of_malformed (strict : options.isStrict = true) (three : 3 ≤ count)
    (odd : count % 2 = 1) {length : Nat}
    (h : Heredoc.readOpener options.delimiters bs = .error (.malformed length)) :
    ¬ LeavesOpen options (marks count ++ bs) := by
  have hscan : Heredoc.scan? options bs = some (.fault .invalidHeredocDelimiter (3 + length)) := by
    rw [Heredoc.scan?, h]
    simp only [strict, if_true]
  have hfault : firstFault? options (marks 3 ++ bs) = some .invalidHeredocDelimiter :=
    show firstFault? options (Byte.less :: Byte.less :: Byte.less :: bs) = _ from
      firstFault?_of_fault rfl (scan_of_heredoc hscan)
  rw [(reads_odd three odd bs).leavesOpen_iff]
  rintro (h | h) <;> rw [hfault] at h <;> cases h

/-- At a run of three, six, nine, … bytes the search opens the heredoc and goes on behind the
delimiter that stands at the start of a line. -/
theorem passes_delimiter {rule : DelimiterRule} {opener : Heredoc.Opener} {line length : Nat}
    (three : 3 ≤ count) (triple : count % 3 = 0) (opens : Heredoc.readOpener rule bs = .ok opener)
    (delimits : Heredoc.firstLine? (Heredoc.delimiterLength? rule opener.delimiter)
      (bs.drop opener.length) = some (line, length)) :
    Passes rule (marks count ++ bs) (bs.drop (opener.length + line + length)) := by
  have hhidden : Heredoc.hiddenLength rule bs = opener.length + line + length := by
    rw [Heredoc.hiddenLength, opens]
    simp only [delimits]
  rw [← hhidden]
  exact (passes_triples three triple bs).trans (passes_heredoc rule bs)

/-- A heredoc that the search opens ends, for the search, within the text. -/
theorem Remains.exists_delimiter {rule : DelimiterRule} {opener : Heredoc.Opener}
    (h : Remains rule trail after (marks count ++ bs)) (three : 3 ≤ count) (triple : count % 3 = 0)
    (opens : Heredoc.readOpener rule (bs ++ after) = .ok opener) :
    ∃ line, opener.length + line + opener.delimiter.length ≤ bs.length ∧
      Heredoc.firstLine? (Heredoc.delimiterLength? rule opener.delimiter)
        ((bs ++ after).drop opener.length) = some (line, opener.delimiter.length) := by
  cases hline : Heredoc.firstLine? (Heredoc.delimiterLength? rule opener.delimiter)
    ((bs ++ after).drop opener.length) with
  | none =>
    have hhidden : Heredoc.hiddenLength rule (bs ++ after) = (bs ++ after).length := by
      rw [Heredoc.hiddenLength, opens]
      simp only [hline]
    have hpasses := (passes_triples three triple (bs ++ after)).trans
      (passes_heredoc rule (bs ++ after))
    rw [hhidden, List.drop_length, ← List.append_assoc] at hpasses
    exact absurd hpasses h.not_passes_nil
  | some found =>
    obtain ⟨line, length⟩ := found
    obtain ⟨-, haccepts, -⟩ := Heredoc.firstLine?_eq_some_iff.mp hline
    obtain ⟨rest, hrest, -, rfl⟩ := Heredoc.delimiterLength?_eq_some_iff.mp haccepts
    have hdelimiter := Heredoc.isDelimiter_of_readOpener opens
    have hpos := Heredoc.length_pos_of_isDelimiter hdelimiter
    have hlast := List.getLast?_eq_some_getLast (List.ne_nil_of_length_pos hpos)
    -- what is passed: the run, the opener, the lines before the delimiter, and the delimiter
    have hsplit : marks count ++ bs ++ after =
        marks count ++ ((bs ++ after).take (opener.length + line) ++ opener.delimiter) ++ rest := by
      rw [List.append_assoc, List.append_assoc, List.append_assoc, ← hrest, List.drop_drop,
        List.take_append_drop]
    have hpasses := passes_delimiter three triple opens hline
    rw [← List.append_assoc, ← List.drop_drop, ← List.drop_drop, hrest,
      List.drop_append_length] at hpasses
    have hle := h.length_le_of_getLast? hsplit hpasses
      (by rw [List.getLast?_append, List.getLast?_append, hlast]; rfl)
      (Heredoc.isTrailingSpace_of_getLast? hdelimiter hlast)
    have hlong := congrArg List.length hrest
    simp only [List.length_drop, List.length_append, List.length_take] at hle hlong
    exact ⟨line, by omega, rfl⟩

/-- Where both open a heredoc and the first line with its delimiter ends it for both, they come to
the end of that line. -/
theorem goesOn_of_heredoc {opener : Heredoc.Opener} {line n : Nat} (three : 3 ≤ count)
    (odd : count % 2 = 1) (triple : count % 3 = 0)
    (lexer : Heredoc.readOpener options.delimiters bs = .ok opener)
    (search : Heredoc.readOpener options.delimiters (bs ++ after) = .ok opener)
    (delimits : Heredoc.firstLine?
      (Heredoc.delimiterLength? options.delimiters opener.delimiter)
      ((bs ++ after).drop opener.length) = some (line, opener.delimiter.length))
    (closes : Heredoc.firstLine? (Heredoc.closingLength? opener.delimiter)
      (bs.drop opener.length) = some (line, n)) :
    GoesOn options after (marks count ++ bs) := by
  have hreads : Reads options (marks count ++ bs) (bs.drop (opener.length + line + n)) := by
    have hscan : Heredoc.scan? options bs = some (.lexeme ⟨.fixed opener.kind,
        ⟨3 + opener.length, Bytes.trimmedLength ((bs.drop opener.length).take (line - 1))⟩,
        3 + opener.length + line + n⟩) := by
      rw [Heredoc.scan?, lexer]
      simp only [closes]
    have hread : Reads options (Byte.less :: Byte.less :: Byte.less :: bs)
        ((Byte.less :: Byte.less :: bs).drop (3 + opener.length + line + n - 1)) :=
      .of_lexeme rfl (scan_of_heredoc hscan)
    have hlength : 3 + opener.length + line + n - 1 = opener.length + line + n + 1 + 1 := by omega
    simp only [hlength, List.drop_succ_cons] at hread
    exact (reads_odd three odd bs).trans hread
  have hpasses := passes_delimiter three triple search delimits
  -- behind the delimiter, the lexer takes the blanks of the line
  obtain ⟨-, haccepts, -⟩ := Heredoc.firstLine?_eq_some_iff.mp closes
  obtain ⟨blank, rest, hrest, hblank, -, rfl⟩ := Heredoc.closingLength?_eq_some_iff.mp haccepts
  have hbs : bs = bs.take (opener.length + line) ++ (opener.delimiter ++ (blank ++ rest)) := by
    rw [← hrest, List.drop_drop, List.take_append_drop]
  have hopener := Heredoc.length_le_of_readOpener lexer
  have hline := Heredoc.firstLine?_le (fun _ _ => Heredoc.closingLength?_le) closes
  rw [List.length_drop] at hline
  have hdrop : bs.drop (opener.length + line + opener.delimiter.length) = blank ++ rest := by
    rw [← List.drop_drop, ← List.drop_drop, hrest, List.drop_append_length]
  refine ⟨rest, ⟨?_, ?_⟩, ?_⟩
  · rw [← Nat.add_assoc, ← List.drop_drop, hdrop, List.drop_append_length] at hreads
    exact hreads
  · rw [List.drop_append_of_le_length (by omega), hdrop, List.append_assoc] at hpasses
    rw [List.append_assoc]
    refine hpasses.trans (passes_plain (fun b hb => ?_) (rest ++ after))
    exact Byte.isPlain_of_isSpace b (by rw [Byte.isSpace, hblank b hb, Bool.or_true])
  · have hlength := congrArg List.length hdrop
    rw [List.length_drop, List.length_append] at hlength
    rw [List.length_append, marks, List.length_replicate]
    omega

/-- Both come past a run of `<` together, or they part there. -/
theorem parting_or_goesOn_of_marks (strict : options.isStrict = true)
    (h : Remains options.delimiters trail after (marks count ++ bs)) (three : 3 ≤ count)
    (hbs : bs.head? ≠ some Byte.less) (hopen : LeavesOpen options (marks count ++ bs)) :
    Parting options.delimiters (marks count ++ bs) ∨ GoesOn options after (marks count ++ bs) := by
  have hrun := goesOn_of_run options three hbs h.followsText
  have hlexer : (count % 2 = 0 ∨ Heredoc.readOpener options.delimiters bs = .error .absent) ∨
      count % 2 = 1 ∧ ∃ opener, Heredoc.readOpener options.delimiters bs = .ok opener := by
    rcases Nat.mod_two_eq_zero_or_one count with even | odd
    · exact Or.inl (Or.inl even)
    · cases hopener : Heredoc.readOpener options.delimiters bs with
      | ok opener => exact Or.inr ⟨odd, opener, rfl⟩
      | error refusal =>
        cases refusal with
        | absent => exact Or.inl (Or.inr rfl)
        | malformed length =>
          exact absurd hopen (not_leavesOpen_of_malformed strict three odd hopener)
  by_cases triple : count % 3 = 0
  · cases search : Heredoc.readOpener options.delimiters (bs ++ after) with
    | error refusal =>
      rcases hlexer with hlexer | ⟨-, opener, hopener⟩
      · exact Or.inr (hrun hlexer (Or.inr ⟨refusal, search⟩))
      · have hlength := Heredoc.length_le_of_readOpener hopener
        rw [(Heredoc.readOpener_append after hlength).mpr hopener] at search
        cases search
    | ok opener =>
      obtain ⟨line, hle, hline⟩ := h.exists_delimiter three triple search
      have lexer := (Heredoc.readOpener_append after (by omega)).mp search
      have hends := hline
      rw [List.drop_append_of_le_length (by omega)] at hends
      have hends := Heredoc.firstLine?_append hends (by rw [List.length_drop]; omega)
      rcases Nat.mod_two_eq_zero_or_one count with even | odd
      · exact Or.inl (.searchOpens three even triple lexer)
      · cases hclosing : Heredoc.closingLength? opener.delimiter
          ((bs.drop opener.length).drop line) with
        | none => exact Or.inl (.endsApart three odd triple lexer hends hclosing)
        | some n =>
          exact Or.inr (goesOn_of_heredoc three odd triple lexer search hline
            (Heredoc.firstLine?_closing hends hclosing))
  · rcases hlexer with hlexer | ⟨odd, opener, hopener⟩
    · exact Or.inr (hrun hlexer (Or.inl triple))
    · exact Or.inl (.lexerOpens three odd triple hopener)

/-! ### On and on -/

/-- From any place they came to together the two go on together, or they part there. -/
theorem parting_or_goesOn (strict : options.isStrict = true) {first : UInt8} {tail : Bytes}
    (h : Remains options.delimiters trail after (first :: tail))
    (hopen : LeavesOpen options (first :: tail)) :
    Parting options.delimiters (first :: tail) ∨ GoesOn options after (first :: tail) := by
  by_cases space : Byte.isSpace first = true
  · exact Or.inr (goesOn_of_space space)
  by_cases quote : Byte.isQuote first = true
  · exact Or.inr (goesOn_of_quote h quote)
  cases comment : Comment.scan? first tail with
  | some found => exact Or.inr (goesOn_of_comment h comment hopen)
  | none =>
    by_cases hmarks : ascii "<<<" <+: first :: tail
    · obtain ⟨count, bs, three, hrun, hbs⟩ := exists_marks_of_prefix hmarks
      rw [hrun] at h hopen ⊢
      exact parting_or_goesOn_of_marks strict h three hbs hopen
    · rw [Bool.not_eq_true] at space quote
      exact Or.inr (goesOn_of_lexeme h space quote comment hmarks)

/-- If the text of a closed block leaves a construct open, the two went together up to some place,
parted there, and a construct is left open from there on. -/
theorem exists_parting_of_leavesOpen (strict : options.isStrict = true)
    (h : Remains options.delimiters trail after text) (hopen : LeavesOpen options text) :
    ∃ rest, Together options after text rest ∧ Parting options.delimiters rest ∧
      LeavesOpen options rest := by
  induction hlen : text.length using Nat.strongRecOn generalizing text with
  | ind n ih =>
    cases text with
    | nil => exact absurd hopen not_leavesOpen_nil
    | cons first tail =>
      rcases parting_or_goesOn strict h hopen with hparting | ⟨middle, htogether, hlt⟩
      · exact ⟨first :: tail, ⟨.refl, .refl⟩, hparting, hopen⟩
      · obtain ⟨before, hbefore⟩ := htogether.exists_append
        have hremains : Remains options.delimiters trail after middle := by
          rw [hbefore] at h
          exact h.of_passes (hbefore ▸ htogether.passes)
        obtain ⟨rest, hfurther, hparting, hrest⟩ := ih middle.length (hlen ▸ hlt) hremains
          (htogether.reads.leavesOpen_iff.mp hopen) rfl
        exact ⟨rest, htogether.trans hfurther, hparting, hrest⟩

/-- So the text leaves a construct open exactly when the two part somewhere and a construct is left open
from there on.  For the converse the parting is of no matter: from any place that the lexer comes to,
it leaves open what it leaves open from the start. -/
theorem leavesOpen_iff (strict : options.isStrict = true)
    (h : Remains options.delimiters trail after text) :
    LeavesOpen options text ↔ ∃ rest, Together options after text rest ∧
      Parting options.delimiters rest ∧ LeavesOpen options rest := by
  constructor
  · exact exists_parting_of_leavesOpen strict h
  · rintro ⟨rest, htogether, -, hrest⟩
    exact htogether.reads.leavesOpen_iff.mpr hrest

/-! ### Blocks -/

/-- The lexer of a segment has the text of the segment ahead. -/
theorem rest_ofSegment {document : Bytes} {s : Segment} (h : s.text.stop ≤ document.length)
    (options : Options) :
    (Lexer.ofSegment document s options).cursor.rest = s.textIn document := by
  have hstart : s.text.start ≤ s.text.stop := Nat.le_add_right _ _
  show (Cursor.ofRange document s.text.start s.text.stop s.startLine).rest = _
  rw [Lexer.rest_ofRange, Nat.min_eq_left h, Nat.min_eq_left hstart, Span.between, Span.stop,
    Nat.add_sub_cancel_left]
  rfl

/-- Behind the text of a block come white space and the closing tag that is found; or only white
space, up to the end of the document. -/
theorem exists_trail {document : Bytes} {s : Segment} (h : s ∈ split document options)
    (hcode : s.kind = .code) :
    s.text.stop ≤ document.length ∧ ∃ trail close rest,
      document.drop s.text.start = s.textIn document ++ (trail ++ (close ++ rest)) ∧
      (∀ b ∈ trail, Byte.isTrailingSpace b = true) ∧
      (close = ascii "?>" ∧ closeTag? options.delimiters (document.drop s.text.start) =
          some (s.textIn document ++ trail).length ∨
        close = [] ∧ rest = [] ∧
          closeTag? options.delimiters (document.drop s.text.start) = none) := by
  obtain ⟨parts, -, -, htext, -⟩ := (isBlock_of_cut (cut_of_mem_split h) hcode).parts
  have hstop := stop_text_le (cut_of_mem_split h) hcode
  have hdocument := parts.drop_text
  have hscript : s.textIn document = parts.script := by
    rw [Segment.textIn, Span.slice_of_le hstop, htext, hdocument, List.take_append_length]
  refine ⟨hstop, parts.trail, parts.close, parts.rest, ?_, parts.trails, ?_⟩
  · rw [hscript, htext, hdocument]
  · rw [hscript, htext, hdocument]
    exact parts.closes

/-- The text of a block that a closing tag ended lies in the document, before what the search goes
through behind it. -/
theorem exists_remains {document : Bytes} {s : Segment} {script : Nat}
    (h : s ∈ split document options) (hcode : s.kind = .code)
    (hclosed : closeTag? options.delimiters (document.drop s.text.start) = some script) :
    s.text.stop ≤ document.length ∧ ∃ trail after,
      document.drop s.text.start = s.textIn document ++ after ∧
        Remains options.delimiters trail after (s.textIn document) := by
  obtain ⟨hstop, trail, close, rest, hdocument, htrails, hcloses⟩ := exists_trail h hcode
  refine ⟨hstop, trail, _, hdocument, ?_⟩
  rcases hcloses with ⟨hclose, hfound⟩ | ⟨-, -, hnone⟩
  · refine ⟨htrails, ⟨rest, by rw [hclose]⟩, ?_⟩
    rw [← hdocument, hfound, List.length_append]
  · rw [hnone] at hclosed
    cases hclosed

/-- The strict lexer of the block `s` and the search for its closing tag come to the same place,
behind `before`, and part there. -/
structure PartsAt (document : Bytes) (options : Options) (s : Segment) (before rest : Bytes) :
    Prop where
  eq : s.textIn document = before ++ rest
  reads : Reads options.strict (s.textIn document) rest
  passes : Passes options.delimiters (document.drop s.text.start)
    (document.drop (s.text.start + before.length))
  parting : Parting options.delimiters rest

theorem partsAt_iff {document before rest : Bytes} {s : Segment}
    (hdocument : document.drop s.text.start = s.textIn document ++ after) :
    PartsAt document options s before rest ↔ s.textIn document = before ++ rest ∧
      Together options.strict after (s.textIn document) rest ∧
      Parting options.delimiters rest := by
  have hdrop : s.textIn document = before ++ rest →
      document.drop (s.text.start + before.length) = rest ++ after := by
    intro heq
    rw [← List.drop_drop, hdocument, heq, List.append_assoc, List.drop_append_length]
  constructor
  · intro h
    have hpasses := h.passes
    rw [hdocument, hdrop h.eq] at hpasses
    exact ⟨h.eq, ⟨h.reads, hpasses⟩, h.parting⟩
  · rintro ⟨heq, htogether, hparting⟩
    refine ⟨heq, htogether.reads, ?_, hparting⟩
    rw [hdocument, hdrop heq]
    exact htogether.passes

/-- The strict lexer of a block that a closing tag ended leaves a string, a heredoc or a comment
open exactly when it parted from the search for that tag and left one open from there on.  What takes
proof is that it fails only where the two have parted (`exists_parting_of_leavesOpen`); the converse
needs of a place no more than that the lexer comes to it and leaves a construct open from there on. -/
theorem unterminated_iff_partsAt {document : Bytes} {options : Options} {s : Segment} {script : Nat}
    (h : s ∈ split document options) (hcode : s.kind = .code)
    (hclosed : closeTag? options.delimiters (document.drop s.text.start) = some script)
    (resolve : Resolver) :
    (∃ error, (Lexer.ofSegment document s options.strict).collect resolve = .error error ∧
        error.IsUnterminated) ↔
      ∃ before rest, PartsAt document options s before rest ∧
        LeavesOpen options.strict rest := by
  obtain ⟨hstop, trail, after, hdocument, hremains⟩ := exists_remains h hcode hclosed
  have hstrict : options.strict.isStrict = true := rfl
  have hrest : (Lexer.ofSegment document s options.strict).cursor.rest = s.textIn document :=
    rest_ofSegment hstop options.strict
  rw [Lexer.unterminated_iff_leavesOpen _ rfl, hrest]
  show LeavesOpen options.strict (s.textIn document) ↔ _
  rw [leavesOpen_iff hstrict hremains]
  simp only [partsAt_iff hdocument]
  constructor
  · rintro ⟨rest, htogether, hparting, hopen⟩
    obtain ⟨before, hbefore⟩ := htogether.exists_append
    exact ⟨before, rest, ⟨hbefore, htogether, hparting⟩, hopen⟩
  · rintro ⟨before, rest, ⟨-, htogether, hparting⟩, hopen⟩
    exact ⟨rest, htogether, hparting, hopen⟩

/-- The line `EOT + 1` lets the search for a closing tag go on and leaves the heredoc open. -/
theorem unterminated_iff_partsAt_delimiter :
    let s : Segment := ⟨.code, ⟨0, 23⟩, ⟨6, 14⟩, .first⟩
    let document := ascii "<?php <<<EOT\nEOT + 1 ?>\nEOT;\n?>"
    s ∈ split document {} ∧ s.kind = .code ∧ closeTag? .relaxed (document.drop 6) = some 15 ∧
      ∃ before rest, PartsAt document {} s before rest ∧
        LeavesOpen (Options.strict {}) rest := by
  intro s document
  have hmem : s ∈ split document {} := by decide +kernel
  have hclosed : closeTag? .relaxed (document.drop 6) = some 15 := by decide +kernel
  have herror : (Lexer.ofSegment document s (Options.strict {})).collect .standard =
      .error ⟨.fault .unterminatedString, 6, .first⟩ := by
    decide +kernel
  exact ⟨hmem, rfl, hclosed,
    (unterminated_iff_partsAt hmem rfl hclosed .standard).mp ⟨_, herror, Or.inl rfl⟩⟩

/-- At a run of five `<` only the lexer opens the heredoc, so the tag in its body closes the block
and the strict lexer fails. -/
theorem unterminated_of_closed_block :
    let s : Segment := ⟨.code, ⟨0, 26⟩, ⟨6, 17⟩, .first⟩
    let document := ascii "<?php $a = 1 <<<<<EOT\nx ?>\nEOT;\n?>"
    s ∈ split document {} ∧ s.kind = .code ∧ closeTag? .relaxed (document.drop 6) = some 18 ∧
      (Lexer.ofSegment document s (Options.strict {})).collect .standard =
        .error ⟨.fault .unterminatedString, 15, .first⟩ := by
  intro s document
  have hmem : s ∈ split document {} := by decide +kernel
  have hclosed : closeTag? .relaxed (document.drop 6) = some 18 := by decide +kernel
  have herror : (Lexer.ofSegment document s (Options.strict {})).collect .standard =
      .error ⟨.fault .unterminatedString, 15, .first⟩ := by
    decide +kernel
  exact ⟨hmem, rfl, hclosed, herror⟩

end TemplateScript.Template
