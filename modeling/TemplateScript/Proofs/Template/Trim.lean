import TemplateScript.Proofs.Lexer.Trailing
import TemplateScript.Proofs.Template.Blocks
import TemplateScript.Proofs.Template.Drift

/-!
# What trimming does to a block

The text of a block is its script without the white space at the end, whatever the script ends
with.  For a lenient lexer the tokens are the same ones, up to the end of the last literal, unless
the text ends within the opening line of a heredoc: trimming then takes away the newline that the
opener needs.

* `Template.untrimmed` and `Template.trail` — the block with the white space at its end, and that
  white space;
* `Template.outline_untrimmed_iff` — the tokens of a block have the kinds and begin at the offsets
  of those of the untrimmed script exactly if no opening line is cut.
-/

namespace TemplateScript.Template

open Construct

variable {document : Bytes} {options : Options} {s : Segment}

/-- The block with all of its script as its text: up to the closing tag that is found, or up to the
end of the document. -/
def untrimmed (document : Bytes) (rule : DelimiterRule) (s : Segment) : Segment :=
  let script := document.drop s.text.start
  { s with text := ⟨s.text.start, (closeTag? rule script).getD script.length⟩ }

/-- The bytes that trimming takes off the script of a block. -/
def trail (document : Bytes) (rule : DelimiterRule) (s : Segment) : Bytes :=
  ((untrimmed document rule s).textIn document).drop s.text.length

/-- The script of a block is its text and white space. -/
theorem textIn_untrimmed (h : s ∈ split document options) (hcode : s.kind = .code) :
    (untrimmed document options.delimiters s).text.stop ≤ document.length ∧
      (untrimmed document options.delimiters s).textIn document =
        s.textIn document ++ trail document options.delimiters s ∧
      ∀ b ∈ trail document options.delimiters s, Byte.isTrailingSpace b = true := by
  obtain ⟨hstop, space, close, rest, hdocument, hspace, hcloses⟩ := exists_trail h hcode
  have hlength : (untrimmed document options.delimiters s).text.length =
      (s.textIn document ++ space).length := by
    show (closeTag? options.delimiters (document.drop s.text.start)).getD _ = _
    rcases hcloses with ⟨-, hfound⟩ | ⟨rfl, rfl, hfound⟩
    · rw [hfound]
      rfl
    · rw [hfound, Option.getD_none, hdocument]
      simp only [List.append_nil]
  have hle : (untrimmed document options.delimiters s).text.stop ≤ document.length := by
    have htotal := congrArg List.length hdocument
    have hstart : s.text.start + s.text.length ≤ document.length := hstop
    rw [List.length_drop, ← List.append_assoc, List.length_append] at htotal
    show s.text.start + (untrimmed document options.delimiters s).text.length ≤ _
    omega
  have htext : (untrimmed document options.delimiters s).textIn document =
      s.textIn document ++ space := by
    rw [Segment.textIn, Span.slice_of_le hle, hlength]
    show (document.drop s.text.start).take _ = _
    rw [hdocument, ← List.append_assoc, List.take_append_length]
  have htrail : trail document options.delimiters s = space := by
    rw [trail, htext, ← Span.length_slice hstop]
    exact List.drop_append_length
  rw [htrail]
  exact ⟨hle, htext, hspace⟩

/-- The lexer of the untrimmed script has the white space behind what the lexer of the block has
ahead. -/
theorem beside_ofSegment (h : s ∈ split document options) (hcode : s.kind = .code) :
    Lexer.Beside (trail document options.delimiters s) (Lexer.ofSegment document s options)
      (Lexer.ofSegment document (untrimmed document options.delimiters s) options) := by
  have hstop := stop_text_le (cut_of_mem_split h) hcode
  obtain ⟨hstop', htext, -⟩ := textIn_untrimmed h hcode
  refine ⟨rfl, ?_, ?_, rfl, rfl⟩
  · rw [rest_ofSegment hstop, rest_ofSegment hstop', htext]
  · rw [offset_ofSegment hstop, offset_ofSegment hstop']
    rfl

/-- For a lenient lexer the tokens of a block have the kinds of those of the untrimmed script and
begin at the same offsets exactly if trimming cuts no opening line of a heredoc. -/
theorem outline_untrimmed_iff (lenient : options.isStrict = false)
    (h : s ∈ split document options) (hcode : s.kind = .code) (resolve : Resolver) :
    ∃ tokens tokens', (Lexer.ofSegment document s options).collect resolve = .ok tokens ∧
      (Lexer.ofSegment document (untrimmed document options.delimiters s) options).collect
        resolve = .ok tokens' ∧
      (outline tokens = outline tokens' ↔
        ¬ CutsOpener options (s.textIn document) (trail document options.delimiters s)) := by
  have hstop := stop_text_le (cut_of_mem_split h) hcode
  obtain ⟨-, -, htrails⟩ := textIn_untrimmed h hcode
  obtain ⟨tokens, tokens', htokens, htokens', hsame, hcut⟩ :=
    (beside_ofSegment h hcode).collectFrom lenient htrails rfl rfl resolve #[]
  have hrest : (Lexer.ofSegment document s options).cursor.rest = s.textIn document :=
    rest_ofSegment hstop options
  rw [hrest] at hsame hcut
  refine ⟨tokens, tokens', htokens, htokens', fun heq hcuts => ?_, hsame⟩
  -- no token of the block begins behind its text
  obtain ⟨token', hmem', hlt⟩ := hcut hcuts
  have hmem : (token'.kind, token'.text.start) ∈ outline tokens := by
    rw [heq]
    exact List.mem_map.mpr ⟨token', hmem', rfl⟩
  obtain ⟨token, hmem, hpair⟩ := List.mem_map.mp hmem
  have hplaced := Lexer.placed_of_collect (counts_ofSegment h hcode).2 rfl htokens token hmem
  have hle : token.text.start + token.text.length ≤
      (Lexer.ofSegment document s options).cursor.source.length := hplaced.stop_le
  rw [← (Prod.mk.inj hpair).2] at hlt
  omega

/-- The closing line of the heredoc loses its blank and its newline, and nothing is cut. -/
theorem outline_untrimmed_iff_heredoc :
    let s : Segment := ⟨.code, ⟨0, 18⟩, ⟨6, 8⟩, .first⟩
    let document := ascii "<?php <<<E\nx\nE \n?>"
    s ∈ split document {} ∧ s.kind = .code ∧ Options.isStrict {} = false ∧
      ¬ CutsOpener {} (s.textIn document) (trail document .relaxed s) := by
  intro s document
  have hmem : s ∈ split document {} := by decide +kernel
  have htokens : (Lexer.ofSegment document s {}).collect .standard =
      .ok #[⟨.heredoc, ⟨11, 1⟩, .first, none⟩] := by
    decide +kernel
  have htokens' : (Lexer.ofSegment document (untrimmed document .relaxed s) {}).collect .standard =
      .ok #[⟨.heredoc, ⟨11, 1⟩, .first, none⟩] := by
    decide +kernel
  obtain ⟨tokens, tokens', hfound, hfound', hiff⟩ := outline_untrimmed_iff rfl hmem rfl .standard
  obtain rfl := Except.ok.inj (htokens.symm.trans hfound)
  obtain rfl := Except.ok.inj (htokens'.symm.trans hfound')
  exact ⟨hmem, rfl, rfl, hiff.mp rfl⟩

/-- Trimming takes the newline off the opener, and what is left of it is read as operators. -/
theorem outline_ne_of_trimmed_opener :
    let s : Segment := ⟨.code, ⟨0, 13⟩, ⟨6, 6⟩, .first⟩
    let document := ascii "<?php <<<EOT\n"
    s ∈ split document {} ∧ s.kind = .code ∧ Options.isStrict {} = false ∧
      ((Lexer.ofSegment document s {}).collect .standard).map outline =
        .ok [(.operator .shl, 6), (.operator .lt, 8), (.identifier, 9)] ∧
      ((Lexer.ofSegment document (untrimmed document .relaxed s) {}).collect .standard).map outline =
        .ok [(.heredoc, 13)] := by
  intro s document
  have hmem : s ∈ split document {} := by decide +kernel
  have htokens : ((Lexer.ofSegment document s {}).collect .standard).map outline =
      .ok [(.operator .shl, 6), (.operator .lt, 8), (.identifier, 9)] := by
    decide +kernel
  have htokens' : ((Lexer.ofSegment document (untrimmed document .relaxed s) {}).collect
      .standard).map outline = .ok [(.heredoc, 13)] := by
    decide +kernel
  exact ⟨hmem, rfl, rfl, htokens, htokens'⟩

end TemplateScript.Template
