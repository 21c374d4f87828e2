import TemplateScript.Proofs.Lexer.Heredoc
import TemplateScript.Proofs.Lexer.Places
import TemplateScript.Proofs.Lexer.Spelling

/-!
# The bodies of heredoc tokens

The text of a heredoc token is its body without the white space at the end, and the body is what
the opening line says it is, wherever in a script the token stands.

* `Heredoc.IsBody` and `Heredoc.BodyAt` — the body behind an opening line, and the body that begins
  at an offset of a source;
* `Token.TrimsBody` — the text of the token is the trimmed body that begins there;
* `Lexer.TrimsBodies.step` — a step adds only such heredoc tokens;
* `Lexer.trimsBody_of_collect` — and so all heredoc tokens that a lexer collects are of that kind.
-/

namespace TemplateScript

/-! ### Bodies -/

/-- What belongs to the body of all that comes behind the opening line: what comes before the newline
before the first line that closes it, or everything when no line does. -/
inductive Heredoc.IsBody (delimiter after : Bytes) : Bytes → Prop
  | closed {line : Nat} {blank : Bytes} (closing : IsClosing delimiter after line blank) :
      IsBody delimiter after (after.take (line - 1))
  | unclosed
      (none : ∀ m, IsLineStart after m → ∀ blank, ¬ ClosesWith delimiter blank (after.drop m)) :
      IsBody delimiter after after

/-- An opening line ends right before offset `start` of the source, and `body` is what it opens. -/
def Heredoc.BodyAt (rule : DelimiterRule) (source : Bytes) (start : Nat) (body : Bytes) : Prop :=
  ∃ opener opening, OpenerLine rule opener opening ∧
    ascii "<<<" ++ opening <:+ source.take start ∧
    IsBody opener.delimiter (source.drop start) body

/-- The text of the token is the body that begins there, without the white space at its end. -/
def Token.TrimsBody (rule : DelimiterRule) (source : Bytes) (token : Token) : Prop :=
  ∃ body, Heredoc.BodyAt rule source token.text.start body ∧ Bytes.Trims body (token.textIn source)

variable {rule : DelimiterRule} {source opening after body text : Bytes} {opener : Heredoc.Opener}

/-- A body is some of what comes behind the opening line, from its start on. -/
theorem Heredoc.IsBody.exists_append {delimiter : Bytes} (h : IsBody delimiter after body) :
    ∃ more, after = body ++ more := by
  cases h with
  | closed _ => exact ⟨_, (List.take_append_drop _ after).symm⟩
  | unclosed _ => exact ⟨[], (List.append_nil after).symm⟩

/-- A token whose text begins behind an opening line and is as long as the trimmed body is that. -/
theorem Token.trimsBody_of_opener {token : Token} {place : Nat}
    (marks : source.drop place = ascii "<<<" ++ (opening ++ after))
    (opens : Heredoc.OpenerLine rule opener opening)
    (isBody : Heredoc.IsBody opener.delimiter after body) (trims : Bytes.Trims body text)
    (span : token.text = ⟨place + (3 + opening.length), text.length⟩) :
    token.TrimsBody rule source := by
  have hlength : (ascii "<<<" ++ opening).length = 3 + opening.length := List.length_append
  rw [← List.append_assoc] at marks
  have hdrop : source.drop (place + (3 + opening.length)) = after := by
    rw [← hlength, ← List.drop_drop, marks, List.drop_append_length]
  have htext : token.textIn source = text := by
    obtain ⟨space, rfl, -⟩ := trims
    obtain ⟨more, hmore⟩ := isBody.exists_append
    have hstart : source.drop token.text.start = text ++ (space ++ more) := by
      rw [span, hdrop, hmore, List.append_assoc]
    exact (Span.slice_of_drop hstart (by rw [span])).1
  refine ⟨body, ⟨opener, opening, opens, ⟨source.take place, ?_⟩, ?_⟩, ?_⟩
  · rw [span]
    show _ = source.take (place + (3 + opening.length))
    rw [List.take_add, marks, ← hlength, List.take_append_length]
  · rw [span]
    show Heredoc.IsBody opener.delimiter (source.drop (place + (3 + opening.length))) body
    rwa [hdrop]
  · rwa [htext]

/-- The bytes of a heredoc token begin with `<<<` and an opening line. -/
theorem Extent.exists_opening {kind : Token.Kind} {span : Span} {extent rest : Bytes}
    (h : Extent rule kind span extent rest) (hkind : kind = .heredoc ∨ kind = .nowdoc) :
    ∃ opener opening after, extent ++ rest = ascii "<<<" ++ (opening ++ after) ∧
      Heredoc.OpenerLine rule opener opening := by
  have hlines : kind.openingLines = 1 := by
    rcases hkind with rfl | rfl <;> rfl
  cases h with
  | string _ kind_eq _ => rw [kind_eq, Quoted.openingLines_kind] at hlines; cases hlines
  | openString _ kind_eq _ => rw [kind_eq, Quoted.openingLines_kind] at hlines; cases hlines
  | whole kind_eq _ =>
    rw [Token.Kind.openingLines_of_not_isString kind_eq] at hlines
    cases hlines
  | @heredoc opener line body space blank rest opens _ _ _ _ =>
    exact ⟨opener, line, body ++ (space ++ (opener.delimiter ++ (blank ++ rest))),
      by simp only [List.append_assoc], opens⟩
  | @openHeredoc opener line body space opens _ _ _ =>
    exact ⟨opener, line, body ++ space, by simp only [List.append_assoc, List.append_nil], opens⟩

/-! ### Steps and runs -/

namespace Lexer

variable {l : Lexer} {resolve : Resolver} {edit : Edit} {tokens tokens' : Array Token}

/-- The heredoc token of a step has a trimmed body as its text. -/
theorem trimsBody_of_step (answer : (l.step resolve).answer = .ok edit)
    (hkind : edit.token.kind = .heredoc ∨ edit.token.kind = .nowdoc) :
    edit.token.TrimsBody l.options.delimiters l.cursor.source := by
  obtain ⟨gap, first, tail, found, htakes⟩ := exists_takes answer
  obtain ⟨opener, opening, after, hmarks, hopens⟩ :
      ∃ opener opening after, first :: tail = ascii "<<<" ++ (opening ++ after) ∧
        Heredoc.OpenerLine l.options.delimiters opener opening := by
    obtain ⟨extent, rest, hsplit, -, hextent⟩ := Construct.exists_extent htakes.scan
    rw [hsplit]
    rcases htakes.settles.emits_or_merges with
      ⟨token, rfl, hallows, -⟩ | ⟨_, _, _, -, -, rfl⟩
    · exact (hextent _ hallows).exists_opening hkind
    · rcases hkind with hkind | hkind <;> cases hkind
  have hmeets : l.Meets gap (ascii "<<<" ++ (opening ++ after)) :=
    ⟨hmarks ▸ htakes.rest, htakes.skipped⟩
  rcases Heredoc.exists_isClosing_or opener.delimiter after with
    ⟨line, blank, hclosing⟩ | hunclosed
  · obtain ⟨text, htrims, hanswer, -⟩ := step_of_closing hmeets hopens hclosing resolve
    obtain rfl := Except.ok.inj (hanswer.symm.trans answer)
    exact Token.trimsBody_of_opener hmeets.drop_source hopens (.closed hclosing) htrims rfl
  · obtain ⟨hstrict, hlenient⟩ := step_of_open hmeets hopens hunclosed resolve
    cases ending : l.options.isStrict with
    | true => cases (hstrict ending).symm.trans answer
    | false =>
      obtain ⟨text, htrims, hanswer, -⟩ := hlenient ending
      obtain rfl := Except.ok.inj (hanswer.symm.trans answer)
      exact Token.trimsBody_of_opener hmeets.drop_source hopens (.unclosed hunclosed) htrims rfl

/-- The lexer reads this source by this rule, and the heredoc tokens behind it have trimmed bodies
as their texts. -/
structure TrimsBodies (rule : DelimiterRule) (source : Bytes) (l : Lexer) (tokens : Array Token) :
    Prop where
  rule_eq : l.options.delimiters = rule
  source_eq : l.cursor.source = source
  trims : ∀ token ∈ tokens.toList, token.kind = .heredoc ∨ token.kind = .nowdoc →
    token.TrimsBody rule source

theorem TrimsBodies.step (h : TrimsBodies rule source l tokens)
    (answer : (l.step resolve).answer = .ok edit) :
    TrimsBodies rule source (l.step resolve).lexer (edit.apply tokens) := by
  obtain ⟨_, _, _, _, htakes⟩ := exists_takes answer
  refine ⟨?_, htakes.source_eq.trans h.source_eq, fun token hmem hkind => ?_⟩
  · rw [htakes.options_eq]
    exact h.rule_eq
  · rw [Edit.toList_apply] at hmem
    rcases List.mem_append.mp hmem with hmem | hmem
    · exact h.trims token (List.mem_of_mem_take hmem) hkind
    · obtain rfl := List.mem_singleton.mp hmem
      have htrims := trimsBody_of_step answer hkind
      rwa [h.rule_eq, h.source_eq] at htrims

/-- Every heredoc token that a lexer collects has a trimmed body as its text. -/
theorem trimsBody_of_collect (h : l.collect resolve = .ok tokens) :
    ∀ token ∈ tokens.toList, token.kind = .heredoc ∨ token.kind = .nowdoc →
      token.TrimsBody l.options.delimiters l.cursor.source := by
  have hstart : TrimsBodies l.options.delimiters l.cursor.source l #[] :=
    ⟨rfl, rfl, fun _ hmem => absurd hmem List.not_mem_nil⟩
  obtain ⟨_, hall, -⟩ := collectFrom_induction TrimsBodies.step h hstart
  exact hall.trims

end Lexer

end TemplateScript
