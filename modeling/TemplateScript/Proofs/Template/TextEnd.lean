import TemplateScript.Proofs.Ending
import TemplateScript.Proofs.Lexer.Body
import TemplateScript.Proofs.Template.Trim

/-!
# What a trimmed text ends in

The white space that scripts skip and the white space that trimming drops are the same but for the
vertical tab.  So a trimmed text can end in white space, and does so exactly if a vertical tab is the
last thing before what trimming drops.

* `Byte.isSpace_and_not_isTrailingSpace_iff` — the byte in which the two classes differ;
* `Bytes.Trims.endsInSpace_iff_endsInTab` — what that makes of a trimmed text;
* `Template.trims_textIn` — the text of a block is its trimmed script;
* `Template.endsInSpace_iff` — which blocks, and which heredoc tokens in them, have a text that ends
  in white space.
-/

namespace TemplateScript

/-- The white space that trimming does not drop. -/
theorem Byte.isSpace_and_not_isTrailingSpace_iff :
    ∀ b, isSpace b = true ∧ isTrailingSpace b = false ↔ b = 0x0B := by
  decide +kernel

/-- Options that do not report open constructs are lenient as they are. -/
theorem Options.lenient_eq_self {options : Options} (h : options.isStrict = false) :
    options.lenient = options := by
  obtain ⟨startLine, ending, delimiters⟩ := options
  cases ending with
  | lenient => rfl
  | strict => cases h

namespace Bytes

variable {bs text : Bytes}

/-- The last byte is white space of scripts. -/
def EndsInSpace (bs : Bytes) : Prop :=
  ∃ b, bs.getLast? = some b ∧ Byte.isSpace b = true

/-- Behind its last vertical tab there is only white space that trimming drops. -/
def EndsInTab (bs : Bytes) : Prop :=
  ∃ before space, bs = before ++ 0x0B :: space ∧ ∀ b ∈ space, Byte.isTrailingSpace b = true

/-- A vertical tab with nothing but such white space behind it is where trimming stops. -/
theorem Trims.getLast?_of_endsInTab (h : Trims bs text) (tab : bs.EndsInTab) :
    text.getLast? = some 0x0B := by
  obtain ⟨space, rfl, hspace, hlast⟩ := h
  obtain ⟨before, after, hsplit, hafter⟩ := tab
  rcases List.append_eq_append_iff.mp hsplit with ⟨more, -, rfl⟩ | ⟨more, rfl, hmore⟩
  · -- the tab would be among what is dropped
    cases hspace 0x0B (List.mem_append_right _ List.mem_cons_self)
  · cases more with
    | nil =>
      obtain rfl : 0x0B :: after = space := hmore
      cases hspace 0x0B List.mem_cons_self
    | cons first more =>
      obtain ⟨rfl, rfl⟩ := List.cons.inj hmore
      have hne : before ++ 0x0B :: more ≠ [] := List.append_ne_nil_of_right_ne_nil _ nofun
      have hget := List.getLast?_eq_some_getLast hne
      have hkept := hlast _ hget
      rw [hget]
      rw [List.getLast_append_of_right_ne_nil _ _ (List.cons_ne_nil _ _)] at hkept ⊢
      rcases List.mem_cons.mp (List.getLast_mem (List.cons_ne_nil 0x0B more)) with heq | hmem
      · rw [heq]
      · rw [hafter _ (List.mem_append_left _ hmem)] at hkept
        cases hkept

/-- A trimmed text ends in white space exactly if trimming stops at a vertical tab. -/
theorem Trims.endsInSpace_iff_endsInTab (h : Trims bs text) : text.EndsInSpace ↔ bs.EndsInTab := by
  constructor
  · rintro ⟨b, hb, hspace⟩
    obtain ⟨space, rfl, hspaces, hlast⟩ := h
    obtain rfl := (Byte.isSpace_and_not_isTrailingSpace_iff b).mp ⟨hspace, hlast b hb⟩
    obtain ⟨before, rfl⟩ := List.getLast?_eq_some_iff.mp hb
    exact ⟨before, space, by rw [List.append_assoc]; rfl, hspaces⟩
  · intro tab
    exact ⟨0x0B, h.getLast?_of_endsInTab tab, rfl⟩

end Bytes

namespace Template

variable {document : Bytes} {options : Options} {s : Segment} {blocks : List Block}
  {tokens : Array Token}

/-! ### Blocks -/

/-- The text of a block is its script without the white space at the end. -/
theorem trims_textIn (h : s ∈ split document options) (hcode : s.kind = .code) :
    Bytes.Trims ((untrimmed document options.delimiters s).textIn document)
      (s.textIn document) := by
  obtain ⟨parts, -, -, htext, -⟩ := (isBlock_of_cut (cut_of_mem_split h) hcode).parts
  have hstop := stop_text_le (cut_of_mem_split h) hcode
  obtain ⟨-, hsplit, hspace⟩ := textIn_untrimmed h hcode
  refine ⟨trail document options.delimiters s, hsplit, hspace, fun b hb => parts.trimmed b ?_⟩
  rwa [Segment.textIn, Span.slice_of_le hstop, htext, parts.drop_text,
    List.take_append_length] at hb

/-! ### Heredocs -/

/-- The text of a token that ends early enough does not depend on the rest of the document. -/
theorem textIn_take {token : Token} {n : Nat} (hn : n ≤ document.length)
    (h : token.text.stop ≤ n) : token.textIn (document.take n) = token.textIn document := by
  have hstop : token.text.start + token.text.length ≤ n := h
  rw [Token.textIn, Token.textIn, Span.slice_of_le (Nat.le_trans h hn), Span.slice_of_le,
    List.drop_take, List.take_take, Nat.min_eq_left (by omega)]
  rwa [List.length_take_of_le hn]

/-- The text of a heredoc token is its body without the white space at the end, in the document. -/
theorem exists_body_of_mem_lex (h : lex document options = .ok blocks)
    (hmem : .code s tokens ∈ blocks) {token : Token} (htoken : token ∈ tokens.toList)
    (hkind : token.kind = .heredoc ∨ token.kind = .nowdoc) :
    ∃ body, Heredoc.BodyAt options.delimiters (document.take s.text.stop) token.text.start body ∧
      Bytes.Trims body (token.textIn document) := by
  obtain ⟨hsegment, hcode, hcollect⟩ := collect_of_mem_lex h hmem
  have hstop := stop_text_le (cut_of_mem_split hsegment) hcode
  have hplaced := Lexer.placed_of_collect (counts_ofSegment hsegment hcode).2 rfl hcollect token
    htoken
  have hle : token.text.stop ≤ s.text.stop := by
    have hlength : (Lexer.ofSegment document s options).cursor.source.length = s.text.stop :=
      List.length_take_of_le hstop
    rw [← hlength]
    exact hplaced.stop_le
  obtain ⟨body, hbody, htrims⟩ := Lexer.trimsBody_of_collect hcollect token htoken hkind
  exact ⟨body, hbody, textIn_take hstop hle ▸ htrims⟩

/-! ### The end of a text -/

/-- The text of a block ends in white space exactly if its script ends in a vertical tab and what
trimming drops, and the text of a heredoc token exactly if its body does; any other text is empty or
ends in a byte that is no white space. -/
theorem endsInSpace_iff (lenient : options.isStrict = false) (document : Bytes) :
    (∀ s ∈ split document options, s.kind = .code →
      ((s.textIn document).EndsInSpace ↔
        ((untrimmed document options.delimiters s).textIn document).EndsInTab)) ∧
    ∃ blocks, lex document options = .ok blocks ∧
      ∀ s tokens, .code s tokens ∈ blocks → s ∈ split document options ∧
        ∀ token ∈ tokens.toList, token.kind = .heredoc ∨ token.kind = .nowdoc →
          ∃ body, Heredoc.BodyAt options.delimiters (document.take s.text.stop)
              token.text.start body ∧
            ((token.textIn document).EndsInSpace ↔ body.EndsInTab) := by
  refine ⟨fun s h hcode => (trims_textIn h hcode).endsInSpace_iff_endsInTab, ?_⟩
  obtain ⟨blocks, hlex⟩ := exists_lex_lenient document options
  rw [Options.lenient_eq_self lenient] at hlex
  refine ⟨blocks, hlex, fun s tokens hmem => ⟨(collect_of_mem_lex hlex hmem).1, ?_⟩⟩
  intro token htoken hkind
  obtain ⟨body, hbody, htrims⟩ := exists_body_of_mem_lex hlex hmem htoken hkind
  exact ⟨body, hbody, htrims.endsInSpace_iff_endsInTab⟩

/-- A nowdoc whose body ends in a vertical tab and a space, and a vertical tab behind its closing
line. -/
theorem endsInSpace_iff_nowdoc :
    let document := ascii "<?php <<<'E'\nx\x0b \nE;\x0b\n?>"
    let s : Segment := ⟨.code, ⟨0, 23⟩, ⟨6, 14⟩, .first⟩
    Options.isStrict {} = false ∧ s ∈ split document {} ∧
      ((untrimmed document .relaxed s).textIn document).EndsInTab ∧
      ∃ body, Heredoc.BodyAt .relaxed (document.take 20) 13 body ∧ body.EndsInTab := by
  intro document s
  let nowdoc : Token := ⟨.nowdoc, ⟨13, 2⟩, .first, none⟩
  have hmem : s ∈ split document {} := by decide +kernel
  have hlex : lex document {} =
      .ok [.code s #[nowdoc, ⟨.semicolon, ⟨18, 1⟩, .ofNat 3, none⟩]] := by
    decide +kernel
  have htext : (s.textIn document).EndsInSpace := ⟨0x0B, by decide +kernel, rfl⟩
  have hnowdoc : (nowdoc.textIn document).EndsInSpace := ⟨0x0B, by decide +kernel, rfl⟩
  have lenient : Options.isStrict {} = false := rfl
  obtain ⟨hsegments, blocks, hfound, htokens⟩ := endsInSpace_iff lenient document
  obtain rfl := Except.ok.inj (hlex.symm.trans hfound)
  obtain ⟨-, htokens⟩ := htokens _ _ List.mem_cons_self
  obtain ⟨body, hbody, hiff⟩ := htokens nowdoc List.mem_cons_self (Or.inr rfl)
  exact ⟨lenient, hmem, (hsegments s hmem rfl).mp htext, body, hbody, hiff.mp hnowdoc⟩

/-- A vertical tab before the closing tag is left in the text of the block, and one at the end of
the last line of a heredoc in the text of the token. -/
theorem endsInSpace_of_verticalTab :
    (let document := ascii "<?php a\x0b?>"
      let s : Segment := ⟨.code, ⟨0, 10⟩, ⟨6, 2⟩, .first⟩
      s ∈ split document {} ∧ s.kind = .code ∧ s.textIn document = ascii "a\x0b" ∧
        (s.textIn document).EndsInSpace) ∧
    let document := ascii "<?php <<<E\nx\x0b\nE;\n?>"
    let s : Segment := ⟨.code, ⟨0, 19⟩, ⟨6, 10⟩, .first⟩
    let heredoc : Token := ⟨.heredoc, ⟨11, 2⟩, .first, none⟩
    lex document {} = .ok [.code s #[heredoc, ⟨.semicolon, ⟨15, 1⟩, .ofNat 3, none⟩]] ∧
      heredoc.textIn document = ascii "x\x0b" ∧ (heredoc.textIn document).EndsInSpace := by
  refine ⟨⟨?_, rfl, ?_, 0x0B, ?_, rfl⟩, ?_, ?_, 0x0B, ?_, rfl⟩
  all_goals decide +kernel

end Template

end TemplateScript
