import TemplateScript.Proofs.Lexer.Fault
import TemplateScript.Proofs.Quoted
import TemplateScript.Proofs.Template.Passing

/-!
# Lexer and search side by side

The search for the closing tag of a block and the strict lexer that later reads its text start at
the same byte.  The search sees more: behind the text come white space, the closing tag and the
rest of the document.

* `Template.Remains` — what is known of the text that is left while the two go together;
* `Template.Remains.length_le_of_getLast?` — what the search passes lies within the text, unless
  it ends in white space;
* `Template.Together` and `Template.GoesOn` — the two come to the same place;
* `Template.goesOn_of_space`, `goesOn_of_quote`, `goesOn_of_comment`, `goesOn_of_lexeme` — they do
  at every construct that does not begin with `<<<`.
-/

namespace TemplateScript.Template

open Construct

/-- What is left of the text of a block: `trail` is the white space behind it, and `after` all that
comes behind it, with the closing tag that the search finds. -/
structure Remains (rule : DelimiterRule) (trail after text : Bytes) : Prop where
  trails : ∀ b ∈ trail, Byte.isTrailingSpace b = true
  tag : ∃ rest, after = trail ++ (ascii "?>" ++ rest)
  found : closeTag? rule (text ++ after) = some (text.length + trail.length)

/-- Both readers come from `bs` to `rest`, the search with `after` behind. -/
structure Together (options : Options) (after bs rest : Bytes) : Prop where
  reads : Reads options bs rest
  passes : Passes options.delimiters (bs ++ after) (rest ++ after)

/-- Both readers come to the same place behind the first byte of `bs`. -/
def GoesOn (options : Options) (after bs : Bytes) : Prop :=
  ∃ rest, Together options after bs rest ∧ rest.length < bs.length

/-! ### Within the text -/

namespace Remains

variable {rule : DelimiterRule} {trail after text before : Bytes}

theorem followsText (h : Remains rule trail after text) : FollowsText after := by
  obtain ⟨rest, rfl⟩ := h.tag
  intro b hb
  cases trail with
  | nil => exact Or.inr (Option.some.inj hb).symm
  | cons c trail =>
    obtain rfl := Option.some.inj hb
    exact Or.inl (Byte.isSpace_of_isTrailingSpace _ (h.trails _ List.mem_cons_self))

/-- What the search passes ends before the closing tag. -/
theorem closeTag?_of_passes (h : Remains rule trail after text) {passed ahead : Bytes}
    (hsplit : text ++ after = passed ++ ahead) (hpasses : Passes rule (text ++ after) ahead) :
    ∃ n, closeTag? rule ahead = some n ∧ passed.length + n = text.length + trail.length := by
  obtain ⟨passed', hpassed, hclose⟩ := hpasses.closeTag?_eq
  obtain rfl : passed' = passed := List.append_cancel_right (hpassed.symm.trans hsplit)
  rw [h.found] at hclose
  obtain ⟨n, hn, hsum⟩ := Option.map_eq_some_iff.mp hclose.symm
  exact ⟨n, hn, hsum⟩

theorem of_passes (h : Remains rule trail after (before ++ text))
    (hpasses : Passes rule (before ++ text ++ after) (text ++ after)) :
    Remains rule trail after text := by
  obtain ⟨n, hn, hsum⟩ := h.closeTag?_of_passes (List.append_assoc _ _ _) hpasses
  rw [List.length_append] at hsum
  obtain rfl : n = text.length + trail.length := by omega
  exact ⟨h.trails, h.tag, hn⟩

/-- The search does not pass all there is. -/
theorem not_passes_nil (h : Remains rule trail after text) : ¬ Passes rule (text ++ after) [] := by
  intro hpasses
  obtain ⟨n, hn, -⟩ := h.closeTag?_of_passes (List.append_nil _).symm hpasses
  rw [closeTag?_nil] at hn
  cases hn

/-- What the search passes lies within the text, unless it ends in white space. -/
theorem length_le_of_getLast? (h : Remains rule trail after text) {passed ahead : Bytes}
    {b : UInt8} (hsplit : text ++ after = passed ++ ahead)
    (hpasses : Passes rule (text ++ after) ahead) (hlast : passed.getLast? = some b)
    (hspace : Byte.isTrailingSpace b = false) : passed.length ≤ text.length := by
  obtain ⟨n, -, hsum⟩ := h.closeTag?_of_passes hsplit hpasses
  by_cases hle : passed.length ≤ text.length
  · exact hle
  · -- the last byte that was passed would belong to the white space behind the text
    obtain ⟨rest, rfl⟩ := h.tag
    have hbyte : (text ++ (trail ++ (ascii "?>" ++ rest)))[passed.length - 1]? = some b := by
      rw [hsplit, List.getElem?_append_left (by omega), ← List.getLast?_eq_getElem?]
      exact hlast
    rw [List.getElem?_append_right (by omega), List.getElem?_append_left (by omega)] at hbyte
    rw [h.trails b (List.mem_of_getElem? hbyte)] at hspace
    cases hspace

end Remains

/-! ### Going on together -/

variable {options : Options} {trail after bs rest : Bytes} {first : UInt8} {tail : Bytes}

/-- What both came past stands before what is left. -/
theorem Together.exists_append (h : Together options after bs rest) :
    ∃ before, bs = before ++ rest := by
  obtain ⟨passed, hpassed, -⟩ := h.passes.closeTag?_eq
  rw [← List.append_assoc] at hpassed
  exact ⟨passed, List.append_cancel_right hpassed⟩

theorem Together.trans {middle : Bytes} (h : Together options after bs middle)
    (h' : Together options after middle rest) : Together options after bs rest :=
  ⟨h.reads.trans h'.reads, h.passes.trans h'.passes⟩

theorem goesOn_of_drop {n : Nat} (reads : Reads options (first :: tail) (tail.drop n))
    (passes : Passes options.delimiters (first :: (tail ++ after)) (tail.drop n ++ after)) :
    GoesOn options after (first :: tail) := by
  refine ⟨tail.drop n, ⟨reads, passes⟩, ?_⟩
  rw [List.length_drop, List.length_cons]
  omega

theorem goesOn_of_space (space : Byte.isSpace first = true) :
    GoesOn options after (first :: tail) := by
  refine goesOn_of_drop (n := 0) (.space space .refl) ?_
  exact passes_byte (Byte.isPlain_of_isSpace first space) (tail ++ after)

/-- The closing quote that the search finds lies within the text. -/
theorem Remains.exists_closing {rule : DelimiterRule}
    (h : Remains rule trail after (first :: tail)) (quote : Byte.isQuote first = true) :
    ∃ n, n < tail.length ∧ Quoted.closing? first (tail ++ after) = some n := by
  have hlast : ∀ b, Byte.isQuote b = true → Byte.isTrailingSpace b = false := by decide +kernel
  have hpasses := passes_quoted rule (tail ++ after) quote
  rw [Quoted.length] at hpasses
  cases hclosing : Quoted.closing? first (tail ++ after) with
  | none =>
    rw [hclosing] at hpasses
    simp only [Nat.add_sub_cancel_left, List.drop_length] at hpasses
    exact absurd hpasses h.not_passes_nil
  | some n =>
    obtain ⟨body, more, hsplit, rfl⟩ := Quoted.exists_closing hclosing
    have hshape : first :: (tail ++ after) = (first :: (body ++ [first])) ++ more := by
      rw [hsplit]
      simp
    have hdrop : (tail ++ after).drop (body.length + 1) = more := by
      rw [hsplit, ← List.drop_drop, List.drop_append_length]
      rfl
    rw [hclosing] at hpasses
    simp only [Nat.add_sub_cancel] at hpasses
    rw [Nat.add_comm, hdrop] at hpasses
    have hle := h.length_le_of_getLast? hshape hpasses
      (List.getLast?_concat : ((first :: body) ++ [first]).getLast? = _) (hlast first quote)
    simp only [List.length_cons, List.length_append, List.length_nil] at hle
    exact ⟨body.length, by omega, rfl⟩

/-- Both read a quoted string to its closing quote. -/
theorem goesOn_of_quote (h : Remains options.delimiters trail after (first :: tail))
    (quote : Byte.isQuote first = true) : GoesOn options after (first :: tail) := by
  obtain ⟨hspace, -⟩ := Byte.classes_of_isQuote first quote
  obtain ⟨n, hn, hclosing⟩ := h.exists_closing quote
  have hlexer := Quoted.closing?_append hclosing hn
  have hscan : scan options first tail =
      .lexeme ⟨.fixed (Quoted.kind first), ⟨1, n⟩, 1 + n + 1⟩ := by
    rw [scan_of_quote quote, Quoted.scan, hlexer]
  have hpasses := passes_quoted options.delimiters (tail ++ after) quote
  rw [Quoted.length, hclosing] at hpasses
  refine goesOn_of_drop (Reads.of_lexeme hspace hscan) ?_
  rw [← List.drop_append_of_le_length (by show 1 + n ≤ tail.length; omega)]
  exact hpasses

/-- The `*/` that the search finds lies within the text. -/
theorem Remains.findPair?_append {rule : DelimiterRule} {body : Bytes}
    (h : Remains rule trail after (ascii "/*" ++ body))
    (hcomment : Comment.scan? Byte.slash (Byte.star :: (body ++ after)) =
      some (Comment.block (body ++ after))) :
    ∃ n, n + 2 ≤ body.length ∧
      Bytes.findPair? Byte.star Byte.slash (body ++ after) = some n := by
  have hpasses := passes_comment rule hcomment
  rw [Comment.block] at hpasses
  cases hpair : Bytes.findPair? Byte.star Byte.slash (body ++ after) with
  | none =>
    have hdrop : (Byte.star :: (body ++ after)).drop (2 + (body ++ after).length - 1) = [] :=
      List.drop_eq_nil_of_le (by rw [List.length_cons]; omega)
    simp only [hpair, hdrop] at hpasses
    exact absurd hpasses h.not_passes_nil
  | some n =>
    obtain ⟨text, more, hsplit, rfl, -⟩ := Bytes.exists_findPair hpair
    have hshape : ascii "/*" ++ body ++ after =
        (ascii "/*" ++ (text ++ ascii "*/")) ++ more := by
      rw [List.append_assoc, hsplit, List.append_assoc, List.append_assoc]
      rfl
    have hdrop : (Byte.star :: (body ++ after)).drop (2 + text.length + 2 - 1) = more := by
      rw [show 2 + text.length + 2 - 1 = text.length + 2 + 1 by omega, List.drop_succ_cons, hsplit,
        ← List.drop_drop, List.drop_append_length]
      rfl
    simp only [hpair, hdrop] at hpasses
    have hlast : (ascii "/*" ++ (text ++ ascii "*/")).getLast? = some Byte.slash := by
      rw [← List.append_assoc, List.getLast?_append]
      rfl
    have hle := h.length_le_of_getLast? hshape hpasses hlast rfl
    rw [List.length_append, List.length_append, List.length_append] at hle
    exact ⟨text.length, by have : (ascii "*/").length = 2 := rfl; omega, rfl⟩

/-- Both read a comment to its end, unless it is a line comment and the last of the text. -/
theorem goesOn_of_comment {found : Comment}
    (h : Remains options.delimiters trail after (first :: tail))
    (hcomment : Comment.scan? first tail = some found)
    (hopen : LeavesOpen options (first :: tail)) : GoesOn options after (first :: tail) := by
  have hspace := (Comment.classes_of_opens (Comment.opens_of_scan? hcomment)).1
  have hreads : found.closed = true →
      Reads options (first :: tail) (tail.drop (found.length - 1)) :=
    fun closed => .of_comment hspace (Ahead.scan_of_comment hcomment fun _ => closed)
  rcases Comment.line_or_block hcomment with ⟨rfl, hsearch⟩ | ⟨body, hbody, rfl, hsearch⟩
  · by_cases hlt : Bytes.lineLength (first :: tail) < (first :: tail).length
    · refine goesOn_of_drop (hreads rfl) ?_
      have hpasses := passes_comment options.delimiters (hsearch after)
      rw [Comment.line, ← List.cons_append, Bytes.lineLength_append hlt] at hpasses
      rw [← List.drop_append_of_le_length (by
        show Bytes.lineLength (first :: tail) - 1 ≤ tail.length
        rw [List.length_cons] at hlt
        omega)]
      exact hpasses
    · -- the lexer reads the rest of the text as a comment and finds nothing left open
      have hnil : tail.drop ((Comment.line (first :: tail)).length - 1) = [] := by
        refine List.drop_eq_nil_of_le ?_
        show tail.length ≤ Bytes.lineLength (first :: tail) - 1
        rw [List.length_cons] at hlt
        omega
      have hnone := hreads rfl
      rw [hnil] at hnone
      exact absurd (hnone.leavesOpen_iff.mp hopen) not_leavesOpen_nil
  · obtain ⟨rfl, rfl⟩ : first = Byte.slash ∧ tail = Byte.star :: body := List.cons.inj hbody
    obtain ⟨n, hn, hpair⟩ := h.findPair?_append (hsearch after)
    have hlexer : Comment.block body = ⟨2 + n + 2, true⟩ := by
      rw [Comment.block, Bytes.findPair?_append hpair hn]
    have hpasses := passes_comment options.delimiters (hsearch after)
    rw [hlexer] at hreads
    rw [Comment.block, hpair] at hpasses
    refine goesOn_of_drop (hreads rfl) ?_
    rw [← List.drop_append_of_le_length (by
      show 2 + n + 2 - 1 ≤ (Byte.star :: body).length
      rw [List.length_cons]
      omega)]
    exact hpasses

/-- Both read every other construct that does not begin with `<<<`. -/
theorem goesOn_of_lexeme (h : Remains options.delimiters trail after (first :: tail))
    (space : Byte.isSpace first = false) (quote : Byte.isQuote first = false)
    (hcomment : Comment.scan? first tail = none) (hmarks : ¬ ascii "<<<" <+: first :: tail) :
    GoesOn options after (first :: tail) := by
  have hlexeme : ∃ found, scan options first tail = .lexeme found := by
    have hat := scan_at options first tail
    generalize hscan : scan options first tail = construct at hat
    cases hat with
    | word _ => exact ⟨_, rfl⟩
    | numeral _ _ => exact ⟨_, rfl⟩
    | symbol _ _ _ _ _ => exact ⟨_, rfl⟩
    | string hquote _ | openString hquote _ _ | stringFault hquote _ _ =>
      rw [quote] at hquote
      cases hquote
    | comment found _ | commentFault found _ _ =>
      rw [hcomment] at found
      cases found
    | heredoc marks _ _ | openHeredoc marks _ _ _ | heredocFault marks _ _ _
    | openerFault marks _ _ => exact absurd ⟨_, marks.symm⟩ hmarks
  obtain ⟨found, hscan⟩ := hlexeme
  have noTag : ¬ (first = Byte.question ∧ (tail ++ after).head? = some Byte.greater) := by
    rintro ⟨rfl, hgreater⟩
    obtain ⟨more, hmore⟩ := List.head?_eq_some_iff.mp hgreater
    have hzero := h.found
    rw [List.cons_append, hmore, List.length_cons] at hzero
    have hlength := Option.some.inj ((closeTag?_of_close more).symm.trans hzero)
    omega
  exact goesOn_of_drop (Reads.of_lexeme space hscan)
    (passes_lexeme hscan h.followsText noTag quote hmarks)

end TemplateScript.Template
