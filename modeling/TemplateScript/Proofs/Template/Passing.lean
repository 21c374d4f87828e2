import TemplateScript.Proofs.Plain
import TemplateScript.Proofs.Trivia
import TemplateScript.Proofs.Template.Segments

/-!
# What the search for a closing tag passes

`Template.Passes rule bs rest` says that the search for a closing tag, started at `bs`, comes to
`rest`: it passes whole items and no closing tag.

* `Template.Passes.closeTag?_eq`, `closeTagFrom?_append` — so it finds from `bs` on what it finds
  from `rest` on;
* `Template.passes_skip` — it passes the white space and comments that the lexer skips;
* `Template.passes_lexeme` — it passes every lexeme that begins neither with a quote nor with `<<<`.
-/

namespace TemplateScript.Template

variable {rule : DelimiterRule} {options : Options} {first : UInt8} {tail bs rest : Bytes}

/-- The search for a closing tag comes from `bs` to `rest`. -/
inductive Passes (rule : DelimiterRule) : Bytes → Bytes → Prop
  | refl {bs : Bytes} : Passes rule bs bs
  | item {first : UInt8} {tail rest : Bytes}
      (noTag : ¬ (first = Byte.question ∧ tail.head? = some Byte.greater))
      (further : Passes rule (tail.drop (itemLength rule first tail - 1)) rest) :
      Passes rule (first :: tail) rest

namespace Passes

theorem trans {middle : Bytes} (h : Passes rule bs middle) (h' : Passes rule middle rest) :
    Passes rule bs rest := by
  induction h with
  | refl => exact h'
  | item noTag _ ih => exact .item noTag (ih h')

/-- What is found from `rest` on is found from `bs` on, after what was passed. -/
theorem closeTag?_eq (h : Passes rule bs rest) :
    ∃ passed, bs = passed ++ rest ∧
      closeTag? rule bs = (closeTag? rule rest).map (passed.length + ·) := by
  induction h with
  | refl => exact ⟨[], rfl, by simp⟩
  | @item first tail rest noTag _ ih =>
    obtain ⟨passed, hdrop, hfound⟩ := ih
    obtain ⟨hpos, hle⟩ := length_item rule first tail
    rw [closeTag?_of_item noTag, hfound]
    generalize itemLength rule first tail = item at hpos hle hdrop ⊢
    refine ⟨first :: (tail.take (item - 1) ++ passed), ?_, ?_⟩
    · rw [List.cons_append, List.append_assoc, ← hdrop, List.take_append_drop]
    · have hlength : (first :: (tail.take (item - 1) ++ passed)).length = item + passed.length := by
        rw [List.length_cons, List.length_append, List.length_take]
        omega
      rw [Option.map_map, hlength]
      congr 1
      funext n
      exact (Nat.add_assoc item passed.length n).symm

/-- From where the search comes to, it finds the same, counted from there. -/
theorem closeTagFrom?_append {passed : Bytes} (h : Passes rule (passed ++ rest) rest)
    (offset : Nat) :
    closeTagFrom? rule offset (passed ++ rest) =
      closeTagFrom? rule (offset + passed.length) rest := by
  obtain ⟨passed', hsplit, hclose⟩ := h.closeTag?_eq
  obtain rfl := List.append_cancel_right hsplit
  rw [closeTagFrom?_eq, hclose, closeTagFrom?_eq rule (offset + passed.length), Option.map_map]
  congr 1
  funext n
  exact (Nat.add_assoc offset passed.length n).symm

end Passes

/-! ### Items of one byte -/

theorem itemLength_of_single (hcomment : Comment.scan? first tail = none)
    (hquote : Byte.isQuote first = false) (hmarks : ¬ ascii "<<<" <+: first :: tail) :
    itemLength rule first tail = 1 := by
  have hprefix : ¬ (ascii "<<<").isPrefixOf (first :: tail) = true :=
    fun h => hmarks (List.isPrefixOf_iff_prefix.mp h)
  rw [itemLength, hcomment]
  simp only [hquote, Bool.false_eq_true, if_false, if_neg hprefix]

theorem passes_single (noTag : ¬ (first = Byte.question ∧ tail.head? = some Byte.greater))
    (hcomment : Comment.scan? first tail = none) (hquote : Byte.isQuote first = false)
    (hmarks : ¬ ascii "<<<" <+: first :: tail) : Passes rule (first :: tail) tail := by
  refine .item noTag ?_
  rw [itemLength_of_single hcomment hquote hmarks]
  exact .refl

/-- A plain byte opens nothing. -/
theorem scan?_of_isPlain (h : Byte.isPlain first = true) : Comment.scan? first tail = none := by
  have hne : ∀ b, Byte.isPlain b = true → b ≠ Byte.hash ∧ b ≠ Byte.slash := by decide +kernel
  obtain ⟨hhash, hslash⟩ := hne first h
  rw [Comment.scan?, if_neg hhash, if_neg hslash]

theorem passes_plain {xs : Bytes} (h : ∀ b ∈ xs, Byte.isPlain b = true) (ys : Bytes) :
    Passes rule (xs ++ ys) ys := by
  have hplain : ∀ b, Byte.isPlain b = true →
      b ≠ Byte.question ∧ Byte.isQuote b = false ∧ b ≠ Byte.less := by
    decide +kernel
  induction xs with
  | nil => exact .refl
  | cons b xs ih =>
    obtain ⟨hb, hxs⟩ := List.forall_mem_cons.mp h
    obtain ⟨hquestion, hquote, hless⟩ := hplain b hb
    refine Passes.trans (passes_single ?_ (scan?_of_isPlain hb) hquote ?_) (ih hxs)
    · exact fun htag => hquestion htag.1
    · exact fun hmarks => hless (List.cons_prefix_cons.mp hmarks).1.symm

theorem passes_byte {b : UInt8} (h : Byte.isPlain b = true) (ys : Bytes) :
    Passes rule (b :: ys) ys :=
  passes_plain (List.forall_mem_singleton.mpr h) ys

/-! ### Items of more bytes -/

theorem passes_comment (rule : DelimiterRule) {found : Comment} (h : Comment.scan? first tail = some found) :
    Passes rule (first :: tail) (tail.drop (found.length - 1)) := by
  have hitem : itemLength rule first tail = found.length := by
    rw [itemLength, h]
  refine .item (fun htag => ?_) (hitem ▸ .refl)
  rw [htag.1] at h
  cases h

theorem passes_quoted (rule : DelimiterRule) (tail : Bytes) (h : Byte.isQuote first = true) :
    Passes rule (first :: tail) (tail.drop (Quoted.length first tail - 1)) := by
  have hne : ∀ b, Byte.isQuote b = true →
      b ≠ Byte.question ∧ b ≠ Byte.hash ∧ b ≠ Byte.slash := by
    decide +kernel
  obtain ⟨hquestion, hhash, hslash⟩ := hne first h
  have hitem : itemLength rule first tail = Quoted.length first tail := by
    rw [itemLength, Comment.scan?, if_neg hhash, if_neg hslash]
    simp only [h, if_true]
  exact .item (fun htag => hquestion htag.1) (hitem ▸ .refl)

theorem passes_heredoc (rule : DelimiterRule) (bs : Bytes) :
    Passes rule (ascii "<<<" ++ bs) (bs.drop (Heredoc.hiddenLength rule bs)) := by
  have hitem : itemLength rule Byte.less (Byte.less :: Byte.less :: bs) =
      3 + Heredoc.hiddenLength rule bs := rfl
  have hdrop : (Byte.less :: Byte.less :: bs).drop (3 + Heredoc.hiddenLength rule bs - 1) =
      bs.drop (Heredoc.hiddenLength rule bs) := by
    rw [show 3 + Heredoc.hiddenLength rule bs - 1 = Heredoc.hiddenLength rule bs + 2 by omega]
    rfl
  show Passes rule (Byte.less :: Byte.less :: Byte.less :: bs) _
  refine .item (fun htag => by cases htag.1) ?_
  rw [hitem, hdrop]
  exact .refl

/-! ### What the lexer reads -/

/-- The white space and the comments that the lexer skips are passed. -/
theorem passes_skip (rule : DelimiterRule) (options : Options) (bs : Bytes) :
    Passes rule bs (bs.drop (Ahead.of options bs).skipped) := by
  suffices h : ∀ n, ∃ k, (Ahead.after options n bs).skipped = n + k ∧
      Passes rule bs (bs.drop k) by
    obtain ⟨k, hk, hpasses⟩ := h 0
    rw [Ahead.of, hk, Nat.zero_add]
    exact hpasses
  intro n
  fun_induction Ahead.after options n bs with
  | case1 n => exact ⟨0, rfl, .refl⟩
  | case2 n first tail hs ih =>
    obtain ⟨k, hk, hpasses⟩ := ih
    refine ⟨k + 1, by omega, ?_⟩
    exact Passes.trans (passes_byte (Byte.isPlain_of_isSpace first hs) tail) hpasses
  | case3 n first tail hs length hc ih =>
    obtain ⟨k, hk, hpasses⟩ := ih
    have hpos := (Construct.length_scan options first tail).1
    have hat := Construct.scan_at options first tail
    rw [hc] at hat hpos
    cases hat with
    | @comment found scan _ =>
      refine ⟨found.length + k, by omega, ?_⟩
      rw [Bytes.drop_cons_add (show 0 < found.length from hpos)]
      exact Passes.trans (passes_comment rule scan) hpasses
  | case4 n first tail hs cause length hc => exact ⟨0, rfl, .refl⟩
  | case5 n first tail hs found hc => exact ⟨0, rfl, .refl⟩

/-- What may stand right behind the text of a block: white space or the closing tag. -/
def FollowsText (after : Bytes) : Prop :=
  ∀ b, after.head? = some b → Byte.isSpace b = true ∨ b = Byte.question

namespace FollowsText

variable {after : Bytes}

/-- A construct does not begin across the end of a text with what follows it. -/
theorem prefix_of_prefix_append {opener : Bytes} (hafter : FollowsText after) (bs : Bytes)
    (hopener : opener.all (fun b => !Byte.isSpace b && b != Byte.question) = true)
    (h : opener <+: bs ++ after) : opener <+: bs := by
  refine Bytes.prefix_of_prefix_append h fun b hb hhead => ?_
  have hfree := List.all_eq_true.mp hopener b hb
  rcases hafter b hhead with hspace | hquestion
  · rw [hspace] at hfree
    cases hfree
  · rw [hquestion] at hfree
    cases hfree

theorem scan?_append (hafter : FollowsText after) (h : Comment.scan? first tail = none) :
    Comment.scan? first (tail ++ after) = none := by
  rw [Comment.scan?_eq_none_iff] at h ⊢
  rintro (hopen | hopen | hopen)
  · exact h (Or.inl (hafter.prefix_of_prefix_append (first :: tail) rfl hopen))
  · exact h (Or.inr (Or.inl (hafter.prefix_of_prefix_append (first :: tail) rfl hopen)))
  · exact h (Or.inr (Or.inr (hafter.prefix_of_prefix_append (first :: tail) rfl hopen)))

theorem not_marks_append (hafter : FollowsText after) (h : ¬ ascii "<<<" <+: first :: tail) :
    ¬ ascii "<<<" <+: first :: (tail ++ after) :=
  fun hmarks => h (hafter.prefix_of_prefix_append (first :: tail) rfl hmarks)

end FollowsText

/-- A lexeme of plain bytes is passed byte by byte. -/
theorem passes_take {n : Nat} (after : Bytes) (hpos : 0 < n)
    (h : ∀ b ∈ (first :: tail).take n, Byte.isPlain b = true) :
    Passes rule (first :: (tail ++ after)) (tail.drop (n - 1) ++ after) := by
  have hsplit : first :: (tail ++ after) =
      (first :: tail).take n ++ ((first :: tail).drop n ++ after) := by
    rw [← List.append_assoc, List.take_append_drop]
    rfl
  have hdrop : (first :: tail).drop n = tail.drop (n - 1) := Bytes.drop_cons_add hpos 0
  rw [hsplit, ← hdrop]
  exact passes_plain h _

/-- A symbol is passed byte by byte, if no heredoc opens at it. -/
theorem passes_symbol {after : Bytes} {found : Lexeme} (hat : Symbol.At first tail found)
    (noTag : ¬ (first = Byte.question ∧ (tail ++ after).head? = some Byte.greater))
    (hcomment : Comment.scan? first (tail ++ after) = none) (hquote : Byte.isQuote first = false)
    (hmarks : ¬ ascii "<<<" <+: first :: (tail ++ after)) :
    Passes rule (first :: (tail ++ after)) (tail.drop (found.length - 1) ++ after) := by
  obtain ⟨more, rest, rfl, hlength, hmore⟩ := Symbol.isPlain_or_shift hat
  rw [hlength, Nat.add_sub_cancel_left, List.drop_append_length]
  refine Passes.trans (passes_single noTag hcomment hquote hmarks) ?_
  rw [List.append_assoc]
  rcases hmore with hplain | hshift
  · exact passes_plain hplain _
  · -- the second `<` of a shift is an item of its own
    have hless : ∀ bs : Bytes, ¬ ascii "<<<" <+: Byte.less :: bs →
        Passes rule (Byte.less :: bs) bs := by
      intro bs hmarks
      exact passes_single (fun htag => by cases htag.1) rfl rfl hmarks
    rcases hshift with hshift | hshift
    · obtain ⟨rfl, rfl⟩ : first = Byte.less ∧ more = [Byte.less] := List.cons.inj hshift
      refine hless (rest ++ after) fun ⟨bs, hbs⟩ => hmarks ⟨Byte.less :: bs, ?_⟩
      exact congrArg (Byte.less :: ·) hbs
    · obtain ⟨rfl, rfl⟩ : first = Byte.less ∧ more = [Byte.less, 0x3D] := List.cons.inj hshift
      refine Passes.trans (hless (0x3D :: (rest ++ after)) ?_) (passes_byte rfl _)
      intro h
      cases (List.cons_prefix_cons.mp (List.cons_prefix_cons.mp h).2).1

/-- A lexeme that begins neither with a quote nor with `<<<` is passed. -/
theorem passes_lexeme {after : Bytes} {found : Lexeme}
    (hscan : Construct.scan options first tail = .lexeme found) (hafter : FollowsText after)
    (noTag : ¬ (first = Byte.question ∧ (tail ++ after).head? = some Byte.greater))
    (hquote : Byte.isQuote first = false) (hmarks : ¬ ascii "<<<" <+: first :: tail) :
    Passes rule (first :: (tail ++ after)) (tail.drop (found.length - 1) ++ after) := by
  have hpos := (Construct.length_scan options first tail).1
  have hat := Construct.scan_at options first tail
  rw [hscan] at hat hpos
  cases hat with
  | word _ => exact passes_take after hpos Word.isPlain_of_mem
  | numeral _ _ => exact passes_take after hpos Numeral.isPlain_of_mem
  | string quote _ => rw [hquote] at quote; cases quote
  | openString quote _ _ => rw [hquote] at quote; cases quote
  | heredoc marks _ _ => exact absurd ⟨_, marks.symm⟩ hmarks
  | openHeredoc marks _ _ _ => exact absurd ⟨_, marks.symm⟩ hmarks
  | symbol _ _ _ comment _ =>
    exact passes_symbol (Lexeme.symbol_at first tail) noTag (hafter.scan?_append comment) hquote
      (hafter.not_marks_append hmarks)

end TemplateScript.Template
