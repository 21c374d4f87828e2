import TemplateScript.Proofs.Bytes
import TemplateScript.Proofs.Construct

/-!
# White space and comments

What may stand between two tokens, said without a scanner: `Trivia gap rest` holds when `gap` is
white space and comments and `rest` is all that follows it.  What follows matters, because a line
comment has to reach a newline or the end and only the end may close a block comment that `*/` does
not close.

* `Comment.exists_text` — the scanner of comments finds comments in this sense, and
  `Comment.exists_scan?_of_text` — it finds all of them that come to an end;
* `Ahead.stands` — what `Ahead.of` skips is trivia, and what it finds stands right behind it and
  is no trivia;
* `Ahead.skipped_of_trivia` — trivia before anything else is all that `Ahead.of` skips.
-/

namespace TemplateScript

/-! ### Comments -/

/-- The bytes begin with `#`, `//` or `/*`. -/
def Comment.Opens (bs : Bytes) : Prop :=
  ascii "#" <+: bs ∨ ascii "//" <+: bs ∨ ascii "/*" <+: bs

/-- `text` is one comment when `rest` is what follows it. -/
inductive Comment.Text : Bytes → Bytes → Prop
  /-- `#` or `//` opens a comment that runs up to a newline or to the end. -/
  | line {text rest : Bytes} (opens : ascii "#" <+: text ∨ ascii "//" <+: text)
      (one : Byte.newline ∉ text) (ends : rest = [] ∨ rest.head? = some Byte.newline) :
      Text text rest
  /-- `/*` opens a comment that runs up to and including the first `*/`. -/
  | block {body rest : Bytes} (first : ¬ ascii "*/" <:+: body) :
      Text (ascii "/*" ++ (body ++ ascii "*/")) rest
  /-- Without a `*/` the comment runs to the end. -/
  | openBlock {body : Bytes} (unclosed : ¬ ascii "*/" <:+: body) : Text (ascii "/*" ++ body) []

namespace Comment

theorem ne_nil_of_text {text rest : Bytes} (h : Text text rest) : text ≠ [] := by
  cases h with
  | line opens _ _ =>
    rintro rfl
    rcases opens with ⟨_, h⟩ | ⟨_, h⟩ <;> cases h
  | block _ => exact nofun
  | openBlock _ => exact nofun

/-- Where no comment is found none opens. -/
theorem not_opens_of_scan? {first : UInt8} {tail : Bytes} (h : scan? first tail = none) :
    ¬ Opens (first :: tail) := by
  rw [scan?] at h
  split at h
  · cases h
  · next hhash =>
    have htail : ∀ b : UInt8, ([Byte.slash, b] <+: first :: tail) →
        first = Byte.slash ∧ tail.head? = some b := by
      intro b hb
      obtain ⟨hf, rest, rfl⟩ := List.cons_prefix_cons.mp hb
      exact ⟨hf.symm, rfl⟩
    rintro (hb | hb | hb)
    · exact hhash (List.cons_prefix_cons.mp hb).1.symm
    · obtain ⟨hf, ht⟩ := htail Byte.slash hb
      rw [if_pos hf, if_pos ht] at h
      cases h
    · obtain ⟨hf, ht⟩ := htail Byte.star hb
      rw [if_pos hf, if_neg (by rw [ht]; decide), if_pos ht] at h
      cases h

/-- Where a comment is found one opens. -/
theorem opens_of_text {text rest : Bytes} (h : Text text rest) : Opens (text ++ rest) := by
  cases h with
  | line opens _ _ =>
    rcases opens with h | h
    · exact Or.inl (h.trans (List.prefix_append _ _))
    · exact Or.inr (Or.inl (h.trans (List.prefix_append _ _)))
  | block _ => exact Or.inr (Or.inr ⟨_, (List.append_assoc _ _ _).symm⟩)
  | openBlock _ => exact Or.inr (Or.inr ⟨_, (List.append_assoc _ _ _).symm⟩)

/-- A comment opens with `#` or with `/`. -/
theorem eq_of_opens {first : UInt8} {tail : Bytes} (h : Opens (first :: tail)) :
    first = Byte.hash ∨ first = Byte.slash := by
  rcases h with h | h | h
  · exact Or.inl (List.cons_prefix_cons.mp h).1.symm
  · exact Or.inr (List.cons_prefix_cons.mp h).1.symm
  · exact Or.inr (List.cons_prefix_cons.mp h).1.symm

/-- The first byte of a comment is no white space, and begins neither a word, nor a numeral, nor a
string. -/
theorem classes_of_opens {first : UInt8} {tail : Bytes} (h : Opens (first :: tail)) :
    Byte.isSpace first = false ∧ Byte.isWordStart first = false ∧ Byte.isDigit first = false ∧
      Byte.isQuote first = false := by
  rcases eq_of_opens h with rfl | rfl <;> decide

theorem exists_text_line {bs : Bytes} (opens : ascii "#" <+: bs ∨ ascii "//" <+: bs) :
    ∃ text rest, bs = text ++ rest ∧ text.length = (line bs).length ∧ Text text rest := by
  obtain ⟨text, rest, rfl, hlen, hone, hends⟩ := Bytes.exists_line bs
  refine ⟨text, rest, rfl, hlen, .line ?_ hone hends⟩
  -- the opener holds no newline, so it lies within the line
  have hopen : ∀ opener : Bytes, Byte.newline ∉ opener → opener <+: text ++ rest →
      opener <+: text := by
    intro opener hfree hp
    refine Bytes.prefix_of_prefix_append hp fun b hb hhead => ?_
    rcases hends with rfl | hnewline
    · cases hhead
    · rw [hhead] at hnewline
      exact hfree (Option.some.inj hnewline ▸ hb)
  exact opens.imp (hopen _ (by decide)) (hopen _ (by decide))

theorem exists_text_block (body : Bytes) :
    ∃ text rest, ascii "/*" ++ body = text ++ rest ∧ text.length = (block body).length ∧
      Text text rest := by
  rw [block]
  cases h : Bytes.findPair? Byte.star Byte.slash body with
  | some offset =>
    obtain ⟨body, rest, rfl, rfl, hfree⟩ := Bytes.exists_findPair h
    refine ⟨_, rest, ?_, ?_, .block hfree⟩
    · simp [ascii]
    · simp [ascii]
      omega
  | none =>
    exact ⟨_, [], (List.append_nil _).symm, by simp [ascii]; omega,
      .openBlock (Bytes.findPair?_eq_none h)⟩

/-- A comment that is found is one. -/
theorem exists_text {first : UInt8} {tail : Bytes} {found : Comment}
    (h : scan? first tail = some found) :
    ∃ text rest, first :: tail = text ++ rest ∧ text.length = found.length ∧ Text text rest := by
  rw [scan?] at h
  split at h
  · next hf =>
    cases h
    exact exists_text_line (Or.inl ⟨tail, by rw [hf]; rfl⟩)
  · split at h
    · next hf =>
      split at h
      · next ht =>
        cases h
        obtain ⟨rest, rfl⟩ : ∃ rest, tail = Byte.slash :: rest := List.head?_eq_some_iff.mp ht
        exact exists_text_line (Or.inr ⟨rest, by rw [hf]; rfl⟩)
      · split at h
        · next ht =>
          cases h
          obtain ⟨rest, rfl⟩ : ∃ rest, tail = Byte.star :: rest := List.head?_eq_some_iff.mp ht
          rw [hf]
          exact exists_text_block rest
        · cases h
    · cases h

theorem opens_of_scan? {first : UInt8} {tail : Bytes} {found : Comment}
    (h : scan? first tail = some found) : Opens (first :: tail) := by
  obtain ⟨text, rest, hsplit, -, htext⟩ := exists_text h
  rw [hsplit]
  exact opens_of_text htext

/-- A comment is found exactly where one opens. -/
theorem scan?_eq_none_iff {first : UInt8} {tail : Bytes} :
    scan? first tail = none ↔ ¬ Opens (first :: tail) := by
  constructor
  · exact not_opens_of_scan?
  · intro h
    cases hscan : scan? first tail with
    | none => rfl
    | some found => exact absurd (opens_of_scan? hscan) h

/-- A comment with something behind it is found, and it is closed. -/
theorem exists_scan?_of_text {text rest : Bytes} (h : Text text rest) (ends : rest ≠ []) :
    ∃ first tail, text = first :: tail ∧
      scan? first (tail ++ rest) = some ⟨text.length, true⟩ := by
  cases h with
  | line opens one newline =>
    have hrun : Bytes.lineLength (text ++ rest) = text.length := by
      refine Bytes.runLength_append (fun b hb => ?_) fun b hb => ?_
      · exact bne_iff_ne.mpr fun hnewline => one (hnewline ▸ hb)
      · rw [newline.resolve_left ends] at hb
        rw [← Option.some.inj hb]
        rfl
    have hline : line (text ++ rest) = ⟨text.length, true⟩ := by rw [line, hrun]
    rcases opens with ⟨body, rfl⟩ | ⟨body, rfl⟩
    · exact ⟨Byte.hash, body, rfl, congrArg some hline⟩
    · exact ⟨Byte.slash, Byte.slash :: body, rfl, congrArg some hline⟩
  | @block body _ first =>
    refine ⟨Byte.slash, Byte.star :: (body ++ ascii "*/"), rfl, ?_⟩
    have hfound : Bytes.findPair? Byte.star Byte.slash (body ++ ascii "*/" ++ rest) =
        some body.length := by
      rw [List.append_assoc]
      exact Bytes.findPair?_of_not_infix (by decide) first rest
    show some (block (body ++ ascii "*/" ++ rest)) = _
    rw [block, hfound]
    simp only [List.length_append, Nat.add_assoc]
    rfl
  | openBlock _ => exact absurd rfl ends

/-- A comment that opens is a line comment or a block comment, whatever follows the text. -/
theorem line_or_block {first : UInt8} {tail : Bytes} {found : Comment}
    (h : scan? first tail = some found) :
    (found = line (first :: tail) ∧
        ∀ after, scan? first (tail ++ after) = some (line (first :: (tail ++ after)))) ∨
      ∃ body, first :: tail = ascii "/*" ++ body ∧ found = block body ∧
        ∀ after, scan? first (tail ++ after) = some (block (body ++ after)) := by
  rw [scan?] at h
  split at h
  · next hf =>
    cases h
    exact Or.inl ⟨rfl, fun after => by rw [scan?, if_pos hf]⟩
  · next hhash =>
    split at h
    · next hf =>
      split at h
      · next ht =>
        cases h
        obtain ⟨body, rfl⟩ := List.head?_eq_some_iff.mp ht
        exact Or.inl ⟨rfl, fun after => by rw [scan?, if_neg hhash, if_pos hf]; rfl⟩
      · split at h
        · next ht =>
          cases h
          obtain ⟨body, rfl⟩ := List.head?_eq_some_iff.mp ht
          refine Or.inr ⟨body, by rw [hf]; rfl, rfl, fun after => ?_⟩
          rw [scan?, if_neg hhash, if_pos hf]
          rfl
        · cases h
    · cases h

end Comment

/-! ### Trivia -/

/-- `gap` is white space and comments when `rest` is what follows it. -/
inductive Trivia : Bytes → Bytes → Prop
  | nil {rest : Bytes} : Trivia [] rest
  | space {b : UInt8} {gap rest : Bytes} (h : Byte.isSpace b = true) (further : Trivia gap rest) :
      Trivia (b :: gap) rest
  | comment {text gap rest : Bytes} (h : Comment.Text text (gap ++ rest))
      (further : Trivia gap rest) : Trivia (text ++ gap) rest

/-- The bytes begin with white space or with a comment. -/
def StartsTrivia (bs : Bytes) : Prop :=
  (∃ b, bs.head? = some b ∧ Byte.isSpace b = true) ∨ Comment.Opens bs

/-- No trivia starts where a word, a numeral or a string does. -/
theorem not_startsTrivia {first : UInt8}
    (h : Byte.isWordStart first = true ∨ Byte.isDigit first = true ∨ Byte.isQuote first = true)
    (tail : Bytes) : ¬ StartsTrivia (first :: tail) := by
  have hspace : ∀ b, Byte.isWordStart b = true ∨ Byte.isDigit b = true ∨ Byte.isQuote b = true →
      Byte.isSpace b = false := by decide +kernel
  rintro (⟨b, hb, hb'⟩ | hopens)
  · obtain rfl := Option.some.inj hb
    rw [hspace first h] at hb'
    cases hb'
  · obtain ⟨-, hword, hdigit, hquote⟩ := Comment.classes_of_opens hopens
    rw [hword, hdigit, hquote] at h
    rcases h with h | h | h <;> cases h

namespace Ahead

/-- What was found stands at the start of `bs`, and `bs` does not start with trivia. -/
inductive Found.Stands (options : Options) : Found → Bytes → Prop
  | endOfInput : Stands options .endOfInput []
  | fault {first : UInt8} {tail : Bytes} {cause : Fault} {length : Nat}
      (space : Byte.isSpace first = false)
      (scan : Construct.scan options first tail = .fault cause length) :
      Stands options (.fault cause length) (first :: tail)
  | lexeme {first : UInt8} {tail : Bytes} {found : Lexeme} (space : Byte.isSpace first = false)
      (scan : Construct.scan options first tail = .lexeme found) :
      Stands options (.lexeme found) (first :: tail)

/-- A lexeme is no comment. -/
theorem not_opens_of_scan {options : Options} {first : UInt8} {tail : Bytes} {found : Lexeme}
    (h : Construct.scan options first tail = .lexeme found) : ¬ Comment.Opens (first :: tail) := by
  have hat := Construct.scan_at options first tail
  rw [h] at hat
  intro hopens
  obtain ⟨-, hword, hdigit, hquote⟩ := Comment.classes_of_opens hopens
  cases hat with
  | word start => rw [hword] at start; cases start
  | numeral _ digit => rw [hdigit] at digit; cases digit
  | string quote _ => rw [hquote] at quote; cases quote
  | openString quote _ _ => rw [hquote] at quote; cases quote
  | heredoc marks _ _ => rcases Comment.eq_of_opens hopens with rfl | rfl <;> cases marks
  | openHeredoc marks _ _ _ => rcases Comment.eq_of_opens hopens with rfl | rfl <;> cases marks
  | symbol _ _ _ comment _ => exact Comment.not_opens_of_scan? comment hopens

/-- A comment is a construct of its own, if a strict reader sees it closed. -/
theorem scan_of_comment {options : Options} {first : UInt8} {tail : Bytes} {found : Comment}
    (h : Comment.scan? first tail = some found) (ending : options.isStrict = true → found.closed = true) :
    Construct.scan options first tail = .comment found.length := by
  obtain ⟨-, hword, hdigit, hquote⟩ := Comment.classes_of_opens (Comment.opens_of_scan? h)
  rw [Construct.scan, hword, hdigit, hquote, h]
  simp only [Bool.false_eq_true, if_false]
  rw [if_neg]
  rintro ⟨strict, hopen⟩
  rw [ending strict] at hopen
  cases hopen

/-- A comment of a script, of either ending, is one. -/
theorem exists_text_of_scan {options : Options} {first : UInt8} {tail : Bytes} {length : Nat}
    (h : Construct.scan options first tail = .comment length) :
    ∃ text rest, first :: tail = text ++ rest ∧ text.length = length ∧ Comment.Text text rest := by
  have hat := Construct.scan_at options first tail
  rw [h] at hat
  cases hat with
  | comment scan _ => exact Comment.exists_text scan

/-- Between the start of a text and what is found in it there is only trivia. -/
theorem stands (options : Options) (bs : Bytes) :
    ∃ gap rest, bs = gap ++ rest ∧ gap.length = (of options bs).skipped ∧ Trivia gap rest ∧
      (of options bs).found.Stands options rest := by
  suffices h : ∀ n, ∃ gap rest, bs = gap ++ rest ∧ n + gap.length = (after options n bs).skipped ∧
      Trivia gap rest ∧ (after options n bs).found.Stands options rest by
    simpa [of] using h 0
  intro n
  fun_induction after options n bs with
  | case1 n => exact ⟨[], [], rfl, rfl, .nil, .endOfInput⟩
  | case2 n first tail hs ih =>
    obtain ⟨gap, rest, rfl, hlen, htrivia, hstands⟩ := ih
    exact ⟨first :: gap, rest, rfl, by rw [← hlen, List.length_cons]; omega, .space hs htrivia,
      hstands⟩
  | case3 n first tail hs length hc ih =>
    obtain ⟨text, after, htext, rfl, hcomment⟩ := exists_text_of_scan hc
    obtain ⟨b, text, rfl⟩ := List.exists_cons_of_ne_nil (Comment.ne_nil_of_text hcomment)
    rw [List.cons_append] at htext
    obtain ⟨rfl, rfl⟩ := List.cons.inj htext
    obtain ⟨gap, rest, hrest, hlen, htrivia, hstands⟩ := ih
    rw [List.length_cons, Nat.add_sub_cancel, List.drop_append_length] at hrest
    refine ⟨first :: text ++ gap, rest, by rw [hrest]; simp, ?_, ?_, hstands⟩
    · rw [← hlen, List.length_append]
      omega
    · exact .comment (hrest ▸ hcomment) htrivia
  | case4 n first tail hs cause length hc =>
    exact ⟨[], first :: tail, rfl, rfl, .nil, .fault (by simpa using hs) hc⟩
  | case5 n first tail hs found hc =>
    exact ⟨[], first :: tail, rfl, rfl, .nil, .lexeme (by simpa using hs) hc⟩

/-- Nothing is skipped where no trivia starts. -/
theorem skipped_of_not_startsTrivia {options : Options} {bs : Bytes} (h : ¬ StartsTrivia bs) :
    (of options bs).skipped = 0 := by
  obtain ⟨gap, rest, rfl, hlength, htrivia, -⟩ := stands options bs
  rw [← hlength]
  cases htrivia with
  | nil => rfl
  | space hb _ => exact absurd (Or.inl ⟨_, rfl, hb⟩) h
  | @comment text gap _ htext _ =>
    rw [List.append_assoc] at h
    exact absurd (Or.inr (Comment.opens_of_text htext)) h

/-- Trivia before something else is all that is skipped. -/
theorem skipped_of_trivia (options : Options) {gap : Bytes} {first : UInt8} {tail : Bytes}
    (h : Trivia gap (first :: tail)) (starts : ¬ StartsTrivia (first :: tail)) :
    (of options (gap ++ first :: tail)).skipped = gap.length := by
  generalize hrest : first :: tail = rest at h starts
  induction h with
  | nil => exact skipped_of_not_startsTrivia starts
  | @space b gap rest hb _ ih =>
    rw [List.cons_append, of_space hb, List.length_cons, Nat.add_comm]
    exact congrArg (· + 1) (ih hrest starts)
  | @comment text gap rest htext _ ih =>
    have hne : gap ++ rest ≠ [] := by
      rw [← hrest]
      exact List.append_ne_nil_of_right_ne_nil gap (List.cons_ne_nil first tail)
    obtain ⟨b, body, rfl, hscan⟩ := Comment.exists_scan?_of_text htext hne
    have hspace := (Comment.classes_of_opens (Comment.opens_of_scan? hscan)).1
    have hcomment : Construct.scan options b (body ++ (gap ++ rest)) =
        .comment (b :: body).length := scan_of_comment hscan fun _ => rfl
    rw [List.append_assoc, List.cons_append, of_comment hspace hcomment, List.length_cons,
      Nat.add_sub_cancel, List.drop_append_length, List.length_append, List.length_cons]
    exact congrArg (body.length + 1 + ·) (ih hrest starts)

end Ahead

end TemplateScript
