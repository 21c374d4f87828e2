import TemplateScript.Proofs.Ending
import TemplateScript.Proofs.Marks
import TemplateScript.Proofs.Trailing

/-!
# Lexing with white space behind the text

A lenient lexer of a text and one of the same text with white space behind it go on side by side.
They part at one place only: at a `<<<` whose opening line begins in the text and ends in the white
space.  There the one reads operators and the other opens a heredoc.

* `Construct.CutsOpener` — reading the text comes to such a place;
* `Construct.Beside` and `Construct.beside_scan` — how the constructs of the two compare elsewhere;
* `Ahead.Beside` and `Ahead.beside_of` — so do the next things that the two have ahead;
* `Lexer.Beside` and `Lexer.Beside.collectFrom` — the two collect tokens of the same kinds, which
  begin at the same offsets, exactly if no opening line is cut.
-/

namespace TemplateScript

namespace Construct

variable {options : Options} {first : UInt8} {tail trail bs text : Bytes}

/-! ### The place where the two part -/

/-- Reading the text comes to a `<<<` whose opening line ends in what follows the text. -/
def CutsOpener (options : Options) (text trail : Bytes) : Prop :=
  ∃ bs, Reads options text (ascii "<<<" ++ bs) ∧ Heredoc.IsCut options.delimiters bs trail

/-- No opening line is cut at the start of these bytes. -/
def Uncut (options : Options) (bs trail : Bytes) : Prop :=
  ∀ after, bs = ascii "<<<" ++ after → ¬ Heredoc.IsCut options.delimiters after trail

theorem Reads.eq_or_space (h : Reads options (first :: tail) bs)
    (space : Byte.isSpace first = true) : bs = first :: tail ∨ Reads options tail bs := by
  cases h with
  | refl => exact Or.inl rfl
  | space _ further => exact Or.inr further
  | construct hspace _ _ =>
    rw [space] at hspace
    cases hspace

theorem Reads.eq_or_construct (h : Reads options (first :: tail) bs)
    (space : Byte.isSpace first = false) :
    bs = first :: tail ∨
      Reads options (tail.drop ((scan options first tail).length - 1)) bs := by
  cases h with
  | refl => exact Or.inl rfl
  | space hspace _ =>
    rw [space] at hspace
    cases hspace
  | construct _ _ further => exact Or.inr further

theorem not_cutsOpener_nil : ¬ CutsOpener options [] trail := by
  rintro ⟨bs, hreads, -⟩
  generalize hrest : ascii "<<<" ++ bs = rest at hreads
  cases hreads with
  | refl => cases hrest

/-- White space cuts nothing. -/
theorem cutsOpener_of_space (space : Byte.isSpace first = true) :
    CutsOpener options (first :: tail) trail ↔ CutsOpener options tail trail := by
  constructor
  · rintro ⟨bs, hreads, hcut⟩
    rcases hreads.eq_or_space space with heq | hfurther
    · obtain rfl : Byte.less = first := (List.cons.inj heq).1
      cases space
    · exact ⟨bs, hfurther, hcut⟩
  · rintro ⟨bs, hreads, hcut⟩
    exact ⟨bs, .space space hreads, hcut⟩

/-- A construct that is not cut cuts nothing. -/
theorem cutsOpener_of_construct (lenient : options.isStrict = false)
    (space : Byte.isSpace first = false) (uncut : Uncut options (first :: tail) trail) :
    CutsOpener options (first :: tail) trail ↔
      CutsOpener options (tail.drop ((scan options first tail).length - 1)) trail := by
  constructor
  · rintro ⟨bs, hreads, hcut⟩
    rcases hreads.eq_or_construct space with heq | hfurther
    · exact absurd hcut (uncut bs heq.symm)
    · exact ⟨bs, hfurther, hcut⟩
  · rintro ⟨bs, hreads, hcut⟩
    exact ⟨bs, .construct space (fun _ _ => ne_fault_of_lenient lenient _ _) hreads, hcut⟩

/-! ### One construct -/

/-- A construct of a text and the one found with white space behind the text: the same, or both go
on to the end of the text, as comments or as literals of one kind whose texts begin alike. -/
inductive Beside (tail : Bytes) : Construct → Construct → Prop
  | same {found : Construct} : Beside tail found found
  | comment {n n' : Nat} (all : n = tail.length + 1) (le : n ≤ n') :
      Beside tail (.comment n) (.comment n')
  | literal {kind : Token.Kind} {start m m' n n' : Nat} (all : n = tail.length + 1)
      (le : n ≤ n') :
      Beside tail (.lexeme ⟨.fixed kind, ⟨start, m⟩, n⟩) (.lexeme ⟨.fixed kind, ⟨start, m'⟩, n'⟩)

theorem beside_quoted (trails : ∀ b ∈ trail, Byte.isTrailingSpace b = true)
    (quote : Byte.isQuote first = true) :
    Beside tail (Quoted.scan false first tail) (Quoted.scan false first (tail ++ trail)) := by
  rw [Quoted.scan, Quoted.scan, Quoted.closing?_append_trail trails quote]
  cases Quoted.closing? first tail with
  | some n => exact .same
  | none =>
    refine .literal (Nat.add_comm _ _) ?_
    rw [List.length_append]
    omega

/-- A lenient reader reads no heredoc where no opener is read. -/
theorem heredoc_of_refusal (lenient : options.isStrict = false) {refusal : Heredoc.Refusal}
    (h : Heredoc.readOpener options.delimiters bs = .error refusal) :
    Heredoc.scan? options bs = none := by
  rw [Heredoc.scan?, h, lenient]
  cases refusal <;> rfl

/-- A heredoc whose opening line lies in the text. -/
theorem beside_heredoc_of_opener (lenient : options.isStrict = false)
    (trails : ∀ b ∈ trail, Byte.isTrailingSpace b = true) {opener : Heredoc.Opener}
    (hopener : Heredoc.readOpener options.delimiters bs = .ok opener)
    (hboth : Heredoc.readOpener options.delimiters (bs ++ trail) = .ok opener) :
    ∃ found found', Heredoc.scan? options bs = some found ∧
      Heredoc.scan? options (bs ++ trail) = some found' ∧
      Beside (Byte.less :: Byte.less :: bs) found found' := by
  have hdelimiter := Heredoc.isDelimiter_of_readOpener hopener
  have hle := Heredoc.length_le_of_readOpener hopener
  have hlength : (Byte.less :: Byte.less :: bs).length = bs.length + 2 := rfl
  rw [Heredoc.scan?, Heredoc.scan?, hopener, hboth]
  simp only [List.drop_append_of_le_length hle]
  cases hline : Heredoc.firstLine? (Heredoc.closingLength? opener.delimiter)
      (bs.drop opener.length) with
  | some found =>
    obtain ⟨line, n⟩ := found
    obtain ⟨n', hline', hmore⟩ := Heredoc.firstLine?_append_trail trails hdelimiter hline
    have hwithin := Heredoc.firstLine?_le (fun _ _ => Heredoc.closingLength?_le) hline
    have htake : (bs.drop opener.length ++ trail).take (line - 1) =
        (bs.drop opener.length).take (line - 1) :=
      List.take_append_of_le_length (by omega)
    simp only [hline', htake]
    refine ⟨_, _, rfl, rfl, ?_⟩
    rcases hmore with rfl | ⟨hall, hmore⟩
    · exact .same
    · rw [List.length_drop] at hall
      exact .literal (by omega) (by omega)
  | none =>
    rw [Heredoc.firstLine?_append_trail_of_none trails hdelimiter hline]
    simp only [lenient, Bool.false_eq_true, if_false]
    refine ⟨_, _, rfl, rfl, .literal (by omega) ?_⟩
    rw [List.length_append]
    omega

/-- The `<<<` of a line that is not cut opens a heredoc for both or for neither. -/
theorem beside_heredoc (lenient : options.isStrict = false)
    (trails : ∀ b ∈ trail, Byte.isTrailingSpace b = true)
    (uncut : ¬ Heredoc.IsCut options.delimiters bs trail) :
    (Heredoc.scan? options bs = none ∧ Heredoc.scan? options (bs ++ trail) = none) ∨
      ∃ found found', Heredoc.scan? options bs = some found ∧
        Heredoc.scan? options (bs ++ trail) = some found' ∧
        Beside (Byte.less :: Byte.less :: bs) found found' := by
  cases hopener : Heredoc.readOpener options.delimiters bs with
  | ok opener =>
    exact Or.inr (beside_heredoc_of_opener lenient trails hopener
      ((Heredoc.readOpener_append_trail uncut).mpr hopener))
  | error refusal =>
    cases hboth : Heredoc.readOpener options.delimiters (bs ++ trail) with
    | error refusal' =>
      exact Or.inl ⟨heredoc_of_refusal lenient hopener, heredoc_of_refusal lenient hboth⟩
    | ok opener =>
      rw [(Heredoc.readOpener_append_trail uncut).mp hboth] at hopener
      cases hopener

/-- Wherever no opening line is cut, the two find constructs that compare so. -/
theorem beside_scan (lenient : options.isStrict = false)
    (trails : ∀ b ∈ trail, Byte.isTrailingSpace b = true)
    (uncut : Uncut options (first :: tail) trail) :
    Beside tail (scan options first tail) (scan options first (tail ++ trail)) := by
  have follows : Template.FollowsText trail := fun b hb =>
    Or.inl (Byte.isSpace_of_isTrailingSpace b (Bytes.isTrailingSpace_of_head? trails hb))
  rw [scan, scan]
  by_cases hword : Byte.isWordStart first = true
  · rw [if_pos hword, if_pos hword, ← List.cons_append, Lexeme.word_append trails]
    exact .same
  rw [if_neg hword, if_neg hword]
  by_cases hdigit : Byte.isDigit first = true
  · rw [if_pos hdigit, if_pos hdigit, ← List.cons_append, Lexeme.numeral_append trails]
    exact .same
  rw [if_neg hdigit, if_neg hdigit]
  by_cases hquote : Byte.isQuote first = true
  · rw [if_pos hquote, if_pos hquote, lenient]
    exact beside_quoted trails hquote
  rw [if_neg hquote, if_neg hquote]
  cases hcomment : Comment.scan? first tail with
  | some found =>
    obtain ⟨found', hboth, hlength⟩ := Comment.exists_scan?_append hcomment trail
    simp only [hboth, lenient, Bool.false_eq_true, false_and, if_false]
    rcases hlength with rfl | ⟨hall, hle⟩
    · exact .same
    · exact .comment hall (hall ▸ hle)
  | none =>
    rw [follows.scan?_append hcomment]
    have hmarks : (ascii "<<<").isPrefixOf (first :: (tail ++ trail)) =
        (ascii "<<<").isPrefixOf (first :: tail) := by
      refine Bool.eq_iff_iff.mpr ?_
      rw [List.isPrefixOf_iff_prefix, List.isPrefixOf_iff_prefix]
      exact Bytes.prefix_append_iff trails (first :: tail) rfl
    simp only [hmarks, Lexeme.symbol_append trails]
    by_cases hopens : (ascii "<<<").isPrefixOf (first :: tail) = true
    · obtain ⟨bs, hbs⟩ := List.isPrefixOf_iff_prefix.mp hopens
      obtain rfl : tail = Byte.less :: Byte.less :: bs := (List.cons.inj hbs).2.symm
      rw [if_pos hopens, if_pos hopens]
      rcases beside_heredoc lenient trails (uncut bs hbs.symm) with
        ⟨hnone, hboth⟩ | ⟨found, found', hfound, hboth, hbeside⟩
      · rw [show (Byte.less :: Byte.less :: bs).drop 2 = bs from rfl, hnone,
          show (Byte.less :: Byte.less :: bs ++ trail).drop 2 = bs ++ trail from rfl, hboth]
        exact .same
      · rw [show (Byte.less :: Byte.less :: bs).drop 2 = bs from rfl, hfound,
          show (Byte.less :: Byte.less :: bs ++ trail).drop 2 = bs ++ trail from rfl, hboth]
        exact hbeside
    · rw [if_neg hopens, if_neg hopens]
      exact .same

/-- Where an opening line is cut, a heredoc opens whose text begins behind all of the text. -/
theorem exists_scan_of_isCut (lenient : options.isStrict = false)
    (hcut : Heredoc.IsCut options.delimiters bs trail) :
    ∃ kind start m n, scan options Byte.less (Byte.less :: Byte.less :: bs ++ trail) =
        .lexeme ⟨.fixed kind, ⟨start, m⟩, n⟩ ∧
      (ascii "<<<" ++ bs).length < start ∧ start ≤ n := by
  obtain ⟨opener, hopener, hlt⟩ := Heredoc.isCut_iff.mp hcut
  have hthree : (ascii "<<<" ++ bs).length = 3 + bs.length := List.length_append
  have hle := Heredoc.length_le_of_readOpener hopener
  have hscan : ∃ kind start m n, Heredoc.scan? options (bs ++ trail) =
      some (.lexeme ⟨.fixed kind, ⟨start, m⟩, n⟩) ∧
        (ascii "<<<" ++ bs).length < start ∧ start ≤ n := by
    rw [Heredoc.scan?, hopener]
    simp only []
    split
    · exact ⟨_, _, _, _, rfl, by omega, by omega⟩
    · rw [lenient]
      exact ⟨_, _, _, _, rfl, by omega, by omega⟩
  obtain ⟨kind, start, m, n, hfound, hstart, hn⟩ := hscan
  exact ⟨kind, start, m, n, scan_of_heredoc hfound, hstart, hn⟩

end Construct

/-! ### What lies ahead -/

namespace Ahead

open Construct

variable {options : Options} {trail bs rest : Bytes}

/-- What the two have ahead: nothing; the same lexeme; a literal that both take to the end of the
text; or, for the one with white space behind, a heredoc whose opening line is cut. -/
inductive Beside (options : Options) (trail bs : Bytes) : Ahead → Ahead → Prop
  | nothing {n n' : Nat} (uncut : ¬ CutsOpener options bs trail) :
      Beside options trail bs ⟨n, .endOfInput⟩ ⟨n', .endOfInput⟩
  | same {n : Nat} {found : Lexeme}
      (further : CutsOpener options bs trail ↔
        CutsOpener options (bs.drop (n + found.length)) trail) :
      Beside options trail bs ⟨n, .lexeme found⟩ ⟨n, .lexeme found⟩
  | literal {n : Nat} {kind : Token.Kind} {start m m' k k' : Nat}
      (uncut : ¬ CutsOpener options bs trail) (all : n + k = bs.length) (le : k ≤ k') :
      Beside options trail bs ⟨n, .lexeme ⟨.fixed kind, ⟨start, m⟩, k⟩⟩
        ⟨n, .lexeme ⟨.fixed kind, ⟨start, m'⟩, k'⟩⟩
  | heredoc {ahead : Ahead} {n : Nat} {kind : Token.Kind} {start m k : Nat}
      (cut : CutsOpener options bs trail) (behind : bs.length < n + start) (le : start ≤ k) :
      Beside options trail bs ahead ⟨n, .lexeme ⟨.fixed kind, ⟨start, m⟩, k⟩⟩

/-- White space and comments before what is ahead change nothing. -/
theorem Beside.skip {ahead ahead' : Ahead} {n : Nat} (h : Beside options trail rest ahead ahead')
    (hle : n ≤ bs.length) (hrest : bs.drop n = rest)
    (further : CutsOpener options bs trail ↔ CutsOpener options rest trail) :
    Beside options trail bs ⟨n + ahead.skipped, ahead.found⟩
      ⟨n + ahead'.skipped, ahead'.found⟩ := by
  have hlength : rest.length = bs.length - n := by rw [← hrest, List.length_drop]
  cases h with
  | nothing uncut => exact .nothing (mt further.mp uncut)
  | same hfurther =>
    refine .same (further.trans ?_)
    rw [Nat.add_assoc, ← List.drop_drop, hrest]
    exact hfurther
  | @literal n' _ _ _ _ k _ uncut all le =>
    exact .literal (mt further.mp uncut) (show n + n' + k = bs.length by omega) le
  | @heredoc _ n' _ start _ _ cut behind le =>
    exact .heredoc (further.mpr cut) (show bs.length < n + n' + start by omega) le

theorem found_of_spaces (h : ∀ b ∈ bs, Byte.isSpace b = true) :
    (of options bs).found = .endOfInput := by
  induction bs with
  | nil => rw [of_nil]
  | cons b bs ih =>
    obtain ⟨hb, hbs⟩ := List.forall_mem_cons.mp h
    rw [of_space hb]
    exact ih hbs

/-- Nothing is ahead but white space. -/
theorem beside_of_spaces {n n' : Nat} {ahead : Ahead} (uncut : ¬ CutsOpener options bs trail)
    (hrest : ∀ b ∈ rest, Byte.isSpace b = true) (h : ahead = of options rest) :
    Beside options trail bs ⟨n, .endOfInput⟩ ⟨n', ahead.found⟩ := by
  rw [h, found_of_spaces hrest]
  exact .nothing uncut

variable {first : UInt8} {tail : Bytes}

/-- Where the white space completes the opening line of a heredoc, only the longer text has one
ahead. -/
theorem beside_of_cut (lenient : options.isStrict = false) (space : Byte.isSpace first = false)
    {after : Bytes} (opens : first :: tail = ascii "<<<" ++ after)
    (cut : Heredoc.IsCut options.delimiters after trail) :
    Beside options trail (first :: tail) (of options (first :: tail))
      (of options (first :: (tail ++ trail))) := by
  obtain ⟨kind, start, m, k, hscan, hstart, hle⟩ := exists_scan_of_isCut lenient cut
  have hcuts : CutsOpener options (first :: tail) trail := ⟨after, opens ▸ .refl, cut⟩
  have hlength := congrArg List.length opens
  obtain ⟨rfl, rfl⟩ : first = Byte.less ∧ tail = Byte.less :: Byte.less :: after :=
    List.cons.inj opens
  rw [of_lexeme space hscan]
  exact .heredoc hcuts (by omega) hle

/-- Where it does not, the constructs compare, and behind a comment what is ahead from there. -/
theorem beside_of_uncut (lenient : options.isStrict = false)
    (trails : ∀ b ∈ trail, Byte.isTrailingSpace b = true) (space : Byte.isSpace first = false)
    (uncut : Uncut options (first :: tail) trail)
    (further : ∀ n, Beside options trail (tail.drop n) (of options (tail.drop n))
      (of options (tail.drop n ++ trail))) :
    Beside options trail (first :: tail) (of options (first :: tail))
      (of options (first :: (tail ++ trail))) := by
  have hfurther := cutsOpener_of_construct lenient space uncut
  have hbeside := beside_scan lenient trails uncut
  have hlength := length_scan options first tail
  have hdrop : ∀ {n}, 0 < n → (first :: tail).drop n = tail.drop (n - 1) := fun hpos =>
    Bytes.drop_cons_add hpos 0
  generalize hscan : scan options first tail = found at hbeside hfurther hlength
  generalize hboth : scan options first (tail ++ trail) = found' at hbeside
  cases hbeside with
  | same =>
    cases found with
    | comment n =>
      simp only [Construct.length] at hfurther hlength
      rw [of_comment space hscan, of_comment space hboth,
        List.drop_append_of_le_length (by omega)]
      exact (further (n - 1)).skip (by rw [List.length_cons]; omega) (hdrop hlength.1) hfurther
    | fault cause n => exact absurd hscan (ne_fault_of_lenient lenient cause n)
    | lexeme found =>
      simp only [Construct.length] at hfurther hlength
      rw [of_lexeme space hscan, of_lexeme space hboth]
      refine .same ?_
      rw [Nat.zero_add, hdrop hlength.1]
      exact hfurther
  | comment all le =>
    simp only [Construct.length, all, Nat.add_sub_cancel, List.drop_length] at hfurther
    rw [of_comment space hscan, of_comment space hboth, all, Nat.add_sub_cancel,
      List.drop_length, of_nil, List.drop_append, List.drop_eq_nil_of_le (by omega),
      List.nil_append]
    exact beside_of_spaces (mt hfurther.mp not_cutsOpener_nil)
      (fun b hb => Byte.isSpace_of_isTrailingSpace b (trails b (List.mem_of_mem_drop hb))) rfl
  | literal all le =>
    simp only [Construct.length, all, Nat.add_sub_cancel, List.drop_length] at hfurther
    rw [of_lexeme space hscan, of_lexeme space hboth]
    exact .literal (mt hfurther.mp not_cutsOpener_nil) (by rw [List.length_cons]; omega) le

/-- What the two have ahead compares so. -/
theorem beside_of (lenient : options.isStrict = false)
    (trails : ∀ b ∈ trail, Byte.isTrailingSpace b = true) (bs : Bytes) :
    Beside options trail bs (of options bs) (of options (bs ++ trail)) := by
  induction hlen : bs.length using Nat.strongRecOn generalizing bs with
  | ind length ih =>
    cases bs with
    | nil =>
      rw [of_nil]
      exact beside_of_spaces not_cutsOpener_nil
        (fun b hb => Byte.isSpace_of_isTrailingSpace b (trails b hb)) rfl
    | cons first tail =>
      rw [List.length_cons] at hlen
      have hfurther : ∀ n, Beside options trail (tail.drop n) (of options (tail.drop n))
          (of options (tail.drop n ++ trail)) := fun n =>
        ih _ (by rw [List.length_drop]; omega) _ rfl
      rw [List.cons_append]
      by_cases space : Byte.isSpace first = true
      · rw [of_space space, of_space space]
        exact (hfurther 0).skip (by rw [List.length_cons]; omega) rfl (cutsOpener_of_space space)
      rw [Bool.not_eq_true] at space
      by_cases hcut : ∃ after, first :: tail = ascii "<<<" ++ after ∧
          Heredoc.IsCut options.delimiters after trail
      · obtain ⟨after, hopens, hcut⟩ := hcut
        exact beside_of_cut lenient space hopens hcut
      · exact beside_of_uncut lenient trails space (fun after hopens h => hcut ⟨after, hopens, h⟩)
          hfurther

end Ahead

/-! ### Lexers -/

/-- The kinds of tokens and the offsets at which their texts begin. -/
def outline (tokens : Array Token) : List (Token.Kind × Nat) :=
  tokens.toList.map fun token => (token.kind, token.text.start)

theorem outline_push (tokens : Array Token) (token : Token) :
    outline (tokens.push token) = outline tokens ++ [(token.kind, token.text.start)] := by
  rw [outline, Array.toList_push, List.map_append]
  rfl

namespace Lexer

variable {l l' : Lexer} {resolve : Resolver} {trail : Bytes} {tokens : Array Token}

/-- The lexer `l'` is where `l` is and remembers the same, and has `trail` behind all that `l` has
ahead. -/
structure Beside (trail : Bytes) (l l' : Lexer) : Prop where
  options_eq : l'.options = l.options
  rest_eq : l'.cursor.rest = l.cursor.rest ++ trail
  offset_eq : l'.offset = l.offset
  line_eq : l'.line = l.line
  lookback_eq : l'.lookback = l.lookback

/-! ### Steps by what is ahead -/

theorem step_of_endOfInput (h : (Ahead.of l.options l.cursor.rest).found = .endOfInput)
    (resolve : Resolver) :
    ∃ e, (l.step resolve).answer = .error e ∧ e.isEndOfInput = true := by
  rw [step, h]
  exact ⟨_, rfl, rfl⟩

/-- With only white space ahead no token is added. -/
theorem collectFrom_of_spaces (running : l.finished = false)
    (h : ∀ b ∈ l.cursor.rest, Byte.isSpace b = true) (resolve : Resolver) (tokens : Array Token) :
    l.collectFrom resolve tokens = .ok tokens := by
  obtain ⟨e, hstep, hend⟩ := step_of_endOfInput (Ahead.found_of_spaces h) resolve
  rw [collectFrom_of_error running hstep, if_pos hend]

/-- A lexeme of a fixed kind is emitted. -/
theorem step_of_fixed {n : Nat} {kind : Token.Kind} {start m k : Nat}
    (h : Ahead.of l.options l.cursor.rest = ⟨n, .lexeme ⟨.fixed kind, ⟨start, m⟩, k⟩⟩)
    (resolve : Resolver) :
    (∃ line, (l.step resolve).answer =
        .ok (.emit { kind, text := ⟨l.offset + n + start, m⟩, line })) ∧
      (l.step resolve).lexer.cursor.rest = l.cursor.rest.drop (n + k) := by
  have hle := (Ahead.length_of l.options l.cursor.rest).2
  have hcursor := cursor_step l resolve
  rw [h] at hle hcursor
  have hoffset : (l.cursor.advanceBy n).offset = l.offset + n :=
    Cursor.offset_advanceBy_of_le (Nat.le_trans (Nat.le_add_right _ _) (hle nofun).2)
  refine ⟨⟨(l.cursor.advanceBy n).line, ?_⟩, ?_⟩
  · rw [step, h, ← hoffset]
    rfl
  · rw [hcursor]
    rfl

/-- A literal that takes all that is ahead is the last token, and what is behind it is white
space. -/
theorem collectFrom_of_last {n : Nat} {kind : Token.Kind} {start m k : Nat}
    (running : l.finished = false)
    (h : Ahead.of l.options l.cursor.rest = ⟨n, .lexeme ⟨.fixed kind, ⟨start, m⟩, k⟩⟩)
    (hrest : ∀ b ∈ l.cursor.rest.drop (n + k), Byte.isSpace b = true) (resolve : Resolver)
    (tokens : Array Token) :
    ∃ token, l.collectFrom resolve tokens = .ok (tokens.push token) ∧ token.kind = kind ∧
      token.text.start = l.offset + n + start := by
  obtain ⟨⟨line, hanswer⟩, hfurther⟩ := step_of_fixed h resolve
  refine ⟨{ kind, text := ⟨l.offset + n + start, m⟩, line }, ?_, rfl, rfl⟩
  rw [collectFrom_of_ok running hanswer]
  refine collectFrom_of_spaces ((finished_step l resolve).trans running) ?_ resolve _
  rw [hfurther]
  exact hrest

namespace Beside

/-- A lexeme that both have ahead is read by both alike. -/
theorem step_of_lexeme (h : Beside trail l l') {n : Nat} {found : Lexeme}
    (ahead : Ahead.of l.options l.cursor.rest = ⟨n, .lexeme found⟩)
    (ahead' : Ahead.of l'.options l'.cursor.rest = ⟨n, .lexeme found⟩) (resolve : Resolver) :
    ∃ edit, (l.step resolve).answer = .ok edit ∧ (l'.step resolve).answer = .ok edit ∧
      Beside trail (l.step resolve).lexer (l'.step resolve).lexer ∧
      (l.step resolve).lexer.cursor.rest = l.cursor.rest.drop (n + found.length) := by
  have hle := (Ahead.length_of l.options l.cursor.rest).2
  rw [ahead] at hle
  obtain ⟨-, hle⟩ := hle nofun
  have hmove : ∀ k ≤ l.cursor.rest.length,
      (l'.cursor.advanceBy k).rest = (l.cursor.advanceBy k).rest ++ trail ∧
        (l'.cursor.advanceBy k).offset = (l.cursor.advanceBy k).offset ∧
        (l'.cursor.advanceBy k).line = (l.cursor.advanceBy k).line := by
    intro k hk
    have hoffset : l'.cursor.offset = l.cursor.offset := h.offset_eq
    have hline : l'.cursor.line = l.cursor.line := h.line_eq
    simp only [Cursor.advanceBy, h.rest_eq, List.take_append_of_le_length hk,
      List.drop_append_of_le_length hk, hoffset, hline, and_self]
  obtain ⟨-, hoffset, hline⟩ := hmove n (Nat.le_trans (Nat.le_add_right _ _) hle)
  obtain ⟨hrest', hoffset', hline'⟩ := hmove (n + found.length) hle
  have hcursor : (l.step resolve).lexer.cursor = l.cursor.advanceBy (n + found.length) := by
    rw [cursor_step, ahead]
    rfl
  have hcursor' : (l'.step resolve).lexer.cursor = l'.cursor.advanceBy (n + found.length) := by
    rw [cursor_step, ahead']
    rfl
  have hanswer : (l.step resolve).answer = .ok ((found.read l.lookback
      (l.cursor.advanceBy n).offset (l.cursor.advanceBy n).line).settle resolve) := by
    rw [step, ahead]
  have hanswer' : (l'.step resolve).answer = .ok ((found.read l.lookback
      (l.cursor.advanceBy n).offset (l.cursor.advanceBy n).line).settle resolve) := by
    rw [step, ahead', ← hoffset, ← hline, ← h.lookback_eq]
  refine ⟨_, hanswer, hanswer', ⟨?_, ?_, ?_, ?_, ?_⟩, ?_⟩
  · rw [options_step, options_step, h.options_eq]
  · rw [hcursor, hcursor', hrest']
  · rw [offset, offset, hcursor, hcursor', hoffset']
  · rw [line, line, hcursor, hcursor', hline']
  · rw [lookback_step_of_ok hanswer, lookback_step_of_ok hanswer', h.lookback_eq]
  · rw [hcursor]
    rfl

/-- The two collect tokens of the same kinds that begin at the same offsets; or an opening line is
cut, and the one with white space behind has a token that begins behind the text. -/
theorem collectFrom (h : Beside trail l l') (lenient : l.options.isStrict = false)
    (trails : ∀ b ∈ trail, Byte.isTrailingSpace b = true) (running : l.finished = false)
    (running' : l'.finished = false) (resolve : Resolver) (tokens : Array Token) :
    ∃ found found', l.collectFrom resolve tokens = .ok found ∧
      l'.collectFrom resolve tokens = .ok found' ∧
      (¬ Construct.CutsOpener l.options l.cursor.rest trail → outline found = outline found') ∧
      (Construct.CutsOpener l.options l.cursor.rest trail →
        ∃ token ∈ found'.toList, l.cursor.source.length < token.text.start) := by
  induction hlen : l.cursor.rest.length using Nat.strongRecOn generalizing l l' tokens with
  | ind length ih =>
    have spaces : ∀ n b, l.cursor.rest.length ≤ n → b ∈ l'.cursor.rest.drop n →
        Byte.isSpace b = true := by
      intro n b hn hb
      rw [h.rest_eq, List.drop_append, List.drop_eq_nil_of_le hn, List.nil_append] at hb
      exact Byte.isSpace_of_isTrailingSpace b (trails b (List.mem_of_mem_drop hb))
    have hbeside := Ahead.beside_of lenient trails l.cursor.rest
    generalize hahead : Ahead.of l.options l.cursor.rest = ahead at hbeside
    generalize hahead' : Ahead.of l.options (l.cursor.rest ++ trail) = ahead' at hbeside
    rw [← h.options_eq, ← h.rest_eq] at hahead'
    cases hbeside with
    | nothing uncut =>
      obtain ⟨e, hstep, hend⟩ := step_of_endOfInput (congrArg Ahead.found hahead) resolve
      obtain ⟨e', hstep', hend'⟩ := step_of_endOfInput (congrArg Ahead.found hahead') resolve
      refine ⟨tokens, tokens, ?_, ?_, fun _ => rfl, fun hcut => absurd hcut uncut⟩
      · rw [collectFrom_of_error running hstep, if_pos hend]
      · rw [collectFrom_of_error running' hstep', if_pos hend']
    | same further =>
      obtain ⟨edit, hstep, hstep', hnext, hrest⟩ := h.step_of_lexeme hahead hahead' resolve
      obtain ⟨found, found', hfound, hfound', hsame, hcut⟩ := ih _
        (hlen ▸ length_rest_step hstep) hnext (by rw [options_step]; exact lenient)
        ((finished_step l resolve).trans running) ((finished_step l' resolve).trans running')
        (edit.apply tokens) rfl
      have hsource : (l.step resolve).lexer.cursor.source = l.cursor.source := by
        rw [cursor_step, Cursor.source_advanceBy]
      rw [options_step, hrest, ← further] at hsame hcut
      rw [hsource] at hcut
      refine ⟨found, found', ?_, ?_, hsame, hcut⟩
      · rw [collectFrom_of_ok running hstep, hfound]
      · rw [collectFrom_of_ok running' hstep', hfound']
    | @literal n _ _ _ _ k _ uncut all le =>
      have hnil : l.cursor.rest.drop (n + k) = [] := List.drop_eq_nil_of_le (Nat.le_of_eq all.symm)
      obtain ⟨token, hfound, hkind, hstart⟩ := collectFrom_of_last running hahead
        (fun b hb => by rw [hnil] at hb; cases hb) resolve tokens
      obtain ⟨token', hfound', hkind', hstart'⟩ := collectFrom_of_last running' hahead'
        (fun b hb => spaces _ b (by omega) hb) resolve tokens
      refine ⟨_, _, hfound, hfound', fun _ => ?_, fun hcut => absurd hcut uncut⟩
      rw [outline_push, outline_push, hkind, hkind', hstart, hstart', h.offset_eq]
    | heredoc cut behind le =>
      obtain ⟨found, hfound⟩ := exists_collectFrom_of_lenient lenient running resolve tokens
      obtain ⟨token, hfound', -, hstart⟩ := collectFrom_of_last running' hahead'
        (fun b hb => spaces _ b (by omega) hb) resolve tokens
      refine ⟨found, _, hfound, hfound', fun uncut => absurd cut uncut, fun _ => ⟨token, ?_, ?_⟩⟩
      · rw [Array.toList_push]
        exact List.mem_append_right _ List.mem_cons_self
      · have hlength := l.cursor.length_rest
        have hoffset := l.cursor.offset_le
        rw [hstart, h.offset_eq, offset]
        omega

end Beside

end Lexer

end TemplateScript
