import TemplateScript.Lexeme.Heredoc
import TemplateScript.Proofs.Word

/-!
# The opening line of a heredoc

`Heredoc.OpenerLine` says what stands between `<<<` and the body: horizontal space, a quote or
none, a delimiter, the same quote or none, horizontal space and a newline.

* `Heredoc.readOpener_eq_ok_iff` — exactly such a line is accepted;
* `Heredoc.readOpener_append` — whether it is does not depend on what follows the line;
* `Heredoc.count_newline` — the newline at its end is the only one.
-/

namespace TemplateScript.Heredoc

/-! ### The line -/

/-- A word that begins with a byte the rule allows there. -/
def IsDelimiter (rule : DelimiterRule) (delimiter : Bytes) : Prop :=
  (∃ b, delimiter.head? = some b ∧ rule.isLead b = true) ∧ Word.Text delimiter

/-- The line from its delimiter on, behind `quote` or none: the delimiter, perhaps the quote again,
horizontal space and the newline. -/
structure DelimiterLine (rule : DelimiterRule) (quote : Option UInt8) (delimiter line : Bytes) :
    Prop where
  isDelimiter : IsDelimiter rule delimiter
  parts : ∃ close space, line = delimiter ++ (close ++ (space ++ [Byte.newline])) ∧
    (close = [] ∨ close = quote.toList) ∧ ∀ b ∈ space, Byte.isHorizontalSpace b = true

/-- The line after `<<<`, its newline included, that opens `opener`. -/
structure OpenerLine (rule : DelimiterRule) (opener : Opener) (line : Bytes) : Prop where
  parts : ∃ indent quote rest, line = indent ++ (quote.toList ++ rest) ∧
    (∀ b ∈ indent, Byte.isHorizontalSpace b = true) ∧
    (∀ q ∈ quote, q = Byte.singleQuote ∨ q = Byte.doubleQuote) ∧
    DelimiterLine rule quote opener.delimiter rest ∧
    opener.isNowdoc = (quote == some Byte.singleQuote)
  length_eq : opener.length = line.length

/-! ### Bytes of the line -/

theorem not_continues_of_isHorizontalSpace :
    ∀ b, Byte.isHorizontalSpace b = true → ¬ Word.Continues b := by
  unfold Word.Continues
  decide +kernel

theorem not_isHorizontalSpace_of_isLead :
    ∀ rule b, DelimiterRule.isLead rule b = true → Byte.isHorizontalSpace b = false := by
  intro rule
  cases rule <;> decide +kernel

theorem ne_quote_of_isLead :
    ∀ rule b, DelimiterRule.isLead rule b = true → b ≠ Byte.singleQuote ∧ b ≠ Byte.doubleQuote := by
  intro rule
  cases rule <;> decide +kernel

theorem not_isHorizontalSpace_of_quote {q : UInt8} (h : q = Byte.singleQuote ∨ q = Byte.doubleQuote) :
    Byte.isHorizontalSpace q = false := by
  rcases h with rfl | rfl <;> decide

theorem not_continues_of_quote {q : UInt8} (h : q = Byte.singleQuote ∨ q = Byte.doubleQuote) :
    ¬ Word.Continues q := by
  unfold Word.Continues
  rcases h with rfl | rfl <;> decide

/-- Horizontal space up to a newline: the first byte is one or the other. -/
theorem head?_space_newline {space body : Bytes} {b : UInt8}
    (spaces : ∀ b ∈ space, Byte.isHorizontalSpace b = true)
    (h : (space ++ Byte.newline :: body).head? = some b) :
    Byte.isHorizontalSpace b = true ∨ b = Byte.newline := by
  cases space with
  | nil => exact Or.inr (Option.some.inj h).symm
  | cons c space =>
    obtain rfl := Option.some.inj h
    exact Or.inl (spaces _ List.mem_cons_self)

theorem runLength_space_newline {space body : Bytes}
    (spaces : ∀ b ∈ space, Byte.isHorizontalSpace b = true) :
    Bytes.runLength Byte.isHorizontalSpace (space ++ Byte.newline :: body) = space.length :=
  Bytes.runLength_append spaces fun b hb => by rw [← Option.some.inj hb]; decide

/-! ### Delimiters -/

theorem delimiterRun_append {rule : DelimiterRule} {delimiter rest : Bytes}
    (h : IsDelimiter rule delimiter) (stop : ∀ b, rest.head? = some b → ¬ Word.Continues b) :
    delimiterRun rule (delimiter ++ rest) = delimiter.length := by
  obtain ⟨⟨b, hb, hlead⟩, htext⟩ := h
  obtain ⟨tail, rfl⟩ := List.head?_eq_some_iff.mp hb
  rw [List.cons_append, delimiterRun, if_pos hlead, ← List.cons_append,
    Word.length_append htext stop]

theorem isDelimiter_take {rule : DelimiterRule} {bs : Bytes} (h : delimiterRun rule bs ≠ 0) :
    IsDelimiter rule (bs.take (delimiterRun rule bs)) := by
  cases bs with
  | nil => exact absurd rfl h
  | cons b bs =>
    rw [delimiterRun] at h ⊢
    split at h
    · next hlead =>
      rw [if_pos hlead]
      refine ⟨⟨b, ?_, hlead⟩, Word.text_take_length _⟩
      obtain ⟨n, hn⟩ := Nat.exists_eq_succ_of_ne_zero h
      rw [hn, List.take_succ_cons, List.head?_cons]
    · exact absurd rfl h

theorem length_pos_of_isDelimiter {rule : DelimiterRule} {delimiter : Bytes}
    (h : IsDelimiter rule delimiter) : 0 < delimiter.length := by
  obtain ⟨⟨b, hb, -⟩, -⟩ := h
  obtain ⟨tail, rfl⟩ := List.head?_eq_some_iff.mp hb
  exact Nat.succ_pos _

/-! ### Reading the line -/

theorem readDelimiter_of_line {rule : DelimiterRule} {quote : Option UInt8} {read : Nat}
    {delimiter line body : Bytes} (quoted : ∀ q ∈ quote, q = Byte.singleQuote ∨ q = Byte.doubleQuote)
    (h : DelimiterLine rule quote delimiter line) :
    readDelimiter rule quote read (line ++ body) =
      .ok ⟨delimiter, quote == some Byte.singleQuote, read + line.length⟩ := by
  obtain ⟨hdelimiter, close, space, rfl, hclose, hspace⟩ := h
  have hpos := length_pos_of_isDelimiter hdelimiter
  -- what follows the delimiter is the quote, horizontal space or the newline
  have hafter : ∀ b, (close ++ (space ++ Byte.newline :: body)).head? = some b →
      ¬ Word.Continues b := by
    intro b hb
    have hplain : (space ++ Byte.newline :: body).head? = some b → ¬ Word.Continues b := by
      intro hb
      rcases head?_space_newline hspace hb with hb | rfl
      · exact not_continues_of_isHorizontalSpace b hb
      · unfold Word.Continues
        decide
    rcases hclose with rfl | rfl
    · exact hplain hb
    · cases quote with
      | none => exact hplain hb
      | some q =>
        obtain rfl := Option.some.inj hb
        exact not_continues_of_quote (quoted _ rfl)
  have hrun := delimiterRun_append hdelimiter hafter
  have hquote : closingQuoteLength quote (close ++ (space ++ Byte.newline :: body)) =
      close.length := by
    rw [closingQuoteLength]
    rcases hclose with rfl | rfl
    · rw [List.nil_append, List.length_nil, if_neg]
      rintro ⟨hsome, hhead⟩
      obtain ⟨q, rfl⟩ := Option.isSome_iff_exists.mp hsome
      rcases head?_space_newline hspace hhead with hq | rfl
      · rw [not_isHorizontalSpace_of_quote (quoted q rfl)] at hq
        cases hq
      · rcases quoted _ rfl with h | h <;> cases h
    · cases quote with
      | none => rw [if_neg (by simp)]; rfl
      | some q => rw [if_pos ⟨rfl, rfl⟩]; rfl
  have hshape : delimiter ++ (close ++ (space ++ [Byte.newline])) ++ body =
      delimiter ++ (close ++ (space ++ Byte.newline :: body)) := by simp
  rw [hshape, readDelimiter]
  simp only [hrun, List.drop_append_length, List.take_append_length, hquote]
  rw [if_neg (by omega)]
  have hdrop : (delimiter ++ (close ++ (space ++ Byte.newline :: body))).drop
      (delimiter.length + close.length) = space ++ Byte.newline :: body := by
    rw [← List.append_assoc, ← List.length_append, List.drop_append_length]
  rw [hdrop, runLength_space_newline hspace, ← List.drop_drop, hdrop, List.drop_append_length,
    List.head?_cons, if_pos rfl]
  simp only [List.length_append, List.length_cons, List.length_nil, Except.ok.injEq,
    Opener.mk.injEq, true_and]
  omega

theorem exists_line_of_readDelimiter {rule : DelimiterRule} {quote : Option UInt8} {read : Nat}
    {bs : Bytes} {opener : Opener} (h : readDelimiter rule quote read bs = .ok opener) :
    ∃ line body, bs = line ++ body ∧ DelimiterLine rule quote opener.delimiter line ∧
      opener.isNowdoc = (quote == some Byte.singleQuote) ∧
      opener.length = read + line.length := by
  simp only [readDelimiter] at h
  split at h
  · split at h <;> cases h
  · next hpos =>
    split at h
    · next hnewline =>
      cases h
      obtain ⟨body, hbody⟩ := List.head?_eq_some_iff.mp hnewline
      generalize hunquoted : delimiterRun rule bs +
        closingQuoteLength quote (bs.drop (delimiterRun rule bs)) = unquoted at *
      generalize hstop : unquoted +
        Bytes.runLength Byte.isHorizontalSpace (bs.drop unquoted) = stop at *
      have hlt : stop < bs.length := Bytes.lt_length_of_head?_drop hnewline
      refine ⟨bs.take (stop + 1), bs.drop (stop + 1), (List.take_append_drop _ _).symm,
        ⟨isDelimiter_take hpos, ?_⟩, rfl, ?_⟩
      · refine ⟨(bs.drop (delimiterRun rule bs)).take
            (closingQuoteLength quote (bs.drop (delimiterRun rule bs))),
          (bs.drop unquoted).take (Bytes.runLength Byte.isHorizontalSpace (bs.drop unquoted)),
          ?_, ?_, fun b hb => Bytes.of_mem_take_runLength hb⟩
        · rw [← List.append_assoc, ← List.take_add, hunquoted, ← List.append_assoc,
            ← List.take_add, hstop, List.take_add_one, ← List.head?_drop, hnewline]
          rfl
        · rw [closingQuoteLength]
          split
          · next hq =>
            right
            obtain ⟨q, rfl⟩ := Option.isSome_iff_exists.mp hq.1
            obtain ⟨tail, htail⟩ := List.head?_eq_some_iff.mp hq.2
            rw [htail]
            rfl
          · exact Or.inl rfl
      · rw [List.length_take, Nat.min_eq_left (by omega)]
        rfl
    · cases h

theorem head?_of_delimiterLine {rule : DelimiterRule} {quote : Option UInt8}
    {delimiter line : Bytes} (h : DelimiterLine rule quote delimiter line) (body : Bytes) :
    ∃ b, (line ++ body).head? = some b ∧ rule.isLead b = true := by
  obtain ⟨⟨⟨b, hb, hlead⟩, -⟩, close, space, rfl, -⟩ := h
  obtain ⟨tail, rfl⟩ := List.head?_eq_some_iff.mp hb
  exact ⟨b, rfl, hlead⟩

theorem exists_line_of_readOpener {rule : DelimiterRule} {bs : Bytes} {opener : Opener}
    (h : readOpener rule bs = .ok opener) :
    ∃ line body, bs = line ++ body ∧ OpenerLine rule opener line := by
  have hindent : bs.take (Bytes.runLength Byte.isHorizontalSpace bs) ++
      bs.drop (Bytes.runLength Byte.isHorizontalSpace bs) = bs := List.take_append_drop _ _
  have hle := Bytes.runLength_le Byte.isHorizontalSpace bs
  rw [readOpener] at h
  generalize hn : Bytes.runLength Byte.isHorizontalSpace bs = indent at h hindent hle
  have hspaces : ∀ b ∈ bs.take indent, Byte.isHorizontalSpace b = true := fun b hb =>
    Bytes.of_mem_take_runLength (hn.symm ▸ hb)
  split at h
  · next q hq =>
    obtain ⟨tail, htail, hquote⟩ : ∃ tail, bs.drop indent = q :: tail ∧
        (q = Byte.singleQuote ∨ q = Byte.doubleQuote) := by
      cases hd : bs.drop indent with
      | nil => rw [hd] at hq; cases hq
      | cons b tail =>
        rw [hd, quote?] at hq
        split at hq
        · next hb => cases hq; exact ⟨tail, rfl, hb⟩
        · cases hq
    have hdrop : bs.drop (indent + 1) = tail := by rw [← List.drop_drop, htail]; rfl
    rw [hdrop] at h
    obtain ⟨line, body, rfl, hline, hnowdoc, hlength⟩ := exists_line_of_readDelimiter h
    refine ⟨bs.take indent ++ (q :: line), body, ?_,
      ⟨⟨bs.take indent, some q, line, rfl, hspaces, ?_, hline, hnowdoc⟩, ?_⟩⟩
    · rw [List.append_assoc, List.cons_append, ← htail, hindent]
    · intro q' hq'
      cases hq'
      exact hquote
    · rw [hlength, List.length_append, List.length_take, Nat.min_eq_left hle, List.length_cons]
      omega
  · obtain ⟨line, body, hbs, hline, hnowdoc, hlength⟩ := exists_line_of_readDelimiter h
    refine ⟨bs.take indent ++ line, body, ?_,
      ⟨⟨bs.take indent, none, line, rfl, hspaces, nofun, hline, hnowdoc⟩, ?_⟩⟩
    · rw [List.append_assoc, ← hbs, hindent]
    · rw [hlength, List.length_append, List.length_take, Nat.min_eq_left hle]

theorem readOpener_of_line {rule : DelimiterRule} {opener : Opener} {line : Bytes}
    (h : OpenerLine rule opener line) (body : Bytes) :
    readOpener rule (line ++ body) = .ok opener := by
  obtain ⟨⟨indent, quote, rest, rfl, hindent, hquote, hrest, hnowdoc⟩, hlength⟩ := h
  have hread : ∀ read, readDelimiter rule quote read (rest ++ body) =
      .ok ⟨opener.delimiter, quote == some Byte.singleQuote, read + rest.length⟩ :=
    fun read => readDelimiter_of_line hquote hrest
  obtain ⟨b, hb, hlead⟩ := head?_of_delimiterLine hrest body
  have hopener : opener = ⟨opener.delimiter, quote == some Byte.singleQuote,
      (indent ++ (quote.toList ++ rest)).length⟩ := by
    rw [← hnowdoc, ← hlength]
  have hrun : Bytes.runLength Byte.isHorizontalSpace (indent ++ (quote.toList ++ rest ++ body)) =
      indent.length := by
    refine Bytes.runLength_append hindent fun c hc => ?_
    cases quote with
    | none =>
      obtain rfl : b = c := Option.some.inj (hb.symm.trans hc)
      exact not_isHorizontalSpace_of_isLead rule b hlead
    | some q =>
      obtain rfl : q = c := Option.some.inj hc
      exact not_isHorizontalSpace_of_quote (hquote q rfl)
  rw [List.append_assoc, readOpener, hrun]
  simp only [List.drop_append_length]
  cases quote with
  | none =>
    have hnone : quote? (rest ++ body) = none := by
      obtain ⟨tail, htail⟩ := List.head?_eq_some_iff.mp hb
      rw [htail, quote?, if_neg]
      rintro (rfl | rfl)
      · exact (ne_quote_of_isLead rule _ hlead).1 rfl
      · exact (ne_quote_of_isLead rule _ hlead).2 rfl
    rw [hopener]
    simp only [Option.toList_none, List.nil_append, hnone, hread, List.length_append]
  | some q =>
    have hsome : quote? (q :: (rest ++ body)) = some q := by rw [quote?, if_pos (hquote q rfl)]
    have hdrop : (indent ++ q :: (rest ++ body)).drop (indent.length + 1) = rest ++ body := by
      rw [← List.drop_drop, List.drop_append_length]
      rfl
    rw [hopener]
    simp only [Option.toList_some, List.cons_append, List.nil_append, hsome, hdrop, hread,
      List.length_append, List.length_cons, Except.ok.injEq, Opener.mk.injEq, true_and]
    omega

/-- Exactly the opening lines of heredocs are accepted. -/
theorem readOpener_eq_ok_iff {rule : DelimiterRule} {bs : Bytes} {opener : Opener} :
    readOpener rule bs = .ok opener ↔
      ∃ line body, bs = line ++ body ∧ OpenerLine rule opener line := by
  constructor
  · exact exists_line_of_readOpener
  · rintro ⟨line, body, rfl, h⟩
    exact readOpener_of_line h body

/-- What an opener names is a delimiter. -/
theorem isDelimiter_of_readOpener {rule : DelimiterRule} {bs : Bytes} {opener : Opener}
    (h : readOpener rule bs = .ok opener) : IsDelimiter rule opener.delimiter := by
  obtain ⟨line, body, -, hline⟩ := exists_line_of_readOpener h
  obtain ⟨indent, quote, rest, -, -, -, hrest, -⟩ := hline.parts
  exact hrest.isDelimiter

/-- Nothing behind the opening line matters to it. -/
theorem readOpener_append {rule : DelimiterRule} {xs : Bytes} {opener : Opener} (ys : Bytes)
    (h : opener.length ≤ xs.length) :
    readOpener rule (xs ++ ys) = .ok opener ↔ readOpener rule xs = .ok opener := by
  simp only [readOpener_eq_ok_iff]
  constructor
  · rintro ⟨line, body, hsplit, hline⟩
    rcases List.append_eq_append_iff.mp hsplit with ⟨more, rfl, -⟩ | ⟨more, rfl, -⟩
    · rw [hline.length_eq, List.length_append] at h
      obtain rfl := List.eq_nil_of_length_eq_zero (by omega : more.length = 0)
      exact ⟨xs, [], by rw [List.append_nil], by rwa [List.append_nil] at hline⟩
    · exact ⟨line, more, rfl, hline⟩
  · rintro ⟨line, body, rfl, hline⟩
    exact ⟨line, body ++ ys, List.append_assoc _ _ _, hline⟩

/-- The newline at the end of the line is the only one. -/
theorem count_newline {rule : DelimiterRule} {opener : Opener} {line : Bytes}
    (h : OpenerLine rule opener line) : line.count Byte.newline = 1 := by
  obtain ⟨indent, quote, rest, rfl, hindent, hquote, ⟨hdelimiter, close, space, rfl, hclose, hspace⟩,
    -⟩ := h.parts
  have hfree : ∀ part : Bytes, (∀ b ∈ part, b ≠ Byte.newline) → part.count Byte.newline = 0 :=
    fun part hpart => List.count_eq_zero.mpr fun hb => hpart _ hb rfl
  have hhorizontal : ∀ b, Byte.isHorizontalSpace b = true → b ≠ Byte.newline := by
    rintro b hb rfl
    cases hb
  have hword : ∀ b, Word.Continues b → b ≠ Byte.newline := by
    rintro b (hb | hb | hb) rfl <;> cases hb
  have hquoted : ∀ b ∈ quote.toList, b ≠ Byte.newline := by
    intro b hb
    rcases hquote b (Option.mem_toList.mp hb) with rfl | rfl <;> decide
  have hclosed : ∀ b ∈ close, b ≠ Byte.newline := by
    rcases hclose with rfl | rfl
    · exact nofun
    · exact hquoted
  simp only [List.count_append, hfree indent fun b hb => hhorizontal b (hindent b hb),
    hfree _ hquoted, hfree close hclosed, hfree space fun b hb => hhorizontal b (hspace b hb),
    hfree opener.delimiter fun b hb => hword b (Word.continues_of_text hdelimiter.2 b hb),
    List.count_singleton_self]

end TemplateScript.Heredoc
