import TemplateScript.Proofs.Lexer.Coverage
import TemplateScript.Proofs.Lines

/-!
# Places of tokens

The line of a token is the line of its first byte.  The text of a heredoc begins one line later, on
the line after its opener; every other text begins on the line of its token.

* `Extent.count_newline` — how many newlines come before the text of a token, among its bytes;
* `Token.Placed` — the text of a token lies in a range of the source, and its line counts the
  newlines before the token;
* `Lexer.Places.step` — the tokens behind a lexer are placed so, after an edit as well, a cast taking
  the line of its opening parenthesis;
* `Lexer.placed_of_collect` — and so are all tokens that a lexer collects.
-/

namespace TemplateScript

/-! ### Lines before a text -/

/-- The number of newlines between the first byte of a token of this kind and its text. -/
def Token.Kind.openingLines : Token.Kind → Nat
  | .heredoc | .nowdoc => 1
  | _ => 0

theorem Token.Kind.openingLines_of_not_isString {kind : Token.Kind} (h : kind.isString = false) :
    kind.openingLines = 0 := by
  cases kind <;> first | rfl | cases h

theorem Quoted.openingLines_kind (quote : UInt8) : (Quoted.kind quote).openingLines = 0 := by
  rw [Quoted.kind]
  split
  · rfl
  · split <;> rfl

theorem Heredoc.openingLines_kind (opener : Heredoc.Opener) : opener.kind.openingLines = 1 := by
  rw [Heredoc.Opener.kind]
  split <;> rfl

/-- Before the text of a token stand as many newlines as its kind says. -/
theorem Extent.count_newline {rule : DelimiterRule} {kind : Token.Kind} {text : Span}
    {extent rest : Bytes} (h : Extent rule kind text extent rest) :
    (extent.take text.start).count Byte.newline = kind.openingLines := by
  have hquote : ∀ quote : UInt8, Byte.isQuote quote = true → [quote].count Byte.newline = 0 := by
    intro quote hquote
    refine List.count_eq_zero.mpr fun hmem => ?_
    rw [← List.mem_singleton.mp hmem] at hquote
    cases hquote
  have hopening : ∀ opener line, Heredoc.OpenerLine rule opener line →
      (ascii "<<<" ++ line).count Byte.newline = 1 := by
    intro opener line hline
    rw [List.count_append, Heredoc.count_newline hline]
    rfl
  cases h with
  | @string quote body rest isQuote kind_eq text_eq =>
    rw [text_eq, kind_eq, Quoted.openingLines_kind]
    exact hquote quote isQuote
  | @openString quote body isQuote kind_eq text_eq =>
    rw [text_eq, kind_eq, Quoted.openingLines_kind]
    exact hquote quote isQuote
  | @heredoc opener line body space blank rest opens kind_eq text_eq _ _ =>
    rw [text_eq, kind_eq, Heredoc.openingLines_kind, List.take_append_length]
    exact hopening opener line opens
  | @openHeredoc opener line body space opens kind_eq text_eq _ =>
    rw [text_eq, kind_eq, Heredoc.openingLines_kind, List.take_append_length]
    exact hopening opener line opens
  | whole kind_eq text_eq =>
    rw [text_eq, Token.Kind.openingLines_of_not_isString kind_eq]
    rfl

/-- A token that is emitted has the line of its lexeme. -/
theorem Lexeme.Settles.line_eq {found : Lexeme} {lookback : Lookback} {offset : Nat} {line : Line}
    {resolve : Resolver} {token : Token}
    (h : found.Settles lookback offset line resolve (.emit token)) : token.line = line := by
  cases h <;> rfl

/-! ### Placed tokens -/

/-- The text of the token lies between `start` and `stop`, and its line is `first` and the newlines
of `source` before the token. -/
structure Token.Placed (source : Bytes) (first : Line) (start stop : Nat) (token : Token) :
    Prop where
  start_le : start ≤ token.text.start
  stop_le : token.text.stop ≤ stop
  line : ∃ count,
    (source.take token.text.start).count Byte.newline = count + token.kind.openingLines ∧
    token.line.number = min Line.maximum (first.number + count)

theorem Token.Placed.mono {source : Bytes} {first : Line} {start stop stop' : Nat} {token : Token}
    (h : token.Placed source first start stop) (hstop : stop ≤ stop') :
    token.Placed source first start stop' :=
  ⟨h.start_le, Nat.le_trans h.stop_le hstop, h.line⟩

/-- A token whose bytes are ahead of a cursor, behind `gap`, is placed between the cursor and the
end of those bytes. -/
theorem Extent.placed {rule : DelimiterRule} {c : Cursor} {first : Line} {gap extent rest : Bytes}
    {text : Span} {token : Token} (takes : Extent rule token.kind text extent rest)
    (counts : c.Counts 0 first) (ahead : c.rest = gap ++ (extent ++ rest))
    (text_eq : token.text = text.shift (c.offset + gap.length))
    (line_eq : token.line = c.line.after gap) :
    token.Placed c.source first c.offset (c.offset + (gap.length + extent.length)) := by
  have hstop : text.start + text.length ≤ extent.length := takes.stop_le
  have hstart : token.text.start = c.offset + (gap.length + text.start) := by
    rw [text_eq]
    exact Nat.add_assoc _ _ _
  have hwithin : gap.length + text.start ≤ c.rest.length := by
    rw [ahead, List.length_append, List.length_append]
    omega
  have hpassed : c.rest.take (gap.length + text.start) = gap ++ extent.take text.start := by
    rw [ahead, List.take_length_add_append, List.take_append_of_le_length (by omega)]
  have hbefore : c.source.take token.text.start =
      c.sliceFrom 0 ++ (gap ++ extent.take text.start) := by
    have hslice := Cursor.sliceFrom_advanceBy (Nat.zero_le c.offset) (gap.length + text.start)
    rw [hpassed, Cursor.sliceFrom, Cursor.offset_advanceBy_of_le hwithin, ← hstart] at hslice
    exact hslice
  refine ⟨?_, ?_, (c.sliceFrom 0 ++ gap).count Byte.newline, ?_, ?_⟩
  · rw [hstart]
    exact Nat.le_add_right _ _
  · rw [text_eq, Span.stop_shift, Span.stop]
    omega
  · rw [hbefore, ← List.append_assoc, List.count_append, takes.count_newline]
  · rw [line_eq, counts.line_eq, ← Line.after_append]
    exact Nat.min_comm _ _

namespace Lexer

variable {l l' : Lexer} {first : Line} {start : Nat} {tokens tokens' : Array Token}
  {resolve : Resolver} {edit : Edit}

/-- The tokens are placed behind the lexer, from `start` on, and it remembers the last of them. -/
structure Places (first : Line) (start : Nat) (l : Lexer) (tokens : Array Token) : Prop where
  start_le : start ≤ l.offset
  counts : l.cursor.Counts 0 first
  placed : ∀ token ∈ tokens.toList, token.Placed l.cursor.source first start l.offset
  recalls : l.lookback.Recalls tokens.toList

/-- An edit keeps the tokens placed. -/
theorem Places.step (h : Places first start l tokens) (answer : (l.step resolve).answer = .ok edit) :
    Places first start (l.step resolve).lexer (edit.apply tokens) := by
  obtain ⟨gap, extent, rest, found, hrest, -, -, -, hextent, hsettles, hlexer⟩ := exists_step answer
  have hlength : gap.length + extent.length ≤ l.cursor.rest.length := by
    rw [hrest, List.length_append, List.length_append]
    omega
  have hoffset : (l.step resolve).lexer.offset = l.offset + (gap.length + extent.length) := by
    rw [hlexer]
    exact Cursor.offset_advanceBy_of_le hlength
  have hsource : (l.step resolve).lexer.cursor.source = l.cursor.source := by rw [hlexer]; rfl
  -- the token of the edit is new, all others were there before
  suffices hnew : edit.token.Placed l.cursor.source first start
      (l.offset + (gap.length + extent.length)) by
    refine ⟨?_, ?_, fun token htoken => ?_, ?_⟩
    · rw [hoffset]
      exact Nat.le_trans h.start_le (Nat.le_add_right _ _)
    · rw [hlexer]
      exact h.counts.advanceBy _
    · rw [hsource, hoffset]
      rw [Edit.toList_apply] at htoken
      rcases List.mem_append.mp htoken with htoken | htoken
      · exact (h.placed token (List.mem_of_mem_take htoken)).mono (Nat.le_add_right _ _)
      · rw [List.mem_singleton.mp htoken]
        exact hnew
    · rw [hlexer]
      exact h.recalls.push edit
  rcases hsettles.emits_or_merges with
    ⟨token, rfl, hkind, htext⟩ | ⟨opening, cast, op, hform, hcast, rfl⟩
  · have hplaced := (hextent _ hkind).placed h.counts hrest htext hsettles.line_eq
    exact ⟨Nat.le_trans h.start_le hplaced.start_le, hplaced.stop_le, hplaced.line⟩
  · -- a cast begins with the parenthesis before it, and is on the line of that parenthesis
    obtain ⟨word, keyword, holder, -, hopening, -, -⟩ := Lookback.of_openCast? hcast
    obtain ⟨before, word', hbefore⟩ := h.recalls.older opening holder
    have hopen := h.placed opening (by rw [hbefore]; simp)
    have hclose := (hextent .closeParen (by rw [hform]; rfl)).text_eq_of_not_isString rfl
    have hle : opening.text.start + opening.text.length ≤ l.cursor.offset := hopen.stop_le
    have hstop : (found.text.shift (l.cursor.offset + gap.length)).stop =
        l.cursor.offset + (gap.length + extent.length) := by
      rw [hclose, Span.stop_shift, Span.stop_mk]
      omega
    refine ⟨hopen.start_le, ?_, ?_⟩
    · show (Span.between opening.text.start _).stop ≤ _
      rw [hstop, Span.stop_between (by omega)]
      exact Nat.le_refl _
    · obtain ⟨count, hcount, hline⟩ := hopen.line
      rw [hopening] at hcount
      exact ⟨count, hcount, hline⟩

/-- The tokens are placed at the end of a run as at its start. -/
theorem places_of_reaches (hrun : Reaches l tokens l' tokens') (h : Places first start l tokens) :
    Places first start l' tokens' ∧ l'.cursor.source = l.cursor.source := by
  induction hrun with
  | refl => exact ⟨h, rfl⟩
  | step answer _ ih =>
    obtain ⟨_, _, _, _, htakes⟩ := exists_takes answer
    obtain ⟨hplaces, hsource⟩ := ih (h.step answer)
    exact ⟨hplaces, hsource.trans htakes.source_eq⟩

/-- The tokens that a lexer collects from here on are placed ahead of it. -/
theorem placed_of_collect (counts : l.cursor.Counts 0 first) (lookback : l.lookback = {})
    (h : l.collect resolve = .ok tokens) :
    ∀ token ∈ tokens.toList, token.Placed l.cursor.source first l.offset l.cursor.source.length := by
  have hstart : Places first l.offset l #[] := by
    refine ⟨Nat.le_refl _, counts, fun _ ht => absurd ht List.not_mem_nil, ?_⟩
    rw [lookback]
    exact Lookback.recalls_nil
  rw [collect, ← collectTables_const] at h
  obtain ⟨l', _, hrun, -⟩ := exists_reaches h
  obtain ⟨hplaces, hsource⟩ := places_of_reaches hrun hstart
  intro token htoken
  have hplaced := hplaces.placed token htoken
  rw [hsource] at hplaced
  refine hplaced.mono ?_
  rw [← hsource]
  exact l'.cursor.offset_le

end Lexer

end TemplateScript
