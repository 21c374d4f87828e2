import TemplateScript.Proofs.Lexer.Calls
import TemplateScript.Template.Document

/-!
# Lexing a piece of a document

The lexer of a segment reads the bytes of its text in place, at the offsets and on the lines of the
document.  Apart from the offsets nothing tells it from a lexer that has been given those bytes
alone.

* `Lexeme.read_shift` — a lexeme is read alike wherever it stands, if the operator table does not
  ask where the token before it stands;
* `Lexer.Displaced` — two lexers with the same bytes ahead, on the same line, a fixed number of
  bytes apart, and `Lexer.Displaced.step` and `Lexer.Displaced.afterCalls`, which say that they stay
  so;
* `Lexer.displaced_ofSegment` — the lexer of a segment and the lexer of its bytes;
* `Lexer.answer_ofSegment` — so both answer alike, after any number of calls.
-/

namespace TemplateScript

/-! ### Values moved to a later offset -/

/-- The same token, `n` bytes further on. -/
def Token.shift (n : Nat) (token : Token) : Token :=
  { token with text := token.text.shift n }

/-- The same edit with its token `n` bytes further on. -/
def Edit.shift (n : Nat) : Edit → Edit
  | emit token => emit (token.shift n)
  | replaceLast count token => replaceLast count (token.shift n)

/-- The same error, `n` bytes further on. -/
def LexError.shift (n : Nat) (error : LexError) : LexError :=
  { error with offset := n + error.offset }

/-- The same tokens, `n` bytes further on. -/
def Lookback.shift (n : Nat) (lookback : Lookback) : Lookback :=
  ⟨lookback.older.map (Token.shift n), lookback.latest.map (Token.shift n)⟩

/-- The same answer of a step, `n` bytes further on. -/
def Lexer.shiftAnswer (n : Nat) : Except LexError Edit → Except LexError Edit
  | .ok edit => .ok (edit.shift n)
  | .error error => .error (error.shift n)

/-- The same question, asked `n` bytes further on. -/
def Query.shift (n : Nat) (query : Query) : Query :=
  { query with previous := query.previous.map (Token.shift n) }

/-- The operator table answers alike wherever the token before the candidate stands. -/
def Resolver.IgnoresPlaces (resolve : Resolver) : Prop :=
  ∀ n query, resolve (query.shift n) = resolve query

/-- The standard table looks at nothing but the kind of that token. -/
theorem Resolver.ignoresPlaces_standard : Resolver.standard.IgnoresPlaces := by
  intro n query
  have hoperand : (query.shift n).afterOperand = query.afterOperand := by
    show (query.previous.map (Token.shift n)).any _ = query.previous.any _
    cases query.previous <;> rfl
  rw [standard, standard, hoperand]
  rfl

theorem Span.shift_shift (m n : Nat) (s : Span) : (s.shift n).shift m = s.shift (m + n) := by
  rw [shift, shift, shift, Nat.add_assoc]

/-! ### Reading a lexeme at a later offset -/

theorem Lookback.push_shift (n : Nat) (lookback : Lookback) (edit : Edit) :
    (lookback.shift n).push (edit.shift n) = (lookback.push edit).shift n := by
  cases edit <;> rfl

theorem Lookback.openCast?_shift (n : Nat) (lookback : Lookback) :
    (lookback.shift n).openCast? =
      lookback.openCast?.map fun found => (found.1.shift n, found.2) := by
  obtain ⟨older, latest⟩ := lookback
  cases older with
  | none => rfl
  | some opening =>
    cases latest with
    | none => rfl
    | some word =>
      simp only [openCast?, shift, Option.map_some, Token.shift]
      cases word.kind with
      | keyword keyword =>
        dsimp only
        by_cases hopening : opening.kind = .openParen
        · rw [if_pos hopening, if_pos hopening, Option.map_map]
          rfl
        · rw [if_neg hopening, if_neg hopening]
          rfl
      | _ => rfl

theorem Lexeme.read_shift {resolve : Resolver} (ignores : resolve.IgnoresPlaces) (n : Nat)
    (found : Lexeme) (lookback : Lookback) (offset : Nat) (line : Line) :
    (found.read (lookback.shift n) (n + offset) line).settle resolve =
      ((found.read lookback offset line).settle resolve).shift n := by
  have hask : ∀ spelling, resolve ⟨spelling, (lookback.shift n).latest⟩ =
      resolve ⟨spelling, lookback.latest⟩ := fun spelling => ignores n ⟨spelling, lookback.latest⟩
  have htext : found.text.shift (n + offset) = (found.text.shift offset).shift n :=
    (Span.shift_shift n offset found.text).symm
  rw [Lexeme.read, Lexeme.read]
  simp only [htext, Lookback.openCast?_shift]
  cases found.form with
  | fixed kind => rfl
  | annotated kind spelling =>
    simp only [Reading.settle, hask]
    cases resolve ⟨spelling, lookback.latest⟩ <;> rfl
  | word spelling =>
    simp only []
    cases ReservedWord.ofBytes? spelling with
    | none => rfl
    | some reserved =>
      cases reserved with
      | keyword word => rfl
      | operator listed =>
        simp only [Reading.settle, hask]
        cases resolve ⟨spelling, lookback.latest⟩ <;> rfl
  | symbol spelling =>
    simp only [Reading.settle, hask]
    cases resolve ⟨spelling, lookback.latest⟩ <;> rfl
  | closeParen =>
    cases lookback.openCast? with
    | none => rfl
    | some pair =>
      obtain ⟨opening, cast⟩ := pair
      simp only [Option.map_some, Reading.settle]
      cases resolve ⟨cast.lexeme, none⟩ with
      | none => rfl
      | some op =>
        -- both ends of a cast move, so it keeps its length
        show Edit.replaceLast 2 (.ofOperator _ (.between (n + opening.text.start)
          ((found.text.shift offset).shift n).stop) _ _) = Edit.replaceLast 2 (Token.shift n
            (.ofOperator _ (.between opening.text.start (found.text.shift offset).stop) _ _))
        rw [Span.stop_shift]
        simp only [Token.shift, Token.ofOperator, Span.between, Span.shift, Nat.add_sub_add_left]

/-! ### What lies ahead -/

/-- What can stand at a byte does not depend on the number of the first line. -/
theorem Ahead.of_startLine (options : Options) (line : Line) (bs : Bytes) :
    of { options with startLine := line } bs = of options bs := by
  have hscan : ∀ first tail, Construct.scan { options with startLine := line } first tail =
      Construct.scan options first tail := fun _ _ => rfl
  rw [of, of]
  generalize 0 = skipped
  fun_induction after options skipped bs with
  | case1 skipped => rw [after]
  | case2 skipped first tail hspace ih => rw [after, if_pos hspace, ih]
  | case3 skipped first tail hspace length hcomment ih =>
    rw [after, if_neg hspace, hscan, hcomment]
    exact ih
  | case4 skipped first tail hspace cause length hfault =>
    rw [after, if_neg hspace, hscan, hfault]
  | case5 skipped first tail hspace found hfound =>
    rw [after, if_neg hspace, hscan, hfound]

/-! ### Two lexers in step -/

namespace Lexer

variable {n : Nat} {l m : Lexer}

/-- `m` has the same bytes ahead as `l`, on the same line, and stands `n` bytes further on. -/
structure Displaced (n : Nat) (l m : Lexer) : Prop where
  options : ∃ line, m.options = { l.options with startLine := line }
  rest : m.cursor.rest = l.cursor.rest
  offset : m.offset = n + l.offset
  line : m.line = l.line
  lookback : m.lookback = l.lookback.shift n

namespace Displaced

/-- Both lexers have the same things ahead. -/
theorem ahead (h : Displaced n l m) :
    Ahead.of m.options m.cursor.rest = Ahead.of l.options l.cursor.rest := by
  obtain ⟨line, hoptions⟩ := h.options
  rw [hoptions, Ahead.of_startLine, h.rest]

/-- Where both cursors move over as many bytes, they are as far apart as before. -/
theorem advanceBy (h : Displaced n l m) (length : Nat) :
    (m.cursor.advanceBy length).rest = (l.cursor.advanceBy length).rest ∧
      (m.cursor.advanceBy length).offset = n + (l.cursor.advanceBy length).offset ∧
      (m.cursor.advanceBy length).line = (l.cursor.advanceBy length).line := by
  have hoffset : m.cursor.offset = n + l.cursor.offset := h.offset
  have hline : m.cursor.line = l.cursor.line := h.line
  simp only [Cursor.advanceBy, h.rest, hoffset, hline, Nat.add_assoc, and_self]

/-- Both lexers give the same answer. -/
theorem answer (h : Displaced n l m) {resolve : Resolver} (ignores : resolve.IgnoresPlaces) :
    (m.step resolve).answer = shiftAnswer n (l.step resolve).answer := by
  rw [step, step, h.ahead]
  obtain ⟨-, hoffset, hline⟩ := h.advanceBy (Ahead.of l.options l.cursor.rest).skipped
  generalize Ahead.of l.options l.cursor.rest = ahead at hoffset hline ⊢
  obtain ⟨skipped, found⟩ := ahead
  cases found with
  | endOfInput =>
    show Except.error (LexError.mk _ _ _) = Except.error (LexError.mk _ _ _)
    rw [hoffset, hline]
  | fault cause length =>
    show Except.error (LexError.mk _ _ _) = Except.error (LexError.mk _ _ _)
    rw [hoffset, hline]
  | lexeme found =>
    show Except.ok ((found.read _ _ _).settle resolve) = Except.ok (Edit.shift n _)
    rw [hoffset, hline, h.lookback, Lexeme.read_shift ignores]

/-- After a step they are as far apart as before. -/
theorem step (h : Displaced n l m) {resolve : Resolver} (ignores : resolve.IgnoresPlaces) :
    Displaced n (l.step resolve).lexer (m.step resolve).lexer := by
  obtain ⟨hrest, hoffset, hline⟩ := h.advanceBy ((Ahead.of l.options l.cursor.rest).skipped +
    (Ahead.of l.options l.cursor.rest).found.length)
  have hanswer := h.answer ignores
  have hcursor := cursor_step m resolve
  rw [h.ahead] at hcursor
  refine ⟨?_, ?_, ?_, ?_, ?_⟩
  · rw [options_step, options_step]
    exact h.options
  · rw [hcursor, cursor_step l, hrest]
  · rw [Lexer.offset, Lexer.offset, hcursor, cursor_step l, hoffset]
  · rw [Lexer.line, Lexer.line, hcursor, cursor_step l, hline]
  · cases hstep : (l.step resolve).answer with
    | ok edit =>
      rw [hstep] at hanswer
      rw [lookback_step_of_ok hstep, lookback_step_of_ok hanswer, h.lookback]
      exact Lookback.push_shift n l.lookback edit
    | error e =>
      rw [hstep] at hanswer
      rw [lookback_step_of_error hstep, lookback_step_of_error hanswer, h.lookback]

/-- And so they are after any number of steps. -/
theorem afterCalls (h : Displaced n l m) {resolve : Resolver} (ignores : resolve.IgnoresPlaces)
    (calls : Nat) : Displaced n (l.afterCalls resolve calls) (m.afterCalls resolve calls) := by
  induction calls with
  | zero => exact h
  | succ calls ih =>
    rw [afterCalls_succ, afterCalls_succ]
    exact ih.step ignores

end Displaced

/-! ### Segments -/

/-- A range of a text is what the span over it holds. -/
theorem rest_ofRange (source : Bytes) (start stop : Nat) (line : Line) :
    (Cursor.ofRange source start stop line).rest =
      (Span.between (min start (min stop source.length)) (min stop source.length)).slice source := by
  have hlength : (source.take stop).length = min stop source.length := List.length_take
  show (source.take stop).drop (min start (source.take stop).length) = _
  rw [hlength, Span.slice_of_le, List.drop_take]
  · refine List.take_eq_take_iff.mpr ?_
    show min _ (source.drop _).length = min (min stop source.length - _) (source.drop _).length
    rw [List.length_drop]
    omega
  · rw [Span.stop_between (Nat.min_le_right _ _)]
    exact Nat.min_le_right stop source.length

/-- The lexer of a segment is the lexer of its bytes, moved to where they stand. -/
theorem displaced_ofSegment (document : Bytes) (segment : Segment) (options : Options) :
    let stop := min segment.text.stop document.length
    let start := min segment.text.start stop
    Displaced start
      (.start ((Span.between start stop).slice document)
        { options with startLine := segment.startLine })
      (.ofSegment document segment options) := by
  intro stop start
  refine ⟨⟨options.startLine, rfl⟩, rest_ofRange _ _ _ _, ?_, rfl, rfl⟩
  show min segment.text.start (document.take segment.text.stop).length = start + 0
  rw [List.length_take, Nat.add_zero]

/-- Any segment of any document is lexed like its bytes alone: after any number of calls both
lexers stand at the same byte and line and answer alike, but for the offset of the segment. -/
theorem answer_ofSegment (document : Bytes) (segment : Segment) (options : Options)
    (calls : Nat) :
    let stop := min segment.text.stop document.length
    let start := min segment.text.start stop
    let within := (Lexer.ofSegment document segment options).afterCalls .standard calls
    let alone := (Lexer.start ((Span.between start stop).slice document)
      { options with startLine := segment.startLine }).afterCalls .standard calls
    (document.length ≤ Span.addressLimit → stop = min segment.text.endOffset document.length) ∧
      within.offset = start + alone.offset ∧ within.line = alone.line ∧
      (within.step .standard).answer = shiftAnswer start (alone.step .standard).answer := by
  intro stop start within alone
  have h : Displaced start alone within :=
    (displaced_ofSegment document segment options).afterCalls Resolver.ignoresPlaces_standard calls
  refine ⟨?_, h.offset, h.line, h.answer Resolver.ignoresPlaces_standard⟩
  intro hlimit
  show min segment.text.stop document.length =
    min (min segment.text.stop Span.addressLimit) document.length
  omega

end Lexer

end TemplateScript
