import TemplateScript.Proofs.Lexer.Session

/-!
# Progress

A step is a loop of rounds, each of which passes white space and one comment, until something else
or the end is there.  `Lexer.rounds` is that loop with a bound on the number of rounds.

* `Lexer.rounds_eq_step` — with more rounds than there are bytes ahead the loop ends, and ends with
  the answer of the step;
* `Lexer.offset_lt_further` — a call that does not come to the end of the input moves on by at least
  one byte, whether it answers with an edit or with an error;
* `Lexer.step_after_endOfInput` — a step that comes to the end leaves the lexer there, and all steps
  after it, whatever calls come in between, answer the same;
* `Lexer.offset_add_outcomes_le` — so calls have no more outcomes than there are bytes ahead, and
  `Lexer.progress`, which puts these together.
-/

namespace TemplateScript

/-- White space is skipped in one go. -/
theorem Ahead.of_append_space (options : Options) {space : Bytes}
    (h : ∀ b ∈ space, Byte.isSpace b = true) (rest : Bytes) :
    of options (space ++ rest) =
      ⟨space.length + (of options rest).skipped, (of options rest).found⟩ := by
  induction space with
  | nil => rw [List.nil_append, List.length_nil, Nat.zero_add]
  | cons b space ih =>
    obtain ⟨hb, hspace⟩ := List.forall_mem_cons.mp h
    rw [List.cons_append, of_space hb, ih hspace, List.length_cons, ← Nat.add_assoc,
      Nat.add_comm 1]

namespace Lexer

variable {l l' : Lexer} {resolve : Resolver} {call : Resolver × Call}

/-! ### Rounds -/

/-- The turn of a step that has come to `here` and finds this there. -/
def settle (l : Lexer) (here : Cursor) (resolve : Resolver) (found : Ahead.Found) :
    Turn (Except LexError Edit) :=
  let there := here.advanceBy found.length
  match found with
  | .endOfInput => ⟨.error ⟨.endOfInput, here.offset, here.line⟩, none, { l with cursor := there }⟩
  | .fault cause _ =>
    ⟨.error ⟨.fault cause, here.offset, here.line⟩, none, { l with cursor := there }⟩
  | .lexeme found =>
    let reading := found.read l.lookback here.offset here.line
    let edit := reading.settle resolve
    ⟨.ok edit, reading.query?, { l with cursor := there, lookback := l.lookback.push edit }⟩

/-- One round of a step passes white space.  If a comment comes next, the step goes on with another
round from behind it; otherwise it ends here. -/
def round (l : Lexer) (resolve : Resolver) : Lexer ⊕ Turn (Except LexError Edit) :=
  let here := l.cursor.skipWhile Byte.isSpace
  match here.rest with
  | [] => .inr (l.settle here resolve .endOfInput)
  | first :: tail =>
    match Construct.scan l.options first tail with
    | .comment length => .inl { l with cursor := here.advanceBy length }
    | .fault cause length => .inr (l.settle here resolve (.fault cause length))
    | .lexeme found => .inr (l.settle here resolve (.lexeme found))

/-- The rounds of a step, at most so many; nothing if these are not enough. -/
def rounds (resolve : Resolver) : Nat → Lexer → Option (Turn (Except LexError Edit))
  | 0, _ => none
  | bound + 1, l =>
    match l.round resolve with
    | .inl further => rounds resolve bound further
    | .inr turn => some turn

theorem step_eq_settle (l : Lexer) (resolve : Resolver) :
    l.step resolve = l.settle (l.cursor.advanceBy (Ahead.of l.options l.cursor.rest).skipped) resolve
      (Ahead.of l.options l.cursor.rest).found := by
  rw [step]
  generalize Ahead.of l.options l.cursor.rest = ahead
  obtain ⟨skipped, found⟩ := ahead
  cases found <;> rfl

/-- Only what the lexer remembers matters at the end of a step. -/
theorem settle_of_cursor (l : Lexer) (c here : Cursor) (resolve : Resolver) (found : Ahead.Found) :
    ({ l with cursor := c } : Lexer).settle here resolve found = l.settle here resolve found := by
  cases found <;> rfl

/-- What a step meets behind the white space of its first round. -/
theorem ahead_eq (l : Lexer) :
    Ahead.of l.options l.cursor.rest =
      ⟨Bytes.runLength Byte.isSpace l.cursor.rest +
          (Ahead.of l.options (l.cursor.skipWhile Byte.isSpace).rest).skipped,
        (Ahead.of l.options (l.cursor.skipWhile Byte.isSpace).rest).found⟩ := by
  have hspace : ∀ b ∈ l.cursor.rest.take (Bytes.runLength Byte.isSpace l.cursor.rest),
      Byte.isSpace b = true := fun b hb => Bytes.of_mem_take_runLength hb
  have hahead := Ahead.of_append_space l.options hspace (l.cursor.skipWhile Byte.isSpace).rest
  rw [List.length_take_of_le (Bytes.runLength_le _ _)] at hahead
  rw [← hahead]
  exact congrArg _ (List.take_append_drop _ _).symm

/-- A round that ends a step ends it with the answer of the step. -/
theorem step_of_round_inr {turn : Turn (Except LexError Edit)} (h : l.round resolve = .inr turn) :
    l.step resolve = turn := by
  rw [step_eq_settle, ahead_eq l]
  simp only [round] at h
  split at h
  · next hrest =>
    cases h
    rw [hrest, Ahead.of_nil]
    rfl
  · next first tail hrest =>
    have hspace : Byte.isSpace first = false :=
      Bytes.of_head?_drop_runLength (congrArg List.head? hrest)
    split at h
    · cases h
    · next cause length hscan =>
      cases h
      rw [hrest, Ahead.of_fault hspace hscan]
      rfl
    · next found hscan =>
      cases h
      rw [hrest, Ahead.of_lexeme hspace hscan]
      rfl

/-- A round that passes a comment leaves the answer to the next round, and less is ahead. -/
theorem step_of_round_inl (h : l.round resolve = .inl l') :
    l.step resolve = l'.step resolve ∧ l'.cursor.rest.length < l.cursor.rest.length := by
  simp only [round] at h
  split at h
  · cases h
  · next first tail hrest =>
    have hspace : Byte.isSpace first = false :=
      Bytes.of_head?_drop_runLength (congrArg List.head? hrest)
    split at h
    · next length hscan =>
      cases h
      have hlength := Construct.length_scan l.options first tail
      rw [hscan] at hlength
      let further : Lexer :=
        { l with cursor := (l.cursor.skipWhile Byte.isSpace).advanceBy length }
      have hbehind : further.cursor.rest = tail.drop (length - 1) := by
        show (l.cursor.skipWhile Byte.isSpace).rest.drop length = _
        rw [hrest]
        exact Bytes.drop_cons_add hlength.1 0
      have hcursor : ∀ n, further.cursor.advanceBy n =
          l.cursor.advanceBy (Bytes.runLength Byte.isSpace l.cursor.rest + (length + n)) := by
        intro n
        show (Cursor.advanceBy (l.cursor.advanceBy _) length).advanceBy n = _
        rw [Cursor.advanceBy_advanceBy, Cursor.advanceBy_advanceBy]
      refine ⟨?_, ?_⟩
      · rw [step_eq_settle l, step_eq_settle further, ahead_eq l, hrest,
          Ahead.of_comment hspace hscan, hcursor, hbehind]
        exact (settle_of_cursor l _ _ resolve _).symm
      · have hlt : (first :: tail).length ≤ l.cursor.rest.length := by
          rw [← hrest]
          exact (List.drop_sublist _ _).length_le
        show further.cursor.rest.length < _
        rw [hbehind, List.length_drop]
        rw [List.length_cons] at hlt
        omega
    · cases h
    · cases h

/-- A bound of more rounds than there are bytes ahead is enough. -/
theorem rounds_eq_step (resolve : Resolver) {bound : Nat} (h : l.cursor.remaining < bound) :
    rounds resolve bound l = some (l.step resolve) := by
  induction bound generalizing l with
  | zero => exact absurd h (Nat.not_lt_zero _)
  | succ bound ih =>
    rw [rounds]
    cases hround : l.round resolve with
    | inr turn => rw [step_of_round_inr hround]
    | inl further =>
      obtain ⟨hstep, hlt⟩ := step_of_round_inl hround
      rw [hstep]
      exact ih (Nat.lt_of_lt_of_le hlt (Nat.le_of_lt_succ h))

/-! ### Calls -/

/-- The lexer behind a call. -/
def further (l : Lexer) : Resolver × Call → Lexer
  | (resolve, .step) => (l.step resolve).lexer
  | (resolve, .next) => (l.next resolve).lexer

/-- The call has an outcome that is not the end of the input: an edit or the error of a fault. -/
def proceeds (l : Lexer) : Resolver × Call → Bool
  | (resolve, .step) =>
    match (l.step resolve).answer with
    | .ok _ => true
    | .error e => !e.isEndOfInput
  | (resolve, .next) => (l.next resolve).answer.isSome

/-- The lexer behind several calls, each with an operator table of its own. -/
def behind (l : Lexer) (calls : List (Resolver × Call)) : Lexer := calls.foldl further l

/-- How many of the calls have such an outcome. -/
def outcomes (l : Lexer) : List (Resolver × Call) → Nat
  | [] => 0
  | call :: calls => (l.proceeds call).toNat + (l.further call).outcomes calls

/-- A step moves over all that it skips and finds. -/
theorem offset_step (l : Lexer) (resolve : Resolver) :
    (l.step resolve).lexer.offset = l.offset + ((Ahead.of l.options l.cursor.rest).skipped +
      (Ahead.of l.options l.cursor.rest).found.length) := by
  have hlength := Ahead.length_of l.options l.cursor.rest
  rw [offset, cursor_step]
  refine Cursor.offset_advanceBy_of_le ?_
  by_cases hfound : (Ahead.of l.options l.cursor.rest).found = .endOfInput
  · rw [hfound, hlength.1 hfound]
    exact Nat.le_refl _
  · exact (hlength.2 hfound).2

/-- A step comes to the end of the input exactly if nothing is found. -/
theorem found_eq_endOfInput_iff (l : Lexer) (resolve : Resolver) :
    (Ahead.of l.options l.cursor.rest).found = .endOfInput ↔
      ∃ e, (l.step resolve).answer = .error e ∧ e.isEndOfInput = true := by
  rw [step_eq_settle]
  cases (Ahead.of l.options l.cursor.rest).found with
  | endOfInput => exact ⟨fun _ => ⟨_, rfl, rfl⟩, fun _ => rfl⟩
  | fault cause length =>
    refine ⟨nofun, ?_⟩
    rintro ⟨_, ⟨⟩, hend⟩
    cases hend
  | lexeme found =>
    refine ⟨nofun, ?_⟩
    rintro ⟨_, ⟨⟩, -⟩

/-- A step that does not come to the end of the input moves on. -/
theorem offset_lt_step (h : ∀ e, (l.step resolve).answer = .error e → e.isEndOfInput = false) :
    l.offset < (l.step resolve).lexer.offset := by
  have hfound : (Ahead.of l.options l.cursor.rest).found ≠ .endOfInput := by
    intro hend
    obtain ⟨e, hanswer, he⟩ := (found_eq_endOfInput_iff l resolve).mp hend
    rw [h e hanswer] at he
    cases he
  have hpos := ((Ahead.length_of l.options l.cursor.rest).2 hfound).1
  rw [offset_step]
  omega

/-- A call moves the cursor as a step does, or leaves it alone. -/
theorem cursor_further (l : Lexer) (call : Resolver × Call) :
    (l.further call).cursor = (l.step call.1).lexer.cursor ∨
      (l.further call).cursor = l.cursor ∧ l.proceeds call = false := by
  obtain ⟨resolve, _ | _⟩ := call
  · exact Or.inl rfl
  · show (l.next resolve).lexer.cursor = _ ∨ (l.next resolve).lexer.cursor = _ ∧ _
    cases hl : l.finished with
    | true =>
      rw [next_of_finished hl]
      refine Or.inr ⟨rfl, ?_⟩
      rw [proceeds, next_of_finished hl]
      rfl
    | false =>
      refine Or.inl ?_
      cases hstep : (l.step resolve).answer with
      | ok edit => rw [next_of_ok hl hstep]
      | error e => rw [next_of_error hl hstep]

theorem exists_cursor_further (l : Lexer) (call : Resolver × Call) :
    ∃ n, (l.further call).cursor = l.cursor.advanceBy n := by
  rcases cursor_further l call with hcursor | ⟨hcursor, -⟩
  · exact ⟨_, hcursor.trans (cursor_step l call.1)⟩
  · exact ⟨0, by rw [hcursor, Cursor.advanceBy_zero]⟩

theorem source_further (l : Lexer) (call : Resolver × Call) :
    (l.further call).cursor.source = l.cursor.source := by
  obtain ⟨n, hcursor⟩ := exists_cursor_further l call
  rw [hcursor, Cursor.source_advanceBy]

theorem offset_le_further (l : Lexer) (call : Resolver × Call) :
    l.offset ≤ (l.further call).offset := by
  obtain ⟨n, hcursor⟩ := exists_cursor_further l call
  rw [offset, offset, hcursor]
  exact Nat.le_add_right _ _

/-- A call that proceeds is a step that does not come to the end. -/
theorem not_endOfInput_of_proceeds (h : l.proceeds call = true) :
    ∀ e, (l.step call.1).answer = .error e → e.isEndOfInput = false := by
  intro e hstep
  obtain ⟨resolve, _ | _⟩ := call
  · rw [proceeds] at h
    simp only [] at hstep
    rw [hstep] at h
    simpa using h
  · rw [proceeds] at h
    cases hl : l.finished with
    | true =>
      rw [next_of_finished hl] at h
      cases h
    | false =>
      rw [next_of_error hl hstep] at h
      cases hend : e.isEndOfInput with
      | false => rfl
      | true =>
        rw [hend] at h
        cases h

/-- A call that does not come to the end of the input moves on. -/
theorem offset_lt_further (h : l.proceeds call = true) : l.offset < (l.further call).offset := by
  rcases cursor_further l call with hcursor | ⟨-, hproceeds⟩
  · rw [offset, offset, hcursor]
    exact offset_lt_step (not_endOfInput_of_proceeds h)
  · rw [h] at hproceeds
    cases hproceeds

/-- Each outcome besides the end of the input is paid for with a byte. -/
theorem offset_add_outcomes_le (l : Lexer) (calls : List (Resolver × Call)) :
    l.offset + l.outcomes calls ≤ (l.behind calls).offset := by
  induction calls generalizing l with
  | nil => exact Nat.le_refl _
  | cons call calls ih =>
    have hfurther := ih (l.further call)
    show l.offset + ((l.proceeds call).toNat + _) ≤ ((l.further call).behind calls).offset
    cases hproceeds : l.proceeds call with
    | true =>
      have hlt := offset_lt_further hproceeds
      rw [Bool.toNat_true]
      omega
    | false =>
      have hle := offset_le_further l call
      rw [Bool.toNat_false]
      omega

theorem source_behind (l : Lexer) (calls : List (Resolver × Call)) :
    (l.behind calls).cursor.source = l.cursor.source := by
  induction calls generalizing l with
  | nil => rfl
  | cons call calls ih => exact (ih (l.further call)).trans (source_further l call)

/-- There are no more outcomes than bytes ahead. -/
theorem outcomes_le (l : Lexer) (calls : List (Resolver × Call)) :
    l.outcomes calls ≤ l.cursor.remaining := by
  have hle := offset_add_outcomes_le l calls
  have hstop := (l.behind calls).cursor.offset_le
  have hrest := l.cursor.length_rest
  rw [source_behind] at hstop
  rw [Cursor.remaining, hrest]
  simp only [offset] at hle
  omega

/-! ### The end of the input -/

/-- With nothing ahead a step comes to the end of the input. -/
theorem answer_of_rest_nil (h : l.cursor.rest = []) (resolve : Resolver) :
    (l.step resolve).answer = .error ⟨.endOfInput, l.offset, l.line⟩ := by
  rw [step_eq_settle, h, Ahead.of_nil, Cursor.advanceBy_zero]
  rfl

/-- With nothing ahead calls leave the cursor where it is. -/
theorem cursor_behind_of_rest_nil (h : l.cursor.rest = []) (calls : List (Resolver × Call)) :
    (l.behind calls).cursor = l.cursor := by
  induction calls generalizing l with
  | nil => rfl
  | cons call calls ih =>
    obtain ⟨n, hcursor⟩ := exists_cursor_further l call
    have hstays : l.cursor.advanceBy n = l.cursor := by
      refine Cursor.ext_position rfl ?_ ?_
      · show l.cursor.offset + (l.cursor.rest.take n).length = _
        rw [h, List.take_nil]
        rfl
      · show l.cursor.line.after (l.cursor.rest.take n) = _
        rw [h, List.take_nil, Line.after_nil]
    rw [hstays] at hcursor
    have hfurther := ih (l := l.further call) (by rw [hcursor, h])
    exact hfurther.trans hcursor

/-- A step that comes to the end of the input leaves the lexer there, and all later steps give the
same answer. -/
theorem step_after_endOfInput {e : LexError} (h : (l.step resolve).answer = .error e)
    (hend : e.isEndOfInput = true) :
    (l.step resolve).lexer.offset = l.cursor.source.length ∧
      ∀ calls again, (((l.step resolve).lexer.behind calls).step again).answer = .error e := by
  have hfound := (found_eq_endOfInput_iff l resolve).mpr ⟨e, h, hend⟩
  have hskipped := (Ahead.length_of l.options l.cursor.rest).1 hfound
  have hrest : (l.step resolve).lexer.cursor.rest = [] := by
    rw [cursor_step, hfound, hskipped]
    exact List.drop_length
  have herror : e = ⟨.endOfInput, (l.step resolve).lexer.offset, (l.step resolve).lexer.line⟩ := by
    rw [step_eq_settle, hfound] at h ⊢
    have hthere := Cursor.advanceBy_zero (l.cursor.advanceBy (Ahead.of l.options l.cursor.rest).skipped)
    cases h
    simp only [settle, offset, line, Ahead.Found.length, hthere]
  constructor
  · have hle := l.cursor.offset_le
    rw [offset_step, hfound, hskipped, l.cursor.length_rest]
    show l.cursor.offset + (l.cursor.source.length - l.cursor.offset + 0) = _
    omega
  · intro calls again
    have hcursor := cursor_behind_of_rest_nil hrest calls
    rw [answer_of_rest_nil (hcursor ▸ hrest), herror, offset, line, hcursor]
    rfl

/-! ### Token lists -/

/-- An edit makes the list longer by one token at most. -/
theorem size_le_of_collectFrom {tokens tokens' : Array Token}
    (h : l.collectFrom resolve tokens = .ok tokens') :
    tokens'.size ≤ tokens.size + l.cursor.remaining := by
  have hstep : ∀ {l' : Lexer} {tokens' : Array Token} {edit : Edit},
      tokens'.size + l'.cursor.remaining ≤ tokens.size + l.cursor.remaining →
      (l'.step resolve).answer = .ok edit →
      (edit.apply tokens').size + (l'.step resolve).lexer.cursor.remaining ≤
        tokens.size + l.cursor.remaining := by
    intro l' tokens' edit hle answer
    have hlt : (l'.step resolve).lexer.cursor.remaining < l'.cursor.remaining :=
      length_rest_step answer
    rw [Edit.size_apply]
    omega
  obtain ⟨l', hle, -⟩ := collectFrom_induction
    (motive := fun l' tokens' => tokens'.size + l'.cursor.remaining ≤
      tokens.size + l.cursor.remaining) hstep h (Nat.le_refl _)
  exact Nat.le_trans (Nat.le_add_right _ _) hle

theorem size_le_of_collect {tokens : Array Token} (h : l.collect resolve = .ok tokens) :
    tokens.size ≤ l.cursor.remaining := by
  have hsize := size_le_of_collectFrom h
  rwa [Array.size_empty, Nat.zero_add] at hsize

/-! ### Ranges of a source -/

/-- From whatever state that calls lead to, a step comes to an end.  A call moves on within the range
unless its outcome is the end of the input.  That is answered at the end of the range, and from then
on by every step, whatever calls come in between.  So calls on a range have no more other outcomes
than it has bytes, and a token list no more tokens. -/
theorem progress (source : Bytes) (start stop : Nat) (line : Line) (options : Options)
    (before : List (Resolver × Call)) :
    let fresh : Lexer := { options, cursor := .ofRange source start stop line }
    let l := fresh.behind before
    let limit := min stop source.length
    (∀ resolve bound, limit - l.offset < bound → rounds resolve bound l = some (l.step resolve)) ∧
    (∀ call, l.proceeds call = true → l.offset < (l.further call).offset) ∧
    (∀ call, (l.further call).offset ≤ limit) ∧
    (∀ resolve e, (l.step resolve).answer = .error e → e.isEndOfInput = true →
      (l.step resolve).lexer.offset = limit ∧
      ∀ calls again, (((l.step resolve).lexer.behind calls).step again).answer = .error e) ∧
    fresh.outcomes before ≤ limit - start ∧
    (∀ resolve tokens, fresh.collect resolve = .ok tokens → tokens.size ≤ limit - start) ∧
    ∀ resolve tokens, tokenizeWith resolve source options = .ok tokens →
      tokens.size ≤ source.length := by
  intro fresh l limit
  have hlimit : fresh.cursor.source.length = limit := List.length_take
  have hsource : l.cursor.source.length = limit := by rw [source_behind, hlimit]
  have hremaining : fresh.cursor.remaining = limit - start := by
    have hstart : fresh.cursor.offset = min start limit := by rw [← hlimit]; rfl
    rw [Cursor.remaining, Cursor.length_rest, hlimit, hstart]
    omega
  refine ⟨fun resolve bound h => rounds_eq_step resolve ?_, fun call h => offset_lt_further h,
    fun call => ?_, fun resolve e h hend => hsource ▸ step_after_endOfInput h hend,
    hremaining ▸ outcomes_le fresh before,
    fun resolve tokens h => hremaining ▸ size_le_of_collect h,
    fun resolve tokens h => size_le_of_collect h⟩
  · rw [Cursor.remaining, Cursor.length_rest, hsource]
    exact h
  · rw [← hsource, ← source_further l call]
    exact (l.further call).cursor.offset_le

/-- An edit, an open comment and then the end of the input, again and again. -/
example :
    let l := Lexer.start (ascii "a /*") ({} : Options).strict
    let calls := [Call.step, .step, .step, .next, .next, .step].map (Resolver.standard, ·)
    l.outcomes calls = 2 ∧ (l.behind calls).offset = 4 := by
  decide +kernel

end Lexer

end TemplateScript
