import Mathlib.Logic.Function.Iterate
import TemplateScript.Proofs.Bytes
import TemplateScript.Proofs.Lines
import TemplateScript.Source.Span

/-!
# However a cursor got there

A cursor can be moved byte by byte, by a number of bytes at once, past the bytes of a class or to the end
of a line, and it can be put back to a place where it has been.  Each of these comes to a number of single
moves from the start, so that the line of a cursor depends on its offset alone.

* `Cursor.offset_advanceBy_saturating` and `Cursor.number_advanceBy_saturating` — a move by a number of
  bytes, in numbers that stop growing;
* `Cursor.number_advance` and `Cursor.advanceBy_eq_iterate` — a single move counts its byte, and a move
  by a number of bytes is that many single moves;
* `Cursor.passWhile` and `Cursor.passWhile_eq_skipWhile` — the bytes of a class, taken one by one;
* `Cursor.Move`, `Cursor.Trip` and `Cursor.Trip.run` — sequences of moves, with places to go back to;
* `Cursor.Follows` and `Cursor.Trip.follows_run` — the newlines behind a cursor are counted, after every
  sequence of moves;
* `Cursor.determined_by_offset` — the cursors that a range has.
-/

namespace TemplateScript.Cursor

variable {c d : Cursor} {source : Bytes} {start : Nat} {line : Line}

/-! ### Moves in numbers that stop growing -/

/-- In a text whose length is an address, an offset that stops growing at the last address is the same
offset. -/
theorem offset_advanceBy_saturating (fits : c.source.length ≤ Span.addressLimit) (n : Nat) :
    (c.advanceBy n).offset = min (min (c.offset + n) Span.addressLimit) c.source.length := by
  rw [offset_advanceBy]
  omega

/-- Newlines need not be counted further than lines are. -/
theorem number_advanceBy_saturating (c : Cursor) (n : Nat) :
    (c.advanceBy n).line.number = min 0xFFFFFFFF
      (c.line.number + min ((c.rest.take n).count Byte.newline) 0xFFFFFFFF) := by
  show min (c.line.number + (c.rest.take n).count Byte.newline) 0xFFFFFFFF = _
  omega

/-- A move to the end of the line stays on the line. -/
theorem line_skipToLineEnd (c : Cursor) : c.skipToLineEnd.line = c.line := by
  have hcount : (c.rest.take (Bytes.lineLength c.rest)).count Byte.newline = 0 := by
    refine List.count_eq_zero.mpr fun hmem => ?_
    have hother := Bytes.of_mem_take_runLength hmem
    exact absurd rfl (bne_iff_ne.mp hother)
  show c.line.advance ((c.rest.take (Bytes.lineLength c.rest)).count Byte.newline) = c.line
  rw [hcount, Line.advance_zero]

/-! ### Byte by byte -/

/-- A single move counts the byte that it takes. -/
theorem number_advance (c : Cursor) : c.advance.2.line.number =
    min 0xFFFFFFFF (c.line.number + if c.peek = some Byte.newline then 1 else 0) := by
  have hcount : (c.rest.take 1).count Byte.newline =
      if c.rest.head? = some Byte.newline then 1 else 0 := by
    cases c.rest with
    | nil => rfl
    | cons b tail =>
      show [b].count Byte.newline = if some b = some Byte.newline then 1 else 0
      rw [List.count_singleton]
      simp only [beq_iff_eq, Option.some.injEq]
  show min (c.line.number + (c.rest.take 1).count Byte.newline) 0xFFFFFFFF = _
  rw [hcount]
  exact Nat.min_comm _ _

/-- A move by a number of bytes is that many single moves. -/
theorem advanceBy_eq_iterate (c : Cursor) (n : Nat) :
    c.advanceBy n = (fun d => d.advance.2)^[n] c := by
  induction n with
  | zero => exact advanceBy_zero c
  | succ n ih =>
    rw [Function.iterate_succ_apply', ← ih]
    exact (advanceBy_advanceBy c n 1).symm

theorem rest_of_peek {b : UInt8} (h : c.peek = some b) : ∃ tail, c.rest = b :: tail :=
  List.head?_eq_some_iff.mp h

/-- The cursor behind the bytes that a test accepts, taken one by one.  The test is told which bytes it
has accepted so far, so it may go by them too. -/
def passWhile (test : Bytes → UInt8 → Bool) (accepted : Bytes) (c : Cursor) : Cursor :=
  match _ : c.peek with
  | none => c
  | some b =>
    if test accepted b then c.advance.2.passWhile test (accepted ++ [b]) else c
termination_by c.rest.length
decreasing_by
  obtain ⟨tail, hrest⟩ := rest_of_peek ‹c.peek = some b›
  show (c.rest.drop 1).length < c.rest.length
  rw [hrest]
  exact Nat.lt_succ_self _

/-- Taking the bytes of a class one by one is passing them. -/
theorem passWhile_eq_skipWhile (p : UInt8 → Bool) (accepted : Bytes) (c : Cursor) :
    c.passWhile (fun _ => p) accepted = c.skipWhile p := by
  fun_induction passWhile (fun _ => p) accepted c with
  | case1 accepted c h =>
    have hrest : c.rest = [] := List.head?_eq_none_iff.mp h
    rw [skipWhile, hrest]
    exact (advanceBy_zero c).symm
  | case2 accepted c b h accepts ih =>
    obtain ⟨tail, hrest⟩ := rest_of_peek h
    have htail : c.advance.2.rest = tail := by
      show c.rest.drop 1 = tail
      rw [hrest]
      rfl
    -- the byte is one move, and the bytes behind it are a run of their own
    rw [ih, skipWhile, skipWhile, htail, hrest, Bytes.runLength_cons_of_pos accepts, Nat.add_comm]
    exact advanceBy_advanceBy c 1 _
  | case3 accepted c b h accepts =>
    obtain ⟨tail, hrest⟩ := rest_of_peek h
    rw [skipWhile, hrest, Bytes.runLength_cons_of_neg (Bool.eq_false_iff.mpr accepts), advanceBy_zero]

theorem exists_passWhile (test : Bytes → UInt8 → Bool) (accepted : Bytes) (c : Cursor) :
    ∃ n, c.passWhile test accepted = c.advanceBy n := by
  fun_induction passWhile test accepted c with
  | case1 accepted c h => exact ⟨0, (advanceBy_zero c).symm⟩
  | case2 accepted c b h accepts ih =>
    obtain ⟨n, hn⟩ := ih
    exact ⟨1 + n, hn.trans (advanceBy_advanceBy c 1 n)⟩
  | case3 accepted c b h accepts => exact ⟨0, (advanceBy_zero c).symm⟩

/-! ### Sequences of moves -/

/-- The moves of a cursor. -/
inductive Move
  | advance
  | advanceBy (n : Nat)
  | eat (b : UInt8)
  | skipWhile (p : UInt8 → Bool)
  /-- Takes bytes one by one while a test accepts them that knows the bytes it has accepted. -/
  | passWhile (test : Bytes → UInt8 → Bool)
  | skipHorizontalSpace
  | skipToLineEnd

/-- The cursor after a move. -/
def Move.apply (c : Cursor) : Move → Cursor
  | advance => c.advance.2
  | advanceBy n => c.advanceBy n
  | eat b => (c.eat b).2
  | skipWhile p => c.skipWhile p
  | passWhile test => c.passWhile test []
  | skipHorizontalSpace => c.skipHorizontalSpace
  | skipToLineEnd => c.skipToLineEnd

/-- Every move is a number of single moves. -/
theorem Move.exists_advanceBy (move : Move) (c : Cursor) : ∃ n, move.apply c = c.advanceBy n := by
  cases move with
  | advance => exact ⟨1, rfl⟩
  | advanceBy n => exact ⟨n, rfl⟩
  | eat b =>
    rw [apply, Cursor.eat]
    split
    · exact ⟨1, rfl⟩
    · exact ⟨0, (advanceBy_zero c).symm⟩
  | skipWhile p => exact ⟨_, rfl⟩
  | passWhile test => exact exists_passWhile test [] c
  | skipHorizontalSpace => exact ⟨_, rfl⟩
  | skipToLineEnd => exact ⟨_, rfl⟩

/-- A cursor under way, and the places it was saved at, the latest first. -/
structure Trip where
  cursor : Cursor
  saved : List Cursor := []

namespace Trip

/-- What is done on the way. -/
inductive Act
  | move (move : Move)
  | save
  /-- Goes back to a saved place; without such a place the cursor stays where it is. -/
  | restore (index : Nat)

/-- The trip after an act. -/
def act (t : Trip) : Act → Trip
  | .move move => { t with cursor := move.apply t.cursor }
  | .save => { t with saved := t.cursor :: t.saved }
  | .restore index => { t with cursor := t.saved[index]?.getD t.cursor }

/-- The trip after a sequence of acts. -/
def run (t : Trip) (acts : List Act) : Trip :=
  acts.foldl act t

end Trip

/-! ### What every cursor of a range keeps -/

/-- A cursor in `source` that has counted the newlines from `start` on, the line there being `line`. -/
structure Follows (source : Bytes) (start : Nat) (line : Line) (c : Cursor) : Prop where
  source_eq : c.source = source
  counts : c.Counts start line

theorem follows_self (c : Cursor) : c.Follows c.source c.offset c.line :=
  ⟨rfl, c.counts_self⟩

theorem Follows.apply (h : c.Follows source start line) (move : Move) :
    (move.apply c).Follows source start line := by
  obtain ⟨n, hn⟩ := move.exists_advanceBy c
  rw [hn]
  exact ⟨h.source_eq, h.counts.advanceBy n⟩

/-- Two cursors that have counted from the same place on are equal at the same offset. -/
theorem Follows.eq_of_offset_eq (hc : c.Follows source start line)
    (hd : d.Follows source start line) (offset : c.offset = d.offset) : c = d := by
  have hsource : c.source = d.source := hc.source_eq.trans hd.source_eq.symm
  refine ext_position hsource offset ?_
  rw [hc.counts.line_eq, hd.counts.line_eq, sliceFrom, sliceFrom, hsource, offset]

namespace Trip

/-- The cursor and all saved places have counted from the same place on. -/
def Follows (source : Bytes) (start : Nat) (line : Line) (t : Trip) : Prop :=
  t.cursor.Follows source start line ∧ ∀ c ∈ t.saved, c.Follows source start line

theorem Follows.act {t : Trip} (h : t.Follows source start line) (act : Act) :
    (t.act act).Follows source start line := by
  obtain ⟨hcursor, hsaved⟩ := h
  cases act with
  | move move => exact ⟨hcursor.apply move, hsaved⟩
  | save =>
    refine ⟨hcursor, fun c hc => ?_⟩
    rcases List.mem_cons.mp hc with rfl | hmem
    · exact hcursor
    · exact hsaved c hmem
  | restore index =>
    refine ⟨?_, hsaved⟩
    show (t.saved[index]?.getD t.cursor).Follows source start line
    cases hplace : t.saved[index]? with
    | none => exact hcursor
    | some place => exact hsaved place (List.mem_of_getElem? hplace)

/-- After every sequence of moves the cursor has counted what it has passed. -/
theorem follows_run {t : Trip} (h : t.Follows source start line) (acts : List Act) :
    (t.run acts).Follows source start line := by
  induction acts generalizing t with
  | nil => exact h
  | cons act acts ih => exact ih (h.act act)

theorem follows_start (c : Cursor) : Trip.Follows c.source c.offset c.line ⟨c, []⟩ :=
  ⟨follows_self c, fun _ h => nomatch h⟩

end Trip

/-! ### The cursors of a range -/

/-- A text is a range of itself. -/
theorem start_eq_ofRange (source : Bytes) (line : Line) :
    Cursor.start source line = Cursor.ofRange source 0 source.length line :=
  ext_position (List.take_length (l := source)).symm (Nat.zero_min _).symm rfl

/-- However a cursor got to an offset of its range, it is the same cursor: its line is the line at the
start of the range and the newlines from there on, up to the last line.  (A start behind the end of the
range or of the text is moved back to it.)  A move by a number of bytes is that many single moves, of
which each counts its byte, and the end of a line is where the bytes that are not newlines end.  The same
cursor is reached in numbers that stop growing: offsets at the last address, newlines at the last
line. -/
theorem determined_by_offset (source : Bytes) (start stop : Nat) (line : Line) :
    let origin := Cursor.ofRange source start stop line
    let first := min start (min stop source.length)
    let reach := fun acts => (Trip.run ⟨origin, []⟩ acts).cursor
    Cursor.start source line = Cursor.ofRange source 0 source.length line ∧
      (∀ acts, (reach acts).source = source.take stop ∧
        first ≤ (reach acts).offset ∧ (reach acts).offset ≤ (reach acts).source.length ∧
        (reach acts).line.number =
          min 0xFFFFFFFF (line.number + ((reach acts).sliceFrom first).count Byte.newline)) ∧
      (∀ acts acts', (reach acts).offset = (reach acts').offset → reach acts = reach acts') ∧
      ∀ c : Cursor, (∀ n, c.advanceBy n = (fun d => d.advance.2)^[n] c ∧
          (c.source.length ≤ Span.addressLimit → (c.advanceBy n).offset =
            min (min (c.offset + n) Span.addressLimit) c.source.length) ∧
          (c.advanceBy n).line.number = min 0xFFFFFFFF
            (c.line.number + min ((c.rest.take n).count Byte.newline) 0xFFFFFFFF)) ∧
        c.advance.2.line.number =
          min 0xFFFFFFFF (c.line.number + if c.peek = some Byte.newline then 1 else 0) ∧
        (∀ p, c.skipWhile p = c.passWhile (fun _ => p) []) ∧
        c.skipToLineEnd = c.skipWhile (· != Byte.newline) ∧ c.skipToLineEnd.line = c.line := by
  intro origin first reach
  have hfirst : origin.offset = first := by
    show min start (source.take stop).length = first
    rw [List.length_take]
  have hfollows : ∀ acts, (reach acts).Follows (source.take stop) first line := by
    intro acts
    rw [← hfirst]
    exact (Trip.follows_run (Trip.follows_start origin) acts).1
  refine ⟨start_eq_ofRange source line, fun acts => ?_, fun acts acts' offset => ?_,
    fun c => ⟨fun n => ⟨?_, ?_, ?_⟩, ?_, ?_, ?_, ?_⟩⟩
  · have h := hfollows acts
    exact ⟨h.source_eq, h.counts.start_le, (reach acts).offset_le,
      h.counts.number_eq.trans (Nat.min_comm _ _)⟩
  · exact (hfollows acts).eq_of_offset_eq (hfollows acts') offset
  · exact advanceBy_eq_iterate c n
  · exact fun fits => offset_advanceBy_saturating fits n
  · exact number_advanceBy_saturating c n
  · exact number_advance c
  · exact fun p => (passWhile_eq_skipWhile p [] c).symm
  · exact skipToLineEnd_eq_skipWhile c
  · exact line_skipToLineEnd c

/-- Two ways to the end of a range with two newlines.  Only the first of them is counted: it leads to the
last line there is.  The direct way is one move by the last address. -/
theorem determined_by_offset_lastLine :
    let origin := Cursor.ofRange (ascii "xa\nb\nc") 1 5 (.ofNat 0xFFFFFFFE)
    let reach := fun acts => (Trip.run ⟨origin, []⟩ acts).cursor
    let direct : List Trip.Act := [.move (.advanceBy 0xFFFFFFFFFFFFFFFF)]
    let winding : List Trip.Act := [.save, .move .skipToLineEnd, .move .advance, .restore 0,
      .move (.eat 0x61), .move (.skipWhile Byte.isSpace), .move .advance, .move .advance,
      .move .skipHorizontalSpace]
    (reach direct).offset = (reach winding).offset ∧ reach direct = reach winding ∧
      (reach direct).line.number = 0xFFFFFFFF ∧ origin.source.length ≤ Span.addressLimit ∧
      (reach direct).offset =
        min (min (origin.offset + 0xFFFFFFFFFFFFFFFF) Span.addressLimit) origin.source.length := by
  intro origin reach direct winding
  obtain ⟨-, hreach, hequal, hmoves⟩ :=
    determined_by_offset (ascii "xa\nb\nc") 1 5 (.ofNat 0xFFFFFFFE)
  have hoffset : (reach direct).offset = (reach winding).offset := by decide +kernel
  have hfits : origin.source.length ≤ Span.addressLimit := by decide +kernel
  obtain ⟨-, -, -, hline⟩ := hreach direct
  obtain ⟨-, hsaturates, -⟩ := (hmoves origin).1 0xFFFFFFFFFFFFFFFF
  exact ⟨hoffset, hequal direct winding hoffset, hline.trans (by decide +kernel), hfits,
    hsaturates hfits⟩

end TemplateScript.Cursor
