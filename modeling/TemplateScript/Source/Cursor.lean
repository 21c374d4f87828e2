import TemplateScript.Source.Line

/-!
# Cursors

A cursor is a position in a source text together with the line it is on.  It only moves forward,
never past the end of its text, and every move is an instance of `Cursor.advanceBy`, which counts
the newlines it passes.

* `Cursor.start` and `Cursor.ofRange` make a cursor, over a whole text or over a range of it; a
  range keeps the offsets of the whole text.
* `Cursor.advanceBy_advanceBy` says that two moves are one.
-/

namespace TemplateScript

/-- A position in a source text and the line it is on.  The bytes still ahead are kept beside the
offset, with the proof that they are what the offset says. -/
structure Cursor where
  source : Bytes
  offset : Nat
  line : Line
  rest : Bytes
  rest_eq : rest = source.drop offset
  offset_le : offset ≤ source.length
deriving DecidableEq

namespace Cursor

/-! ### Making a cursor -/

/-- The cursor at the start of `source`. -/
def start (source : Bytes) (line : Line) : Cursor where
  source := source
  offset := 0
  line := line
  rest := source
  rest_eq := rfl
  offset_le := Nat.zero_le _

/-- The cursor over the bytes of `source` before `stop`, at offset `start`; bounds past the end
are moved back to it. -/
def ofRange (source : Bytes) (start stop : Nat) (line : Line) : Cursor where
  source := source.take stop
  offset := min start (source.take stop).length
  line := line
  rest := (source.take stop).drop (min start (source.take stop).length)
  rest_eq := rfl
  offset_le := Nat.min_le_right _ _

/-! ### Looking ahead -/

/-- The number of bytes ahead. -/
def remaining (c : Cursor) : Nat := c.rest.length

/-- Nothing is ahead. -/
def isAtEnd (c : Cursor) : Bool := c.rest.isEmpty

/-- The byte at the cursor. -/
def peek (c : Cursor) : Option UInt8 := c.rest.head?

/-- The byte `n` places after the cursor. -/
def peekAt (c : Cursor) (n : Nat) : Option UInt8 := c.rest[n]?

/-- The bytes ahead begin with `bs`. -/
def startsWith (c : Cursor) (bs : Bytes) : Bool := bs.isPrefixOf c.rest

/-- The bytes from offset `start` up to the cursor; none when `start` lies after it. -/
def sliceFrom (c : Cursor) (start : Nat) : Bytes := (c.source.take c.offset).drop start

/-! ### Moving -/

/-- The cursor `n` bytes further on, or at the end, the newlines passed being counted. -/
def advanceBy (c : Cursor) (n : Nat) : Cursor where
  source := c.source
  offset := c.offset + (c.rest.take n).length
  line := c.line.after (c.rest.take n)
  rest := c.rest.drop n
  rest_eq := by
    rw [c.rest_eq, List.drop_drop, List.length_take, List.length_drop]
    by_cases h : c.offset + n ≤ c.source.length
    · rw [Nat.min_eq_left (by omega)]
    · rw [Nat.min_eq_right (by omega), List.drop_eq_nil_of_le (by omega),
        List.drop_eq_nil_of_le (by omega)]
  offset_le := by
    have := c.offset_le
    rw [c.rest_eq, List.length_take, List.length_drop]
    omega

/-- Takes the byte at the cursor, if there is one. -/
def advance (c : Cursor) : Option UInt8 × Cursor := (c.peek, c.advanceBy 1)

/-- Takes the byte at the cursor if it is `b`, and says whether it was. -/
def eat (c : Cursor) (b : UInt8) : Bool × Cursor :=
  if c.peek == some b then (true, c.advanceBy 1) else (false, c)

/-- Passes the bytes for which `p` holds. -/
def skipWhile (c : Cursor) (p : UInt8 → Bool) : Cursor := c.advanceBy (Bytes.runLength p c.rest)

/-- Passes horizontal space. -/
def skipHorizontalSpace (c : Cursor) : Cursor := c.skipWhile Byte.isHorizontalSpace

/-- Moves to the next newline, or to the end. -/
def skipToLineEnd (c : Cursor) : Cursor := c.advanceBy (Bytes.lineLength c.rest)

/-! ### Laws of moving -/

theorem ext_position {c d : Cursor} (source : c.source = d.source) (offset : c.offset = d.offset)
    (line : c.line = d.line) : c = d := by
  obtain ⟨s, o, l, r, hr, _⟩ := c
  obtain ⟨s', o', l', r', hr', _⟩ := d
  cases source; cases offset; cases line; subst hr; subst hr'
  rfl

theorem length_rest (c : Cursor) : c.rest.length = c.source.length - c.offset := by
  rw [c.rest_eq, List.length_drop]

@[simp] theorem source_advanceBy (c : Cursor) (n : Nat) : (c.advanceBy n).source = c.source := rfl

@[simp] theorem rest_advanceBy (c : Cursor) (n : Nat) : (c.advanceBy n).rest = c.rest.drop n := rfl

theorem offset_advanceBy (c : Cursor) (n : Nat) :
    (c.advanceBy n).offset = min (c.offset + n) c.source.length := by
  have := c.offset_le
  show c.offset + (c.rest.take n).length = _
  rw [List.length_take, length_rest]
  omega

theorem offset_advanceBy_of_le {c : Cursor} {n : Nat} (h : n ≤ c.rest.length) :
    (c.advanceBy n).offset = c.offset + n := by
  show c.offset + (c.rest.take n).length = _
  rw [List.length_take, Nat.min_eq_left h]

@[simp] theorem advanceBy_zero (c : Cursor) : c.advanceBy 0 = c :=
  ext_position rfl (by simp [advanceBy]) (by simp [advanceBy])

/-- Moving on twice is moving on once by the sum. -/
theorem advanceBy_advanceBy (c : Cursor) (m n : Nat) :
    (c.advanceBy m).advanceBy n = c.advanceBy (m + n) := by
  apply ext_position
  · rfl
  · simp only [offset_advanceBy, source_advanceBy]
    omega
  · show (c.line.after (c.rest.take m)).after ((c.rest.drop m).take n) = _
    rw [← Line.after_append, ← List.take_add]
    rfl

/-- Moving to the end of the line passes exactly the bytes that are not newlines. -/
theorem skipToLineEnd_eq_skipWhile (c : Cursor) :
    c.skipToLineEnd = c.skipWhile (· != Byte.newline) := rfl

end Cursor

end TemplateScript
