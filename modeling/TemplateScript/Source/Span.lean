import TemplateScript.Byte

/-!
# Spans

A span is a range of byte offsets: where it starts and how long it is.  Spans are plain data and
may lie outside any text; `Span.slice` then has no bytes.  Offsets that leave the library are
64-bit, so `Span.endOffset` and `Span.cover` stop at `Span.addressLimit`.
-/

namespace TemplateScript

/-- A range of byte offsets. -/
structure Span where
  start : Nat
  length : Nat
deriving DecidableEq, Repr

namespace Span

/-- The largest offset there is. -/
def addressLimit : Nat := 0xFFFFFFFFFFFFFFFF

/-- The offset right after the span. -/
def stop (s : Span) : Nat := s.start + s.length

/-- The offset right after the span, at most the largest offset. -/
def endOffset (s : Span) : Nat := min s.stop addressLimit

/-- The span from `start` up to `stop`; empty when `stop` does not come after `start`. -/
def between (start stop : Nat) : Span := ⟨start, stop - start⟩

/-- The span holds no bytes. -/
def isEmpty (s : Span) : Bool := s.length == 0

/-- The smallest span covering both. -/
def cover (a b : Span) : Span :=
  between (min a.start b.start) (max a.endOffset b.endOffset)

/-- The same range, `n` bytes further on. -/
def shift (n : Nat) (s : Span) : Span := ⟨n + s.start, s.length⟩

/-- The bytes of the span in `source`, or none when it does not fit there. -/
def slice (s : Span) (source : Bytes) : Bytes :=
  if s.stop ≤ source.length then (source.drop s.start).take s.length else []

@[simp] theorem stop_mk (start length : Nat) : (Span.mk start length).stop = start + length := rfl

@[simp] theorem stop_shift (n : Nat) (s : Span) : (s.shift n).stop = n + s.stop :=
  Nat.add_assoc _ _ _

theorem stop_between {start stop : Nat} (h : start ≤ stop) : (between start stop).stop = stop :=
  Nat.add_sub_cancel' h

theorem slice_of_le {s : Span} {source : Bytes} (h : s.stop ≤ source.length) :
    s.slice source = (source.drop s.start).take s.length :=
  if_pos h

theorem slice_of_lt {s : Span} {source : Bytes} (h : source.length < s.stop) :
    s.slice source = [] :=
  if_neg (Nat.not_le.mpr h)

theorem length_slice {s : Span} {source : Bytes} (h : s.stop ≤ source.length) :
    (s.slice source).length = s.length := by
  have : s.start + s.length ≤ source.length := h
  rw [slice_of_le h, List.length_take, List.length_drop]
  omega

end Span

end TemplateScript
