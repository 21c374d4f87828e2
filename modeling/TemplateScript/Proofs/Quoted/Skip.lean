import TemplateScript.Proofs.Lexer.Dispatch
import TemplateScript.Proofs.Quoted

/-!
# Passing a quoted body

`Cursor.skipQuoted` is the reader of quoted bodies as it moves a cursor that stands right behind the
opening quote.

* `Cursor.offset_skipQuoted` — it stops behind the closing quote, or at the end without one;
* `Cursor.cut_iff` — a byte of the source with what lies between the cursor and it, as a cut of what
  is ahead;
* `Lexer.Meets.step_of_quote` — a step of the lexer that comes to a quote reads the body with it.
-/

namespace TemplateScript

/-- Passes a quoted body from right behind its opening quote: the offset of the closing quote, if
there is one, and the cursor behind it, or else at the end. -/
def Cursor.skipQuoted (c : Cursor) (quote : UInt8) : Option Nat × Cursor :=
  ((Quoted.closing? quote c.rest).map (c.offset + ·),
    c.advanceBy (Quoted.length quote c.rest - 1))

namespace Cursor

variable {c : Cursor} {quote : UInt8} {p : Nat}

theorem skipQuoted_of_closing {n : Nat} (h : Quoted.closing? quote c.rest = some n) :
    c.skipQuoted quote = (some (c.offset + n), c.advanceBy (n + 1)) := by
  have hlength : Quoted.length quote c.rest - 1 = n + 1 := by
    rw [Quoted.length, h]
    show 1 + n + 1 - 1 = n + 1
    omega
  rw [skipQuoted, h, hlength]
  rfl

theorem skipQuoted_of_open (h : Quoted.closing? quote c.rest = none) :
    c.skipQuoted quote = (none, c.advanceBy c.rest.length) := by
  have hlength : Quoted.length quote c.rest - 1 = c.rest.length := by
    rw [Quoted.length, h]
    exact Nat.add_sub_cancel_left ..
  rw [skipQuoted, h, hlength]
  rfl

theorem skipQuoted_eq_some_iff : (c.skipQuoted quote).1 = some p ↔
    ∃ n, Quoted.closing? quote c.rest = some n ∧ c.offset + n = p := by
  rw [skipQuoted, Option.map_eq_some_iff]

theorem skipQuoted_eq_none_iff :
    (c.skipQuoted quote).1 = none ↔ Quoted.closing? quote c.rest = none := by
  rw [skipQuoted, Option.map_eq_none_iff]

/-- The reader stops behind the closing quote, or at the end of the source without one. -/
theorem offset_skipQuoted (c : Cursor) (quote : UInt8) :
    (∀ p, (c.skipQuoted quote).1 = some p → (c.skipQuoted quote).2.offset = p + 1) ∧
      ((c.skipQuoted quote).1 = none → (c.skipQuoted quote).2.offset = c.source.length) := by
  constructor
  · intro p h
    obtain ⟨n, hn, rfl⟩ := skipQuoted_eq_some_iff.mp h
    rw [skipQuoted_of_closing hn]
    exact offset_advanceBy_of_le (Quoted.closing?_lt hn)
  · intro h
    rw [skipQuoted_of_open (skipQuoted_eq_none_iff.mp h)]
    have hrest := c.length_rest
    have hle := c.offset_le
    show (c.advanceBy c.rest.length).offset = _
    rw [offset_advanceBy_of_le (Nat.le_refl _)]
    omega

/-- A byte at or after the cursor is a cut of what is ahead. -/
theorem cut_iff {b : UInt8} {P : Bytes → Prop} :
    c.offset ≤ p ∧ c.source[p]? = some b ∧ P ((Span.between c.offset p).slice c.source) ↔
      ∃ body rest, c.rest = body ++ b :: rest ∧ c.offset + body.length = p ∧ P body := by
  -- the bytes up to `p` are the bytes ahead up to the byte that stands there
  have hslice : ∀ n, c.offset + n ≤ c.source.length →
      (Span.between c.offset (c.offset + n)).slice c.source = c.rest.take n := by
    intro n hn
    have hstop := Span.stop_between (Nat.le_add_right c.offset n)
    rw [Span.slice_of_le (hstop.le.trans hn), c.rest_eq, Span.between, Nat.add_sub_cancel_left]
  have hbyte : ∀ n, c.source[c.offset + n]? = c.rest[n]? := by
    intro n
    rw [c.rest_eq, List.getElem?_drop]
  constructor
  · rintro ⟨hle, hb, hP⟩
    obtain ⟨n, rfl⟩ := Nat.exists_eq_add_of_le hle
    have hlt : c.offset + n < c.source.length := (List.getElem?_eq_some_iff.mp hb).1
    rw [hslice n (Nat.le_of_lt hlt)] at hP
    rw [hbyte] at hb
    obtain ⟨hn, rfl⟩ := List.getElem?_eq_some_iff.mp hb
    refine ⟨c.rest.take n, c.rest.drop (n + 1), ?_, ?_, hP⟩
    · rw [← List.drop_eq_getElem_cons hn, List.take_append_drop]
    · rw [List.length_take_of_le (Nat.le_of_lt hn)]
  · rintro ⟨body, rest, hrest, rfl, hP⟩
    have hlt : c.offset + body.length < c.source.length := by
      have hlength := c.length_rest
      rw [hrest, List.length_append, List.length_cons] at hlength
      omega
    refine ⟨Nat.le_add_right _ _, ?_, ?_⟩
    · rw [hbyte, hrest, List.getElem?_append_right (Nat.le_refl _), Nat.sub_self]
      rfl
    · rw [hslice _ (Nat.le_of_lt hlt), hrest, List.take_append_length]
      exact hP

end Cursor

namespace Lexer.Meets

variable {l : Lexer} {gap tail : Bytes} {first : UInt8}

/-- One byte behind the gap, where the construct opens, is its body. -/
theorem body_ahead (h : l.Meets gap (first :: tail)) :
    let body := (l.cursor.advanceBy gap.length).advanceBy 1
    body.offset = l.offset + gap.length + 1 ∧ body.rest = tail := by
  intro body
  have hopening : (l.cursor.advanceBy gap.length).rest = first :: tail := by
    show l.cursor.rest.drop gap.length = first :: tail
    rw [h.rest, List.drop_append_length]
  constructor
  · rw [← h.advanceBy_gap.1]
    refine Cursor.offset_advanceBy_of_le ?_
    rw [hopening, List.length_cons]
    exact Nat.le_add_left 1 _
  · show (l.cursor.advanceBy gap.length).rest.drop 1 = tail
    rw [hopening]
    rfl

/-- A step that comes to a quote passes the quote and then the body, also if that is never closed. -/
theorem cursor_step_of_quote (h : l.Meets gap (first :: tail)) (quote : Byte.isQuote first = true)
    (resolve : Resolver) :
    (l.step resolve).lexer.cursor =
      (((l.cursor.advanceBy gap.length).advanceBy 1).skipQuoted first).2 := by
  have hlength : (Ahead.of l.options l.cursor.rest).found.length = Quoted.length first tail := by
    rw [← Quoted.length_scan l.options.isStrict, ← Construct.scan_of_quote quote]
    cases scan : Construct.scan l.options first tail with
    | lexeme found => rw [h.found_of_lexeme scan]; rfl
    | fault cause length => rw [h.found_of_fault scan]; rfl
    | comment length =>
      -- a quote opens no comment
      have hscan : Construct.scan l.options first tail =
          Quoted.scan l.options.isStrict first tail := Construct.scan_of_quote quote
      rw [scan, Quoted.scan] at hscan
      split at hscan
      · cases hscan
      · split at hscan <;> cases hscan
  have hsplit : Quoted.length first tail = 1 + (Quoted.length first tail - 1) :=
    (Nat.add_sub_cancel' (Quoted.length_pos first tail)).symm
  rw [Cursor.skipQuoted, h.body_ahead.2, cursor_step, hlength, ← h.skipped, hsplit,
    ← Cursor.advanceBy_advanceBy, ← Cursor.advanceBy_advanceBy, Nat.add_sub_cancel_left]

/-- A string is the span of `n` bytes of the body, on the line of its quote. -/
theorem answer_of_string {n length : Nat} (h : l.Meets gap (first :: tail))
    (scan : Construct.scan l.options first tail =
      .lexeme ⟨.fixed (Quoted.kind first), ⟨1, n⟩, length⟩) (resolve : Resolver) :
    let opening := l.cursor.advanceBy gap.length
    let body := opening.advanceBy 1
    (l.step resolve).answer = .ok (.emit
      { kind := Quoted.kind first, text := .between body.offset (body.offset + n),
        line := opening.line }) := by
  intro opening body
  have hline : opening.line = l.line.after gap := h.advanceBy_gap.2
  have hoffset : body.offset = l.offset + gap.length + 1 := h.body_ahead.1
  rw [(h.step_of_lexeme scan resolve).1, Span.between, Nat.add_sub_cancel_left, hoffset, hline]
  rfl

/-- The string ends at the quote that is found, whatever the options are. -/
theorem answer_of_closed (h : l.Meets gap (first :: tail)) (quote : Byte.isQuote first = true)
    {n : Nat} (closing : Quoted.closing? first tail = some n) (resolve : Resolver) :
    let opening := l.cursor.advanceBy gap.length
    let body := opening.advanceBy 1
    (l.step resolve).answer = .ok (.emit
      { kind := Quoted.kind first, text := .between body.offset (body.offset + n),
        line := opening.line }) := by
  have hscan : Construct.scan l.options first tail =
      .lexeme ⟨.fixed (Quoted.kind first), ⟨1, n⟩, 1 + n + 1⟩ := by
    rw [Construct.scan_of_quote quote, Quoted.scan, closing]
  exact h.answer_of_string hscan resolve

/-- Without such a quote a lenient lexer takes the rest of the source for the body. -/
theorem answer_of_open_lenient (h : l.Meets gap (first :: tail))
    (quote : Byte.isQuote first = true) (closing : Quoted.closing? first tail = none)
    (lenient : l.options.isStrict = false) (resolve : Resolver) :
    let opening := l.cursor.advanceBy gap.length
    let body := opening.advanceBy 1
    (l.step resolve).answer = .ok (.emit
      { kind := Quoted.kind first, text := .between body.offset l.cursor.source.length,
        line := opening.line }) := by
  intro opening body
  have hscan : Construct.scan l.options first tail =
      .lexeme ⟨.fixed (Quoted.kind first), ⟨1, tail.length⟩, 1 + tail.length⟩ := by
    rw [Construct.scan_of_quote quote, Quoted.scan, closing, lenient]
    rfl
  have hend : body.offset + tail.length = l.cursor.source.length := by
    have hlength : body.rest.length = l.cursor.source.length - body.offset := body.length_rest
    have hle : body.offset ≤ l.cursor.source.length := body.offset_le
    rw [h.body_ahead.2] at hlength
    omega
  rw [← hend]
  exact h.answer_of_string hscan resolve

/-- And a strict one reports the string at its opening quote. -/
theorem answer_of_open_strict (h : l.Meets gap (first :: tail))
    (quote : Byte.isQuote first = true) (closing : Quoted.closing? first tail = none)
    (strict : l.options.isStrict = true) (resolve : Resolver) :
    let opening := l.cursor.advanceBy gap.length
    (l.step resolve).answer =
      .error ⟨.fault .unterminatedString, opening.offset, opening.line⟩ := by
  intro opening
  have hscan : Construct.scan l.options first tail =
      .fault .unterminatedString (1 + tail.length) := by
    rw [Construct.scan_of_quote quote, Quoted.scan, closing, strict]
    rfl
  obtain ⟨hoffset, hline⟩ := h.advanceBy_gap
  rw [h.step_of_fault hscan resolve, hoffset, hline]

/-- A step that comes to a quote passes the quote and then the body: the token is what lies up to the
closing quote, and without one the rest of the source or a fault. -/
theorem step_of_quote (h : l.Meets gap (first :: tail)) (quote : Byte.isQuote first = true)
    (resolve : Resolver) :
    let opening := l.cursor.advanceBy gap.length
    let body := opening.advanceBy 1
    let turn := l.step resolve
    let string := fun stop : Nat => (.ok (.emit
      { kind := Quoted.kind first, text := .between body.offset stop, line := opening.line }) :
        Except LexError Edit)
    turn.lexer.cursor = (body.skipQuoted first).2 ∧
      (∀ p, (body.skipQuoted first).1 = some p → turn.answer = string p) ∧
      ((body.skipQuoted first).1 = none →
        (l.options.isStrict = false → turn.answer = string l.cursor.source.length) ∧
        (l.options.isStrict = true → turn.answer =
          .error ⟨.fault .unterminatedString, opening.offset, opening.line⟩)) := by
  intro opening body turn string
  have hbody : body.rest = tail := h.body_ahead.2
  refine ⟨h.cursor_step_of_quote quote resolve, fun p hfound => ?_, fun hnone => ?_⟩
  · obtain ⟨n, hclosing, rfl⟩ := Cursor.skipQuoted_eq_some_iff.mp hfound
    rw [hbody] at hclosing
    exact h.answer_of_closed quote hclosing resolve
  · have hopen := Cursor.skipQuoted_eq_none_iff.mp hnone
    rw [hbody] at hopen
    exact ⟨fun lenient => h.answer_of_open_lenient quote hopen lenient resolve,
      fun strict => h.answer_of_open_strict quote hopen strict resolve⟩

end Lexer.Meets

end TemplateScript
