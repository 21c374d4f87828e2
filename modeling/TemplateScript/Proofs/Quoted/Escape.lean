import TemplateScript.Proofs.Lexer.Dispatch
import TemplateScript.Proofs.Quoted

/-!
# Escaped bodies

Any bytes can be put between quotes if a backslash is put before each byte that is active there: the
quote itself, the backslash and, between double quotes, the brace that could open an interpolation
region.

* `Quoted.escape` and `Quoted.unescape` — the text with those backslashes, and the text without the
  backslash of each pair; `Quoted.unescape_escape` — the second undoes the first;
* `Quoted.closing?_escape` — the quote that closes an escaped text is the one right behind it;
* `Lexer.step_escape` — a lexer that begins at such a string reads it as one token, whatever follows.
-/

namespace TemplateScript

namespace Quoted

/-- The byte needs a backslash between quotes of this kind. -/
def isActive (quote b : UInt8) : Bool :=
  b == quote || b == Byte.backslash || (quote == Byte.doubleQuote && b == Byte.openCurly)

/-- The text with a backslash before each active byte. -/
def escape (quote : UInt8) (text : Bytes) : Bytes :=
  text.flatMap fun b => if isActive quote b then [Byte.backslash, b] else [b]

/-- The text without the backslash of each pair of a backslash and the byte after it. -/
def unescape : Bytes → Bytes
  | [] => []
  | [b] => [b]
  | b :: c :: text => if b = Byte.backslash then c :: unescape text else b :: unescape (c :: text)

variable {quote b : UInt8}

@[simp] theorem escape_nil (quote : UInt8) : escape quote [] = [] := rfl

theorem escape_cons_of_active (h : isActive quote b = true) (text : Bytes) :
    escape quote (b :: text) = Byte.backslash :: b :: escape quote text := by
  simp [escape, h]

theorem escape_cons_of_plain (h : isActive quote b = false) (text : Bytes) :
    escape quote (b :: text) = b :: escape quote text := by
  simp [escape, h]

/-- A byte that is not active neither ends nor escapes anything, and opens no region. -/
theorem of_not_isActive (h : isActive quote b = false) :
    b ≠ quote ∧ b ≠ Byte.backslash ∧ ¬ (quote = Byte.doubleQuote ∧ b = Byte.openCurly) := by
  simpa [isActive, and_assoc] using h

theorem unescape_cons (h : b ≠ Byte.backslash) (text : Bytes) :
    unescape (b :: text) = b :: unescape text := by
  cases text with
  | nil => rfl
  | cons c text => rw [unescape, if_neg h]

/-- Dropping the backslashes gives the text back. -/
theorem unescape_escape (quote : UInt8) (text : Bytes) :
    unescape (escape quote text) = text := by
  induction text with
  | nil => rfl
  | cons b text ih =>
    cases h : isActive quote b with
    | true => rw [escape_cons_of_active h, unescape, if_pos rfl, ih]
    | false => rw [escape_cons_of_plain h, unescape_cons (of_not_isActive h).2.1, ih]

/-- In an escaped text a reader of quoted bodies comes to no quote before the end, and stands in the
body again there. -/
theorem closing?_escape (hquote : quote ≠ Byte.backslash) (text rest : Bytes) :
    closing? quote (escape quote text ++ quote :: rest) = some (escape quote text).length := by
  unfold closing?
  induction text with
  | nil => rw [escape_nil, List.nil_append, closingFrom?, if_pos ⟨rfl, rfl⟩, List.length_nil]
  | cons b text ih =>
    cases h : isActive quote b with
    | true =>
      rw [escape_cons_of_active h, List.cons_append, List.cons_append]
      -- the backslash is no quote, and the byte that it takes does not count as one
      have hfirst : ¬ (Mode.body = .body ∧ Byte.backslash = quote) := fun h => hquote h.2.symm
      have hsecond : ¬ (Mode.bodyEscape = .body ∧ b = quote) := by
        rintro ⟨hmode, -⟩
        cases hmode
      rw [closingFrom?_cons hfirst, Mode.next, if_pos rfl, closingFrom?_cons hsecond, Mode.next, ih]
      simp only [Option.map_some, List.length_cons]
      congr 1
      omega
    | false =>
      obtain ⟨hne, hbackslash, hregion⟩ := of_not_isActive h
      rw [escape_cons_of_plain h, List.cons_append, closingFrom?_cons fun hb => hne hb.2, Mode.next,
        if_neg hbackslash, if_neg fun hopens => hregion ⟨hopens.1, hopens.2.1⟩, ih]
      simp only [Option.map_some, List.length_cons]
      congr 1
      omega

end Quoted

namespace Lexer

/-- The first step on an escaped text between quotes hands out the text as one string of the kind of
the quotes, escaped as it stands, and moves behind the closing quote, whatever comes there.  The text
before escaping is what is left of it without the backslash of each pair. -/
theorem step_escape {quote : UInt8} (isQuote : Byte.isQuote quote = true) (text tail : Bytes)
    (options : Options) (resolve : Resolver) :
    let body := Quoted.escape quote text
    let source := quote :: (body ++ quote :: tail)
    let turn := (Lexer.start source options).step resolve
    let token : Token :=
      { kind := Quoted.kind quote, text := ⟨1, body.length⟩, line := options.startLine }
    turn.answer = .ok (.emit token) ∧ token.textIn source = body ∧
      Quoted.unescape (token.textIn source) = text ∧
      turn.lexer.offset = body.length + 2 ∧ turn.lexer.cursor.rest = tail := by
  intro body source turn token
  have hbackslash : quote ≠ Byte.backslash := by
    rintro rfl
    cases isQuote
  have hmeets : (Lexer.start source options).Meets [] source :=
    meets_of_trivia rfl .nil (not_startsTrivia (Or.inr (Or.inr isQuote)) _)
  have hscan : Construct.scan options quote (body ++ quote :: tail) =
      .lexeme ⟨.fixed (Quoted.kind quote), ⟨1, body.length⟩, 1 + body.length + 1⟩ := by
    rw [Construct.scan_of_quote isQuote, Quoted.scan, Quoted.closing?_escape hbackslash text tail]
  obtain ⟨hanswer, hoffset⟩ := hmeets.step_of_lexeme hscan resolve
  have hlength : source.length = body.length + 2 + tail.length := by
    show (body ++ quote :: tail).length + 1 = _
    rw [List.length_append, List.length_cons]
    omega
  have htext : token.textIn source = body := by
    have hstop : token.text.stop ≤ source.length := by
      show 1 + body.length ≤ source.length
      omega
    rw [Token.textIn, Span.slice_of_le hstop]
    exact List.take_append_length
  have hend : turn.lexer.offset = body.length + 2 := by
    rw [hoffset]
    show 0 + 0 + (1 + body.length + 1) = _
    omega
  refine ⟨?_, htext, ?_, hend, ?_⟩
  · rw [hanswer, Line.after_nil]
    rfl
  · rw [htext, Quoted.unescape_escape]
  · rw [Cursor.rest_eq, ← offset, hend, cursor_step]
    show (body ++ quote :: tail).drop (body.length + 1) = tail
    rw [← List.drop_drop, List.drop_append_length, List.drop_succ_cons, List.drop_zero]

/-- The text `{$"\` between double quotes, with one more quote behind them. -/
theorem step_escape_braces :
    Byte.isQuote Byte.doubleQuote = true ∧
      ((Lexer.start (ascii "\"\\\x7b$\\\"\\\\\"\"x") ({} : Options).strict).step .standard).answer =
        .ok (.emit { kind := .doubleQuoted, text := ⟨1, 7⟩, line := .first }) :=
  ⟨rfl, (step_escape rfl (ascii "\x7b$\"\\") (ascii "\"x") ({} : Options).strict .standard).1⟩

end Lexer

end TemplateScript
