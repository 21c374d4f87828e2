import TemplateScript.Proofs.Construct
import TemplateScript.Proofs.Heredoc.Closing
import TemplateScript.Proofs.Quoted
import TemplateScript.Proofs.Symbol

/-!
# The extent of a token

The text of a string literal leaves its delimiters out, so a token takes more bytes than its span
says.  `Extent rule kind text extent rest` holds when `extent` is all the bytes of a token of this
kind, `text` is its span counted from the first of them, and `rest` is what follows.

* `Construct.exists_extent` — a lexeme takes such bytes, whatever kind its form lets its token have.
-/

namespace TemplateScript

/-- The bytes that a token of this kind and span takes. -/
inductive Extent (rule : DelimiterRule) (kind : Token.Kind) (text : Span) : Bytes → Bytes → Prop
  /-- A quoted string: its quote, its text and its quote again. -/
  | string {quote : UInt8} {body rest : Bytes} (isQuote : Byte.isQuote quote = true)
      (kind_eq : kind = Quoted.kind quote) (text_eq : text = ⟨1, body.length⟩) :
      Extent rule kind text (quote :: (body ++ [quote])) rest
  /-- A quoted string without a closing quote: its text runs to the end. -/
  | openString {quote : UInt8} {body : Bytes} (isQuote : Byte.isQuote quote = true)
      (kind_eq : kind = Quoted.kind quote) (text_eq : text = ⟨1, body.length⟩) :
      Extent rule kind text (quote :: body) []
  /-- A heredoc: `<<<` and its line, its text, white space, the delimiter of the line and
  horizontal space. -/
  | heredoc {opener : Heredoc.Opener} {line body space blank rest : Bytes}
      (opens : Heredoc.OpenerLine rule opener line) (kind_eq : kind = opener.kind)
      (text_eq : text = ⟨(ascii "<<<" ++ line).length, body.length⟩)
      (spaces : ∀ b ∈ space, Byte.isTrailingSpace b = true)
      (blanks : ∀ b ∈ blank, Byte.isHorizontalSpace b = true) :
      Extent rule kind text
        (ascii "<<<" ++ line ++ (body ++ (space ++ (opener.delimiter ++ blank)))) rest
  /-- A heredoc that is never closed: only white space comes between its text and the end. -/
  | openHeredoc {opener : Heredoc.Opener} {line body space : Bytes}
      (opens : Heredoc.OpenerLine rule opener line) (kind_eq : kind = opener.kind)
      (text_eq : text = ⟨(ascii "<<<" ++ line).length, body.length⟩)
      (spaces : ∀ b ∈ space, Byte.isTrailingSpace b = true) :
      Extent rule kind text (ascii "<<<" ++ line ++ (body ++ space)) []
  /-- Any other token is its text. -/
  | whole {extent rest : Bytes} (kind_eq : kind.isString = false)
      (text_eq : text = ⟨0, extent.length⟩) : Extent rule kind text extent rest

/-! ### The kinds that a form allows -/

/-- A token read from a lexeme of this form can have this kind. -/
def Lexeme.Form.Allows : Lexeme.Form → Token.Kind → Prop
  | fixed kind, kind' => kind' = kind
  | annotated kind _, kind' => kind' = kind
  | _, kind' => kind'.isString = false

theorem Quoted.isString_kind (quote : UInt8) : (Quoted.kind quote).isString = true := by
  rw [Quoted.kind]
  split
  · rfl
  · split <;> rfl

theorem Heredoc.isString_kind (opener : Heredoc.Opener) : opener.kind.isString = true := by
  rw [Heredoc.Opener.kind]
  split <;> rfl

/-- The lexeme is its text, and its token is no string literal. -/
def Lexeme.IsWhole (found : Lexeme) : Prop :=
  found.text = ⟨0, found.length⟩ ∧ ∀ kind, found.form.Allows kind → kind.isString = false

theorem Lexeme.isWhole_word (bs : Bytes) : (Lexeme.word bs).IsWhole :=
  ⟨rfl, fun _ h => h⟩

theorem Lexeme.isWhole_numeral (bs : Bytes) : (Lexeme.numeral bs).IsWhole := by
  rw [Lexeme.numeral]
  split
  · exact ⟨rfl, fun kind h => by cases h; rfl⟩
  · refine ⟨rfl, fun kind h => ?_⟩
    simp only [Lexeme.whole, Form.Allows] at h
    rw [h]
    split <;> rfl

/-- Punctuation is no string literal. -/
theorem Lexeme.Form.isString_of_isMark {form : Lexeme.Form} {kind : Token.Kind}
    (hmark : form.isMark = true) (h : form.Allows kind) : kind.isString = false := by
  have hkind : ∀ kind : Token.Kind, kind.isMark = true → kind.isString = false := by
    intro kind hk
    cases kind <;> first | rfl | cases hk
  cases form with
  | fixed kind' => rw [show kind = kind' from h]; exact hkind kind' hmark
  | annotated kind' _ => rw [show kind = kind' from h]; exact hkind kind' hmark
  | word _ => exact h
  | symbol _ => exact h
  | closeParen => exact h

theorem Lexeme.isWhole_symbol (first : UInt8) (tail : Bytes) :
    (Lexeme.symbol first tail).IsWhole := by
  have hat := Lexeme.symbol_at first tail
  generalize Lexeme.symbol first tail = found at hat ⊢
  cases hat with
  | mark marks => exact ⟨rfl, fun _ h => Form.isString_of_isMark (Symbol.isMark_of_mark? marks) h⟩
  | reference _ _ => exact ⟨rfl, fun _ h => h⟩
  | arrow _ => exact ⟨rfl, fun _ h => by cases h; rfl⟩
  | spelled => exact ⟨rfl, fun _ h => h⟩

/-! ### The kinds that a form fixes -/

/-- The kinds that the bytes of a lexeme settle: literals and punctuation. -/
def Token.Kind.isFixed (kind : Token.Kind) : Bool :=
  kind.isString || kind.isMark || kind == .integer || kind == .real || kind == .arrayArrow

/-- If the form fixes a kind, it is one of these. -/
def Lexeme.Form.HasFixedKind : Lexeme.Form → Prop
  | fixed kind | annotated kind _ => kind.isFixed = true
  | _ => True

theorem Token.Kind.isFixed_of_isString {kind : Token.Kind} (h : kind.isString = true) :
    kind.isFixed = true := by
  simp [isFixed, h]

theorem Lexeme.hasFixedKind_numeral (bs : Bytes) : (Lexeme.numeral bs).form.HasFixedKind := by
  rw [Lexeme.numeral]
  split
  · rfl
  · show Token.Kind.isFixed _ = true
    split <;> rfl

theorem Lexeme.hasFixedKind_symbol (first : UInt8) (tail : Bytes) :
    (Lexeme.symbol first tail).form.HasFixedKind := by
  have hat := Lexeme.symbol_at first tail
  generalize Lexeme.symbol first tail = found at hat ⊢
  cases hat with
  | @mark form marks =>
    have hmark := Symbol.isMark_of_mark? marks
    show form.HasFixedKind
    cases form with
    | fixed kind => show kind.isFixed = true; simp [Token.Kind.isFixed, show kind.isMark = true from hmark]
    | annotated kind _ =>
      show kind.isFixed = true
      simp [Token.Kind.isFixed, show kind.isMark = true from hmark]
    | word _ => trivial
    | symbol _ => trivial
    | closeParen => trivial
  | reference _ _ => trivial
  | arrow _ => rfl
  | spelled => trivial

/-- The form of a lexeme that stands at a byte fixes only such kinds. -/
theorem Construct.hasFixedKind_of_scan {options : Options} {first : UInt8} {tail : Bytes}
    {found : Lexeme} (scan : Construct.scan options first tail = .lexeme found) :
    found.form.HasFixedKind := by
  have hat := scan_at options first tail
  rw [scan] at hat
  cases hat with
  | word _ => trivial
  | numeral _ _ => exact Lexeme.hasFixedKind_numeral _
  | symbol _ _ _ _ _ => exact Lexeme.hasFixedKind_symbol _ _
  | string _ _ => exact Token.Kind.isFixed_of_isString (Quoted.isString_kind first)
  | openString _ _ _ => exact Token.Kind.isFixed_of_isString (Quoted.isString_kind first)
  | heredoc _ _ _ => exact Token.Kind.isFixed_of_isString (Heredoc.isString_kind _)
  | openHeredoc _ _ _ _ => exact Token.Kind.isFixed_of_isString (Heredoc.isString_kind _)

/-! ### The bytes of a lexeme -/

namespace Construct

variable {options : Options} {first : UInt8} {tail : Bytes} {found : Lexeme}

theorem exists_extent_of_isWhole (h : found.IsWhole) (hle : found.length ≤ tail.length + 1)
    (rule : DelimiterRule) :
    ∃ extent rest, first :: tail = extent ++ rest ∧ extent.length = found.length ∧
      ∀ kind, found.form.Allows kind → Extent rule kind found.text extent rest := by
  have hlen : ((first :: tail).take found.length).length = found.length :=
    List.length_take_of_le hle
  refine ⟨_, _, (List.take_append_drop found.length _).symm, hlen, fun kind hkind => ?_⟩
  exact .whole (h.2 kind hkind) (by rw [hlen, h.1])

/-- A lexeme that stands at a byte takes the bytes of a token. -/
theorem exists_extent (scan : Construct.scan options first tail = .lexeme found) :
    ∃ extent rest, first :: tail = extent ++ rest ∧ extent.length = found.length ∧
      ∀ kind, found.form.Allows kind → Extent options.delimiters kind found.text extent rest := by
  have hat := scan_at options first tail
  have hle : found.length ≤ tail.length + 1 := by
    have := (length_scan options first tail).2
    rwa [scan] at this
  rw [scan] at hat
  cases hat with
  | word _ => exact exists_extent_of_isWhole (Lexeme.isWhole_word _) hle _
  | numeral _ _ => exact exists_extent_of_isWhole (Lexeme.isWhole_numeral _) hle _
  | symbol _ _ _ _ _ => exact exists_extent_of_isWhole (Lexeme.isWhole_symbol _ _) hle _
  | @string offset quote closing =>
    obtain ⟨body, rest, rfl, hbody⟩ := Quoted.exists_closing closing
    refine ⟨first :: (body ++ [first]), rest, by simp, by simp [hbody]; omega, fun kind hkind => ?_⟩
    exact .string quote hkind (by rw [hbody])
  | openString quote _ _ =>
    refine ⟨first :: tail, [], (List.append_nil _).symm, Nat.add_comm tail.length 1,
      fun kind hkind => ?_⟩
    exact .openString quote hkind rfl
  | @heredoc bs opener line length marks opens closes =>
    obtain ⟨opening, body, rfl, hopening⟩ := Heredoc.readOpener_eq_ok_iff.mp opens
    rw [hopening.length_eq, List.drop_append_length] at closes ⊢
    obtain ⟨text, space, blank, rest, rfl, htext, hspace, hblank, hline, hlength⟩ :=
      Heredoc.exists_body closes
    refine ⟨ascii "<<<" ++ opening ++ (text ++ (space ++ (opener.delimiter ++ blank))), rest,
      by simp [marks], ?_, fun kind hkind => ?_⟩
    · simp only [List.length_append, hlength, ← hline]
      show 3 + _ + _ = _
      omega
    · refine .heredoc hopening hkind ?_ hspace hblank
      rw [htext, List.length_append]
      rfl
  | @openHeredoc bs opener marks opens closes _ =>
    obtain ⟨opening, body, rfl, hopening⟩ := Heredoc.readOpener_eq_ok_iff.mp opens
    rw [hopening.length_eq, List.drop_append_length] at closes ⊢
    obtain ⟨text, space, rfl, htext, hspace, -⟩ := Bytes.exists_trim body
    refine ⟨ascii "<<<" ++ opening ++ (text ++ space), [], by simp [marks], ?_, fun kind hkind => ?_⟩
    · simp only [List.length_append]
      show 3 + _ + _ = _
      omega
    · refine .openHeredoc hopening hkind ?_ hspace
      simp only [htext, List.length_append]
      rfl

end Construct

end TemplateScript
