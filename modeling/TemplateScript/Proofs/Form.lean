import TemplateScript.Proofs.Extent

/-!
# The bytes of a lexeme and its form

A form carries the spelling under which an operator table is asked, and settles the kinds that no
table has a say in.  Both agree with the bytes that the lexeme takes:

* `Symbol.spelling` — the spelling of a symbol, read off its text;
* `Lexeme.Form.Fits` — what the bytes of a lexeme and its form say about each other;
* `Construct.fits_of_scan` — every lexeme that stands at a byte fits its form.
-/

namespace TemplateScript

/-! ### Spellings -/

/-- The spelling under which a symbol with this text is looked up: its text, but for a reference
assignment, which may have white space before its `&`. -/
def Symbol.spelling (text : Bytes) : Bytes :=
  if text.head? = some 0x3D ∧ text.getLast? = some Byte.ampersand then ascii "=&" else text

theorem Symbol.spelling_singleton (b : UInt8) : spelling [b] = [b] := by
  refine if_neg ?_
  rintro ⟨hequals, hampersand⟩
  cases hequals
  cases hampersand

/-- The symbols of the list are looked up as they stand, and none begins with a parenthesis. -/
theorem Symbol.spelling_of_mem :
    ∀ text ∈ spellings, spelling text = text ∧ text.head? ≠ some Byte.openParen := by
  decide

theorem Symbol.spelling_reference (space : Bytes) :
    spelling (0x3D :: (space ++ [Byte.ampersand])) = ascii "=&" := by
  refine if_pos ⟨rfl, ?_⟩
  rw [← List.cons_append, List.getLast?_concat]

/-- The text of a candidate is looked up as it stands. -/
theorem Symbol.spelling_take_length (first : UInt8) (tail : Bytes) :
    spelling ((first :: tail).take (length (first :: tail))) =
      (first :: tail).take (length (first :: tail)) := by
  obtain ⟨more, rest, rfl, hlength, hmore⟩ := exists_length first tail
  have htake : (first :: (more ++ rest)).take (1 + more.length) = first :: more := by
    rw [Nat.add_comm, List.take_succ_cons, List.take_append_length]
  rw [hlength, htake]
  rcases hmore with rfl | hmem
  · exact spelling_singleton first
  · exact (spelling_of_mem _ hmem).1

/-- An opening parenthesis is a symbol by itself. -/
theorem Symbol.length_openParen (tail : Bytes) : length (Byte.openParen :: tail) = 1 := by
  obtain ⟨more, rest, rfl, hlength, rfl | hmem⟩ := exists_length Byte.openParen tail
  · exact hlength
  · exact absurd rfl (spelling_of_mem _ hmem).2

theorem Lexeme.symbol_openParen (tail : Bytes) :
    Lexeme.symbol Byte.openParen tail = .whole (.fixed .openParen) 1 := by
  show (if Symbol.length (Byte.openParen :: tail) = 1 then Lexeme.whole (.fixed .openParen) 1
    else Lexeme.candidate (Byte.openParen :: tail)) = _
  rw [if_pos (Symbol.length_openParen tail)]

/-! ### Forms -/

/-- The kinds that a lexeme has by itself: no word list and no operator table is asked, and no token
before it matters. -/
def Token.Kind.isBare : Token.Kind → Bool
  | .identifier | .keyword _ | .operatorWord _ | .operator _ | .closeParen | .openBracket | .comma
  | .other => false
  | _ => true

/-- A lexeme of this form can take these bytes. -/
def Lexeme.Form.Fits (bytes : Bytes) : Lexeme.Form → Prop
  | fixed kind => kind.isBare = true ∧ (kind = .openParen → bytes = ascii "(")
  | annotated kind spelling => (kind = .comma ∨ kind = .openBracket) ∧ spelling = bytes
  | word spelling => spelling = bytes
  | symbol spelling => spelling = Symbol.spelling bytes ∧ bytes.head? ≠ some Byte.openParen
  | closeParen => bytes = ascii ")"

instance Lexeme.Form.decidableFits (bytes : Bytes) :
    (form : Lexeme.Form) → Decidable (form.Fits bytes)
  | fixed _ => inferInstanceAs (Decidable (_ ∧ _))
  | annotated _ _ => inferInstanceAs (Decidable (_ ∧ _))
  | word _ => inferInstanceAs (Decidable (_ = _))
  | symbol _ => inferInstanceAs (Decidable (_ ∧ _))
  | closeParen => inferInstanceAs (Decidable (_ = _))

theorem Quoted.isBare_kind (quote : UInt8) : (Quoted.kind quote).isBare = true := by
  rw [Quoted.kind]
  split
  · rfl
  · split <;> rfl

theorem Heredoc.isBare_kind (opener : Heredoc.Opener) : opener.kind.isBare = true := by
  rw [Heredoc.Opener.kind]
  split <;> rfl

/-- A literal fits its form whatever its bytes are. -/
theorem Lexeme.Form.fits_fixed {bytes : Bytes} {kind : Token.Kind} (bare : kind.isBare = true)
    (h : kind ≠ .openParen) : (Lexeme.Form.fixed kind).Fits bytes :=
  ⟨bare, fun hkind => absurd hkind h⟩

theorem Lexeme.Form.fits_fixed_of_isString {bytes : Bytes} {kind : Token.Kind}
    (bare : kind.isBare = true) (h : kind.isString = true) :
    (Lexeme.Form.fixed kind).Fits bytes := by
  refine fits_fixed bare ?_
  rintro rfl
  cases h

/-- Punctuation fits its form. -/
theorem Symbol.fits_of_mark? {b : UInt8} {form : Lexeme.Form} (h : mark? b = some form) :
    form.Fits [b] := by
  have hall : ∀ b, (mark? b).all (fun form => decide (form.Fits [b])) = true := by decide +kernel
  have hb := hall b
  rw [h] at hb
  exact of_decide_eq_true hb

theorem Lexeme.fits_numeral (bs bytes : Bytes) : (Lexeme.numeral bs).form.Fits bytes := by
  rw [Lexeme.numeral]
  split
  · exact Form.fits_fixed rfl (by decide)
  · show (Form.fixed _).Fits bytes
    split
    · exact Form.fits_fixed rfl (by decide)
    · exact Form.fits_fixed rfl (by decide)

theorem Lexeme.fits_symbol (first : UInt8) (tail : Bytes) :
    (Lexeme.symbol first tail).form.Fits
      ((first :: tail).take (Lexeme.symbol first tail).length) := by
  by_cases hopen : first = Byte.openParen
  · -- the list of symbols does not say that a parenthesis is no candidate
    subst hopen
    rw [Lexeme.symbol_openParen]
    exact ⟨rfl, fun _ => rfl⟩
  · have hhead : ∀ n, ((first :: tail).take n).head? ≠ some Byte.openParen := by
      intro n hn
      cases n with
      | zero => cases hn
      | succ n => exact hopen (Option.some.inj hn)
    have hat := Lexeme.symbol_at first tail
    generalize Lexeme.symbol first tail = found at hat ⊢
    cases hat with
    | mark marks => exact Symbol.fits_of_mark? marks
    | @reference n equals follows =>
      obtain ⟨space, rest, rfl, -, -, rfl⟩ := Symbol.exists_reference follows
      have htake : (first :: (space ++ Byte.ampersand :: rest)).take (1 + (space.length + 1)) =
          0x3D :: (space ++ [Byte.ampersand]) := by
        rw [equals, Nat.add_comm, List.take_succ_cons, List.take_length_add_append]
        rfl
      refine ⟨?_, hhead _⟩
      show ascii "=&" = Symbol.spelling ((first :: _).take (1 + (space.length + 1)))
      rw [htake, Symbol.spelling_reference]
    | arrow _ => exact Form.fits_fixed rfl (by decide)
    | spelled => exact ⟨(Symbol.spelling_take_length first tail).symm, hhead _⟩

/-- The bytes of a lexeme that stands at a byte fit its form. -/
theorem Construct.fits_of_scan {options : Options} {first : UInt8} {tail : Bytes} {found : Lexeme}
    (scan : Construct.scan options first tail = .lexeme found) :
    found.form.Fits ((first :: tail).take found.length) := by
  have hat := scan_at options first tail
  rw [scan] at hat
  cases hat with
  | word _ => rfl
  | numeral _ _ => exact Lexeme.fits_numeral _ _
  | symbol _ _ _ _ _ => exact Lexeme.fits_symbol first tail
  | string _ _ =>
    exact Lexeme.Form.fits_fixed_of_isString (Quoted.isBare_kind first) (Quoted.isString_kind first)
  | openString _ _ _ =>
    exact Lexeme.Form.fits_fixed_of_isString (Quoted.isBare_kind first) (Quoted.isString_kind first)
  | heredoc _ _ _ =>
    exact Lexeme.Form.fits_fixed_of_isString (Heredoc.isBare_kind _) (Heredoc.isString_kind _)
  | openHeredoc _ _ _ _ =>
    exact Lexeme.Form.fits_fixed_of_isString (Heredoc.isBare_kind _) (Heredoc.isString_kind _)

end TemplateScript
