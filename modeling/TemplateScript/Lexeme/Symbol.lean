import TemplateScript.Lexeme.Basic

/-!
# Symbols

Punctuation with a kind of its own, and candidate operators.  A candidate is the first spelling of
`Symbol.spellings` that stands ahead, or else a single byte.  A lone `=`, white space and a lone
`&` together are one candidate, spelled `=&`.
-/

namespace TemplateScript

namespace Symbol

/-- The operator symbols of more than one byte; a longer one comes before those it begins with. -/
def spellings : List Bytes :=
  ["===", "!==", "<<=", ">>=", "==", "!=", "<>", "<=", ">=", "<<", ">>", "=>", "->", "&&", "||",
   "++", "--", "+=", "-=", "*=", "/=", "%=", "^=", ".=", "&=", "|=", "::"].map ascii

/-- The length of the candidate at the start of `bs`. -/
def length (bs : Bytes) : Nat :=
  match spellings.find? (·.isPrefixOf bs) with
  | some spelling => spelling.length
  | none => 1

/-- How many bytes after an `=` complete a reference assignment: white space and an `&` that no
second `&` follows. -/
def referenceLength? (bs : Bytes) : Option Nat :=
  let space := Bytes.runLength Byte.isSpace bs
  match bs.drop space with
  | b :: rest =>
    if b = Byte.ampersand ∧ rest.head? ≠ some Byte.ampersand then some (space + 1) else none
  | [] => none

/-- The form of a byte that is punctuation by itself. -/
def mark? (b : UInt8) : Option Lexeme.Form :=
  if b = Byte.dollar then some (.fixed .dollar)
  else if b = Byte.openCurly then some (.fixed .openCurly)
  else if b = Byte.closeCurly then some (.fixed .closeCurly)
  else if b = Byte.openParen then some (.fixed .openParen)
  else if b = Byte.closeParen then some .closeParen
  else if b = Byte.openBracket then some (.annotated .openBracket (ascii "["))
  else if b = Byte.closeBracket then some (.fixed .closeBracket)
  else if b = Byte.comma then some (.annotated .comma (ascii ","))
  else if b = Byte.semicolon then some (.fixed .semicolon)
  else if b = Byte.colon then some (.fixed .colon)
  else if b = Byte.backslash then some (.fixed .namespaceSeparator)
  else none

theorem length_pos (bs : Bytes) : 0 < length bs := by
  unfold length
  split
  · next spelling h =>
    have hs : ∀ s ∈ spellings, 0 < s.length := by decide
    exact hs spelling (List.mem_of_find?_eq_some h)
  · decide

theorem length_le {bs : Bytes} (h : bs ≠ []) : length bs ≤ bs.length := by
  unfold length
  split
  · next spelling hs =>
    have hp : spelling.isPrefixOf bs = true := by simpa using List.find?_some hs
    exact (List.isPrefixOf_iff_prefix.mp hp).length_le
  · exact List.length_pos_iff.mpr h

theorem referenceLength?_le {bs : Bytes} {n : Nat} (h : referenceLength? bs = some n) :
    n ≤ bs.length := by
  simp only [referenceLength?] at h
  split at h
  · next b rest hd =>
    have hlt : Bytes.runLength Byte.isSpace bs < bs.length := by
      rw [← Nat.sub_pos_iff_lt, ← List.length_drop, hd]
      exact Nat.succ_pos _
    split at h
    · cases h; exact hlt
    · cases h
  · cases h

end Symbol

/-- The candidate operator at the start of `bs`. -/
def Lexeme.candidate (bs : Bytes) : Lexeme :=
  let length := Symbol.length bs
  let spelling := bs.take length
  if spelling = ascii "=" then
    match Symbol.referenceLength? (bs.drop 1) with
    | some reference => .whole (.symbol (ascii "=&")) (1 + reference)
    | none => .whole (.symbol spelling) length
  else if spelling = ascii "=>" then .whole (.fixed .arrayArrow) length
  else .whole (.symbol spelling) length

/-- The punctuation or candidate operator at the start of `first :: tail`. -/
def Lexeme.symbol (first : UInt8) (tail : Bytes) : Lexeme :=
  match Symbol.mark? first with
  | some form =>
    if Symbol.length (first :: tail) = 1 then .whole form 1 else .candidate (first :: tail)
  | none => .candidate (first :: tail)

theorem Lexeme.length_candidate_pos (bs : Bytes) : 0 < (Lexeme.candidate bs).length := by
  have := Symbol.length_pos bs
  unfold Lexeme.candidate
  simp only [Lexeme.whole]
  split
  · split
    · exact Nat.lt_of_lt_of_le Nat.zero_lt_one (Nat.le_add_right _ _)
    · exact this
  · split <;> exact this

theorem Lexeme.length_candidate_le {bs : Bytes} (h : bs ≠ []) :
    (Lexeme.candidate bs).length ≤ bs.length := by
  have := Symbol.length_le h
  unfold Lexeme.candidate
  simp only [Lexeme.whole]
  split
  · split
    · next reference hr =>
      have := Symbol.referenceLength?_le hr
      have := List.length_pos_iff.mpr h
      simp only [List.length_drop] at *
      omega
    · exact this
  · split <;> exact this

theorem Lexeme.length_symbol_pos (first : UInt8) (tail : Bytes) :
    0 < (Lexeme.symbol first tail).length := by
  unfold Lexeme.symbol
  split
  · split
    · exact Nat.zero_lt_one
    · exact length_candidate_pos _
  · exact length_candidate_pos _

theorem Lexeme.length_symbol_le (first : UInt8) (tail : Bytes) :
    (Lexeme.symbol first tail).length ≤ tail.length + 1 := by
  have h := Lexeme.length_candidate_le (List.cons_ne_nil first tail)
  unfold Lexeme.symbol
  split
  · split
    · exact Nat.succ_le_succ (Nat.zero_le _)
    · exact h
  · exact h

end TemplateScript
