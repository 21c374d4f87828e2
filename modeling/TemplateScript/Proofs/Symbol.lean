import TemplateScript.Lexeme.Symbol
import TemplateScript.Proofs.Bytes

/-!
# What a symbol can be

* `Symbol.isMark_of_mark?` — a byte that is punctuation by itself has the form of punctuation;
* `Symbol.exists_length` — a candidate is a spelling of the list or a single byte;
* `Symbol.isSome_ofLexeme?_of_mem` — the spellings of the list are in the table of operators;
* `Symbol.At` and `Lexeme.symbol_at` — what a symbol can be, case by case, and that nothing else
  can.
-/

namespace TemplateScript

/-- The kinds of punctuation. -/
def Token.Kind.isMark : Token.Kind → Bool
  | .dollar | .openCurly | .closeCurly | .openParen | .closeParen | .openBracket | .closeBracket
  | .comma | .semicolon | .colon | .namespaceSeparator => true
  | _ => false

/-- The forms of punctuation. -/
def Lexeme.Form.isMark : Lexeme.Form → Bool
  | .fixed kind | .annotated kind _ => kind.isMark
  | .closeParen => true
  | _ => false

namespace Symbol

variable {first : UInt8} {tail bs : Bytes}

theorem isMark_of_mark? {form : Lexeme.Form} (h : mark? first = some form) :
    form.isMark = true := by
  have hall : ∀ b, (mark? b).all Lexeme.Form.isMark = true := by decide +kernel
  simpa [h] using hall first

/-- A candidate is its first byte, or that byte and more that make up a spelling of the list. -/
theorem exists_length (first : UInt8) (tail : Bytes) :
    ∃ more rest, tail = more ++ rest ∧ length (first :: tail) = 1 + more.length ∧
      (more = [] ∨ first :: more ∈ spellings) := by
  rw [length]
  split
  · next spelling hfind =>
    have hmem := List.mem_of_find?_eq_some hfind
    have hprefix : spelling.isPrefixOf (first :: tail) = true := by
      simpa using List.find?_some hfind
    obtain ⟨rest, hrest⟩ := List.isPrefixOf_iff_prefix.mp hprefix
    cases spelling with
    | nil => exact absurd hmem (by decide)
    | cons b more =>
      obtain ⟨rfl, rfl⟩ := List.cons.inj hrest
      exact ⟨more, rest, rfl, Nat.add_comm more.length 1, Or.inr hmem⟩
  · exact ⟨[], tail, rfl, rfl, Or.inl rfl⟩

/-- A spelling of the list other than `=>` is always the same operator. -/
theorem isSome_ofLexeme?_of_mem : ∀ spelling ∈ spellings, spelling ≠ ascii "=>" →
    (Operator.ofLexeme? spelling).isSome = true := by
  decide

/-- A reference assignment goes on with white space and one `&`. -/
theorem exists_reference {n : Nat} (h : referenceLength? bs = some n) :
    ∃ space rest, bs = space ++ Byte.ampersand :: rest ∧
      (∀ b ∈ space, Byte.isSpace b = true) ∧ rest.head? ≠ some Byte.ampersand ∧
      n = space.length + 1 := by
  rw [referenceLength?] at h
  have hle := Bytes.runLength_le Byte.isSpace bs
  have hsplit := List.take_append_drop (Bytes.runLength Byte.isSpace bs) bs
  split at h
  · next b rest hdrop =>
    split at h
    · next hb =>
      cases h
      refine ⟨bs.take (Bytes.runLength Byte.isSpace bs), rest, ?_,
        fun b hb => Bytes.of_mem_take_runLength hb, hb.2, ?_⟩
      · rw [← hb.1, ← hdrop, hsplit]
      · rw [List.length_take, Nat.min_eq_left hle]
    · cases h
  · cases h

/-- The symbol that stands at `first`, before `tail`. -/
inductive At (first : UInt8) (tail : Bytes) : Lexeme → Prop
  | mark {form : Lexeme.Form} (marks : mark? first = some form) : At first tail (.whole form 1)
  | reference {n : Nat} (equals : first = 0x3D) (follows : referenceLength? tail = some n) :
      At first tail (.whole (.symbol (ascii "=&")) (1 + n))
  | arrow (spells : (first :: tail).take (length (first :: tail)) = ascii "=>") :
      At first tail (.whole (.fixed .arrayArrow) (length (first :: tail)))
  | spelled : At first tail
      (.whole (.symbol ((first :: tail).take (length (first :: tail)))) (length (first :: tail)))

theorem candidate_at (first : UInt8) (tail : Bytes) : At first tail (.candidate (first :: tail)) := by
  rw [Lexeme.candidate]
  split
  · next hequals =>
    split
    · next n follows =>
      refine .reference ?_ follows
      obtain ⟨n, hn⟩ := Nat.exists_eq_succ_of_ne_zero (Nat.ne_of_gt (length_pos (first :: tail)))
      rw [hn, List.take_succ_cons] at hequals
      exact (List.cons.inj hequals).1
    · exact .spelled
  · split
    · next hspells => exact .arrow hspells
    · exact .spelled

end Symbol

/-- The list of symbols is complete. -/
theorem Lexeme.symbol_at (first : UInt8) (tail : Bytes) :
    Symbol.At first tail (Lexeme.symbol first tail) := by
  rw [Lexeme.symbol]
  split
  · next form hform =>
    split
    · exact .mark hform
    · exact Symbol.candidate_at first tail
  · exact Symbol.candidate_at first tail

end TemplateScript
