import TemplateScript.Lexeme.Comment
import TemplateScript.Lexeme.Heredoc
import TemplateScript.Lexeme.Numeral
import TemplateScript.Lexeme.Quoted
import TemplateScript.Lexeme.Symbol
import TemplateScript.Lexeme.Word

/-!
# What lies ahead

`Construct.scan` reads the one construct that stands at a byte, and `Ahead.of` passes white space
and comments up to the first construct that is neither.  Both see nothing but the bytes ahead and
the options, so what is found does not depend on operator tables, earlier tokens or the position in
a larger text.

* `Construct.length_scan`: a construct takes at least one byte and no more than there are.
* `Ahead.length_of`: so do the bytes skipped together with what was found after them.
-/

namespace TemplateScript

/-- The construct at `first`, which is not white space; `tail` is what follows that byte. -/
def Construct.scan (options : Options) (first : UInt8) (tail : Bytes) : Construct :=
  if Byte.isWordStart first then .lexeme (.word (first :: tail))
  else if Byte.isDigit first then .lexeme (.numeral (first :: tail))
  else if Byte.isQuote first then Quoted.scan options.isStrict first tail
  else
    match Comment.scan? first tail with
    | some found =>
      if options.isStrict ∧ found.closed = false then .fault .unterminatedComment found.length
      else .comment found.length
    | none =>
      let heredoc? :=
        if (ascii "<<<").isPrefixOf (first :: tail) then Heredoc.scan? options (tail.drop 2)
        else none
      heredoc?.getD (.lexeme (.symbol first tail))

/-- A construct takes at least one byte and no more than there are. -/
theorem Construct.length_scan (options : Options) (first : UInt8) (tail : Bytes) :
    0 < (Construct.scan options first tail).length ∧
      (Construct.scan options first tail).length ≤ tail.length + 1 := by
  unfold Construct.scan
  split
  · next h =>
    refine ⟨Word.length_pos ?_ tail, Word.length_le (first :: tail)⟩
    simp only [Byte.isWordStart, Byte.isWordByte, Bool.or_eq_true] at h ⊢
    rcases h with (h | h) | h <;> simp [h]
  · split
    · next h => exact ⟨Lexeme.length_numeral_pos h tail, Lexeme.length_numeral_le (first :: tail)⟩
    · split
      · rw [Quoted.length_scan]
        exact ⟨Quoted.length_pos first tail, Quoted.length_le first tail⟩
      · split
        · next found hf =>
          have := Comment.length_of_scan? hf
          split <;> exact this
        · simp only []
          split
          · next hp =>
            cases hs : Heredoc.scan? options (tail.drop 2) with
            | none =>
              exact ⟨Lexeme.length_symbol_pos first tail, Lexeme.length_symbol_le first tail⟩
            | some found =>
              have hl := Heredoc.length_of_scan? hs
              have hp := (List.isPrefixOf_iff_prefix.mp hp).length_le
              have h3 : (ascii "<<<").length = 3 := rfl
              simp only [List.length_cons, List.length_drop, h3] at hl hp
              exact ⟨hl.1, show found.length ≤ _ by omega⟩
          · exact ⟨Lexeme.length_symbol_pos first tail, Lexeme.length_symbol_le first tail⟩

/-- The first thing that is neither white space nor a comment. -/
inductive Ahead.Found
  | endOfInput
  | fault (cause : Fault) (length : Nat)
  | lexeme (found : Lexeme)
deriving DecidableEq, Repr

/-- The number of bytes that were found: none at the end of the input. -/
def Ahead.Found.length : Ahead.Found → Nat
  | endOfInput => 0
  | fault _ length => length
  | lexeme found => found.length

/-- What lies ahead: how many bytes of white space and comments, and what comes after them. -/
structure Ahead where
  skipped : Nat
  found : Ahead.Found
deriving DecidableEq, Repr

namespace Ahead

/-- What lies ahead in a text after `skipped` bytes of white space and comments. -/
def after (options : Options) (skipped : Nat) : Bytes → Ahead
  | [] => ⟨skipped, .endOfInput⟩
  | first :: tail =>
    if Byte.isSpace first then after options (skipped + 1) tail
    else
      match Construct.scan options first tail with
      | .comment length => after options (skipped + length) (tail.drop (length - 1))
      | .fault cause length => ⟨skipped, .fault cause length⟩
      | .lexeme found => ⟨skipped, .lexeme found⟩
termination_by bs => bs.length
decreasing_by
  · exact Nat.lt_succ_self _
  · simp only [List.length_drop, List.length_cons]
    omega

/-- What lies ahead in `bs`. -/
def of (options : Options) (bs : Bytes) : Ahead := after options 0 bs

/-- Where the count starts only shifts the number of bytes skipped. -/
theorem after_eq (options : Options) (skipped : Nat) (bs : Bytes) :
    after options skipped bs = ⟨skipped + (of options bs).skipped, (of options bs).found⟩ := by
  unfold of
  suffices h : ∀ m n, after options (m + n) bs =
      ⟨m + (after options n bs).skipped, (after options n bs).found⟩ from h skipped 0
  intro m n
  fun_induction after options n bs with
  | case1 n => simp only [after]
  | case2 n first tail hs ih => simp only [after, hs, if_true, Nat.add_assoc, ih]
  | case3 n first tail hs length hc ih =>
    simp only [after, hs, hc, Nat.add_assoc, ih, Bool.false_eq_true, if_false]
  | case4 n first tail hs cause length hc =>
    simp only [after, hs, hc, Bool.false_eq_true, if_false]
  | case5 n first tail hs found hc =>
    simp only [after, hs, hc, Bool.false_eq_true, if_false]

/-! ### One construct at a time -/

@[simp] theorem of_nil (options : Options) : of options [] = ⟨0, .endOfInput⟩ := by
  rw [of, after]

theorem of_space {options : Options} {first : UInt8} {tail : Bytes}
    (h : Byte.isSpace first = true) :
    of options (first :: tail) = ⟨1 + (of options tail).skipped, (of options tail).found⟩ := by
  rw [of, after, if_pos h, Nat.zero_add, after_eq]

theorem of_comment {options : Options} {first : UInt8} {tail : Bytes} {length : Nat}
    (h : Byte.isSpace first = false) (hc : Construct.scan options first tail = .comment length) :
    of options (first :: tail) =
      ⟨length + (of options (tail.drop (length - 1))).skipped,
        (of options (tail.drop (length - 1))).found⟩ := by
  rw [of, after, h, hc, if_neg Bool.false_ne_true]
  show after options (0 + length) (tail.drop (length - 1)) = _
  rw [Nat.zero_add, after_eq]

theorem of_fault {options : Options} {first : UInt8} {tail : Bytes} {cause : Fault} {length : Nat}
    (h : Byte.isSpace first = false)
    (hc : Construct.scan options first tail = .fault cause length) :
    of options (first :: tail) = ⟨0, .fault cause length⟩ := by
  rw [of, after, h, hc, if_neg Bool.false_ne_true]

theorem of_lexeme {options : Options} {first : UInt8} {tail : Bytes} {found : Lexeme}
    (h : Byte.isSpace first = false) (hc : Construct.scan options first tail = .lexeme found) :
    of options (first :: tail) = ⟨0, .lexeme found⟩ := by
  rw [of, after, h, hc, if_neg Bool.false_ne_true]

/-! ### Bounds -/

theorem length_after (options : Options) (skipped : Nat) (bs : Bytes) :
    ((after options skipped bs).found = .endOfInput →
        (after options skipped bs).skipped = skipped + bs.length) ∧
      ((after options skipped bs).found ≠ .endOfInput →
        0 < (after options skipped bs).found.length ∧
        (after options skipped bs).skipped + (after options skipped bs).found.length ≤
          skipped + bs.length) := by
  fun_induction after options skipped bs with
  | case1 skipped => exact ⟨fun _ => rfl, fun h => absurd rfl h⟩
  | case2 skipped first tail _ ih =>
    rw [List.length_cons]
    exact ⟨fun h => by have := ih.1 h; omega, fun h => by have := ih.2 h; omega⟩
  | case3 skipped first tail _ length hc ih =>
    have hl := Construct.length_scan options first tail
    rw [hc] at hl
    simp only [Construct.length] at hl
    rw [List.length_drop] at ih
    rw [List.length_cons]
    exact ⟨fun h => by have := ih.1 h; omega, fun h => by have := ih.2 h; omega⟩
  | case4 skipped first tail _ cause length hc =>
    have hl := Construct.length_scan options first tail
    rw [hc] at hl
    simp only [Construct.length] at hl
    refine ⟨fun h => ?_, fun _ => ⟨hl.1, Nat.add_le_add_left hl.2 skipped⟩⟩
    cases h
  | case5 skipped first tail _ found hc =>
    have hl := Construct.length_scan options first tail
    rw [hc] at hl
    simp only [Construct.length] at hl
    refine ⟨fun h => ?_, fun _ => ⟨hl.1, Nat.add_le_add_left hl.2 skipped⟩⟩
    cases h

/-- At the end of the input everything was skipped; otherwise at least one byte was found, and it
lies within the text. -/
theorem length_of (options : Options) (bs : Bytes) :
    ((of options bs).found = .endOfInput → (of options bs).skipped = bs.length) ∧
      ((of options bs).found ≠ .endOfInput →
        0 < (of options bs).found.length ∧
        (of options bs).skipped + (of options bs).found.length ≤ bs.length) := by
  simpa [of] using length_after options 0 bs

end Ahead

end TemplateScript
