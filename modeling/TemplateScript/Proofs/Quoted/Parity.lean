import Mathlib.Algebra.Group.Nat.Even
import Mathlib.Order.Bounds.Basic
import TemplateScript.Proofs.Quoted.Skip

/-!
# Backslashes before a quote

Between quotes other than double quotes, a quote closes the string when the backslashes right before
it come in pairs.  The reader looks forward and takes the byte after a backslash with it; here it is
related to a count that looks back from a quote.  The invariant is `Quoted.modeAfter`: the reader
stands right behind a backslash of the body when the bytes read so far end with an odd number of
them.

* `Quoted.closing?_isLeast` and `Quoted.closing?_eq_none` — the closing quote is the first quote
  after an even number of backslashes;
* `Cursor.skipQuoted_unescaped` — the reader that moves a cursor, from everywhere in every source.
-/

namespace TemplateScript

namespace Quoted

/-- The number of backslashes at the end of a text. -/
def backslashes (bs : Bytes) : Nat := Bytes.runLength (· == Byte.backslash) bs.reverse

/-- Behind `before`, a quote stands `n` bytes further on in `bs`, and an even number of backslashes
right before it. -/
def UnescapedAt (quote : UInt8) (before bs : Bytes) (n : Nat) : Prop :=
  bs[n]? = some quote ∧ Even (backslashes (before ++ bs.take n))

/-- Where a reader stands after the bytes of `before`. -/
def modeAfter (before : Bytes) : Mode :=
  if Even (backslashes before) then .body else .bodyEscape

variable {quote b : UInt8} {before bs : Bytes} {n : Nat}

theorem backslashes_concat_backslash (before : Bytes) :
    backslashes (before ++ [Byte.backslash]) = backslashes before + 1 := by
  rw [backslashes, List.reverse_append]
  exact Bytes.runLength_cons_of_pos rfl _

theorem backslashes_concat (before : Bytes) (hb : b ≠ Byte.backslash) :
    backslashes (before ++ [b]) = 0 := by
  rw [backslashes, List.reverse_append]
  exact Bytes.runLength_cons_of_neg (p := (· == Byte.backslash)) (beq_false_of_ne hb) _

theorem modeAfter_eq_body : modeAfter before = .body ↔ Even (backslashes before) := by
  rw [modeAfter]
  split
  · next h => exact iff_of_true rfl h
  · next h => exact iff_of_false nofun h

/-- The parity of the backslashes is all that the reader keeps. -/
theorem next_modeAfter (hquote : quote ≠ Byte.doubleQuote) (before : Bytes) (b : UInt8)
    (ahead : Option UInt8) : (modeAfter before).next quote b ahead = modeAfter (before ++ [b]) := by
  have hregion : ¬ (quote = Byte.doubleQuote ∧ b = Byte.openCurly ∧ ahead = some Byte.dollar) :=
    fun h => hquote h.1
  rw [modeAfter, modeAfter]
  by_cases hb : b = Byte.backslash
  · subst hb
    rw [backslashes_concat_backslash]
    by_cases heven : Even (backslashes before)
    · rw [if_pos heven, if_neg fun h => Nat.even_add_one.mp h heven, Mode.next, if_pos rfl]
    · rw [if_neg heven, if_pos (Nat.even_add_one.mpr heven), Mode.next]
  · rw [backslashes_concat before hb, if_pos Even.zero]
    by_cases heven : Even (backslashes before)
    · rw [if_pos heven, Mode.next, if_neg hb, if_neg hregion]
    · rw [if_neg heven, Mode.next]

theorem unescapedAt_zero :
    UnescapedAt quote before (b :: bs) 0 ↔ modeAfter before = .body ∧ b = quote := by
  rw [UnescapedAt, modeAfter_eq_body, List.take_zero, List.append_nil, and_comm]
  exact and_congr_right fun _ => Option.some_inj

theorem unescapedAt_succ :
    UnescapedAt quote before (b :: bs) (n + 1) ↔ UnescapedAt quote (before ++ [b]) bs n := by
  rw [UnescapedAt, UnescapedAt, List.take_succ_cons, List.append_assoc]
  rfl

theorem closingFrom?_isLeast (before : Bytes) (hquote : quote ≠ Byte.doubleQuote)
    (h : closingFrom? quote 0 (modeAfter before) bs = some n) :
    IsLeast {n | UnescapedAt quote before bs n} n := by
  induction bs generalizing before n with
  | nil => cases h
  | cons b bs ih =>
    by_cases hb : modeAfter before = .body ∧ b = quote
    · rw [closingFrom?, if_pos hb] at h
      cases h
      exact ⟨unescapedAt_zero.mpr hb, fun n _ => Nat.zero_le n⟩
    · rw [closingFrom?_cons hb, next_modeAfter hquote] at h
      obtain ⟨m, hm, rfl⟩ := Option.map_eq_some_iff.mp h
      obtain ⟨hmem, hleast⟩ := ih _ hm
      rw [Nat.add_comm]
      refine ⟨unescapedAt_succ.mpr hmem, fun k hk => ?_⟩
      cases k with
      | zero => exact absurd (unescapedAt_zero.mp hk) hb
      | succ k => exact Nat.succ_le_succ (hleast (unescapedAt_succ.mp hk))

theorem closingFrom?_eq_none (before : Bytes) (hquote : quote ≠ Byte.doubleQuote)
    (h : closingFrom? quote 0 (modeAfter before) bs = none) (n : Nat) :
    ¬ UnescapedAt quote before bs n := by
  induction bs generalizing before n with
  | nil => exact fun hn => nomatch hn.1
  | cons b bs ih =>
    by_cases hb : modeAfter before = .body ∧ b = quote
    · rw [closingFrom?, if_pos hb] at h
      cases h
    · rw [closingFrom?_cons hb, next_modeAfter hquote, Option.map_eq_none_iff] at h
      cases n with
      | zero => exact fun hn => hb (unescapedAt_zero.mp hn)
      | succ n => exact fun hn => ih _ h n (unescapedAt_succ.mp hn)

/-- The closing quote is the first one after an even number of backslashes. -/
theorem closing?_isLeast (hquote : quote ≠ Byte.doubleQuote) (h : closing? quote bs = some n) :
    IsLeast {n | UnescapedAt quote [] bs n} n :=
  closingFrom?_isLeast [] hquote h

/-- Without a closing quote every quote comes after an odd number of backslashes. -/
theorem closing?_eq_none (hquote : quote ≠ Byte.doubleQuote) (h : closing? quote bs = none)
    (n : Nat) : ¬ UnescapedAt quote [] bs n :=
  closingFrom?_eq_none [] hquote h n

end Quoted

namespace Cursor

variable {c : Cursor} {quote : UInt8} {p : Nat}

/-- At offset `p`, not before the cursor, stands the quote, and between the cursor and it the bytes
end with an even number of backslashes. -/
def Unescaped (c : Cursor) (quote : UInt8) (p : Nat) : Prop :=
  c.offset ≤ p ∧ c.source[p]? = some quote ∧
    Even (Quoted.backslashes ((Span.between c.offset p).slice c.source))

theorem unescaped_iff :
    c.Unescaped quote p ↔ ∃ n, Quoted.UnescapedAt quote [] c.rest n ∧ c.offset + n = p := by
  refine (cut_iff (P := fun body => Even (Quoted.backslashes body))).trans ?_
  constructor
  · rintro ⟨body, rest, hrest, rfl, heven⟩
    refine ⟨body.length, ⟨?_, ?_⟩, rfl⟩
    · rw [hrest, List.getElem?_append_right (Nat.le_refl _), Nat.sub_self]
      rfl
    · rw [hrest, List.take_append_length]
      exact heven
  · rintro ⟨n, ⟨hn, heven⟩, rfl⟩
    obtain ⟨hlt, rfl⟩ := List.getElem?_eq_some_iff.mp hn
    refine ⟨c.rest.take n, c.rest.drop (n + 1), ?_, ?_, heven⟩
    · rw [← List.drop_eq_getElem_cons hlt, List.take_append_drop]
    · rw [List.length_take_of_le (Nat.le_of_lt hlt)]

theorem skipQuoted_isLeast (hquote : quote ≠ Byte.doubleQuote)
    (h : (c.skipQuoted quote).1 = some p) : IsLeast {p | c.Unescaped quote p} p := by
  obtain ⟨n, hn, rfl⟩ := skipQuoted_eq_some_iff.mp h
  obtain ⟨hmem, hleast⟩ := Quoted.closing?_isLeast hquote hn
  refine ⟨unescaped_iff.mpr ⟨n, hmem, rfl⟩, fun q hq => ?_⟩
  obtain ⟨m, hm, rfl⟩ := unescaped_iff.mp hq
  exact Nat.add_le_add_left (hleast hm) c.offset

theorem skipQuoted_none_iff (hquote : quote ≠ Byte.doubleQuote) :
    (c.skipQuoted quote).1 = none ↔ ∀ p, ¬ c.Unescaped quote p := by
  constructor
  · intro h p hp
    obtain ⟨n, hn, rfl⟩ := unescaped_iff.mp hp
    exact Quoted.closing?_eq_none hquote (skipQuoted_eq_none_iff.mp h) n hn
  · intro h
    exact Option.eq_none_iff_forall_ne_some.mpr fun p hp => h p (skipQuoted_isLeast hquote hp).1

/-- From any place of any source the reader finds the first quote that comes after an even number of
backslashes, counted no further back than where the reader began, and stops behind it; exactly where
there is none it finds nothing, and stops at the end. -/
theorem skipQuoted_unescaped (c : Cursor)
    (hquote : quote = Byte.singleQuote ∨ quote = Byte.backtick) :
    let skipped := c.skipQuoted quote
    (∀ p, skipped.1 = some p ↔ IsLeast {p | c.Unescaped quote p} p) ∧
      (∀ p, skipped.1 = some p → skipped.2.offset = p + 1) ∧
      (skipped.1 = none ↔ ∀ p, ¬ c.Unescaped quote p) ∧
      (skipped.1 = none → skipped.2.offset = c.source.length) := by
  have hne : quote ≠ Byte.doubleQuote := by rcases hquote with rfl | rfl <;> decide
  obtain ⟨hfound, hopen⟩ := c.offset_skipQuoted quote
  refine ⟨fun p => ⟨skipQuoted_isLeast hne, fun hp => ?_⟩, hfound, skipQuoted_none_iff hne, hopen⟩
  cases h : (c.skipQuoted quote).1 with
  | none => exact absurd hp.1 ((skipQuoted_none_iff hne).mp h p)
  | some q => rw [(skipQuoted_isLeast hne h).unique hp]

/-- Of the two quotes in `\' '` the second one closes the string. -/
theorem skipQuoted_unescaped_apostrophe :
    let c := Cursor.start (ascii "\\' '") .first
    (c.skipQuoted Byte.singleQuote).1 = some 3 ∧ (c.skipQuoted Byte.singleQuote).2.offset = 4 ∧
      IsLeast {p | c.Unescaped Byte.singleQuote p} 3 := by
  intro c
  have hfound : (c.skipQuoted Byte.singleQuote).1 = some 3 := by decide +kernel
  obtain ⟨hleast, hoffset, -, -⟩ := c.skipQuoted_unescaped (.inl rfl)
  exact ⟨hfound, hoffset 3 hfound, (hleast 3).mp hfound⟩

end Cursor

end TemplateScript
