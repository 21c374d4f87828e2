import TemplateScript.Proofs.Resolver
import TemplateScript.Proofs.Symbol

/-!
# The longest operator ahead

A candidate is measured by the list of symbols, and what it means is read in the table of operators.
The two are kept apart, and they agree: of the prefixes of a text that are operators the candidate is
the longest.

* `Symbol.Known` — the lexemes that mean something as they stand: `=>` and the operators;
* `Symbol.length_le_length_of_mem` — no longer symbol of the list is ahead than the candidate;
* `Symbol.known_of_mem`, `Symbol.known_byte` and `Symbol.mem_spellings_of_known` — the list and the table
  have the same lexemes of more than one byte, of those that begin with a byte of an operator;
* `Symbol.length_isLongest` — the candidate is the longest known lexeme.
-/

namespace TemplateScript.Symbol

variable {first : UInt8} {tail bs lexeme spelling : Bytes} {previous : Option Token}

/-- `=>`, or what the standard table reads as an operator after the token `previous`.  `=&` is not
counted, because white space may stand within it. -/
def Known (previous : Option Token) (lexeme : Bytes) : Prop :=
  lexeme = ascii "=>" ∨
    lexeme ≠ ascii "=&" ∧ ∃ op, Resolver.standard ⟨lexeme, previous⟩ = some op

/-- The bytes that operators of more than one symbol begin with, `::` aside.  Each of them is an operator
by itself. -/
def operatorBytes : Bytes := ascii "=!&|+-*/%^.<>"

/-! ### The list of symbols -/

/-- The first symbol of the list that is ahead is as long as any: no symbol stands behind a shorter
one. -/
theorem length_le_length_of_mem (mem : spelling ∈ spellings) (begins : spelling <+: bs) :
    spelling.length ≤ length bs := by
  have sorted : spellings.Pairwise fun a b => b.length ≤ a.length := by decide
  have hbegins : spelling.isPrefixOf bs = true := List.isPrefixOf_iff_prefix.mpr begins
  rw [length]
  cases hfind : spellings.find? (·.isPrefixOf bs) with
  | none => exact absurd hbegins (List.find?_eq_none.mp hfind spelling mem)
  | some found =>
    -- the spelling is the one that was found, or stands behind it and is no longer
    obtain ⟨-, before, after, hsplit, hbefore⟩ := List.find?_eq_some_iff_append.mp hfind
    rw [hsplit] at mem sorted
    rcases List.mem_append.mp mem with hmem | hmem
    · have hnot := hbefore spelling hmem
      rw [hbegins] at hnot
      cases hnot
    · rcases List.mem_cons.mp hmem with rfl | hmem
      · exact Nat.le_refl _
      · obtain ⟨-, hafter, -⟩ := List.pairwise_append.mp sorted
        exact (List.pairwise_cons.mp hafter).1 spelling hmem

/-! ### The list and the table -/

/-- Every symbol of the list is known. -/
theorem known_of_mem (previous : Option Token) (mem : spelling ∈ spellings) :
    Known previous spelling := by
  have hlonger : ∀ spelling ∈ spellings, 1 < spelling.length := by decide
  by_cases harrow : spelling = ascii "=>"
  · exact Or.inl harrow
  refine Or.inr ⟨?_, ?_⟩
  · rintro rfl
    exact absurd mem (by decide)
  · obtain ⟨op, hop⟩ := Option.isSome_iff_exists.mp (isSome_ofLexeme?_of_mem spelling mem harrow)
    have hread := Resolver.standard_of_longer (q := ⟨spelling, previous⟩) (hlonger spelling mem)
    exact ⟨op, hread.trans hop⟩

/-- So is every byte that an operator can begin with. -/
theorem known_byte (previous : Option Token) (starts : first ∈ operatorBytes) :
    Known previous [first] := by
  have hbytes : ∀ b ∈ operatorBytes, (Operator.ofLexeme? [b]).isSome = true ∨
      [b] = ascii "+" ∨ [b] = ascii "-" ∨ [b] = ascii "&" := by
    decide +kernel
  refine Or.inr ⟨?_, ?_⟩
  · intro h
    cases congrArg List.length h
  cases hanswer : Resolver.standard ⟨[first], previous⟩ with
  | some op => exact ⟨op, rfl⟩
  | none =>
    obtain ⟨hfree, hplus, hminus, hampersand⟩ := Resolver.unknown_of_standard hanswer
    rcases hbytes first starts with h | h | h | h
    · rw [hfree] at h
      cases h
    · exact absurd h hplus
    · exact absurd h hminus
    · exact absurd h hampersand

/-- A known lexeme of more than one byte that begins like an operator is in the list. -/
theorem mem_spellings_of_known (starts : first ∈ operatorBytes) {more : Bytes} (longer : more ≠ [])
    (known : Known previous (first :: more)) : first :: more ∈ spellings := by
  have hreadings : ∀ reading ∈ Operator.fixedReadings,
      reading.1.head?.any (operatorBytes.contains ·) = true →
        reading.1.length ≤ 1 ∨ reading.1 = ascii "=&" ∨ reading.1 ∈ spellings := by
    decide +kernel
  have hlength : 1 < (first :: more).length :=
    Nat.succ_lt_succ (List.length_pos_iff.mpr longer)
  rcases known with harrow | ⟨hreference, op, hop⟩
  · rw [harrow]
    decide
  · have hop : Operator.ofLexeme? (first :: more) = some op :=
      (Resolver.standard_of_longer (q := ⟨first :: more, previous⟩) hlength).symm.trans hop
    have hfirst : (first :: more).head?.any (operatorBytes.contains ·) = true :=
      List.contains_iff_mem.mpr starts
    rcases hreadings _ (Operator.mem_fixedReadings hop) hfirst with hone | h | hmem
    · exact absurd hlength (Nat.not_lt.mpr hone)
    · exact absurd h hreference
    · exact hmem

/-! ### The candidate -/

/-- At a byte that an operator can begin with, the candidate is the longest prefix of what is ahead
that is known, whatever token comes before it. -/
theorem length_isLongest (starts : first ∈ operatorBytes) (tail : Bytes) (previous : Option Token) :
    ∃ text, Bytes.IsLongest (Known previous) (first :: tail) text ∧
      length (first :: tail) = text.length := by
  obtain ⟨more, rest, rfl, hlength, hmore⟩ := exists_length first tail
  have htext : length (first :: (more ++ rest)) = (first :: more).length :=
    hlength.trans (Nat.add_comm 1 more.length)
  refine ⟨first :: more, ⟨?_, ⟨rest, rfl⟩, fun other known begins => ?_⟩, htext⟩
  · rcases hmore with rfl | hmem
    · exact known_byte previous starts
    · exact known_of_mem previous hmem
  · rw [← htext]
    match other with
    | [] => exact Nat.zero_le _
    | [b] => exact length_pos _
    | b :: c :: others =>
      obtain ⟨rest', hrest'⟩ := begins
      obtain ⟨rfl, -⟩ := List.cons.inj hrest'
      have hmem := mem_spellings_of_known starts (List.cons_ne_nil c others) known
      exact length_le_length_of_mem hmem ⟨rest', hrest'⟩

/-- Three bytes of `!===` are the longest, although one and two of them are operators too; `=&&` begins
with an assignment only. -/
theorem length_isLongest_notIdentical :
    0x21 ∈ operatorBytes ∧ Bytes.IsLongest (Known none) (ascii "!===") (ascii "!==") ∧
      0x3D ∈ operatorBytes ∧ Bytes.IsLongest (Known none) (ascii "=&&") (ascii "=") := by
  have hbang : 0x21 ∈ operatorBytes := by decide
  have hequals : 0x3D ∈ operatorBytes := by decide
  obtain ⟨text, hlongest, hlength⟩ := length_isLongest hbang (ascii "===") none
  obtain ⟨text', hlongest', hlength'⟩ := length_isLongest hequals (ascii "&&") none
  have htext : text = ascii "!==" := by
    rw [List.prefix_iff_eq_take.mp hlongest.begins, ← hlength]
    decide
  have htext' : text' = ascii "=" := by
    rw [List.prefix_iff_eq_take.mp hlongest'.begins, ← hlength']
    decide
  exact ⟨hbang, htext ▸ hlongest, hequals, htext' ▸ hlongest'⟩

end TemplateScript.Symbol
