import TemplateScript.Proofs.Lexer.Fault
import TemplateScript.Proofs.Template.Passing

/-!
# Runs of `<`

At a run of three or more `<` the lexer and the search for a closing tag do not go in step.  The
lexer reads shifts, two bytes at a time, and tries a heredoc before each; the search goes three
bytes at a time.  Only the last three bytes of a run can open a heredoc.

* `Construct.reads_shifts`, `Construct.reads_run` — the lexer comes to the last three bytes of an
  odd run, and to the end of an even one;
* `Template.passes_marks`, `Template.passes_run` — the search comes to the last three bytes of a run
  whose length is a multiple of three, and to the end of any other.
-/

namespace TemplateScript

/-- `count` bytes `<`. -/
def marks (count : Nat) : Bytes := List.replicate count Byte.less

theorem marks_succ (count : Nat) : marks (count + 1) = Byte.less :: marks count := rfl

theorem marks_add (m n : Nat) : marks (m + n) = marks m ++ marks n :=
  List.replicate_append_replicate.symm

/-- A text is a run of `<` and something else. -/
theorem exists_marks (bs : Bytes) :
    ∃ count rest, bs = marks count ++ rest ∧ rest.head? ≠ some Byte.less := by
  induction bs with
  | nil => exact ⟨0, [], rfl, nofun⟩
  | cons b bs ih =>
    by_cases hb : b = Byte.less
    · obtain ⟨count, rest, rfl, hrest⟩ := ih
      exact ⟨count + 1, rest, by rw [hb]; rfl, hrest⟩
    · exact ⟨0, b :: bs, rfl, fun h => hb (Option.some.inj h)⟩

theorem exists_marks_of_prefix {bs : Bytes} (h : ascii "<<<" <+: bs) :
    ∃ count rest, 3 ≤ count ∧ bs = marks count ++ rest ∧ rest.head? ≠ some Byte.less := by
  obtain ⟨more, rfl⟩ := h
  obtain ⟨count, rest, rfl, hrest⟩ := exists_marks more
  refine ⟨3 + count, rest, Nat.le_add_right 3 count, ?_, hrest⟩
  rw [marks_add, List.append_assoc]
  rfl

/-! ### What a `<` opens -/

/-- No heredoc opens before a further `<`. -/
theorem Heredoc.readOpener_less (rule : DelimiterRule) (bs : Bytes) :
    readOpener rule (Byte.less :: bs) = .error .absent := by
  cases rule <;> rfl

theorem Heredoc.scan?_of_absent {options : Options} {bs : Bytes}
    (h : readOpener options.delimiters bs = .error .absent) : scan? options bs = none := by
  rw [scan?, h]

theorem Heredoc.hiddenLength_of_error {rule : DelimiterRule} {bs : Bytes} {refusal : Refusal}
    (h : readOpener rule bs = .error refusal) : hiddenLength rule bs = 0 := by
  rw [hiddenLength, h]

/-- Two `<` make a shift, and perhaps an assignment of it. -/
theorem Symbol.length_shift (bs : Bytes) :
    Symbol.length (Byte.less :: Byte.less :: bs) = if bs.head? = some 0x3D then 3 else 2 := by
  cases bs with
  | nil => rfl
  | cons b bs =>
    by_cases h : b = 0x3D
    · subst h
      rfl
    · have hb : ((0x3D : UInt8) == b) = false := by
        rw [beq_eq_false_iff_ne]
        exact fun he => h he.symm
      simp [Symbol.length, spellings, ascii, h, hb, Byte.less, List.find?, List.isPrefixOf]

theorem Symbol.length_of_less {tail : Bytes} {found : Lexeme} (h : At Byte.less tail found) :
    found.length = length (Byte.less :: tail) := by
  cases h with
  | mark marks => cases marks
  | reference equals _ => cases equals
  | arrow _ => rfl
  | spelled => rfl

namespace Construct

variable {options : Options} {tail rest bs : Bytes}

/-- Unless a heredoc opens, a `<` begins a symbol. -/
theorem scan_less
    (h : ∀ bs, tail = Byte.less :: Byte.less :: bs → Heredoc.scan? options bs = none) :
    scan options Byte.less tail = .lexeme (.symbol Byte.less tail) := by
  have hnone : (if (ascii "<<<").isPrefixOf (Byte.less :: tail) = true then
      Heredoc.scan? options (tail.drop 2) else none) = none := by
    split
    · next hmarks =>
      obtain ⟨bs, hbs⟩ := List.isPrefixOf_iff_prefix.mp hmarks
      obtain rfl : tail = Byte.less :: Byte.less :: bs := (List.cons.inj hbs).2.symm
      exact h bs rfl
    · rfl
  show (Option.getD (if (ascii "<<<").isPrefixOf (Byte.less :: tail) = true then
      Heredoc.scan? options (tail.drop 2) else none) _) = _
  rw [hnone]
  rfl

/-- A heredoc that opens is what stands at its `<<<`. -/
theorem scan_of_heredoc {found : Construct} (h : Heredoc.scan? options bs = some found) :
    scan options Byte.less (Byte.less :: Byte.less :: bs) = found := by
  have hmarks : (ascii "<<<").isPrefixOf (Byte.less :: Byte.less :: Byte.less :: bs) = true :=
    List.isPrefixOf_iff_prefix.mpr ⟨bs, rfl⟩
  show (Option.getD (if (ascii "<<<").isPrefixOf (Byte.less :: Byte.less :: Byte.less :: bs) = true
    then Heredoc.scan? options bs else none) _) = _
  rw [hmarks, if_pos rfl, h]
  rfl

theorem reads_symbol (options : Options) (tail : Bytes)
    (h : ∀ bs, tail = Byte.less :: Byte.less :: bs → Heredoc.scan? options bs = none) :
    Reads options (Byte.less :: tail) (tail.drop (Symbol.length (Byte.less :: tail) - 1)) := by
  rw [← Symbol.length_of_less (Lexeme.symbol_at Byte.less tail)]
  exact Reads.of_lexeme rfl (scan_less h)

/-! ### The lexer -/

/-- Before a further `<`, and where no heredoc opens, the lexer takes two bytes. -/
theorem reads_shift
    (h : Heredoc.readOpener options.delimiters bs = .error .absent) :
    Reads options (marks 3 ++ bs) (marks 1 ++ bs) := by
  have hread := reads_symbol options (Byte.less :: Byte.less :: bs)
    fun bs' hbs => by
      obtain rfl : bs = bs' := (List.cons.inj (List.cons.inj hbs).2).2
      exact Heredoc.scan?_of_absent h
  rw [Symbol.length_shift, if_neg (fun h => by cases h)] at hread
  exact hread

/-- The lexer takes two bytes at a time off a run, down to `count` bytes of it. -/
theorem reads_shifts (options : Options) (pairs : Nat) {count : Nat} (hcount : 2 ≤ count) (rest : Bytes) :
    Reads options (marks (2 * pairs + count) ++ rest) (marks count ++ rest) := by
  induction pairs with
  | zero =>
    rw [Nat.mul_zero, Nat.zero_add]
    exact .refl
  | succ pairs ih =>
    obtain ⟨more, hmore⟩ := Nat.exists_eq_add_of_le hcount
    refine Reads.trans ?_ ih
    have hlong : 2 * (pairs + 1) + count = 3 + (1 + (2 * pairs + more)) := by omega
    have hshort : 2 * pairs + count = 1 + (1 + (2 * pairs + more)) := by omega
    rw [hlong, hshort]
    have hsplit : ∀ n, marks (n + (1 + (2 * pairs + more))) ++ rest =
        marks n ++ (Byte.less :: (marks (2 * pairs + more) ++ rest)) := by
      intro n
      rw [marks_add, List.append_assoc, Nat.add_comm 1, marks_succ]
      rfl
    rw [hsplit, hsplit]
    exact reads_shift (Heredoc.readOpener_less _ _)

/-- What the lexer takes off the bytes behind a run, if no heredoc opens there, is plain. -/
theorem reads_end (options : Options) (hrest : rest.head? ≠ some Byte.less) {count : Nat}
    (hcount : count = 1 ∨ count = 2) :
    ∃ more rest', rest = more ++ rest' ∧ (∀ b ∈ more, Byte.isPlain b = true) ∧
      Reads options (marks count ++ rest) rest' := by
  rcases hcount with rfl | rfl
  · have hread := reads_symbol options rest fun bs hbs =>
      absurd (by rw [hbs]; rfl) hrest
    obtain ⟨more, rest', hsplit, hlength, hmore⟩ :=
      Symbol.isPlain_or_shift (Lexeme.symbol_at Byte.less rest)
    rw [Symbol.length_of_less (Lexeme.symbol_at Byte.less rest)] at hlength
    rw [hlength, Nat.add_sub_cancel_left] at hread
    rcases hmore with hplain | hshift | hshift
    · refine ⟨more, rest', hsplit, hplain, ?_⟩
      rw [hsplit, List.drop_append_length] at hread
      rw [hsplit]
      exact hread
    · obtain rfl : more = [Byte.less] := (List.cons.inj hshift).2
      exact absurd (by rw [hsplit]; rfl) hrest
    · obtain rfl : more = [Byte.less, 0x3D] := (List.cons.inj hshift).2
      exact absurd (by rw [hsplit]; rfl) hrest
  · have hread := reads_symbol options (Byte.less :: rest) fun bs hbs =>
      absurd (by rw [(List.cons.inj hbs).2]; rfl) hrest
    rw [Symbol.length_shift] at hread
    by_cases hequals : rest.head? = some 0x3D
    · obtain ⟨rest', rfl⟩ := List.head?_eq_some_iff.mp hequals
      exact ⟨[0x3D], rest', rfl, List.forall_mem_singleton.mpr rfl, hread⟩
    · rw [if_neg hequals] at hread
      exact ⟨[], rest, rfl, fun _ hb => absurd hb List.not_mem_nil, hread⟩

/-- The lexer comes to the end of a run at which it opens no heredoc. -/
theorem reads_run {count : Nat} (hcount : 3 ≤ count) (hrest : rest.head? ≠ some Byte.less)
    (h : count % 2 = 0 ∨ Heredoc.readOpener options.delimiters rest = .error .absent) :
    ∃ more rest', rest = more ++ rest' ∧ (∀ b ∈ more, Byte.isPlain b = true) ∧
      Reads options (marks count ++ rest) rest' := by
  by_cases heven : count % 2 = 0
  · obtain ⟨more, rest', hsplit, hplain, hread⟩ :=
      reads_end options hrest (Or.inr rfl : 2 = 1 ∨ 2 = 2)
    have hrun := reads_shifts options ((count - 2) / 2) (Nat.le_refl 2) rest
    rw [show 2 * ((count - 2) / 2) + 2 = count by omega] at hrun
    exact ⟨more, rest', hsplit, hplain, hrun.trans hread⟩
  · obtain ⟨more, rest', hsplit, hplain, hread⟩ :=
      reads_end options hrest (Or.inl rfl : 1 = 1 ∨ 1 = 2)
    have hrun := reads_shifts options ((count - 3) / 2) (by decide : 2 ≤ 3) rest
    rw [show 2 * ((count - 3) / 2) + 3 = count by omega] at hrun
    exact ⟨more, rest', hsplit, hplain,
      (hrun.trans (reads_shift (h.resolve_left heven))).trans hread⟩

/-- The lexer comes to the last three bytes of an odd run. -/
theorem reads_odd {count : Nat} (hcount : 3 ≤ count) (hodd : count % 2 = 1) (rest : Bytes) :
    Reads options (marks count ++ rest) (marks 3 ++ rest) := by
  have hrun := reads_shifts options ((count - 3) / 2) (by decide : 2 ≤ 3) rest
  rwa [show 2 * ((count - 3) / 2) + 3 = count by omega] at hrun

end Construct

/-! ### The search for a closing tag -/

namespace Template

variable {rule : DelimiterRule} {rest : Bytes}

/-- The search takes three bytes at a time off a run, down to `count` bytes of it. -/
theorem passes_marks (rule : DelimiterRule) (triples : Nat) {count : Nat} (hcount : 1 ≤ count) (rest : Bytes) :
    Passes rule (marks (3 * triples + count) ++ rest) (marks count ++ rest) := by
  induction triples with
  | zero =>
    rw [Nat.mul_zero, Nat.zero_add]
    exact .refl
  | succ triples ih =>
    obtain ⟨more, hmore⟩ := Nat.exists_eq_add_of_le hcount
    refine Passes.trans ?_ ih
    have hlong : 3 * (triples + 1) + count = 3 + (1 + (3 * triples + more)) := by omega
    have hshort : 3 * triples + count = 1 + (3 * triples + more) := by omega
    have hsplit : marks (3 + (1 + (3 * triples + more))) ++ rest =
        ascii "<<<" ++ (marks (1 + (3 * triples + more)) ++ rest) := by
      rw [marks_add, List.append_assoc]
      rfl
    have hhead : marks (1 + (3 * triples + more)) ++ rest =
        Byte.less :: (marks (3 * triples + more) ++ rest) := by
      rw [Nat.add_comm, marks_succ]
      rfl
    have hitem := passes_heredoc rule (marks (1 + (3 * triples + more)) ++ rest)
    rw [hhead, Heredoc.hiddenLength_of_error (Heredoc.readOpener_less _ _), List.drop_zero] at hitem
    rw [hlong, hshort, hsplit, hhead]
    exact hitem

theorem passes_less {tail : Bytes} (hmarks : ¬ ascii "<<<" <+: Byte.less :: tail) :
    Passes rule (Byte.less :: tail) tail :=
  passes_single (fun htag => by cases htag.1) rfl rfl hmarks

/-- The search comes to the end of a run at which it opens no heredoc. -/
theorem passes_run {count : Nat} (hcount : 3 ≤ count) (hrest : rest.head? ≠ some Byte.less)
    (h : count % 3 ≠ 0 ∨ ∃ refusal, Heredoc.readOpener rule rest = .error refusal) :
    Passes rule (marks count ++ rest) rest := by
  have hone : Passes rule (marks 1 ++ rest) rest := by
    refine passes_less fun ⟨more, hmore⟩ => hrest ?_
    have htail : Byte.less :: Byte.less :: more = rest := (List.cons.inj hmore).2
    rw [← htail]
    rfl
  have htwo : Passes rule (marks 2 ++ rest) rest := by
    refine Passes.trans (passes_less fun ⟨more, hmore⟩ => hrest ?_) hone
    have htail : Byte.less :: more = rest := (List.cons.inj (List.cons.inj hmore).2).2
    rw [← htail]
    rfl
  rcases (by omega : count % 3 = 0 ∨ count % 3 = 1 ∨ count % 3 = 2) with hmod | hmod | hmod
  · obtain ⟨refusal, hrefused⟩ := h.resolve_left (fun hne => hne hmod)
    have hrun := passes_marks rule ((count - 3) / 3) (by decide : 1 ≤ 3) rest
    rw [show 3 * ((count - 3) / 3) + 3 = count by omega] at hrun
    have hitem := passes_heredoc rule rest
    rw [Heredoc.hiddenLength_of_error hrefused, List.drop_zero] at hitem
    exact hrun.trans hitem
  · have hrun := passes_marks rule ((count - 1) / 3) (Nat.le_refl 1) rest
    rw [show 3 * ((count - 1) / 3) + 1 = count by omega] at hrun
    exact hrun.trans hone
  · have hrun := passes_marks rule ((count - 2) / 3) (by decide : 1 ≤ 2) rest
    rw [show 3 * ((count - 2) / 3) + 2 = count by omega] at hrun
    exact hrun.trans htwo

/-- The search comes to the last three bytes of a run of three, six, nine, … bytes. -/
theorem passes_triples {count : Nat} (hcount : 3 ≤ count) (hmod : count % 3 = 0) (rest : Bytes) :
    Passes rule (marks count ++ rest) (marks 3 ++ rest) := by
  have hrun := passes_marks rule ((count - 3) / 3) (by decide : 1 ≤ 3) rest
  rwa [show 3 * ((count - 3) / 3) + 3 = count by omega] at hrun

end Template

end TemplateScript
