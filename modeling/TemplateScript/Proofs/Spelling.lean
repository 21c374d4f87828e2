import TemplateScript.Proofs.Form
import TemplateScript.Proofs.Resolver
import TemplateScript.Proofs.Trivia
import TemplateScript.Vocabulary.ReservedWord

/-!
# How an operator is spelled

The standard operator table, the list of symbols, the punctuation marks and the reserved words have
to agree.  Here is what comes of it at a single byte of a script: what the table reads as an operator
is a spelling of that operator, and a symbol that it does not know is a stray byte by itself.

* `Operator.Spells` — a text, and what follows it, as a spelling of an operator;
* `Symbol.Candidate` and `Symbol.candidate_of_symbol` — the spellings under which a symbol can be
  looked up, and when;
* `Symbol.Candidate.spells` and `Symbol.Candidate.eq_byte` — what the standard table makes of them;
* `Byte.isStray`, `Construct.eq_symbol_of_isStray` and `Byte.isStray_of_unknown` — the bytes that
  are symbols and no operators.
-/

namespace TemplateScript

/-! ### Spellings of an operator -/

/-- White space and an `&` that no second `&` follows. -/
def Symbol.StartsReference (bs : Bytes) : Prop :=
  ∃ space rest, bs = space ++ Byte.ampersand :: rest ∧ (∀ b ∈ space, Byte.isSpace b = true) ∧
    rest.head? ≠ some Byte.ampersand

/-- The text spells the operator when `after` is all that follows the text. -/
inductive Operator.Spells (after : Bytes) : Operator → Bytes → Prop
  /-- Casts and the two plain assignments aside, an operator has its canonical spelling. -/
  | canonical {op : Operator} (cast : op.isCast = false)
      (assigns : op ≠ .assign ∧ op ≠ .refAssign) : Spells after op op.lexeme
  /-- `!=` has a second spelling. -/
  | angles : Spells after .notEqual (ascii "<>")
  /-- `=` is an assignment where it is not the start of a reference assignment. -/
  | assign (lone : ¬ Symbol.StartsReference after) : Spells after .assign (ascii "=")
  /-- A reference assignment may have white space before its `&`, which no other `&` follows. -/
  | reference {space : Bytes} (spaces : ∀ b ∈ space, Byte.isSpace b = true)
      (lone : after.head? ≠ some Byte.ampersand) :
      Spells after .refAssign (ascii "=" ++ (space ++ ascii "&"))
  /-- A cast is a keyword of the type between parentheses, which may have white space and comments
  around it. -/
  | cast {op : Operator} {gap word gap' : Bytes} {keyword : Keyword}
      (before : Trivia gap (word ++ (gap' ++ (ascii ")" ++ after))))
      (reserved : ReservedWord.ofBytes? word = some (.keyword keyword))
      (names : keyword.cast? = some op) (behind : Trivia gap' (ascii ")" ++ after)) :
      Spells after op (ascii "(" ++ (gap ++ (word ++ (gap' ++ ascii ")"))))

/-- A control character other than white space, or a byte that continues a multi-byte character. -/
def Byte.isStray (b : UInt8) : Bool :=
  (b < 0x20 && !isSpace b) || b == 0x7F || (0x80 ≤ b && b ≤ 0xBF)

namespace Operator

variable {op : Operator} {text after : Bytes}

theorem head?_lexeme_of_isCast (h : op.isCast = true) :
    op.lexeme.head? = some Byte.openParen := by
  cases op <;> first | rfl | cases h

/-- A text that the table reads as an operator spells it, unless it is the start of a cast or the two
plain assignments are mistaken for each other. -/
theorem Spells.of_spelledBy (h : op.SpelledBy text) (paren : text.head? ≠ some Byte.openParen)
    (reference : text ≠ ascii "=&")
    (assign : text = ascii "=" → ¬ Symbol.StartsReference after) : op.Spells after text := by
  rcases h with rfl | ⟨rfl, rfl⟩
  · by_cases hassign : op = .assign
    · subst hassign
      exact .assign (assign rfl)
    · refine .canonical ?_ ⟨hassign, ?_⟩
      · rw [← Bool.not_eq_true]
        exact fun hcast => paren (head?_lexeme_of_isCast hcast)
      · rintro rfl
        exact reference rfl
  · exact .angles

/-- So does any text that begins with neither a parenthesis nor `=`. -/
theorem Spells.of_head? (h : op.SpelledBy text) (paren : text.head? ≠ some Byte.openParen)
    (equals : text.head? ≠ some 0x3D) : op.Spells after text := by
  refine .of_spelledBy h paren ?_ ?_
  · rintro rfl
    exact equals rfl
  · rintro rfl
    exact absurd rfl equals

end Operator

/-! ### Symbols -/

namespace Symbol

variable {first : UInt8} {tail bs spelling : Bytes}

theorem referenceLength?_eq_none_iff : referenceLength? bs = none ↔ ¬ StartsReference bs := by
  constructor
  · rintro h ⟨space, rest, rfl, hspace, hrest⟩
    have hrun : Bytes.runLength Byte.isSpace (space ++ Byte.ampersand :: rest) = space.length :=
      Bytes.runLength_append hspace fun b hb => by cases hb; rfl
    rw [referenceLength?, hrun, List.drop_append_length] at h
    simp [hrest] at h
  · intro h
    cases hreference : referenceLength? bs with
    | none => rfl
    | some n =>
      obtain ⟨space, rest, hsplit, hspace, hrest, -⟩ := exists_reference hreference
      exact absurd ⟨space, rest, hsplit, hspace, hrest⟩ h

/-- The spelling under which a symbol at `first` is looked up, and how many bytes it takes. -/
inductive Candidate (first : UInt8) (tail : Bytes) : Bytes → Nat → Prop
  | reference {n : Nat} (equals : first = 0x3D) (follows : referenceLength? tail = some n) :
      Candidate first tail (ascii "=&") (1 + n)
  | byte (mark : mark? first = none) (lone : first = 0x3D → referenceLength? tail = none) :
      Candidate first tail [first] 1
  | listed {spelling : Bytes} (mem : spelling ∈ spellings) (arrow : spelling ≠ ascii "=>")
      (stands : spelling <+: first :: tail) : Candidate first tail spelling spelling.length

theorem candidate_of_length (mark : length (first :: tail) = 1 → mark? first = none)
    (h : (Lexeme.candidate (first :: tail)).form = .symbol spelling) :
    Candidate first tail spelling (Lexeme.candidate (first :: tail)).length := by
  obtain ⟨more, rest, rfl, hlength, hmore⟩ := exists_length first tail
  have htake : (first :: (more ++ rest)).take (1 + more.length) = first :: more := by
    rw [Nat.add_comm, List.take_succ_cons, List.take_append_length]
  rw [Lexeme.candidate, hlength, htake, List.drop_succ_cons, List.drop_zero] at h ⊢
  by_cases hequals : first :: more = ascii "="
  · obtain ⟨hfirst, rfl⟩ : first = 0x3D ∧ more = [] := List.cons.inj hequals
    rw [if_pos hequals] at h ⊢
    cases hreference : referenceLength? ([] ++ rest) with
    | some n =>
      rw [hreference] at h
      cases h
      exact .reference hfirst hreference
    | none =>
      rw [hreference] at h
      cases h
      exact .byte (mark hlength) fun _ => hreference
  rw [if_neg hequals] at h ⊢
  by_cases harrow : first :: more = ascii "=>"
  · rw [if_pos harrow] at h
    cases h
  rw [if_neg harrow] at h ⊢
  cases h
  rcases hmore with rfl | hmem
  · refine .byte (mark hlength) fun hfirst => absurd ?_ hequals
    rw [hfirst]
    rfl
  · show Candidate first (more ++ rest) (first :: more) (1 + more.length)
    rw [Nat.add_comm]
    exact .listed hmem harrow ⟨rest, rfl⟩

/-- A symbol that is looked up is a candidate, and no punctuation. -/
theorem candidate_of_symbol (h : (Lexeme.symbol first tail).form = .symbol spelling) :
    Candidate first tail spelling (Lexeme.symbol first tail).length := by
  rw [Lexeme.symbol] at h ⊢
  cases hmark : mark? first with
  | none =>
    rw [hmark] at h
    exact candidate_of_length (fun _ => hmark) h
  | some form =>
    rw [hmark] at h
    simp only [] at h ⊢
    by_cases hone : length (first :: tail) = 1
    · rw [if_pos hone] at h
      have hlooked := isMark_of_mark? hmark
      rw [show form = .symbol spelling from h] at hlooked
      cases hlooked
    · rw [if_neg hone] at h ⊢
      exact candidate_of_length (fun hlength => absurd hlength hone) h

/-- Punctuation that the table is asked about is neither a parenthesis nor `=`. -/
theorem ne_of_annotated {kind : Token.Kind}
    (h : (Lexeme.symbol first tail).form = .annotated kind spelling) :
    first ≠ Byte.openParen ∧ first ≠ 0x3D := by
  have hmark : ∀ form, mark? first = some form → form = .annotated kind spelling →
      first ≠ Byte.openParen ∧ first ≠ 0x3D := by
    rintro _ hform rfl
    constructor
    · rintro rfl
      cases hform
    · rintro rfl
      cases hform
  have hat := Lexeme.symbol_at first tail
  generalize Lexeme.symbol first tail = found at hat h
  cases hat with
  | mark marks => exact hmark _ marks h
  | reference _ _ => cases h
  | arrow _ => cases h
  | spelled => cases h

theorem form_ne_word (first : UInt8) (tail spelling : Bytes) :
    (Lexeme.symbol first tail).form ≠ .word spelling := by
  have hat := Lexeme.symbol_at first tail
  generalize Lexeme.symbol first tail = found at hat
  intro h
  cases hat with
  | @mark form marks =>
    obtain rfl : form = .word spelling := h
    cases isMark_of_mark? marks
  | reference _ _ => cases h
  | arrow _ => cases h
  | spelled => cases h

/-- The table is asked about a candidate under its text, a reference assignment aside. -/
theorem Candidate.spells {taken : Nat} {previous : Option Token} {op : Operator}
    (h : Candidate first tail spelling taken)
    (answer : Resolver.standard ⟨spelling, previous⟩ = some op) :
    op.Spells ((first :: tail).drop taken) ((first :: tail).take taken) := by
  have hspelled := Resolver.spelledBy_of_standard answer
  cases h with
  | @reference n equals follows =>
    obtain ⟨space, rest, rfl, hspace, hrest, rfl⟩ := exists_reference follows
    obtain rfl : op = .refAssign := (Option.some.inj answer).symm
    rw [equals, Nat.add_comm, List.take_succ_cons, List.drop_succ_cons,
      List.take_length_add_append, ← List.drop_drop, List.drop_append_length]
    exact .reference hspace hrest
  | byte mark lone =>
    refine .of_spelledBy hspelled ?_ ?_ ?_
    · intro hparen
      obtain rfl : first = Byte.openParen := Option.some.inj hparen
      cases mark
    · exact fun h => nomatch congrArg List.length h
    · intro hequals
      exact referenceLength?_eq_none_iff.mp (lone (List.cons.inj hequals).1)
  | listed mem arrow stands =>
    rw [← List.prefix_iff_eq_take.mp stands]
    refine .of_spelledBy hspelled (spelling_of_mem _ mem).2 ?_ ?_
    · rintro rfl
      exact absurd mem (by decide)
    · rintro rfl
      exact absurd mem (by decide)

/-- A candidate that the table does not know is a byte by itself. -/
theorem Candidate.eq_byte {taken : Nat} {previous : Option Token}
    (h : Candidate first tail spelling taken)
    (answer : Resolver.standard ⟨spelling, previous⟩ = none) :
    spelling = [first] ∧ taken = 1 ∧ mark? first = none := by
  cases h with
  | reference _ _ => cases answer
  | byte mark _ => exact ⟨rfl, rfl, mark⟩
  | listed mem arrow _ =>
    have hknown := isSome_ofLexeme?_of_mem _ mem arrow
    rw [(Resolver.unknown_of_standard answer).1] at hknown
    cases hknown

end Symbol

/-! ### Stray bytes -/

/-- What a stray byte is not. -/
theorem Byte.classes_of_isStray : ∀ b, isStray b = true →
    isWordStart b = false ∧ isDigit b = false ∧ isQuote b = false ∧ b ≠ hash ∧ b ≠ slash ∧
      b ≠ less ∧ b ≠ 0x3D ∧ Symbol.mark? b = none ∧
      ∀ spelling ∈ Symbol.spellings, spelling.head? ≠ some b := by
  decide +kernel

theorem Byte.unknown_of_isStray : ∀ b, isStray b = true →
    Operator.ofLexeme? [b] = none ∧ [b] ≠ ascii "+" ∧ [b] ≠ ascii "-" ∧ [b] ≠ ascii "&" ∧
      [b] ≠ ascii "[" := by
  decide +kernel

/-- The table does not know a stray byte. -/
theorem Resolver.standard_of_isStray {b : UInt8} (h : Byte.isStray b = true)
    (previous : Option Token) : Resolver.standard ⟨[b], previous⟩ = none := by
  obtain ⟨hfree, hplus, hminus, hampersand, hbracket⟩ := Byte.unknown_of_isStray b h
  rw [Resolver.standard, if_neg hplus, if_neg hminus, if_neg hampersand, if_neg hbracket]
  exact hfree

/-- A byte of no other use is a stray byte. -/
theorem Byte.isStray_of_unknown : ∀ b, isSpace b = false → isWordStart b = false →
    isDigit b = false → isQuote b = false → b ≠ hash → Symbol.mark? b = none →
    Operator.ofLexeme? [b] = none → [b] ≠ ascii "+" → [b] ≠ ascii "-" → [b] ≠ ascii "&" →
    isStray b = true := by
  decide +kernel

namespace Lexeme

variable {first : UInt8} {tail : Bytes}

theorem symbol_of_isStray (h : Byte.isStray first = true) :
    Lexeme.symbol first tail = .whole (.symbol [first]) 1 := by
  obtain ⟨-, -, -, -, -, -, hequals, hmark, hspellings⟩ := Byte.classes_of_isStray first h
  obtain ⟨more, rest, rfl, hlength, rfl | hmem⟩ := Symbol.exists_length first tail
  · have hne : ∀ spelling : Bytes, spelling.head? ≠ some first →
        (first :: ([] ++ rest)).take 1 ≠ spelling := by
      rintro spelling hspelling rfl
      exact hspelling rfl
    have hfirst : some (0x3D : UInt8) ≠ some first := fun h => hequals (Option.some.inj h).symm
    rw [Lexeme.symbol, hmark]
    simp only []
    rw [Lexeme.candidate, hlength]
    simp only [List.length_nil, Nat.add_zero]
    rw [if_neg (hne (ascii "=") hfirst), if_neg (hne (ascii "=>") hfirst)]
    rfl
  · exact absurd rfl (hspellings _ hmem)

end Lexeme

namespace Construct

variable {options : Options} {first : UInt8} {tail : Bytes} {found : Lexeme}

/-- A lexeme has a fixed kind or is a word, or else it is a symbol and nothing else can stand
there. -/
theorem fixed_or_word_or_symbol (scan : Construct.scan options first tail = .lexeme found) :
    (∃ kind, found.form = .fixed kind) ∨
      (found = .word (first :: tail) ∧ Byte.isWordStart first = true) ∨
      (found = .symbol first tail ∧ Byte.isWordStart first = false ∧
        Byte.isDigit first = false ∧ Byte.isQuote first = false ∧
        Comment.scan? first tail = none) := by
  have hat := scan_at options first tail
  rw [scan] at hat
  cases hat with
  | word start => exact .inr (.inl ⟨rfl, start⟩)
  | numeral _ _ =>
    refine .inl ?_
    rw [Lexeme.numeral]
    split <;> exact ⟨_, rfl⟩
  | string _ _ => exact .inl ⟨_, rfl⟩
  | openString _ _ _ => exact .inl ⟨_, rfl⟩
  | heredoc _ _ _ => exact .inl ⟨_, rfl⟩
  | openHeredoc _ _ _ _ => exact .inl ⟨_, rfl⟩
  | symbol start digit quote comment _ => exact .inr (.inr ⟨rfl, start, digit, quote, comment⟩)

/-- A lexeme begins with the byte at which it stands. -/
theorem head?_take_length (scan : Construct.scan options first tail = .lexeme found) :
    ((first :: tail).take found.length).head? = some first := by
  have hpos := (length_scan options first tail).1
  rw [scan] at hpos
  obtain ⟨n, hn⟩ := Nat.exists_eq_succ_of_ne_zero (Nat.ne_of_gt hpos)
  rw [show found.length = n + 1 from hn]
  rfl

/-- At a stray byte stands that byte as a symbol. -/
theorem eq_symbol_of_isStray (scan : Construct.scan options first tail = .lexeme found)
    (stray : Byte.isStray first = true) : found = .whole (.symbol [first]) 1 := by
  obtain ⟨hword, hdigit, hquote, -, -, hless, -⟩ := Byte.classes_of_isStray first stray
  have hat := scan_at options first tail
  rw [scan] at hat
  cases hat with
  | word start => rw [hword] at start; cases start
  | numeral _ digit => rw [hdigit] at digit; cases digit
  | string quote _ => rw [hquote] at quote; cases quote
  | openString quote _ _ => rw [hquote] at quote; cases quote
  | heredoc marks _ _ => exact absurd (List.cons.inj marks).1 hless
  | openHeredoc marks _ _ _ => exact absurd (List.cons.inj marks).1 hless
  | symbol _ _ _ _ _ => exact Lexeme.symbol_of_isStray stray

end Construct

end TemplateScript
