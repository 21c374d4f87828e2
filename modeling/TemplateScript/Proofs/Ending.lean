import TemplateScript.Proofs.Lexer.Calls
import TemplateScript.Proofs.Template.Blocks

/-!
# Strict and lenient reading

The two endings differ only where a construct breaks a rule: a strict reader stops there with a
fault, a lenient one reads on.

* `Construct.scan_lenient` and `Ahead.of_lenient` — up to the first fault both find the same;
* `Lexer.step_lenient` — so a step that meets no fault is the same step of a lenient lexer;
* `Lexer.exists_failing_call` — a collection fails at one of its steps, and all steps before it
  answer with an edit;
* `Lexer.exists_collectTables_of_lenient` — no collection of a lenient lexer fails;
* `lenient_extends_strict` — a lenient reader always comes to the end; what a strict one finds it finds as
  well; and where the strict one fails both have come there by the same steps.
-/

namespace TemplateScript

/-! ### What lies ahead -/

namespace Construct

variable {options : Options} {first : UInt8} {tail : Bytes}

theorem quoted_lenient {strict : Bool}
    (sound : ∀ cause length, Quoted.scan strict first tail ≠ .fault cause length) :
    Quoted.scan false first tail = Quoted.scan strict first tail := by
  rw [Quoted.scan] at sound
  rw [Quoted.scan, Quoted.scan]
  cases hclosing : Quoted.closing? first tail with
  | some offset => rfl
  | none =>
    cases strict with
    | false => rfl
    | true =>
      rw [hclosing] at sound
      exact absurd rfl (sound _ _)

theorem heredoc_lenient {bs : Bytes}
    (sound : ∀ cause length, Heredoc.scan? options bs ≠ some (.fault cause length)) :
    Heredoc.scan? options.lenient bs = Heredoc.scan? options bs := by
  have hdelimiters : options.lenient.delimiters = options.delimiters := rfl
  have hlenient : options.lenient.isStrict = false := rfl
  rw [Heredoc.scan?] at sound
  rw [Heredoc.scan?, Heredoc.scan?, hdelimiters]
  cases hopens : Heredoc.readOpener options.delimiters bs with
  | error refusal =>
    cases refusal with
    | absent => rfl
    | malformed length =>
      cases hstrict : options.isStrict with
      | false => rw [hlenient]
      | true =>
        simp only [hopens, hstrict, if_true] at sound
        exact absurd rfl (sound _ _)
  | ok opener =>
    simp only [hopens] at sound ⊢
    cases hcloses : Heredoc.firstLine? (Heredoc.closingLength? opener.delimiter)
        (bs.drop opener.length) with
    | some found => rfl
    | none =>
      cases hstrict : options.isStrict with
      | false => rw [hlenient]
      | true =>
        simp only [hcloses, hstrict, if_true] at sound
        exact absurd rfl (sound _ _)

/-- A construct without a fault is the same one for a lenient reader. -/
theorem scan_lenient (sound : ∀ cause length, scan options first tail ≠ .fault cause length) :
    scan options.lenient first tail = scan options first tail := by
  have hlenient : options.lenient.isStrict = false := rfl
  rw [scan] at sound
  rw [scan, scan]
  by_cases hword : Byte.isWordStart first = true
  · rw [if_pos hword, if_pos hword]
  rw [if_neg hword] at sound ⊢
  rw [if_neg hword]
  by_cases hdigit : Byte.isDigit first = true
  · rw [if_pos hdigit, if_pos hdigit]
  rw [if_neg hdigit] at sound ⊢
  rw [if_neg hdigit]
  by_cases hquote : Byte.isQuote first = true
  · rw [if_pos hquote] at sound ⊢
    rw [if_pos hquote]
    exact quoted_lenient sound
  rw [if_neg hquote] at sound ⊢
  rw [if_neg hquote]
  cases hcomment : Comment.scan? first tail with
  | some found =>
    simp only [hcomment] at sound ⊢
    by_cases hopen : options.isStrict = true ∧ found.closed = false
    · rw [if_pos hopen] at sound
      exact absurd rfl (sound _ _)
    · rw [if_neg hopen, hlenient, if_neg fun h => Bool.false_ne_true h.1]
  | none =>
    simp only [hcomment] at sound ⊢
    by_cases hmarks : (ascii "<<<").isPrefixOf (first :: tail) = true
    · simp only [hmarks, if_true] at sound ⊢
      rw [heredoc_lenient]
      intro cause length hscan
      rw [hscan] at sound
      exact sound cause length rfl
    · simp only [hmarks, Bool.false_eq_true, if_false]

end Construct

/-- Before the first fault, a lenient reader has the same ahead. -/
theorem Ahead.of_lenient {options : Options} {bs : Bytes}
    (sound : ∀ cause length, (of options bs).found ≠ .fault cause length) :
    of options.lenient bs = of options bs := by
  rw [of] at sound
  rw [of, of]
  generalize 0 = skipped at sound ⊢
  fun_induction after options skipped bs with
  | case1 skipped => rw [after]
  | case2 skipped first tail hspace ih => rw [after, if_pos hspace, ih sound]
  | case3 skipped first tail hspace length hcomment ih =>
    have hsound : ∀ cause length, Construct.scan options first tail ≠ .fault cause length := by
      intro cause length hfault
      cases hcomment.symm.trans hfault
    rw [after, if_neg hspace, Construct.scan_lenient hsound, hcomment]
    exact ih sound
  | case4 skipped first tail hspace cause length hfault => exact absurd rfl (sound cause length)
  | case5 skipped first tail hspace found hfound =>
    have hsound : ∀ cause length, Construct.scan options first tail ≠ .fault cause length := by
      intro cause length hfault
      cases hfound.symm.trans hfault
    rw [after, if_neg hspace, Construct.scan_lenient hsound, hfound]

/-! ### Lexers -/

namespace Lexer

variable {l : Lexer} {resolve : Resolver} {edit : Edit} {tokens tokens' : Array Token}

/-- The same lexer with open constructs ended by the input. -/
def lenient (l : Lexer) : Lexer := { l with options := l.options.lenient }

/-- A step without a fault is the same step of a lenient lexer. -/
theorem step_lenient (sound : ∀ e, (l.step resolve).answer = .error e → e.cause = .endOfInput) :
    (l.lenient.step resolve).answer = (l.step resolve).answer ∧
      (l.lenient.step resolve).lexer = (l.step resolve).lexer.lenient := by
  have hahead : Ahead.of l.lenient.options l.lenient.cursor.rest =
      Ahead.of l.options l.cursor.rest := by
    refine Ahead.of_lenient fun cause length hfault => ?_
    have hfound : (Ahead.of l.options l.cursor.rest).found = .fault cause length := hfault
    rw [step, hfound] at sound
    cases sound _ rfl
  rw [step, step, hahead]
  generalize Ahead.of l.options l.cursor.rest = ahead
  obtain ⟨skipped, found⟩ := ahead
  cases found <;> exact ⟨rfl, rfl⟩

theorem step_lenient_of_ok (h : (l.step resolve).answer = .ok edit) :
    (l.lenient.step resolve).answer = .ok edit ∧
      (l.lenient.step resolve).lexer = (l.step resolve).lexer.lenient := by
  rw [← h]
  refine step_lenient fun e he => ?_
  rw [h] at he
  cases he

variable {tables : Nat → Resolver}

/-- As long as all answers are edits, a lenient lexer is where the other one is. -/
theorem afterTables_lenient {calls : Nat}
    (h : ∀ k < calls, ∃ edit, ((l.afterTables tables k).step (tables k)).answer = .ok edit) :
    l.lenient.afterTables tables calls = (l.afterTables tables calls).lenient := by
  induction calls with
  | zero => rfl
  | succ calls ih =>
    obtain ⟨edit, hedit⟩ := h calls (Nat.lt_succ_self calls)
    rw [afterTables, afterTables, ih fun k hk => h k (Nat.lt_succ_of_lt hk)]
    exact (step_lenient_of_ok hedit).2

/-! ### Collections -/

/-- What is collected without an error is collected by a lenient lexer. -/
theorem collectTables_lenient (running : l.finished = false)
    (h : l.collectTables tables tokens = .ok tokens') :
    l.lenient.collectTables tables tokens = .ok tokens' := by
  revert running tokens
  refine tables_induction (motive := fun l tables => ∀ {tokens}, l.finished = false →
    l.collectTables tables tokens = .ok tokens' →
    l.lenient.collectTables tables tokens = .ok tokens') ?_ ?_ l tables
  · intro l tables e hstep tokens running h
    rw [collectTables_of_error running hstep] at h
    cases hend : e.isEndOfInput with
    | false =>
      rw [hend] at h
      cases h
    | true =>
      have hlenient : (l.lenient.step (tables 0)).answer = .error e := by
        rw [← hstep]
        refine (step_lenient fun e' he' => ?_).1
        obtain rfl := Except.error.inj (hstep.symm.trans he')
        exact beq_iff_eq.mp hend
      rw [collectTables_of_error (l := l.lenient) running hlenient]
      exact h
  · intro l tables edit hstep ih tokens running h
    obtain ⟨hanswer, hlexer⟩ := step_lenient_of_ok hstep
    rw [collectTables_of_ok running hstep] at h
    rw [collectTables_of_ok (l := l.lenient) running hanswer, hlexer]
    exact ih ((finished_step l (tables 0)).trans running) h

theorem collectFrom_lenient (running : l.finished = false)
    (h : l.collectFrom resolve tokens = .ok tokens') :
    l.lenient.collectFrom resolve tokens = .ok tokens' := by
  rw [← collectTables_const] at h ⊢
  exact collectTables_lenient running h

/-- A collection that fails does so at one of its steps, the first that answers with an error. -/
theorem exists_failing_call {e : LexError} (running : l.finished = false)
    (h : l.collectTables tables tokens = .error e) :
    ∃ calls, ((l.afterTables tables calls).step (tables calls)).answer = .error e ∧
      e.isEndOfInput = false ∧
      ∀ k < calls, ∃ edit, ((l.afterTables tables k).step (tables k)).answer = .ok edit := by
  revert running tokens
  refine tables_induction (motive := fun l tables => ∀ {tokens}, l.finished = false →
    l.collectTables tables tokens = .error e →
    ∃ calls, ((l.afterTables tables calls).step (tables calls)).answer = .error e ∧
      e.isEndOfInput = false ∧
      ∀ k < calls, ∃ edit, ((l.afterTables tables k).step (tables k)).answer = .ok edit) ?_ ?_ l
    tables
  · intro l tables e' hstep tokens running h
    rw [collectTables_of_error running hstep] at h
    cases hend : e'.isEndOfInput with
    | true =>
      rw [hend] at h
      cases h
    | false =>
      rw [hend] at h
      cases h
      exact ⟨0, hstep, hend, fun k hk => absurd hk (Nat.not_lt_zero k)⟩
  · intro l tables edit hstep ih tokens running h
    rw [collectTables_of_ok running hstep] at h
    obtain ⟨calls, hfails, hend, hedits⟩ := ih ((finished_step l (tables 0)).trans running) h
    refine ⟨calls + 1, by rwa [afterTables_succ], hend, fun k hk => ?_⟩
    cases k with
    | zero => exact ⟨edit, hstep⟩
    | succ k =>
      rw [afterTables_succ]
      exact hedits k (Nat.lt_of_succ_lt_succ hk)

/-- A lexer that is not strict comes to the end of the input. -/
theorem exists_collectTables_of_lenient (lenient : l.options.isStrict = false)
    (running : l.finished = false) (tables : Nat → Resolver) (tokens : Array Token) :
    ∃ tokens', l.collectTables tables tokens = .ok tokens' := by
  cases h : l.collectTables tables tokens with
  | ok tokens' => exact ⟨tokens', rfl⟩
  | error e =>
    obtain ⟨calls, hfails, hend, -⟩ := exists_failing_call running h
    rcases exists_fault hfails with ⟨hcause, -, -⟩ | ⟨_, _, _, _, _, -, -, -, hscan, -⟩
    · rw [LexError.isEndOfInput, hcause] at hend
      cases hend
    · rw [options_afterTables] at hscan
      exact absurd hscan (Construct.ne_fault_of_lenient lenient _ _)

theorem exists_collectFrom_of_lenient (lenient : l.options.isStrict = false)
    (running : l.finished = false) (resolve : Resolver) (tokens : Array Token) :
    ∃ tokens', l.collectFrom resolve tokens = .ok tokens' := by
  rw [← collectTables_const]
  exact exists_collectTables_of_lenient lenient running (fun _ => resolve) tokens

/-- A lenient lexer comes to the end of the input. -/
theorem exists_collect_lenient (running : l.finished = false) (resolve : Resolver) :
    ∃ tokens, l.lenient.collect resolve = .ok tokens :=
  exists_collectFrom_of_lenient (l := l.lenient) rfl running resolve #[]

end Lexer

/-! ### Documents -/

namespace Template

variable {document : Bytes} {options : Options}

theorem ofSegment_lenient (document : Bytes) (options : Options) (segment : Segment) :
    ∃ block, Block.ofSegment document options.lenient segment = .ok block := by
  cases hkind : segment.kind with
  | raw => exact ⟨_, ofSegment_eq_ok_iff.mpr (Or.inl ⟨hkind, rfl⟩)⟩
  | code =>
    obtain ⟨tokens, htokens⟩ := Lexer.exists_collect_lenient
      (l := Lexer.ofSegment document segment options) rfl .standard
    exact ⟨_, ofSegment_eq_ok_iff.mpr (Or.inr ⟨hkind, tokens, htokens, rfl⟩)⟩

theorem ofSegment_lenient_of_ok {segment : Segment} {block : Block}
    (h : Block.ofSegment document options segment = .ok block) :
    Block.ofSegment document options.lenient segment = .ok block := by
  refine ofSegment_eq_ok_iff.mpr ?_
  rcases ofSegment_eq_ok_iff.mp h with hraw | ⟨hkind, tokens, htokens, hblock⟩
  · exact Or.inl hraw
  · exact Or.inr ⟨hkind, tokens, Lexer.collectFrom_lenient rfl htokens, hblock⟩

/-- A lenient reader reads every document. -/
theorem exists_lex_lenient (document : Bytes) (options : Options) :
    ∃ blocks, lex document options.lenient = .ok blocks := by
  suffices h : ∀ segments : List Segment, ∃ blocks,
      segments.mapM (Block.ofSegment document options.lenient) = .ok blocks from h _
  intro segments
  induction segments with
  | nil => exact ⟨[], rfl⟩
  | cons segment segments ih =>
    obtain ⟨block, hblock⟩ := ofSegment_lenient document options segment
    obtain ⟨blocks, hblocks⟩ := ih
    exact ⟨block :: blocks, mapM_eq_ok_iff.mpr (.cons hblock (mapM_eq_ok_iff.mp hblocks))⟩

/-- What is read of a document without an error is read by a lenient reader. -/
theorem lex_lenient_of_ok {blocks : List Block} (h : lex document options = .ok blocks) :
    lex document options.lenient = .ok blocks :=
  lex_eq_ok_iff.mpr ((lex_eq_ok_iff.mp h).imp fun _ _ => ofSegment_lenient_of_ok)

end Template

/-- A lenient reader always succeeds, and with whatever a strict one succeeds; where the strict one
fails, both have taken the same steps over the same places up to there.  So it is with whatever
operator table each step asks; a reader with one table and its lexers are the case in which all steps
ask that one. -/
theorem lenient_extends_strict (source document : Bytes) (options : Options)
    (tables : Nat → Resolver) :
    let strict := Lexer.start source options.strict
    let lenient := Lexer.start source options.lenient
    (∀ resolve,
      tokenizeWith resolve source options.strict = strict.collectTables (fun _ => resolve) #[] ∧
      tokenizeWith resolve source options.lenient =
        lenient.collectTables (fun _ => resolve) #[] ∧
      ∀ calls, strict.afterCalls resolve calls = strict.afterTables (fun _ => resolve) calls ∧
        lenient.afterCalls resolve calls = lenient.afterTables (fun _ => resolve) calls) ∧
    (∃ tokens, lenient.collectTables tables #[] = .ok tokens ∧
      ∀ tokens', strict.collectTables tables #[] = .ok tokens' → tokens' = tokens) ∧
    (∀ e, strict.collectTables tables #[] = .error e →
      e.cause ≠ .endOfInput ∧ ∃ calls,
        ((strict.afterTables tables calls).step (tables calls)).answer = .error e ∧
        (∀ k ≤ calls,
          (lenient.afterTables tables k).offset = (strict.afterTables tables k).offset ∧
          (lenient.afterTables tables k).line = (strict.afterTables tables k).line) ∧
        ∀ k < calls, ∃ edit,
          ((strict.afterTables tables k).step (tables k)).answer = .ok edit ∧
          ((lenient.afterTables tables k).step (tables k)).answer = .ok edit) ∧
    ∃ blocks, Template.lex document options.lenient = .ok blocks ∧
      ∀ blocks', Template.lex document options.strict = .ok blocks' → blocks' = blocks := by
  intro strict lenient
  obtain ⟨tokens, htokens⟩ :=
    Lexer.exists_collectTables_of_lenient (l := lenient) rfl rfl tables #[]
  obtain ⟨blocks, hblocks⟩ := Template.exists_lex_lenient document options
  refine ⟨fun resolve => ⟨?_, ?_, fun calls => ⟨?_, ?_⟩⟩, ⟨tokens, htokens, ?_⟩, ?_, blocks, hblocks,
    ?_⟩
  · exact (Lexer.collectTables_const strict resolve #[]).symm
  · exact (Lexer.collectTables_const lenient resolve #[]).symm
  · exact (Lexer.afterTables_const strict resolve calls).symm
  · exact (Lexer.afterTables_const lenient resolve calls).symm
  · intro tokens' htokens'
    have h := Lexer.collectTables_lenient (l := strict) rfl htokens'
    exact Except.ok.inj (h.symm.trans htokens)
  · intro e he
    obtain ⟨calls, hfails, hend, hedits⟩ := Lexer.exists_failing_call (l := strict) rfl he
    have hsame : ∀ k ≤ calls,
        lenient.afterTables tables k = (strict.afterTables tables k).lenient := by
      intro k hk
      exact Lexer.afterTables_lenient fun j hj => hedits j (Nat.lt_of_lt_of_le hj hk)
    refine ⟨fun hcause => ?_, calls, hfails, fun k hk => ?_, fun k hk => ?_⟩
    · rw [LexError.isEndOfInput, hcause] at hend
      cases hend
    · rw [hsame k hk]
      exact ⟨rfl, rfl⟩
    · obtain ⟨edit, hedit⟩ := hedits k hk
      rw [hsame k (Nat.le_of_lt hk)]
      exact ⟨edit, hedit, (Lexer.step_lenient_of_ok hedit).1⟩
  · intro blocks' hblocks'
    have h : Template.lex document options.strict.lenient = .ok blocks' :=
      Template.lex_lenient_of_ok hblocks'
    exact Except.ok.inj (h.symm.trans hblocks)

end TemplateScript
