import TemplateScript.Proofs.Extent
import TemplateScript.Proofs.Lexer.Dispatch

/-!
# Runs of the lexer

* `Lexeme.Settles` and `Lexeme.settles_read` — the edit of a lexeme, case by case, and that there
  is no other case;
* `Lexer.Takes`, `Lexer.exists_takes` and `Lexer.exists_step` — a step that answers with an edit
  passes trivia and one lexeme, which is to say the bytes of one token;
* `Lexer.tables_induction` — the induction on the steps of a lexer, up to the first error, each step
  with an operator table of its own, and `Lexer.step_induction`, with one table for all;
* `Lexer.collectTables` — a collection in which each step asks its own table, and
  `Lexer.collectTables_const`, by which `Lexer.collect` is a case of it;
* `Lexer.Reaches` — the lexers and the token lists that such steps lead to;
* `Lexer.collectTables_induction` — what each step of a collection preserves holds at its end, and
  `Lexer.exists_reaches`, which so finds the run of a whole collection;
* `Lookback.Recalls` — what the two most recent tokens say of the token list, all along a run.
-/

namespace TemplateScript

/-! ### The edit of a lexeme -/

/-- The edit of a lexeme that begins at `offset` and `line`, case by case: what its form says, what
the two most recent tokens are and what the operator table answers. -/
inductive Lexeme.Settles (found : Lexeme) (lookback : Lookback) (offset : Nat) (line : Line)
    (resolve : Resolver) : Edit → Prop
  | fixed {kind : Token.Kind} (form : found.form = .fixed kind) :
      Settles found lookback offset line resolve
        (.emit { kind, text := found.text.shift offset, line })
  | annotated {kind : Token.Kind} {spelling : Bytes} (form : found.form = .annotated kind spelling) :
      Settles found lookback offset line resolve
        (.emit { kind, text := found.text.shift offset, line,
                 payload := (resolve ⟨spelling, lookback.latest⟩).map .operator })
  | keyword {spelling : Bytes} {word : Keyword} (form : found.form = .word spelling)
      (reserved : ReservedWord.ofBytes? spelling = some (.keyword word)) :
      Settles found lookback offset line resolve
        (.emit { kind := .keyword word, text := found.text.shift offset, line,
                 payload := some (.keyword word) })
  | operatorWord {spelling : Bytes} {listed op : Operator} (form : found.form = .word spelling)
      (reserved : ReservedWord.ofBytes? spelling = some (.operator listed))
      (answer : resolve ⟨spelling, lookback.latest⟩ = some op) :
      Settles found lookback offset line resolve
        (.emit (.ofOperator (.operatorWord op) (found.text.shift offset) line op))
  | identifier {spelling : Bytes} (form : found.form = .word spelling)
      (free : ∀ reserved, ReservedWord.ofBytes? spelling = some reserved →
        (∃ op, reserved = .operator op) ∧ resolve ⟨spelling, lookback.latest⟩ = none) :
      Settles found lookback offset line resolve
        (.emit { kind := .identifier, text := found.text.shift offset, line })
  | operator {spelling : Bytes} {op : Operator} (form : found.form = .symbol spelling)
      (answer : resolve ⟨spelling, lookback.latest⟩ = some op) :
      Settles found lookback offset line resolve
        (.emit (.ofOperator (.operator op) (found.text.shift offset) line op))
  | other {spelling : Bytes} (form : found.form = .symbol spelling)
      (answer : resolve ⟨spelling, lookback.latest⟩ = none) :
      Settles found lookback offset line resolve
        (.emit { kind := .other, text := found.text.shift offset, line })
  | cast {opening : Token} {listed op : Operator} (form : found.form = .closeParen)
      (opens : lookback.openCast? = some (opening, listed))
      (answer : resolve ⟨listed.lexeme, none⟩ = some op) :
      Settles found lookback offset line resolve (.replaceLast 2 (.ofOperator (.operator op)
        (.between opening.text.start (found.text.shift offset).stop) opening.line op))
  | closeParen (form : found.form = .closeParen)
      (free : ∀ opening listed, lookback.openCast? = some (opening, listed) →
        resolve ⟨listed.lexeme, none⟩ = none) :
      Settles found lookback offset line resolve
        (.emit { kind := .closeParen, text := found.text.shift offset, line })

/-- The list of edits is complete. -/
theorem Lexeme.settles_read (found : Lexeme) (lookback : Lookback) (offset : Nat) (line : Line)
    (resolve : Resolver) : found.Settles lookback offset line resolve
      ((found.read lookback offset line).settle resolve) := by
  rw [Lexeme.read]
  cases form : found.form with
  | fixed kind => exact .fixed form
  | annotated kind spelling =>
    have h : found.Settles lookback offset line resolve _ := .annotated form
    simp only [Reading.settle]
    cases answer : resolve ⟨spelling, lookback.latest⟩ with
    | none => rwa [answer] at h
    | some op => rwa [answer] at h
  | word spelling =>
    cases reserved : ReservedWord.ofBytes? spelling with
    | none =>
      simp only [reserved, Reading.settle]
      exact .identifier form fun _ h => by rw [reserved] at h; cases h
    | some found =>
      cases found with
      | keyword word =>
        simp only [reserved, Reading.settle]
        exact .keyword form reserved
      | operator listed =>
        simp only [reserved, Reading.settle]
        cases answer : resolve ⟨spelling, lookback.latest⟩ with
        | none =>
          refine .identifier form fun found h => ?_
          rw [reserved] at h
          cases h
          exact ⟨⟨listed, rfl⟩, answer⟩
        | some op => exact .operatorWord form reserved answer
  | symbol spelling =>
    simp only [Reading.settle]
    cases answer : resolve ⟨spelling, lookback.latest⟩ with
    | none => exact .other form answer
    | some op => exact .operator form answer
  | closeParen =>
    cases opens : lookback.openCast? with
    | none => exact .closeParen form fun _ _ h => by rw [opens] at h; cases h
    | some pair =>
      obtain ⟨opening, listed⟩ := pair
      simp only [Reading.settle]
      cases answer : resolve ⟨listed.lexeme, none⟩ with
      | none =>
        refine .closeParen form fun opening' listed' h => ?_
        rw [opens] at h
        cases h
        exact answer
      | some op => exact .cast form opens answer

/-- The token of a lexeme is emitted in a kind that the form allows, or a closing parenthesis
replaces an opening one and a keyword by a cast. -/
theorem Lexeme.Settles.emits_or_merges {found : Lexeme} {lookback : Lookback} {offset : Nat}
    {line : Line} {resolve : Resolver} {edit : Edit}
    (h : found.Settles lookback offset line resolve edit) :
    (∃ token, edit = .emit token ∧ found.form.Allows token.kind ∧
      token.text = found.text.shift offset) ∨
    ∃ opening cast op, found.form = .closeParen ∧ lookback.openCast? = some (opening, cast) ∧
      edit = .replaceLast 2 (.ofOperator (.operator op)
        (.between opening.text.start (found.text.shift offset).stop) opening.line op) := by
  cases h with
  | cast form opens answer => exact Or.inr ⟨_, _, _, form, opens, rfl⟩
  | fixed form => exact Or.inl ⟨_, rfl, by rw [form]; rfl, rfl⟩
  | annotated form => exact Or.inl ⟨_, rfl, by rw [form]; rfl, rfl⟩
  | keyword form _ => exact Or.inl ⟨_, rfl, by rw [form]; rfl, rfl⟩
  | operatorWord form _ _ => exact Or.inl ⟨_, rfl, by rw [form]; rfl, rfl⟩
  | identifier form _ => exact Or.inl ⟨_, rfl, by rw [form]; rfl, rfl⟩
  | operator form _ => exact Or.inl ⟨_, rfl, by rw [form]; rfl, rfl⟩
  | other form _ => exact Or.inl ⟨_, rfl, by rw [form]; rfl, rfl⟩
  | closeParen form _ => exact Or.inl ⟨_, rfl, by rw [form]; rfl, rfl⟩

/-- An operator token stands for a symbol that the table knows. -/
theorem Lexeme.Settles.of_operator {found : Lexeme} {lookback : Lookback} {offset : Nat}
    {line : Line} {resolve : Resolver} {token : Token} {op : Operator}
    (h : found.Settles lookback offset line resolve (.emit token))
    (hform : found.form.HasFixedKind) (hkind : token.kind = .operator op) :
    ∃ spelling, found.form = .symbol spelling ∧ resolve ⟨spelling, lookback.latest⟩ = some op ∧
      token.text = found.text.shift offset := by
  cases h with
  | @fixed kind form =>
    have hkind : kind = .operator op := hkind
    rw [form, hkind] at hform
    cases hform
  | @annotated kind _ form =>
    have hkind : kind = .operator op := hkind
    rw [form, hkind] at hform
    cases hform
  | keyword _ _ => cases hkind
  | operatorWord _ _ _ => cases hkind
  | identifier _ _ => cases hkind
  | operator form answer =>
    cases hkind
    exact ⟨_, form, answer, rfl⟩
  | other _ _ => cases hkind
  | closeParen _ _ => cases hkind

/-- A cast is open when the most recent tokens are a parenthesis and a keyword. -/
theorem Lookback.of_openCast? {lookback : Lookback} {opening : Token} {cast : Operator}
    (h : lookback.openCast? = some (opening, cast)) :
    ∃ word keyword, lookback.older = some opening ∧ lookback.latest = some word ∧
      opening.kind = .openParen ∧ word.kind = .keyword keyword ∧ keyword.cast? = some cast := by
  rw [openCast?] at h
  split at h
  · next opening' word holder hlatest =>
    split at h
    · next keyword hword =>
      split at h
      · next hopening =>
        obtain ⟨cast', hcast, he⟩ := Option.map_eq_some_iff.mp h
        cases he
        exact ⟨word, keyword, holder, hlatest, hopening, hword, hcast⟩
      · cases h
    · cases h
  · cases h

namespace Lexer

variable {l l' : Lexer} {resolve : Resolver} {edit : Edit} {tokens tokens' : Array Token}

/-! ### One step -/

/-- The step of a lexer passes `gap` and then the lexeme `found`, which begins with `first`, and
answers with the edit that this lexeme has after the most recent tokens. -/
structure Takes (l : Lexer) (resolve : Resolver) (edit : Edit) (gap : Bytes) (first : UInt8)
    (tail : Bytes) (found : Lexeme) : Prop where
  rest : l.cursor.rest = gap ++ first :: tail
  skipped : gap.length = (Ahead.of l.options l.cursor.rest).skipped
  trivia : Trivia gap (first :: tail)
  space : Byte.isSpace first = false
  scan : Construct.scan l.options first tail = .lexeme found
  settles : found.Settles l.lookback (l.cursor.offset + gap.length) (l.cursor.line.after gap) resolve
    edit
  lexer : (l.step resolve).lexer =
    { l with
      cursor := l.cursor.advanceBy (gap.length + found.length)
      lookback := l.lookback.push edit }

/-- Every step that answers with an edit is such a step. -/
theorem exists_takes (h : (l.step resolve).answer = .ok edit) :
    ∃ gap first tail found, l.Takes resolve edit gap first tail found := by
  obtain ⟨gap, bs, hmeets⟩ := exists_meets l
  obtain ⟨htrivia, hstands⟩ := hmeets.stands
  have hlexer := lexer_step l resolve
  rw [h] at hlexer
  cases hfound : (Ahead.of l.options l.cursor.rest).found with
  | endOfInput => rw [step, hfound] at h; cases h
  | fault cause length => rw [step, hfound] at h; cases h
  | lexeme found =>
    rw [hfound] at hstands hlexer
    rw [← hmeets.skipped] at hlexer
    cases hstands with
    | @lexeme first tail _ space scan =>
      have hanswer := (hmeets.step_of_lexeme scan resolve).1
      obtain rfl := Except.ok.inj (h.symm.trans hanswer)
      exact ⟨gap, first, tail, found, hmeets.rest, hmeets.skipped, htrivia, space, scan,
        found.settles_read _ _ _ _, hlexer⟩

namespace Takes

variable {gap : Bytes} {first : UInt8} {tail : Bytes} {found : Lexeme}

theorem length (h : l.Takes resolve edit gap first tail found) :
    0 < found.length ∧ found.length ≤ tail.length + 1 := by
  have hlength := Construct.length_scan l.options first tail
  rw [h.scan] at hlength
  exact hlength

theorem options_eq (h : l.Takes resolve edit gap first tail found) :
    (l.step resolve).lexer.options = l.options := by
  rw [h.lexer]

theorem finished_eq (h : l.Takes resolve edit gap first tail found) :
    (l.step resolve).lexer.finished = l.finished := by
  rw [h.lexer]

theorem source_eq (h : l.Takes resolve edit gap first tail found) :
    (l.step resolve).lexer.cursor.source = l.cursor.source := by
  rw [h.lexer, Cursor.source_advanceBy]

/-- The lexer goes on right behind the lexeme. -/
theorem rest_eq (h : l.Takes resolve edit gap first tail found) :
    (l.step resolve).lexer.cursor.rest = tail.drop (found.length - 1) := by
  rw [h.lexer]
  show l.cursor.rest.drop (gap.length + found.length) = _
  rw [h.rest, ← List.drop_drop, List.drop_append_length]
  exact Bytes.drop_cons_add h.length.1 0

theorem offset_eq (h : l.Takes resolve edit gap first tail found) :
    (l.step resolve).lexer.cursor.offset = l.cursor.offset + gap.length + found.length := by
  have hle := h.length.2
  rw [h.lexer, Nat.add_assoc]
  refine Cursor.offset_advanceBy_of_le ?_
  rw [h.rest, List.length_append, List.length_cons]
  omega

end Takes

/-- What such a step passes besides trivia are the bytes of one token. -/
theorem exists_step (h : (l.step resolve).answer = .ok edit) :
    ∃ (gap extent rest : Bytes) (found : Lexeme), l.cursor.rest = gap ++ (extent ++ rest) ∧
      Trivia gap (extent ++ rest) ∧ ¬ StartsTrivia (extent ++ rest) ∧ extent ≠ [] ∧
      (∀ kind, found.form.Allows kind →
        Extent l.options.delimiters kind found.text extent rest) ∧
      found.Settles l.lookback (l.cursor.offset + gap.length) (l.cursor.line.after gap) resolve
        edit ∧
      (l.step resolve).lexer =
        { l with
          cursor := l.cursor.advanceBy (gap.length + extent.length)
          lookback := l.lookback.push edit } := by
  obtain ⟨gap, first, tail, found, htakes⟩ := exists_takes h
  obtain ⟨extent, rest, hsplit, hlength, hextent⟩ := Construct.exists_extent htakes.scan
  have hrest := htakes.rest
  have htrivia := htakes.trivia
  have hlexer := htakes.lexer
  rw [hsplit] at hrest htrivia
  rw [← hlength] at hlexer
  refine ⟨gap, extent, rest, found, hrest, htrivia, ?_, ?_, hextent, htakes.settles, hlexer⟩
  · rw [← hsplit]
    rintro (⟨b, hb, hb'⟩ | hopens)
    · obtain rfl := Option.some.inj hb
      rw [htakes.space] at hb'
      cases hb'
    · exact Ahead.not_opens_of_scan htakes.scan hopens
  · rintro rfl
    have hpos := htakes.length.1
    rw [← hlength] at hpos
    exact absurd hpos (Nat.lt_irrefl 0)

/-- A step fails at the end of the input, or at a construct that has a fault. -/
theorem exists_fault {e : LexError} (h : (l.step resolve).answer = .error e) :
    (e.cause = .endOfInput ∧ (Ahead.of l.options l.cursor.rest).found = .endOfInput ∧
      Trivia l.cursor.rest []) ∨
    ∃ (gap : Bytes) (first : UInt8) (tail : Bytes) (cause : Fault) (length : Nat),
      l.cursor.rest = gap ++ first :: tail ∧
      gap.length = (Ahead.of l.options l.cursor.rest).skipped ∧ Byte.isSpace first = false ∧
      Construct.scan l.options first tail = .fault cause length ∧ e.cause = .fault cause := by
  obtain ⟨gap, bs, hmeets⟩ := exists_meets l
  obtain ⟨htrivia, hstands⟩ := hmeets.stands
  cases hfound : (Ahead.of l.options l.cursor.rest).found with
  | endOfInput =>
    rw [step, hfound] at h
    rw [hfound] at hstands
    cases hstands
    cases h
    rw [hmeets.rest, List.append_nil]
    exact Or.inl ⟨rfl, by rw [← hfound, hmeets.rest, List.append_nil], htrivia⟩
  | fault cause length =>
    rw [step, hfound] at h
    rw [hfound] at hstands
    cases h
    cases hstands with
    | fault space scan =>
      exact Or.inr ⟨gap, _, _, _, _, hmeets.rest, hmeets.skipped, space, scan, rfl⟩
  | lexeme found => rw [step, hfound] at h; cases h

/-- At the end of the input there is only trivia left. -/
theorem trivia_of_step {e : LexError} (h : (l.step resolve).answer = .error e)
    (hend : e.isEndOfInput = true) : Trivia l.cursor.rest [] := by
  rcases exists_fault h with ⟨-, -, htrivia⟩ | ⟨_, _, _, _, _, -, -, -, -, hcause⟩
  · exact htrivia
  · rw [LexError.isEndOfInput, hcause] at hend
    cases hend

theorem next_of_ok (hl : l.finished = false) (h : (l.step resolve).answer = .ok edit) :
    l.next resolve = ⟨some (.ok edit), (l.step resolve).query, (l.step resolve).lexer⟩ := by
  rw [next, hl, if_neg Bool.false_ne_true]
  simp only [h]

theorem next_of_error {e : LexError} (hl : l.finished = false)
    (h : (l.step resolve).answer = .error e) :
    l.next resolve = ⟨if e.isEndOfInput then none else some (.error e), (l.step resolve).query,
      { (l.step resolve).lexer with finished := true }⟩ := by
  rw [next, hl, if_neg Bool.false_ne_true]
  simp only [h]

theorem next_of_finished (hl : l.finished = true) : l.next resolve = ⟨none, none, l⟩ := by
  rw [next, if_pos hl]

/-- An edit that a lexer hands out is the edit of its step. -/
theorem step_of_next (h : (l.next resolve).answer = some (.ok edit)) :
    (l.step resolve).answer = .ok edit ∧ (l.next resolve).lexer = (l.step resolve).lexer := by
  cases hl : l.finished with
  | true =>
    rw [next_of_finished hl] at h
    cases h
  | false =>
    cases hstep : (l.step resolve).answer with
    | ok edit' =>
      rw [next_of_ok hl hstep] at h ⊢
      cases h
      exact ⟨rfl, rfl⟩
    | error e =>
      rw [next_of_error hl hstep] at h
      simp only [] at h
      split at h <;> cases h

/-- A lexer with nothing left to hand out has finished or stands at the end of the input. -/
theorem step_of_next_none (h : (l.next resolve).answer = none) (hl : l.finished = false) :
    ∃ e, (l.step resolve).answer = .error e ∧ e.isEndOfInput = true := by
  cases hstep : (l.step resolve).answer with
  | ok edit =>
    rw [next_of_ok hl hstep] at h
    cases h
  | error e =>
    rw [next_of_error hl hstep] at h
    simp only [] at h
    split at h
    · next hend => exact ⟨e, rfl, hend⟩
    · cases h

/-! ### Runs -/

/-- What holds where a step answers with an error, and wherever it holds behind an edit, holds of
every lexer, whatever tables its steps ask one after the other. -/
theorem tables_induction {motive : Lexer → (Nat → Resolver) → Prop}
    (error : ∀ l tables e, (l.step (tables 0)).answer = .error e → motive l tables)
    (ok : ∀ l tables edit, (l.step (tables 0)).answer = .ok edit →
      motive (l.step (tables 0)).lexer (fun k => tables (k + 1)) → motive l tables)
    (l : Lexer) (tables : Nat → Resolver) : motive l tables := by
  induction hlen : l.cursor.rest.length using Nat.strongRecOn generalizing l tables with
  | ind n ih =>
    cases hstep : (l.step (tables 0)).answer with
    | error e => exact error l tables e hstep
    | ok edit => exact ok l tables edit hstep (ih _ (hlen ▸ length_rest_step hstep) _ _ rfl)

/-- So it does where all steps ask the same table. -/
theorem step_induction (resolve : Resolver) {motive : Lexer → Prop}
    (error : ∀ l e, (l.step resolve).answer = .error e → motive l)
    (ok : ∀ l edit, (l.step resolve).answer = .ok edit → motive (l.step resolve).lexer → motive l)
    (l : Lexer) : motive l := by
  refine tables_induction (motive := fun l tables => (∀ k, tables k = resolve) → motive l) ?_ ?_ l
    (fun _ => resolve) fun _ => rfl
  · intro l tables e hstep hconst
    rw [hconst 0] at hstep
    exact error l e hstep
  · intro l tables edit hstep ih hconst
    rw [hconst 0] at hstep ih
    exact ok l edit hstep (ih fun k => hconst (k + 1))

/-- Applies all further edits to `tokens`.  Each step asks a table of its own. -/
def collectTables (l : Lexer) (tables : Nat → Resolver) (tokens : Array Token) :
    Except LexError (Array Token) :=
  match _h : l.next (tables 0) with
  | ⟨none, _, _⟩ => .ok tokens
  | ⟨some (.error e), _, _⟩ => .error e
  | ⟨some (.ok edit), _, further⟩ =>
    further.collectTables (fun k => tables (k + 1)) (edit.apply tokens)
termination_by l.cursor.rest.length
decreasing_by
  have h : (l.next (tables 0)).answer = some (.ok edit) := by rw [_h]
  simpa only [_h] using length_rest_next h

theorem collectTables_eq (l : Lexer) (tables : Nat → Resolver) (tokens : Array Token) :
    l.collectTables tables tokens =
      match (l.next (tables 0)).answer with
      | none => .ok tokens
      | some (.error e) => .error e
      | some (.ok edit) =>
        (l.next (tables 0)).lexer.collectTables (fun k => tables (k + 1)) (edit.apply tokens) := by
  rw [collectTables]
  split <;> next h => simp only [h]

theorem collectTables_of_ok {tables : Nat → Resolver} (hl : l.finished = false)
    (h : (l.step (tables 0)).answer = .ok edit) (tokens : Array Token) :
    l.collectTables tables tokens =
      (l.step (tables 0)).lexer.collectTables (fun k => tables (k + 1)) (edit.apply tokens) := by
  rw [collectTables_eq, next_of_ok hl h]

theorem collectTables_of_error {tables : Nat → Resolver} {e : LexError} (hl : l.finished = false)
    (h : (l.step (tables 0)).answer = .error e) (tokens : Array Token) :
    l.collectTables tables tokens = if e.isEndOfInput then .ok tokens else .error e := by
  rw [collectTables_eq, next_of_error hl h]
  cases e.isEndOfInput <;> rfl

/-- A collection with one table is the case in which all steps ask that one. -/
theorem collectTables_const (l : Lexer) (resolve : Resolver) (tokens : Array Token) :
    l.collectTables (fun _ => resolve) tokens = l.collectFrom resolve tokens := by
  induction hlen : l.cursor.rest.length using Nat.strongRecOn generalizing l tokens with
  | ind n ih =>
    rw [collectTables_eq, collectFrom_eq]
    cases hnext : (l.next resolve).answer with
    | none => rfl
    | some answer =>
      cases answer with
      | error e => rfl
      | ok edit => exact ih _ (hlen ▸ length_rest_next hnext) _ _ rfl

theorem collectFrom_of_ok (hl : l.finished = false) (h : (l.step resolve).answer = .ok edit)
    (tokens : Array Token) : l.collectFrom resolve tokens =
      (l.step resolve).lexer.collectFrom resolve (edit.apply tokens) := by
  rw [← collectTables_const, ← collectTables_const]
  exact collectTables_of_ok hl h tokens

theorem collectFrom_of_error {e : LexError} (hl : l.finished = false)
    (h : (l.step resolve).answer = .error e) (tokens : Array Token) :
    l.collectFrom resolve tokens = if e.isEndOfInput then .ok tokens else .error e := by
  rw [← collectTables_const]
  exact collectTables_of_error hl h tokens

/-- The edits of all further steps, up to an error or the end of the input. -/
def edits (l : Lexer) (resolve : Resolver) : List Edit :=
  match _h : l.next resolve with
  | ⟨some (.ok edit), _, further⟩ => edit :: further.edits resolve
  | ⟨_, _, _⟩ => []
termination_by l.cursor.rest.length
decreasing_by
  have h : (l.next resolve).answer = some (.ok edit) := by rw [_h]
  simpa only [_h] using length_rest_next h

theorem edits_of_ok (hl : l.finished = false) (h : (l.step resolve).answer = .ok edit) :
    l.edits resolve = edit :: (l.step resolve).lexer.edits resolve := by
  rw [edits, next_of_ok hl h]

theorem edits_of_error {e : LexError} (hl : l.finished = false)
    (h : (l.step resolve).answer = .error e) : l.edits resolve = [] := by
  rw [edits, next_of_error hl h]
  split
  · next hnext =>
    have hanswer := congrArg Turn.answer hnext
    simp only [] at hanswer
    split at hanswer <;> cases hanswer
  · rfl

/-- `l'` with `tokens'` comes after `l` with `tokens` in steps that all answer with an edit.  Each
step may ask an operator table of its own. -/
inductive Reaches : Lexer → Array Token → Lexer → Array Token → Prop
  | refl {l : Lexer} {tokens : Array Token} : Reaches l tokens l tokens
  | step {l l' : Lexer} {tokens tokens' : Array Token} {resolve : Resolver} {edit : Edit}
      (answer : (l.step resolve).answer = .ok edit)
      (further : Reaches (l.step resolve).lexer (edit.apply tokens) l' tokens') :
      Reaches l tokens l' tokens'

/-- A run can be taken one step further. -/
theorem Reaches.concat (h : Reaches l tokens l' tokens')
    (answer : (l'.step resolve).answer = .ok edit) :
    Reaches l tokens (l'.step resolve).lexer (edit.apply tokens') := by
  induction h with
  | refl => exact .step answer .refl
  | step first _ ih => exact .step first (ih answer)

/-- What every step keeps still holds when a collection has come to its end, of a lexer that has no
more to hand out. -/
theorem collectTables_induction {tables : Nat → Resolver} {motive : Lexer → Array Token → Prop}
    (step : ∀ {l tokens edit} k, motive l tokens → (l.step (tables k)).answer = .ok edit →
      motive (l.step (tables k)).lexer (edit.apply tokens))
    (h : l.collectTables tables tokens = .ok tokens') (start : motive l tokens) :
    ∃ l' last, motive l' tokens' ∧ (l'.next (tables last)).answer = none := by
  induction hlen : l.cursor.rest.length using Nat.strongRecOn generalizing l tables tokens with
  | ind n ih =>
    rw [collectTables_eq] at h
    split at h
    · next hnone =>
      cases h
      exact ⟨l, 0, start, hnone⟩
    · cases h
    · next edit hedit =>
      obtain ⟨hstep, hlexer⟩ := step_of_next hedit
      rw [hlexer] at h
      obtain ⟨l', last, hmotive, hnone⟩ := ih _ (hlen ▸ length_rest_step hstep)
        (fun k => step (k + 1)) h (step 0 start hstep) rfl
      exact ⟨l', last + 1, hmotive, hnone⟩

/-- So it is where all steps ask the same table. -/
theorem collectFrom_induction {motive : Lexer → Array Token → Prop}
    (step : ∀ {l tokens edit}, motive l tokens → (l.step resolve).answer = .ok edit →
      motive (l.step resolve).lexer (edit.apply tokens))
    (h : l.collectFrom resolve tokens = .ok tokens') (start : motive l tokens) :
    ∃ l', motive l' tokens' ∧ (l'.next resolve).answer = none := by
  rw [← collectTables_const] at h
  obtain ⟨l', _, hmotive, hnone⟩ := collectTables_induction (fun _ => step) h start
  exact ⟨l', hmotive, hnone⟩

/-- A collection without an error is a run to a lexer that has no more to hand out. -/
theorem exists_reaches {tables : Nat → Resolver}
    (h : l.collectTables tables tokens = .ok tokens') :
    ∃ l' last, Reaches l tokens l' tokens' ∧ (l'.next (tables last)).answer = none :=
  collectTables_induction (motive := Reaches l tokens) (fun _ h answer => h.concat answer) h .refl

/-- Only an error or the end of the input finishes a lexer. -/
theorem Reaches.finished_eq (h : Reaches l tokens l' tokens') : l'.finished = l.finished := by
  induction h with
  | refl => rfl
  | step answer _ ih =>
    obtain ⟨_, _, _, _, htakes⟩ := exists_takes answer
    rw [ih, htakes.finished_eq]

/-- A run keeps the options. -/
theorem Reaches.options_eq (h : Reaches l tokens l' tokens') : l'.options = l.options := by
  induction h with
  | refl => rfl
  | step answer _ ih =>
    obtain ⟨_, _, _, _, htakes⟩ := exists_takes answer
    rw [ih, htakes.options_eq]

end Lexer

/-! ### The most recent tokens -/

/-- The most recent tokens are the last ones of the list: the latest is always the last one, and
an older one, if there is one, comes right before it. -/
structure Lookback.Recalls (lookback : Lookback) (tokens : List Token) : Prop where
  latest : lookback.latest = tokens.getLast?
  older : ∀ older ∈ lookback.older, ∃ before word, tokens = before ++ [older, word]

/-- Before the first token there is nothing to remember. -/
theorem Lookback.recalls_nil : Lookback.Recalls {} [] := by
  refine ⟨rfl, fun older holder => ?_⟩
  have hnone : none = some older := holder
  cases hnone

/-- The latest token is the one that was pushed. -/
theorem Lookback.latest_push (lookback : Lookback) (edit : Edit) :
    (lookback.push edit).latest = some edit.token := by
  cases edit <;> rfl

theorem Lookback.Recalls.push {lookback : Lookback} {tokens : Array Token}
    (h : lookback.Recalls tokens.toList) (edit : Edit) :
    (lookback.push edit).Recalls (edit.apply tokens).toList := by
  rw [Edit.toList_apply]
  cases edit with
  | emit token =>
    rw [Edit.take_dropped_emit]
    refine ⟨(List.getLast?_concat).symm, fun older holder => ?_⟩
    have hlatest : tokens.toList.getLast? = some older := h.latest ▸ holder
    obtain ⟨before, hbefore⟩ := List.getLast?_eq_some_iff.mp hlatest
    exact ⟨before, token, by rw [hbefore, List.append_assoc]; rfl⟩
  | replaceLast count token =>
    refine ⟨(List.getLast?_concat).symm, fun older holder => ?_⟩
    have hnone : none = some older := holder
    cases hnone

end TemplateScript
