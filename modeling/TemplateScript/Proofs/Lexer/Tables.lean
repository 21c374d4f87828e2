import TemplateScript.Proofs.Lexer.Casts

/-!
# Two operator tables

An operator table says what tokens are and has no say in where they are.  Two lexers of one source
go through it side by side whatever tables they ask, also when they ask a new one at each call.

* `Edit.Matches` — how the edits of one lexeme under two tables agree;
* `Lexeme.Settles.matches` — they agree when both lexers remember the same opening parentheses;
* `Lexer.Alongside` — two lexers at the same place, with what they remember behind them;
* `Lexer.Alongside.step` and `Lexer.alongside_afterTables` — a step keeps two lexers alongside, and
  so do any calls;
* `Lexer.answer_afterTables` — the answers of the two lexers to every call.
-/

namespace TemplateScript

/-! ### Two edits of one lexeme -/

/-- The tokens of two edits have the same text and line; or only one of the edits makes a cast, and
the other one pushes the closing parenthesis. -/
def Edit.Matches : Edit → Edit → Prop
  | .emit s, .emit t => s.text = t.text ∧ s.line = t.line
  | .replaceLast _ s, .replaceLast _ t => s.text = t.text ∧ s.line = t.line
  | .emit s, .replaceLast _ _ => s.kind = .closeParen
  | .replaceLast _ _, .emit t => t.kind = .closeParen

/-- If the tokens are opening parentheses, they are the same one. -/
def Token.SameOpening (s t : Token) : Prop :=
  s.kind = .openParen → t.kind = .openParen → s.text = t.text ∧ s.line = t.line

/-- Where both remember an opening parenthesis, it is the same one. -/
structure Lookback.Alongside (lookback lookback' : Lookback) : Prop where
  older : ∀ s t, lookback.older = some s → lookback'.older = some t → s.SameOpening t
  latest : ∀ s t, lookback.latest = some s → lookback'.latest = some t → s.SameOpening t

theorem Lookback.alongside_nil : Lookback.Alongside {} {} := by
  refine ⟨fun s t h => ?_, fun s t h => ?_⟩ <;> cases h

variable {found : Lexeme} {lookback lookback' : Lookback} {offset : Nat} {line : Line}
  {resolve resolve' : Resolver} {edit edit' : Edit}

/-- A closing parenthesis that is emitted stays one. -/
theorem Lexeme.Settles.kind_of_closeParen {token : Token}
    (h : found.Settles lookback offset line resolve (.emit token))
    (form : found.form = .closeParen) :
    token.kind = .closeParen := by
  cases h with
  | closeParen _ _ => rfl
  | fixed hform => rw [form] at hform; cases hform
  | annotated hform => rw [form] at hform; cases hform
  | keyword hform _ => rw [form] at hform; cases hform
  | operatorWord hform _ _ => rw [form] at hform; cases hform
  | identifier hform _ => rw [form] at hform; cases hform
  | operator hform _ => rw [form] at hform; cases hform
  | other hform _ => rw [form] at hform; cases hform

/-- Two tables settle a lexeme in the same place, if the same opening parentheses are remembered. -/
theorem Lexeme.Settles.matches (h : found.Settles lookback offset line resolve edit)
    (h' : found.Settles lookback' offset line resolve' edit')
    (alongside : lookback.Alongside lookback') : edit.Matches edit' := by
  rcases h.emits_or_merges with ⟨s, rfl, -, htext⟩ | ⟨opening, _, _, form, hcast, rfl⟩ <;>
    rcases h'.emits_or_merges with ⟨t, rfl, -, htext'⟩ | ⟨opening', _, _, form', hcast', rfl⟩
  · exact ⟨htext.trans htext'.symm, h.line_eq.trans h'.line_eq.symm⟩
  · exact h.kind_of_closeParen form'
  · exact h'.kind_of_closeParen form
  · -- both casts begin at the parenthesis that is remembered
    obtain ⟨_, _, holder, -, hopening, -, -⟩ := Lookback.of_openCast? hcast
    obtain ⟨_, _, holder', -, hopening', -, -⟩ := Lookback.of_openCast? hcast'
    obtain ⟨htext, hline⟩ := alongside.older opening opening' holder holder' hopening hopening'
    refine ⟨?_, hline⟩
    show Span.between opening.text.start _ = Span.between opening'.text.start _
    rw [htext]

/-- The tokens of matching edits are the same opening parenthesis, if they are one at all. -/
theorem Lexeme.Settles.sameOpening (h : found.Settles lookback offset line resolve edit)
    (h' : found.Settles lookback' offset line resolve' edit') (hmatch : edit.Matches edit') :
    edit.token.SameOpening edit'.token := by
  intro hkind hkind'
  cases edit with
  | emit s =>
    cases edit' with
    | emit t => exact hmatch
    | replaceLast count t =>
      have hclose : s.kind = .closeParen := hmatch
      rw [show s.kind = .openParen from hkind] at hclose
      cases hclose
  | replaceLast count s =>
    obtain ⟨op, hop⟩ := h.operator_of_replaceLast
    rw [show s.kind = .openParen from hkind] at hop
    cases hop

/-- After matching edits the same opening parentheses are remembered. -/
theorem Lookback.Alongside.push (h : lookback.Alongside lookback')
    (opening : edit.token.SameOpening edit'.token) :
    (lookback.push edit).Alongside (lookback'.push edit') := by
  refine ⟨fun s t hs ht => ?_, fun s t hs ht => ?_⟩
  · cases edit with
    | emit token =>
      cases edit' with
      | emit token' => exact h.latest s t hs ht
      | replaceLast _ _ => cases ht
    | replaceLast _ _ => cases hs
  · rw [latest_push] at hs ht
    cases hs
    cases ht
    exact opening

/-! ### Two lexers -/

namespace Lexer

variable {l l' : Lexer} {gap : Bytes} {first : UInt8} {tail : Bytes}

/-- What the lexer remembers lies behind it. -/
def IsBehind (l : Lexer) : Prop :=
  ∀ token, l.lookback.older = some token ∨ l.lookback.latest = some token →
    token.text.stop ≤ l.offset

theorem IsBehind.step (h : l.IsBehind) (resolve : Resolver) : (l.step resolve).lexer.IsBehind := by
  have hle := offset_le_step l resolve
  cases hanswer : (l.step resolve).answer with
  | error e =>
    intro token htoken
    rw [lookback_step_of_error hanswer] at htoken
    exact Nat.le_trans (h token htoken) hle
  | ok edit =>
    obtain ⟨gap, first, tail, found, htakes⟩ := exists_takes hanswer
    have hnew : edit.token.text.stop ≤ (l.step resolve).lexer.offset := by
      have hstop := htakes.stop_le
      rw [htakes.settles.stop_eq fun older holder =>
        Nat.le_trans (h older (Or.inl holder)) (Nat.le_add_right _ gap.length), offset,
        htakes.offset_eq, Span.stop_shift]
      omega
    intro token htoken
    rw [lookback_step_of_ok hanswer, Lookback.latest_push] at htoken
    rcases htoken with holder | hlatest
    · cases edit with
      | emit _ => exact Nat.le_trans (h token (Or.inr holder)) hle
      | replaceLast _ _ => cases holder
    · obtain rfl := Option.some.inj hlatest
      exact hnew

/-- Two lexers with the same options at the same place, which remember the same opening
parentheses, and nothing that is ahead. -/
structure Alongside (l l' : Lexer) : Prop where
  options_eq : l'.options = l.options
  cursor_eq : l'.cursor = l.cursor
  lookback : l.lookback.Alongside l'.lookback
  behind : l.IsBehind
  behind' : l'.IsBehind

theorem alongside_start (source : Bytes) (options : Options) :
    Alongside (start source options) (start source options) := by
  have hbehind : (start source options).IsBehind := by
    intro token htoken
    rcases htoken with h | h <;> cases h
  exact ⟨rfl, rfl, Lookback.alongside_nil, hbehind, hbehind⟩

namespace Alongside

/-- A step of the other lexer passes the same bytes. -/
theorem exists_takes (h : Alongside l l') (htakes : l.Takes resolve edit gap first tail found)
    (resolve' : Resolver) :
    ∃ edit', (l'.step resolve').answer = .ok edit' ∧
      l'.Takes resolve' edit' gap first tail found := by
  have hmeets : l'.Meets gap (first :: tail) :=
    ⟨by rw [h.cursor_eq, htakes.rest], by rw [h.options_eq, h.cursor_eq, htakes.skipped]⟩
  have hscan : Construct.scan l'.options first tail = .lexeme found := by
    rw [h.options_eq, htakes.scan]
  have hanswer := (hmeets.step_of_lexeme hscan resolve').1
  have hlexer := lexer_step l' resolve'
  rw [hanswer, hmeets.found_of_lexeme hscan, ← hmeets.skipped] at hlexer
  exact ⟨_, hanswer, hmeets.rest, hmeets.skipped, htakes.trivia, htakes.space, hscan,
    found.settles_read _ _ _ _, hlexer⟩

/-- Both steps fail alike. -/
theorem answer_eq_error (h : Alongside l l') {e : LexError}
    (hanswer : (l.step resolve).answer = .error e) (resolve' : Resolver) :
    (l'.step resolve').answer = .error e := by
  rw [Lexer.step] at hanswer ⊢
  rw [h.options_eq, h.cursor_eq]
  generalize Ahead.of l.options l.cursor.rest = ahead at hanswer ⊢
  obtain ⟨skipped, ahead⟩ := ahead
  cases ahead with
  | endOfInput => exact hanswer
  | fault cause length => exact hanswer
  | lexeme found => cases hanswer

/-- The next answers of the two lexers: the same error, or edits that match and end alike. -/
theorem answer (h : Alongside l l') (resolve resolve' : Resolver) :
    (∃ e, (l.step resolve).answer = .error e ∧ (l'.step resolve').answer = .error e) ∨
      ∃ edit edit', (l.step resolve).answer = .ok edit ∧ (l'.step resolve').answer = .ok edit' ∧
        edit.token.text.stop = edit'.token.text.stop ∧ edit.Matches edit' ∧
        edit.token.SameOpening edit'.token := by
  cases hanswer : (l.step resolve).answer with
  | error e => exact Or.inl ⟨e, rfl, h.answer_eq_error hanswer resolve'⟩
  | ok edit =>
    obtain ⟨gap, first, tail, found, htakes⟩ := Lexer.exists_takes hanswer
    obtain ⟨edit', hanswer', htakes'⟩ := h.exists_takes htakes resolve'
    have hsettles := htakes.settles
    have hsettles' := htakes'.settles
    have hstop := hsettles.stop_eq fun older holder =>
      Nat.le_trans (h.behind older (Or.inl holder)) (Nat.le_add_right _ gap.length)
    have hstop' := hsettles'.stop_eq fun older holder =>
      Nat.le_trans (h.behind' older (Or.inl holder)) (Nat.le_add_right _ gap.length)
    rw [h.cursor_eq] at hsettles' hstop'
    have hmatch := hsettles.matches hsettles' h.lookback
    exact Or.inr ⟨edit, edit', rfl, hanswer', hstop.trans hstop'.symm, hmatch,
      hsettles.sameOpening hsettles' hmatch⟩

/-- A step keeps the two lexers alongside. -/
theorem step (h : Alongside l l') (resolve resolve' : Resolver) :
    Alongside (l.step resolve).lexer (l'.step resolve').lexer := by
  refine ⟨?_, ?_, ?_, h.behind.step resolve, h.behind'.step resolve'⟩
  · rw [options_step, options_step, h.options_eq]
  · rw [cursor_step, cursor_step, h.options_eq, h.cursor_eq]
  · rcases h.answer resolve resolve' with
      ⟨e, hanswer, hanswer'⟩ | ⟨edit, edit', hanswer, hanswer', -, -, hopening⟩
    · rw [lookback_step_of_error hanswer, lookback_step_of_error hanswer']
      exact h.lookback
    · rw [lookback_step_of_ok hanswer, lookback_step_of_ok hanswer']
      exact h.lookback.push hopening

end Alongside

/-! ### Any calls -/

theorem alongside_afterTables (source : Bytes) (options : Options) (tables tables' : Nat → Resolver)
    (calls : Nat) :
    Alongside ((start source options).afterTables tables calls)
      ((start source options).afterTables tables' calls) := by
  induction calls with
  | zero => exact alongside_start source options
  | succ calls ih => exact ih.step (tables calls) (tables' calls)

/-- Whatever tables two lexers of one source ask, after every call they stand at the same offset and
line.  They answer with the same error, or with edits whose tokens end alike and have the same text
and line, unless one of them is a cast and the other its closing parenthesis. -/
theorem answer_afterTables (source : Bytes) (options : Options) (tables tables' : Nat → Resolver)
    (calls : Nat) :
    let turn := ((start source options).afterTables tables calls).step (tables calls)
    let turn' := ((start source options).afterTables tables' calls).step (tables' calls)
    turn.lexer.offset = turn'.lexer.offset ∧ turn.lexer.line = turn'.lexer.line ∧
      ((∃ e, turn.answer = .error e ∧ turn'.answer = .error e) ∨
        ∃ edit edit', turn.answer = .ok edit ∧ turn'.answer = .ok edit' ∧
          edit.token.text.stop = edit'.token.text.stop ∧ edit.Matches edit') := by
  intro turn turn'
  have h := alongside_afterTables source options tables tables' calls
  have hstep : Alongside turn.lexer turn'.lexer := h.step (tables calls) (tables' calls)
  refine ⟨by rw [offset, offset, hstep.cursor_eq], by rw [line, line, hstep.cursor_eq], ?_⟩
  rcases h.answer (tables calls) (tables' calls) with
    hfails | ⟨edit, edit', hanswer, hanswer', hstop, hmatch, -⟩
  · exact Or.inl hfails
  · exact Or.inr ⟨edit, edit', hanswer, hanswer', hstop, hmatch⟩

end Lexer

end TemplateScript
