import Mathlib.Data.List.Induction
import TemplateScript.Proofs.Form
import TemplateScript.Proofs.Lexer.Places

/-!
# Sessions

A caller keeps a token list and applies to it every edit that the lexer hands out.  It may ask for a
step or for the next edit at any call, also after an error.

* `Lexer.Session` and `Lexer.Session.run` — a lexer with the list of its caller, after any calls;
* `Lexer.Session.call_cases` — a call applies the edit of a step, or leaves the list alone and only
  moves the lexer on;
* `Lexer.Session.exists_push` — every token of the list was pushed by some call, when what comes
  before it in the list stood there already;
* `Lexer.Session.Sound` and `Lexer.Session.sound_run` — what holds of the lexer and the list after
  any calls;
* `Lexer.Session.run_of_collectFrom` — a collection is a session of steps.
-/

namespace TemplateScript

/-! ### What is remembered -/

/-- The most recent tokens are the last two of the list, unless the last one is an operator: behind
a merged token nothing is remembered. -/
structure Lookback.Keeps (lookback : Lookback) (tokens : List Token) : Prop
    extends lookback.Recalls tokens where
  keeps : ∀ before older word, tokens = before ++ [older, word] →
    (∀ op, word.kind ≠ .operator op) → lookback.older = some older

theorem Lookback.keeps_nil : Lookback.Keeps {} [] := by
  refine ⟨Lookback.recalls_nil, fun before older word h => ?_⟩
  cases before <;> cases h

theorem Lookback.Keeps.push {lookback : Lookback} {tokens : Array Token}
    (h : lookback.Keeps tokens.toList) {edit : Edit}
    (merges : ∀ count token, edit = .replaceLast count token → ∃ op, token.kind = .operator op) :
    (lookback.push edit).Keeps (edit.apply tokens).toList := by
  refine ⟨h.toRecalls.push edit, fun before older word hlist hword => ?_⟩
  rw [Edit.toList_apply] at hlist
  have hsplit : tokens.toList.take (tokens.size - edit.dropped) ++ [edit.token] =
      (before ++ [older]) ++ [word] := by
    rw [hlist, List.append_assoc]
    rfl
  obtain ⟨htokens, hedit⟩ := List.append_inj' hsplit rfl
  cases edit with
  | emit token =>
    rw [Edit.take_dropped_emit] at htokens
    show lookback.latest = some older
    rw [h.latest, htokens, List.getLast?_concat]
  | replaceLast count token =>
    obtain rfl : token = word := (List.cons.inj hedit).1
    obtain ⟨op, hop⟩ := merges count token rfl
    exact absurd hop (hword op)

/-- Only a cast replaces tokens. -/
theorem Lexeme.Settles.operator_of_replaceLast {found : Lexeme} {lookback : Lookback} {offset : Nat}
    {line : Line} {resolve : Resolver} {count : Nat} {token : Token}
    (h : found.Settles lookback offset line resolve (.replaceLast count token)) :
    ∃ op, token.kind = .operator op := by
  cases h with
  | cast _ _ _ => exact ⟨_, rfl⟩

namespace Lexer

variable {l : Lexer} {resolve : Resolver} {edit : Edit} {source : Bytes} {options : Options}

/-! ### The bytes of a lexeme in the source -/

/-- A lexeme whose token is no string literal is its text. -/
theorem Takes.text_eq {gap : Bytes} {first : UInt8} {tail : Bytes} {found : Lexeme}
    (h : l.Takes resolve edit gap first tail found) (kind : Token.Kind)
    (allows : found.form.Allows kind) (hkind : kind.isString = false) :
    found.text = ⟨0, found.length⟩ := by
  obtain ⟨extent, rest, -, hlength, hextent⟩ := Construct.exists_extent h.scan
  rw [(hextent kind allows).text_eq_of_not_isString hkind, hlength]

/-- The text of an emitted token that is no string literal is where its lexeme is. -/
theorem Takes.text_of_emit {token : Token} {gap : Bytes} {first : UInt8} {tail : Bytes}
    {found : Lexeme} (h : l.Takes resolve (.emit token) gap first tail found)
    (hkind : token.kind.isString = false) :
    token.text = ⟨l.cursor.offset + gap.length, found.length⟩ := by
  rcases h.settles.emits_or_merges with ⟨token', hedit, hallows, htext⟩ | ⟨_, _, _, -, -, hedit⟩
  · obtain rfl := Edit.emit.inj hedit
    rw [htext, h.text_eq token.kind hallows hkind]
    rfl
  · cases hedit

/-- The text of a lexeme lies within its bytes. -/
theorem Takes.stop_le {gap : Bytes} {first : UInt8} {tail : Bytes} {found : Lexeme}
    (h : l.Takes resolve edit gap first tail found) :
    found.text.stop ≤ found.length := by
  obtain ⟨extent, rest, -, hlength, hextent⟩ := Construct.exists_extent h.scan
  rw [← hlength]
  rcases h.settles.emits_or_merges with ⟨token, -, hkind, -⟩ | ⟨_, _, _, form, -, -⟩
  · exact (hextent token.kind hkind).stop_le
  · exact (hextent .closeParen (by rw [form]; rfl)).stop_le

/-- What the source holds from the lexeme on. -/
theorem Takes.drop_source {gap : Bytes} {first : UInt8} {tail : Bytes} {found : Lexeme}
    (h : l.Takes resolve edit gap first tail found) :
    l.cursor.source.drop (l.cursor.offset + gap.length) = first :: tail :=
  Meets.drop_source ⟨h.rest, h.skipped⟩

/-- The text of a token that is no string literal is the bytes of its lexeme. -/
theorem Takes.slice_source {gap : Bytes} {first : UInt8} {tail : Bytes} {found : Lexeme}
    (h : l.Takes resolve edit gap first tail found) (kind : Token.Kind)
    (allows : found.form.Allows kind) (hkind : kind.isString = false) :
    (found.text.shift (l.cursor.offset + gap.length)).slice l.cursor.source =
      (first :: tail).take found.length := by
  rw [h.text_eq kind allows hkind]
  exact Meets.slice_source ⟨h.rest, h.skipped⟩ h.length.2

theorem Takes.textIn_of_emit {token : Token} {gap : Bytes} {first : UInt8} {tail : Bytes}
    {found : Lexeme} (h : l.Takes resolve (.emit token) gap first tail found)
    (hkind : token.kind.isString = false) :
    token.textIn l.cursor.source = (first :: tail).take found.length := by
  rw [Token.textIn, h.text_of_emit hkind]
  exact Meets.slice_source ⟨h.rest, h.skipped⟩ h.length.2

/-! ### Sessions -/

/-- The two ways to ask a lexer for more. -/
inductive Call
  /-- The next edit or error, whatever was answered before. -/
  | step
  /-- The next edit of the sequence that ends with the first error. -/
  | next
deriving DecidableEq, Repr

/-- A lexer and the token list that its caller keeps. -/
structure Session where
  lexer : Lexer
  tokens : Array Token
deriving DecidableEq

namespace Session

/-- A lexer at the start of `source`, and no tokens yet. -/
def start (source : Bytes) (options : Options) : Session := ⟨.start source options, #[]⟩

/-- The edit that the lexer hands out at a call, if it does. -/
def edit? (resolve : Resolver) (s : Session) : Call → Option Edit
  | .step => (s.lexer.step resolve).answer.toOption
  | .next => (s.lexer.next resolve).answer.bind Except.toOption

/-- The lexer behind a call. -/
def further (resolve : Resolver) (s : Session) : Call → Lexer
  | .step => (s.lexer.step resolve).lexer
  | .next => (s.lexer.next resolve).lexer

/-- The session behind a call, whose edit is applied to the list. -/
def call (resolve : Resolver) (s : Session) (call : Call) : Session :=
  ⟨s.further resolve call, (s.edit? resolve call).elim s.tokens (·.apply s.tokens)⟩

/-- The session behind several calls. -/
def run (resolve : Resolver) (s : Session) (calls : List Call) : Session :=
  calls.foldl (call resolve) s

variable {s : Session} {calls : List Call}

theorem run_concat (resolve : Resolver) (s : Session) (calls : List Call) (c : Call) :
    s.run resolve (calls ++ [c]) = (s.run resolve calls).call resolve c := by
  rw [run, List.foldl_append]
  rfl

/-- What a call does.  It takes a step that answers with an edit and applies it, or it answers with
none, keeps the list and what is remembered, and at most moves the cursor on. -/
theorem call_cases (resolve : Resolver) (s : Session) (c : Call) :
    (∃ edit, s.edit? resolve c = some edit ∧ (s.lexer.step resolve).answer = .ok edit ∧
        s.call resolve c = ⟨(s.lexer.step resolve).lexer, edit.apply s.tokens⟩) ∨
      (s.edit? resolve c = none ∧ (s.call resolve c).tokens = s.tokens ∧
        (s.call resolve c).lexer.lookback = s.lexer.lookback ∧
        ∃ n, (s.call resolve c).lexer.cursor = s.lexer.cursor.advanceBy n) := by
  cases c with
  | step =>
    cases hstep : (s.lexer.step resolve).answer with
    | ok edit =>
      have hedit : s.edit? resolve .step = some edit := by rw [edit?, hstep]; rfl
      exact Or.inl ⟨edit, hedit, rfl, by rw [call, hedit]; rfl⟩
    | error e =>
      have hedit : s.edit? resolve .step = none := by rw [edit?, hstep]; rfl
      have hcall : s.call resolve .step = ⟨(s.lexer.step resolve).lexer, s.tokens⟩ := by
        rw [call, hedit]
        rfl
      rw [hcall]
      exact Or.inr ⟨hedit, rfl, lookback_step_of_error hstep, _, cursor_step s.lexer resolve⟩
  | next =>
    cases hl : s.lexer.finished with
    | true =>
      have hedit : s.edit? resolve .next = none := by rw [edit?, next_of_finished hl]; rfl
      have hcall : s.call resolve .next = s := by
        rw [call, hedit, further, next_of_finished hl]
        rfl
      rw [hcall]
      exact Or.inr ⟨hedit, rfl, rfl, 0, (Cursor.advanceBy_zero _).symm⟩
    | false =>
      cases hstep : (s.lexer.step resolve).answer with
      | ok edit =>
        have hedit : s.edit? resolve .next = some edit := by rw [edit?, next_of_ok hl hstep]; rfl
        refine Or.inl ⟨edit, hedit, rfl, ?_⟩
        rw [call, hedit, further, next_of_ok hl hstep]
        rfl
      | error e =>
        have hedit : s.edit? resolve .next = none := by
          rw [edit?, next_of_error hl hstep]
          cases e.isEndOfInput <;> rfl
        have hcall : s.call resolve .next =
            ⟨{ (s.lexer.step resolve).lexer with finished := true }, s.tokens⟩ := by
          rw [call, hedit, further, next_of_error hl hstep]
          rfl
        rw [hcall]
        exact Or.inr ⟨hedit, rfl, lookback_step_of_error hstep, _, cursor_step s.lexer resolve⟩

/-- The edit of a call is the answer of a step. -/
theorem step_of_edit? {c : Call} (h : s.edit? resolve c = some edit) :
    (s.lexer.step resolve).answer = .ok edit ∧
      s.call resolve c = ⟨(s.lexer.step resolve).lexer, edit.apply s.tokens⟩ := by
  rcases call_cases resolve s c with ⟨edit', hedit, hstep, hcall⟩ | ⟨hedit, -⟩
  · obtain rfl := Option.some.inj (h.symm.trans hedit)
    exact ⟨hstep, hcall⟩
  · rw [h] at hedit
    cases hedit

/-- The call pushes `token` and leaves `before` standing in front of it. -/
def Pushes (resolve : Resolver) (s : Session) (c : Call) (before : List Token) (token : Token) :
    Prop :=
  ∃ edit, s.edit? resolve c = some edit ∧ edit.token = token ∧
    s.tokens.toList.take (s.tokens.size - edit.dropped) = before

/-- Every token of the list was pushed by a call that left standing what comes before it. -/
theorem exists_push {before after : List Token} {token : Token}
    (h : ((start source options).run resolve calls).tokens.toList = before ++ token :: after) :
    ∃ earlier c later, calls = earlier ++ c :: later ∧
      ((start source options).run resolve earlier).Pushes resolve c before token := by
  induction calls using List.reverseRecOn generalizing after with
  | nil => cases before <;> cases h
  | append_singleton calls c ih =>
    -- an earlier call pushed the token, unless the last one did
    have hearlier : ∀ after',
        ((start source options).run resolve calls).tokens.toList = before ++ token :: after' →
        ∃ earlier c' later, calls ++ [c] = earlier ++ c' :: later ∧
          ((start source options).run resolve earlier).Pushes resolve c' before token := by
      intro after' h'
      obtain ⟨earlier, c', later, rfl, hpush⟩ := ih h'
      exact ⟨earlier, c', later ++ [c], by rw [List.append_assoc, List.cons_append], hpush⟩
    rw [run_concat] at h
    rcases call_cases resolve ((start source options).run resolve calls) c with
      ⟨edit, hedit, -, hcall⟩ | ⟨-, htokens, -, -⟩
    · rw [hcall, Edit.toList_apply] at h
      rcases List.eq_nil_or_concat after with rfl | ⟨after', last, rfl⟩
      · obtain ⟨hbefore, htoken⟩ := List.append_inj' h rfl
        exact ⟨calls, c, [], rfl, edit, hedit, (List.cons.inj htoken).1, hbefore⟩
      · rw [List.concat_eq_append, ← List.cons_append, ← List.append_assoc] at h
        obtain ⟨htake, -⟩ := List.append_inj' h rfl
        refine hearlier (after' ++ ((start source options).run resolve calls).tokens.toList.drop
          (((start source options).run resolve calls).tokens.size - edit.dropped)) ?_
        rw [← List.cons_append, ← List.append_assoc, ← htake, List.take_append_drop]
    · rw [htokens] at h
      exact hearlier after h

/-! ### What holds after any calls -/

/-- The tokens lie behind the lexer in its source, and the lexer remembers the last two of them. -/
structure Sound (source : Bytes) (line : Line) (s : Session) : Prop where
  source_eq : s.lexer.cursor.source = source
  places : Places line 0 s.lexer s.tokens
  keeps : s.lexer.lookback.Keeps s.tokens.toList

theorem sound_start (source : Bytes) (options : Options) :
    Sound source options.startLine (start source options) :=
  ⟨rfl, ⟨Nat.zero_le _, Cursor.counts_start source options.startLine,
    fun _ h => absurd h List.not_mem_nil, Lookback.recalls_nil⟩, Lookback.keeps_nil⟩

theorem Sound.call {line : Line} (h : s.Sound source line) (c : Call) :
    (s.call resolve c).Sound source line := by
  rcases call_cases resolve s c with
    ⟨edit, -, hstep, hcall⟩ | ⟨-, htokens, hlookback, n, hcursor⟩
  · obtain ⟨gap, first, tail, found, htakes⟩ := exists_takes hstep
    rw [hcall]
    refine ⟨htakes.source_eq.trans h.source_eq, h.places.step hstep, ?_⟩
    rw [lookback_step_of_ok hstep]
    refine h.keeps.push fun count token hedit => ?_
    exact Lexeme.Settles.operator_of_replaceLast (hedit ▸ htakes.settles)
  · have hoffset : s.lexer.offset ≤ (s.call resolve c).lexer.offset := by
      rw [offset, offset, hcursor]
      exact Nat.le_add_right _ _
    have hsource : (s.call resolve c).lexer.cursor.source = s.lexer.cursor.source := by
      rw [hcursor, Cursor.source_advanceBy]
    refine ⟨hsource.trans h.source_eq, ⟨Nat.le_trans h.places.start_le hoffset, ?_, ?_, ?_⟩, ?_⟩
    · rw [hcursor]
      exact h.places.counts.advanceBy n
    · rw [htokens, hsource]
      exact fun token htoken => (h.places.placed token htoken).mono hoffset
    · rw [htokens, hlookback]
      exact h.places.recalls
    · rw [htokens, hlookback]
      exact h.keeps

theorem sound_run (source : Bytes) (options : Options) (resolve : Resolver) (calls : List Call) :
    ((start source options).run resolve calls).Sound source options.startLine := by
  induction calls using List.reverseRecOn with
  | nil => exact sound_start source options
  | append_singleton calls c ih =>
    rw [run_concat]
    exact ih.call c

/-- What the lexer remembers lies behind it. -/
theorem Sound.stop_le_of_older {line : Line} (h : s.Sound source line) {older : Token}
    (holder : s.lexer.lookback.older = some older) : older.text.stop ≤ s.lexer.offset := by
  obtain ⟨before, word, hbefore⟩ := h.keeps.older older holder
  exact (h.places.placed older (by rw [hbefore]; simp)).stop_le

/-! ### Steps only -/

theorem lexer_run_step (resolve : Resolver) (s : Session) (n : Nat) :
    (s.run resolve (List.replicate n .step)).lexer = s.lexer.afterCalls resolve n := by
  induction n generalizing s with
  | zero => rfl
  | succ n ih => exact ih (s.call resolve .step)

/-- A collection is a session of steps. -/
theorem run_of_collectFrom {tokens tokens' : Array Token} (running : l.finished = false)
    (h : l.collectFrom resolve tokens = .ok tokens') :
    ∃ n, ((Session.mk l tokens).run resolve (List.replicate n .step)).tokens = tokens' := by
  revert running tokens
  refine step_induction resolve (motive := fun l => ∀ {tokens}, l.finished = false →
    l.collectFrom resolve tokens = .ok tokens' →
    ∃ n, ((Session.mk l tokens).run resolve (List.replicate n .step)).tokens = tokens') ?_ ?_ l
  · intro l e hstep tokens running h
    rw [collectFrom_of_error running hstep] at h
    split at h
    · cases h
      exact ⟨0, rfl⟩
    · cases h
  · intro l edit hstep ih tokens running h
    rw [collectFrom_of_ok running hstep] at h
    obtain ⟨n, hn⟩ := ih ((finished_step l resolve).trans running) h
    refine ⟨n + 1, ?_⟩
    have hcall : (Session.mk l tokens).call resolve .step =
        ⟨(l.step resolve).lexer, edit.apply tokens⟩ := by
      rw [call, edit?, further, hstep]
      rfl
    rw [List.replicate_succ, run, List.foldl_cons, hcall]
    exact hn

end Session

end Lexer

end TemplateScript
