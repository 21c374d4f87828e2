import TemplateScript.Proofs.Lexer.Casts

/-!
# The operator table and the token list

A lexer asks the operator table while tokens are still coming, about the last token so far, and a
cast takes tokens back.  In the list that it ends with, each token is still what the table says of
its text after the token right before it.

* `Token.Resolved` — what a table says of a token, by the kind of the token;
* `Lexer.Takes.resolved` — an emitted token is resolved after the latest token;
* `Lexer.Merges` and `Lexer.merges_iff` — the casts among the tokens are the operators that begin
  with a parenthesis;
* `Lexer.resolved_of_collect` — every token is resolved in the final list.
-/

namespace TemplateScript

/-! ### Resolved tokens -/

/-- What an operator table says of a token, when `previous` comes right before it: the operator that
an operator token stands for, that a symbol is none, and what is attached to a token.  About a token
that was `merged` the table was not asked in this way. -/
def Token.Resolved (resolve : Resolver) (source : Bytes) (previous : Option Token) (merged : Prop)
    (token : Token) : Prop :=
  match token.kind with
  | .keyword word => token.payload = some (.keyword word)
  | .operator op => token.payload = some (.operator op) ∧
      (¬ merged → resolve ⟨Symbol.spelling (token.textIn source), previous⟩ = some op)
  | .operatorWord op => token.payload = some (.operator op) ∧
      resolve ⟨token.textIn source, previous⟩ = some op
  | .other => token.payload = none ∧
      resolve ⟨Symbol.spelling (token.textIn source), previous⟩ = none
  | .comma | .openBracket =>
    token.payload = (resolve ⟨token.textIn source, previous⟩).map .operator
  | _ => token.payload = none

namespace Token

variable {resolve : Resolver} {source : Bytes} {previous : Option Token} {merged : Prop}
  {token : Token}

/-- The table has no say in a bare kind. -/
theorem resolved_of_isBare (hkind : token.kind.isBare = true) (hpayload : token.payload = none) :
    token.Resolved resolve source previous merged := by
  rw [Resolved]
  cases h : token.kind <;> rw [h] at hkind <;> first | exact hpayload | cases hkind

/-- Keywords are attached to keywords only. -/
theorem Resolved.payload_eq_keyword_iff (h : token.Resolved resolve source previous merged)
    (word : Keyword) : token.payload = some (.keyword word) ↔ token.kind = .keyword word := by
  have hattached : ∀ answer : Option Operator,
      answer.map Payload.operator ≠ some (.keyword word) := by
    intro answer hanswer
    cases answer <;> cases hanswer
  rw [Resolved] at h
  split at h
  · next word' hkind =>
    rw [h, hkind, Option.some.injEq, Payload.keyword.injEq, Kind.keyword.injEq]
  · next hkind => rw [h.1, hkind]; exact ⟨nofun, nofun⟩
  · next hkind => rw [h.1, hkind]; exact ⟨nofun, nofun⟩
  · next hkind => rw [h.1, hkind]; exact ⟨nofun, nofun⟩
  · next hkind => rw [h, hkind]; exact ⟨fun hp => absurd hp (hattached _), nofun⟩
  · next hkind => rw [h, hkind]; exact ⟨fun hp => absurd hp (hattached _), nofun⟩
  · next hkind _ _ _ _ _ => rw [h]; exact ⟨nofun, fun hk => absurd hk (hkind word)⟩

end Token

namespace Lexer

variable {l : Lexer} {resolve : Resolver} {token : Token} {gap : Bytes} {first : UInt8}
  {tail : Bytes} {found : Lexeme}

/-- An emitted token is resolved after the latest token. -/
theorem Takes.resolved (h : l.Takes resolve (.emit token) gap first tail found) (merged : Prop) :
    token.Resolved resolve l.cursor.source l.lookback.latest merged := by
  have hfits := Construct.fits_of_scan h.scan
  have hslice := h.slice_source
  have hsettles := h.settles
  generalize (first :: tail).take found.length = bytes at hfits hslice
  cases hsettles with
  | fixed form =>
    rw [form] at hfits
    exact Token.resolved_of_isBare hfits.1 rfl
  | annotated form =>
    rw [form] at hfits
    obtain ⟨rfl | rfl, rfl⟩ := hfits
    · show _ = (resolve ⟨Span.slice _ _, _⟩).map _
      rw [hslice .comma (by rw [form]; rfl) rfl]
    · show _ = (resolve ⟨Span.slice _ _, _⟩).map _
      rw [hslice .openBracket (by rw [form]; rfl) rfl]
  | keyword _ _ => exact rfl
  | @operatorWord spelling listed op form _ answer =>
    rw [form] at hfits
    obtain rfl : spelling = bytes := hfits
    refine ⟨rfl, ?_⟩
    rw [← answer, ← hslice (.operatorWord op) (by rw [form]; rfl) rfl]
    rfl
  | identifier _ _ => exact rfl
  | @operator spelling op form answer =>
    rw [form] at hfits
    obtain ⟨rfl, -⟩ := hfits
    refine ⟨rfl, fun _ => ?_⟩
    rw [← answer, ← hslice (.operator op) (by rw [form]; rfl) rfl]
    rfl
  | other form answer =>
    rw [form] at hfits
    obtain ⟨rfl, -⟩ := hfits
    refine ⟨rfl, ?_⟩
    rw [← answer, ← hslice .other (by rw [form]; rfl) rfl]
    rfl
  | closeParen _ _ => exact rfl

/-- A symbol that is emitted as an operator does not begin with a parenthesis. -/
theorem Takes.head?_ne_openParen (h : l.Takes resolve (.emit token) gap first tail found)
    {op : Operator} (hkind : token.kind = .operator op) :
    (token.textIn l.cursor.source).head? ≠ some Byte.openParen := by
  obtain ⟨spelling, form, -, htext⟩ :=
    h.settles.of_operator (Construct.hasFixedKind_of_scan h.scan) hkind
  have hfits := Construct.fits_of_scan h.scan
  rw [form] at hfits
  rw [Token.textIn, htext, h.slice_source (.operator op) (by rw [form]; rfl) rfl]
  exact hfits.2

/-! ### Collections -/

variable {source : Bytes} {options : Options} {tokens : Array Token}

/-- Some step of the lexer replaces tokens by this one. -/
def Merges (l : Lexer) (resolve : Resolver) (token : Token) : Prop :=
  ∃ calls count, ((l.afterCalls resolve calls).step resolve).answer = .ok (.replaceLast count token)

/-- A token of a collection was pushed by a step, and an emitted one after the token that is before
it in the end. -/
theorem exists_step_of_collect (h : (start source options).collect resolve = .ok tokens)
    {before after : List Token} (hsplit : tokens.toList = before ++ token :: after) :
    ∃ calls edit, (((start source options).afterCalls resolve calls).step resolve).answer =
        .ok edit ∧ edit.token = token ∧
      ((start source options).afterCalls resolve calls).cursor.source = source ∧
      (edit = .emit token →
        ((start source options).afterCalls resolve calls).lookback.latest = before.getLast?) := by
  obtain ⟨n, hcollected⟩ := Session.run_of_collectFrom rfl h
  have hrun : ((Session.start source options).run resolve (.replicate n .step)).tokens = tokens :=
    hcollected
  rw [← hrun] at hsplit
  obtain ⟨earlier, c, later, hcalls, edit, hedit, htoken, hbefore⟩ := Session.exists_push hsplit
  obtain ⟨-, hearlier, -⟩ := List.replicate_eq_append_iff.mp hcalls
  have hsound := Session.sound_run source options resolve earlier
  have hstep := (Session.step_of_edit? hedit).1
  have hlexer := Session.lexer_run_step resolve (.start source options) earlier.length
  rw [← hearlier] at hlexer
  have hsource := hsound.source_eq
  have hlatest := hsound.keeps.latest
  rw [hlexer] at hstep hsource hlatest
  refine ⟨earlier.length, edit, hstep, htoken, hsource, fun hemit => ?_⟩
  subst hemit
  rw [Edit.take_dropped_emit] at hbefore
  rw [← hbefore]
  exact hlatest

/-- The casts of a collection are the operators that begin with a parenthesis. -/
theorem merges_iff (h : (start source options).collect resolve = .ok tokens)
    (hmem : token ∈ tokens.toList) :
    (start source options).Merges resolve token ↔
      (∃ op, token.kind = .operator op) ∧ (token.textIn source).head? = some Byte.openParen := by
  constructor
  · rintro ⟨calls, count, hanswer⟩
    have hedit : ((Session.start source options).run resolve (.replicate calls .step)).edit? resolve
        .step = some (.replaceLast count token) := by
      rw [Session.edit?, Session.lexer_run_step]
      exact congrArg Except.toOption hanswer
    obtain ⟨-, _, _, _, -, hcast⟩ := Session.castOf_of_edit? hedit
    obtain ⟨_, _, op, -, -, -, hkind⟩ := hcast.names
    obtain ⟨inner, htext⟩ := hcast.textIn_eq
    exact ⟨⟨op, hkind⟩, by rw [htext]; rfl⟩
  · rintro ⟨⟨op, hkind⟩, hhead⟩
    obtain ⟨before, after, hsplit⟩ := List.append_of_mem hmem
    obtain ⟨calls, edit, hanswer, rfl, hsource, -⟩ := exists_step_of_collect h hsplit
    cases edit with
    | replaceLast count token => exact ⟨calls, count, hanswer⟩
    | emit token =>
      obtain ⟨_, _, _, _, htakes⟩ := exists_takes hanswer
      rw [← hsource] at hhead
      exact absurd hhead (htakes.head?_ne_openParen hkind)

/-- The token right before the one at this index. -/
def previous? (tokens : Array Token) : Nat → Option Token
  | 0 => none
  | i + 1 => tokens[i]?

theorem getLast?_take (tokens : Array Token) {i : Nat} (hi : i < tokens.size) :
    (tokens.toList.take i).getLast? = previous? tokens i := by
  cases i with
  | zero => rfl
  | succ i =>
    have hlt : i < tokens.toList.length := by
      rw [Array.length_toList]
      exact Nat.lt_of_succ_lt hi
    rw [List.getLast?_take, if_neg (Nat.succ_ne_zero i), Nat.add_sub_cancel,
      List.getElem?_eq_getElem hlt, Option.some_or, previous?, Array.getElem?_eq_getElem hlt]
    rfl

/-- Every token of a collection is resolved after the token before it in the final list, also when
casts took tokens back in between.  Only a cast is not, and a cast is an operator that begins with a
parenthesis. -/
theorem resolved_of_collect (h : (start source options).collect resolve = .ok tokens) :
    ∀ i, ∀ hi : i < tokens.size,
      tokens[i].Resolved resolve source (previous? tokens i)
          ((start source options).Merges resolve tokens[i]) ∧
        ((start source options).Merges resolve tokens[i] ↔
          (∃ op, tokens[i].kind = .operator op) ∧
            (tokens[i].textIn source).head? = some Byte.openParen) ∧
        ∀ word, tokens[i].payload = some (.keyword word) ↔ tokens[i].kind = .keyword word := by
  intro i hi
  have hmem : tokens[i] ∈ tokens.toList := Array.getElem_mem_toList hi
  have hsplit : tokens.toList =
      tokens.toList.take i ++ tokens[i] :: tokens.toList.drop (i + 1) := by
    have hdrop := List.drop_eq_getElem_cons (l := tokens.toList) hi
    rw [Array.getElem_toList] at hdrop
    rw [← hdrop, List.take_append_drop]
  suffices hresolved : tokens[i].Resolved resolve source (previous? tokens i)
      ((start source options).Merges resolve tokens[i]) from
    ⟨hresolved, merges_iff h hmem, hresolved.payload_eq_keyword_iff⟩
  obtain ⟨calls, edit, hanswer, htoken, hsource, hlatest⟩ := exists_step_of_collect h hsplit
  obtain ⟨_, _, _, _, htakes⟩ := exists_takes hanswer
  cases edit with
  | emit token =>
    obtain rfl : token = tokens[i] := htoken
    have hresolved := htakes.resolved ((start source options).Merges resolve tokens[i])
    rwa [hsource, hlatest rfl, getLast?_take tokens hi] at hresolved
  | replaceLast count token =>
    obtain rfl : token = tokens[i] := htoken
    have hmerges : (start source options).Merges resolve tokens[i] := ⟨calls, count, hanswer⟩
    have hsettles := htakes.settles
    generalize tokens[i] = token at hsettles hmerges ⊢
    cases hsettles with
    | cast _ _ _ => exact ⟨rfl, fun hfree => absurd hmerges hfree⟩

/-- A cast, a reference assignment with a space in it, a symbol that this table leaves out and a
comma that it knows. -/
theorem resolved_of_collect_table :
    let table : Resolver := fun q =>
      if q.lexeme = ascii "<>" then none
      else if q.lexeme = ascii "," then some .comma else Resolver.standard q
    let l := start (ascii "(int)a= &b<>,[") {}
    ∃ tokens : Array Token, l.collect table = .ok tokens ∧
      tokens.toList.map Token.kind = [.operator .castInt, .identifier, .operator .refAssign,
        .identifier, .other, .comma, .openBracket] ∧
      ∀ i, ∀ hi : i < tokens.size,
        tokens[i].Resolved table (ascii "(int)a= &b<>,[") (previous? tokens i)
          (l.Merges table tokens[i]) := by
  intro table l
  have h : l.collect table = .ok
      #[⟨.operator .castInt, ⟨0, 5⟩, .first, some (.operator .castInt)⟩,
        ⟨.identifier, ⟨5, 1⟩, .first, none⟩,
        ⟨.operator .refAssign, ⟨6, 3⟩, .first, some (.operator .refAssign)⟩,
        ⟨.identifier, ⟨9, 1⟩, .first, none⟩, ⟨.other, ⟨10, 2⟩, .first, none⟩,
        ⟨.comma, ⟨12, 1⟩, .first, some (.operator .comma)⟩,
        ⟨.openBracket, ⟨13, 1⟩, .first, none⟩] := by
    decide +kernel
  exact ⟨_, h, rfl, fun i hi => (resolved_of_collect h i hi).1⟩

end Lexer

end TemplateScript
