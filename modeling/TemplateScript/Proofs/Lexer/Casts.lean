import TemplateScript.Proofs.Lexer.Session

/-!
# Casts

A closing parenthesis replaces an opening one and a keyword by a cast exactly when these are the
last two tokens and the operator table knows the cast.

* `Lexeme.Settles.stop_eq` — the token of an edit ends where its lexeme does, also when it replaces
  others;
* `Lexer.Session.textIn_of_openParen` — an opening parenthesis of the list is one byte of the
  source;
* `Lexer.CastOf` and `Lexer.Session.castOf_of_edit?` — the cast that replaces the last two tokens;
* `Lexer.Session.resolve_of_adjacent` — no cast that the table knows is left in the list as three
  tokens;
* `Lexer.Session.casts_of_run` — both, after any calls.
-/

namespace TemplateScript

/-! ### Texts -/

/-- Where a token of one byte stands. -/
theorem Token.drop_of_textIn {source : Bytes} {token : Token} {b : UInt8}
    (h : token.textIn source = [b]) :
    ∃ rest, source.drop token.text.start = b :: rest ∧ token.text.start < token.text.stop := by
  have hle : token.text.stop ≤ source.length := by
    by_contra hlt
    rw [textIn, Span.slice_of_lt (Nat.lt_of_not_le hlt)] at h
    cases h
  have hlength := Span.length_slice hle
  rw [textIn, Span.slice_of_le hle] at h
  rw [Span.slice_of_le hle, h] at hlength
  have hone : token.text.length = 1 := hlength.symm
  rw [hone, List.take_one, Option.toList_eq_singleton_iff] at h
  obtain ⟨rest, hrest⟩ := List.head?_eq_some_iff.mp h
  refine ⟨rest, hrest, ?_⟩
  show token.text.start < token.text.start + token.text.length
  omega

/-- What stands between two bytes of a text, and the two bytes. -/
theorem Span.slice_between {source : Bytes} {start stop : Nat} {rest tail : Bytes} {a b : UInt8}
    (opens : source.drop start = a :: rest) (closes : source.drop stop = b :: tail)
    (h : start < stop) :
    ∃ inner, (between start (stop + 1)).slice source = [a] ++ (inner ++ [b]) := by
  have hlength := congrArg List.length closes
  rw [List.length_drop, List.length_cons] at hlength
  have hrest : rest.drop (stop - start - 1) = b :: tail := by
    have hdrop : source.drop stop = (a :: rest).drop (stop - start) := by
      rw [← opens, List.drop_drop, Nat.add_sub_cancel' (Nat.le_of_lt h)]
    rw [← closes, hdrop, show stop - start = stop - start - 1 + 1 by omega, List.drop_succ_cons]
    rfl
  refine ⟨rest.take (stop - start - 1), ?_⟩
  rw [slice_of_le (by rw [stop_between (by omega)]; omega)]
  show (source.drop start).take (stop + 1 - start) = _
  rw [opens, show stop + 1 - start = stop - start - 1 + 1 + 1 by omega, List.take_succ_cons,
    List.take_add_one, ← List.head?_drop, hrest]
  rfl

/-! ### The edit of a closing parenthesis -/

/-- The token of an edit ends where its lexeme does, if what is remembered lies before it. -/
theorem Lexeme.Settles.stop_eq {found : Lexeme} {lookback : Lookback} {offset : Nat} {line : Line}
    {resolve : Resolver} {edit : Edit} (h : found.Settles lookback offset line resolve edit)
    (behind : ∀ older, lookback.older = some older → older.text.stop ≤ offset) :
    edit.token.text.stop = (found.text.shift offset).stop := by
  rcases h.emits_or_merges with ⟨token, rfl, -, htext⟩ | ⟨opening, cast, op, -, hcast, rfl⟩
  · exact congrArg Span.stop htext
  · obtain ⟨_, _, holder, -⟩ := Lookback.of_openCast? hcast
    have hbehind : opening.text.start + opening.text.length ≤ offset := behind opening holder
    have hle : opening.text.start ≤ (found.text.shift offset).stop := by
      rw [Span.stop_shift]
      omega
    exact Span.stop_between hle

/-- Where a closing parenthesis is a token, the table knows no cast that it would complete. -/
theorem Lexeme.Settles.resolve_of_closeParen {found : Lexeme} {lookback : Lookback} {offset : Nat}
    {line : Line} {resolve : Resolver} {token opening : Token} {listed : Operator} {bytes : Bytes}
    (h : found.Settles lookback offset line resolve (.emit token)) (fits : found.form.Fits bytes)
    (hkind : token.kind = .closeParen) (opens : lookback.openCast? = some (opening, listed)) :
    resolve ⟨listed.lexeme, none⟩ = none := by
  cases h with
  | closeParen _ free => exact free opening listed opens
  | @fixed kind form =>
    obtain rfl : kind = .closeParen := hkind
    rw [form] at fits
    cases fits.1
  | @annotated kind _ form =>
    obtain rfl : kind = .closeParen := hkind
    rw [form] at fits
    rcases fits.1 with hkind | hkind <;> cases hkind
  | keyword _ _ => cases hkind
  | operatorWord _ _ _ => cases hkind
  | identifier _ _ => cases hkind
  | operator _ _ => cases hkind
  | other _ _ => cases hkind

/-- A token is an opening parenthesis only if its lexeme is. -/
theorem Lexeme.Settles.form_of_openParen {found : Lexeme} {lookback : Lookback} {offset : Nat}
    {line : Line} {resolve : Resolver} {edit : Edit} {bytes : Bytes}
    (h : found.Settles lookback offset line resolve edit) (fits : found.form.Fits bytes)
    (hkind : edit.token.kind = .openParen) :
    found.form = .fixed .openParen ∧ edit.token.text = found.text.shift offset := by
  cases h with
  | @fixed kind form =>
    obtain rfl : kind = .openParen := hkind
    exact ⟨form, rfl⟩
  | @annotated kind _ form =>
    obtain rfl : kind = .openParen := hkind
    rw [form] at fits
    rcases fits.1 with hkind | hkind <;> cases hkind
  | keyword _ _ => cases hkind
  | operatorWord _ _ _ => cases hkind
  | identifier _ _ => cases hkind
  | operator _ _ => cases hkind
  | other _ _ => cases hkind
  | cast _ _ _ => cases hkind
  | closeParen _ _ => cases hkind

/-- A parenthesis and a keyword that names a cast are an open cast. -/
theorem Lookback.openCast?_eq_some {lookback : Lookback} {opening word : Token} {keyword : Keyword}
    {listed : Operator} (older : lookback.older = some opening)
    (latest : lookback.latest = some word)
    (hopening : opening.kind = .openParen) (hword : word.kind = .keyword keyword)
    (names : keyword.cast? = some listed) : lookback.openCast? = some (opening, listed) := by
  rw [openCast?, older, latest]
  simp only [hword, hopening, if_true, names, Option.map_some]

namespace Lexer

/-- `token` is the cast that a closing parenthesis right before `offset` makes of `opening` and
`word`. -/
structure CastOf (resolve : Resolver) (source : Bytes) (opening word : Token) (offset : Nat)
    (token : Token) : Prop where
  opens : opening.kind = .openParen
  names : ∃ keyword listed op, word.kind = .keyword keyword ∧ keyword.cast? = some listed ∧
    resolve ⟨listed.lexeme, none⟩ = some op ∧ token.kind = .operator op
  line_eq : token.line = opening.line
  start_eq : token.text.start = opening.text.start
  stop_eq : token.text.stop = offset
  textIn_eq : ∃ inner, token.textIn source = ascii "(" ++ (inner ++ ascii ")")

/-- The lexeme of a closing parenthesis is that byte. -/
theorem Takes.eq_closeParen {l : Lexer} {resolve : Resolver} {edit : Edit} {gap : Bytes}
    {first : UInt8} {tail : Bytes} {found : Lexeme}
    (h : l.Takes resolve edit gap first tail found) (form : found.form = .closeParen) :
    first = Byte.closeParen ∧ found.text = ⟨0, 1⟩ ∧ found.length = 1 := by
  have hfits := Construct.fits_of_scan h.scan
  rw [form] at hfits
  have hbytes : (first :: tail).take found.length = ascii ")" := hfits
  have hlength : found.length = 1 := by
    rw [← List.length_take_of_le (l := first :: tail) h.length.2, hbytes]
    rfl
  have htext := h.text_eq .closeParen (by rw [form]; rfl) rfl
  rw [hlength] at hbytes htext
  exact ⟨(List.cons.inj hbytes).1, htext, hlength⟩

namespace Session

variable {source : Bytes} {options : Options} {resolve : Resolver} {calls : List Call}

/-- An opening parenthesis of the list is one byte of the source. -/
theorem textIn_of_openParen {token : Token}
    (h : token ∈ ((start source options).run resolve calls).tokens.toList)
    (hkind : token.kind = .openParen) : token.textIn source = ascii "(" := by
  obtain ⟨before, after, hsplit⟩ := List.append_of_mem h
  obtain ⟨earlier, c, later, -, edit, hedit, rfl, -⟩ := exists_push hsplit
  have hsound := sound_run source options resolve earlier
  obtain ⟨gap, first, tail, found, htakes⟩ := exists_takes (step_of_edit? hedit).1
  have hfits := Construct.fits_of_scan htakes.scan
  obtain ⟨hform, htext⟩ := htakes.settles.form_of_openParen hfits hkind
  have hslice := htakes.slice_source .openParen (by rw [hform]; rfl) rfl
  rw [hform] at hfits
  rw [hsound.source_eq, hfits.2 rfl] at hslice
  rw [Token.textIn, htext, hslice]

/-- An edit that replaces tokens replaces the last two, which are an open cast. -/
theorem castOf_of_edit? {c : Call} {count : Nat} {token : Token}
    (h : ((start source options).run resolve calls).edit? resolve c =
      some (.replaceLast count token)) :
    count = 2 ∧ ∃ before opening word,
      ((start source options).run resolve calls).tokens.toList = before ++ [opening, word] ∧
      CastOf resolve source opening word
        (((start source options).run resolve calls).call resolve c).lexer.offset token := by
  have hparen : ∀ token ∈ ((start source options).run resolve calls).tokens.toList,
      token.kind = .openParen → token.textIn source = ascii "(" :=
    fun _ hmem hkind => textIn_of_openParen hmem hkind
  have hsound := sound_run source options resolve calls
  generalize (start source options).run resolve calls = s at h hparen hsound ⊢
  obtain ⟨hstep, hcall⟩ := step_of_edit? h
  obtain ⟨gap, first, tail, found, htakes⟩ := exists_takes hstep
  have hsettles := htakes.settles
  have hstop := hsettles.stop_eq fun older holder =>
    Nat.le_trans (hsound.stop_le_of_older holder) (Nat.le_add_right _ gap.length)
  cases hsettles with
  | @cast opening listed op form opens answer =>
    obtain ⟨word, keyword, holder, hlatest, hopening, hword, hnames⟩ := Lookback.of_openCast? opens
    obtain ⟨before, word', hbefore⟩ := hsound.keeps.older opening holder
    obtain rfl : word = word' := by
      have hlast := hsound.keeps.latest
      rw [hlatest, hbefore, List.getLast?_append] at hlast
      exact Option.some.inj hlast
    have hmem : opening ∈ s.tokens.toList := by rw [hbefore]; simp
    obtain ⟨rfl, htext, hlength⟩ := htakes.eq_closeParen form
    have hclose : (found.text.shift (s.lexer.cursor.offset + gap.length)).stop =
        s.lexer.cursor.offset + gap.length + 1 := by rw [htext]; rfl
    refine ⟨rfl, before, opening, word, hbefore, hopening,
      ⟨keyword, listed, op, hword, hnames, answer, rfl⟩, rfl, rfl, ?_, ?_⟩
    · rw [hcall]
      show _ = (s.lexer.step resolve).lexer.cursor.offset
      rw [htakes.offset_eq, hlength, ← hclose]
      exact hstop
    · -- the parentheses stand at both ends of the text
      obtain ⟨rest, hrest, hle⟩ := Token.drop_of_textIn (hparen opening hmem hopening)
      have hbehind := hsound.stop_le_of_older holder
      have hdrop := htakes.drop_source
      rw [hsound.source_eq] at hdrop
      show ∃ inner, (Span.between opening.text.start _).slice source = _
      rw [hclose]
      refine Span.slice_between hrest hdrop ?_
      exact Nat.lt_of_lt_of_le hle (Nat.le_trans hbehind (Nat.le_add_right _ _))

/-- Three tokens of the list are no cast that the table knows. -/
theorem resolve_of_adjacent {before after : List Token} {opening word closing : Token}
    {keyword : Keyword} {listed : Operator}
    (h : ((start source options).run resolve calls).tokens.toList =
      before ++ opening :: word :: closing :: after)
    (hopening : opening.kind = .openParen) (hword : word.kind = .keyword keyword)
    (hclosing : closing.kind = .closeParen) (names : keyword.cast? = some listed) :
    resolve ⟨listed.lexeme, none⟩ = none := by
  have hsplit : ((start source options).run resolve calls).tokens.toList =
      (before ++ [opening, word]) ++ closing :: after := by
    rw [h, List.append_assoc]
    rfl
  obtain ⟨earlier, c, later, -, edit, hedit, htoken, hbefore⟩ := exists_push hsplit
  have hsound := sound_run source options resolve earlier
  generalize (start source options).run resolve earlier = s at hedit hbefore hsound
  obtain ⟨gap, first, tail, found, htakes⟩ := exists_takes (step_of_edit? hedit).1
  cases edit with
  | replaceLast count token =>
    obtain rfl : token = closing := htoken
    obtain ⟨op, hop⟩ := htakes.settles.operator_of_replaceLast
    rw [hclosing] at hop
    cases hop
  | emit token =>
    obtain rfl : token = closing := htoken
    rw [Edit.take_dropped_emit] at hbefore
    -- the two tokens before the parenthesis were remembered when it came
    have holder := hsound.keeps.keeps before opening word hbefore fun op hop => by
      rw [hword] at hop
      cases hop
    have hlatest : s.lexer.lookback.latest = some word := by
      rw [hsound.keeps.latest, hbefore, List.getLast?_append]
      rfl
    exact htakes.settles.resolve_of_closeParen (Construct.fits_of_scan htakes.scan) hclosing
      (Lookback.openCast?_eq_some holder hlatest hopening hword names)

/-- After any calls, an edit that replaces tokens puts a cast in the place of the last two, and no
cast that the table knows is left in the list as three tokens. -/
theorem casts_of_run (source : Bytes) (options : Options) (resolve : Resolver)
    (calls : List Call) :
    let s := (start source options).run resolve calls
    (∀ c count token, s.edit? resolve c = some (.replaceLast count token) →
      count = 2 ∧ ∃ before opening word, s.tokens.toList = before ++ [opening, word] ∧
        CastOf resolve source opening word (s.call resolve c).lexer.offset token) ∧
    ∀ before opening word closing after keyword listed,
      s.tokens.toList = before ++ opening :: word :: closing :: after →
      opening.kind = .openParen → word.kind = .keyword keyword → closing.kind = .closeParen →
      keyword.cast? = some listed → resolve ⟨listed.lexeme, none⟩ = none :=
  ⟨fun _ _ _ => castOf_of_edit?, fun _ _ _ _ _ _ _ => resolve_of_adjacent⟩

/-- A cast goes on over an error, and one that the table does not know is left as three tokens. -/
theorem casts_of_run_table :
    let source := ascii "(int <<<'x )((bool))"
    let table : Resolver := fun q =>
      if q.lexeme = ascii "(bool)" then none else Resolver.standard q
    let s := (start source (Options.strict {})).run table [.next, .step, .next]
    let t := (start source (Options.strict {})).run table (.replicate 10 .step)
    let cast : Token := ⟨.operator .castInt, ⟨0, 12⟩, .first, some (.operator .castInt)⟩
    (s.edit? table .step = some (.replaceLast 2 cast) ∧
      ∃ before opening word, s.tokens.toList = before ++ [opening, word] ∧
        CastOf table source opening word (s.call table .step).lexer.offset cast) ∧
    t.tokens.toList.map Token.kind =
      [.operator .castInt, .openParen, .openParen, .keyword .bool, .closeParen, .closeParen] ∧
    table ⟨Operator.castBool.lexeme, none⟩ = none := by
  intro source table s t cast
  have hedit : s.edit? table .step = some (.replaceLast 2 cast) := by decide +kernel
  have hlist : t.tokens.toList =
      [cast, ⟨.openParen, ⟨12, 1⟩, .first, none⟩] ++ ⟨.openParen, ⟨13, 1⟩, .first, none⟩ ::
        ⟨.keyword .bool, ⟨14, 4⟩, .first, some (.keyword .bool)⟩ ::
        ⟨.closeParen, ⟨18, 1⟩, .first, none⟩ :: [⟨.closeParen, ⟨19, 1⟩, .first, none⟩] := by
    decide +kernel
  have hmerged := (casts_of_run source (Options.strict {}) table [.next, .step, .next]).1
    .step 2 cast hedit
  have hleft := (casts_of_run source (Options.strict {}) table (.replicate 10 .step)).2
    _ _ _ _ _ .bool .castBool hlist rfl rfl rfl rfl
  exact ⟨⟨hedit, hmerged.2⟩, congrArg (List.map Token.kind) hlist, hleft⟩

end Session

end Lexer

end TemplateScript
