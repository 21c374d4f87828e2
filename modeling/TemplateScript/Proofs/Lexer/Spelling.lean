import TemplateScript.Proofs.Lexer.Casts
import TemplateScript.Proofs.Spelling

/-!
# How a token spells its operator

With the standard operator table, the text of a token says what the token is, all through the token
list.

* `Token.Spelled` — what the text of a token, and what follows it, says of the token;
* `Lexeme.Settles.spelled` — a token that is emitted is spelled by the bytes of its lexeme;
* `Lexer.Spells` and `Lexer.Spells.step` — the tokens behind a lexer are spelled by the source, after
  a cast as well;
* `Lexer.spelled_of_tokenize` — every operator of a script is spelled where its token stands, and a
  token that is none of the known kinds is a stray byte.
-/

namespace TemplateScript

/-! ### One token -/

/-- What a token with this text, and `after` behind it, has to do with the text. -/
structure Token.Spelled (token : Token) (text after : Bytes) : Prop where
  operator : ∀ op, token.operator? = some op → op.Spells after text
  keyword : ∀ word, token.kind = .keyword word →
    ReservedWord.ofBytes? text = some (.keyword word)
  openParen : token.kind = .openParen → text = ascii "("
  other : token.kind.isString = false →
    (token.kind = .other ↔ ∃ b, text = [b] ∧ Byte.isStray b = true)

namespace Lexeme.Settles

variable {options : Options} {first : UInt8} {tail : Bytes} {found : Lexeme}
  {lookback : Lookback} {offset : Nat} {line : Line} {token : Token}

/-- The token of a symbol that the table does not know is a stray byte. -/
theorem isStray_of_other (h : found.Settles lookback offset line .standard (.emit token))
    (scan : Construct.scan options first tail = .lexeme found)
    (space : Byte.isSpace first = false) (kind : token.kind = .other) :
    ∃ b, (first :: tail).take found.length = [b] ∧ Byte.isStray b = true := by
  have hfits := Construct.fits_of_scan scan
  cases h with
  | @fixed kind' form =>
    obtain rfl : kind' = .other := kind
    rw [form] at hfits
    cases hfits.1
  | @annotated kind' _ form =>
    obtain rfl : kind' = .other := kind
    rw [form] at hfits
    rcases hfits.1 with hkind | hkind <;> cases hkind
  | keyword _ _ => cases kind
  | operatorWord _ _ _ => cases kind
  | identifier _ _ => cases kind
  | operator _ _ => cases kind
  | closeParen _ _ => cases kind
  | other form answer =>
    rcases Construct.fixed_or_word_or_symbol scan with
      ⟨_, hform⟩ | ⟨rfl, -⟩ | ⟨rfl, hword, hdigit, hquote, hcomment⟩
    · rw [form] at hform
      cases hform
    · cases form
    · obtain ⟨rfl, htaken, hmark⟩ := (Symbol.candidate_of_symbol form).eq_byte answer
      obtain ⟨hfree, hplus, hminus, hampersand⟩ := Resolver.unknown_of_standard answer
      refine ⟨first, by rw [htaken]; rfl, ?_⟩
      refine Byte.isStray_of_unknown first space hword hdigit hquote ?_ hmark hfree hplus hminus
        hampersand
      rintro rfl
      rw [Comment.scan?, if_pos rfl] at hcomment
      cases hcomment

/-- A stray byte is a symbol that the table does not know. -/
theorem other_of_isStray (h : found.Settles lookback offset line .standard (.emit token))
    (scan : Construct.scan options first tail = .lexeme found)
    (stray : Byte.isStray first = true) : token.kind = .other := by
  obtain rfl := Construct.eq_symbol_of_isStray scan stray
  cases h with
  | other _ _ => rfl
  | operator form answer =>
    cases form
    rw [Resolver.standard_of_isStray stray] at answer
    cases answer
  | fixed form => cases form
  | annotated form => cases form
  | keyword form _ => cases form
  | operatorWord form _ _ => cases form
  | identifier form _ => cases form
  | closeParen form _ => cases form

/-- An operator that is attached to a token is one that the token spells. -/
theorem spells_of_operator? (h : found.Settles lookback offset line .standard (.emit token))
    (scan : Construct.scan options first tail = .lexeme found) {op : Operator}
    (operator : token.operator? = some op) :
    op.Spells ((first :: tail).drop found.length) ((first :: tail).take found.length) := by
  have hfits := Construct.fits_of_scan scan
  have hhead := Construct.head?_take_length scan
  -- words and annotated punctuation begin with neither a parenthesis nor `=`
  have hother : first ≠ Byte.openParen ∧ first ≠ 0x3D →
      op.SpelledBy ((first :: tail).take found.length) →
      op.Spells ((first :: tail).drop found.length) ((first :: tail).take found.length) := by
    rintro ⟨hparen, hequals⟩ hspelled
    refine .of_head? hspelled ?_ ?_
    · rw [hhead]
      exact fun h => hparen (Option.some.inj h)
    · rw [hhead]
      exact fun h => hequals (Option.some.inj h)
  cases h with
  | fixed _ => cases operator
  | keyword _ _ => cases operator
  | identifier _ _ => cases operator
  | other _ _ => cases operator
  | closeParen _ _ => cases operator
  | @annotated kind spelling form =>
    have hanswer : Resolver.standard ⟨spelling, lookback.latest⟩ = some op := by
      rw [← operator]
      show _ = Token.operator? ⟨kind, _, line, _⟩
      rw [Token.operator?]
      cases Resolver.standard ⟨spelling, lookback.latest⟩ <;> rfl
    rw [form] at hfits
    obtain ⟨-, rfl⟩ := hfits
    refine hother ?_ (Resolver.spelledBy_of_standard hanswer)
    rcases Construct.fixed_or_word_or_symbol scan with ⟨_, hform⟩ | ⟨rfl, -⟩ | ⟨rfl, -⟩
    · rw [form] at hform
      cases hform
    · cases form
    · exact Symbol.ne_of_annotated form
  | @operatorWord spelling listed op' form _ answer =>
    obtain rfl : op' = op := Option.some.inj operator
    rw [form] at hfits
    obtain rfl : spelling = _ := hfits
    refine hother ?_ (Resolver.spelledBy_of_standard answer)
    rcases Construct.fixed_or_word_or_symbol scan with ⟨_, hform⟩ | ⟨-, hstart⟩ | ⟨rfl, -⟩
    · rw [form] at hform
      cases hform
    · constructor <;> rintro rfl <;> cases hstart
    · exact absurd form (Symbol.form_ne_word first tail _)
  | @operator spelling op' form answer =>
    obtain rfl : op' = op := Option.some.inj operator
    rcases Construct.fixed_or_word_or_symbol scan with ⟨_, hform⟩ | ⟨rfl, -⟩ | ⟨rfl, -⟩
    · rw [form] at hform
      cases hform
    · cases form
    · exact (Symbol.candidate_of_symbol form).spells answer

/-- The text of a keyword token is a word that is reserved for the keyword. -/
theorem ofBytes?_of_keyword (h : found.Settles lookback offset line .standard (.emit token))
    (scan : Construct.scan options first tail = .lexeme found) {word : Keyword}
    (kind : token.kind = .keyword word) :
    ReservedWord.ofBytes? ((first :: tail).take found.length) = some (.keyword word) := by
  have hfits := Construct.fits_of_scan scan
  cases h with
  | @keyword spelling word' form reserved =>
    obtain rfl : word' = word := Token.Kind.keyword.inj kind
    rw [form] at hfits
    obtain rfl : spelling = _ := hfits
    exact reserved
  | @fixed kind' form =>
    obtain rfl : kind' = .keyword word := kind
    rw [form] at hfits
    cases hfits.1
  | @annotated kind' _ form =>
    obtain rfl : kind' = .keyword word := kind
    rw [form] at hfits
    rcases hfits.1 with hkind | hkind <;> cases hkind
  | operatorWord _ _ _ => cases kind
  | identifier _ _ => cases kind
  | operator _ _ => cases kind
  | other _ _ => cases kind
  | closeParen _ _ => cases kind

/-- A token that is emitted is spelled by the bytes of its lexeme. -/
theorem spelled (h : found.Settles lookback offset line .standard (.emit token))
    (scan : Construct.scan options first tail = .lexeme found)
    (space : Byte.isSpace first = false) :
    token.Spelled ((first :: tail).take found.length) ((first :: tail).drop found.length) := by
  refine ⟨fun _ => h.spells_of_operator? scan, fun _ => h.ofBytes?_of_keyword scan, ?_,
    fun _ => ⟨h.isStray_of_other scan space, ?_⟩⟩
  · intro hkind
    have hfits := Construct.fits_of_scan scan
    rw [(h.form_of_openParen hfits hkind).1] at hfits
    exact hfits.2 rfl
  · rintro ⟨b, hbytes, hstray⟩
    have hhead := Construct.head?_take_length scan
    rw [hbytes] at hhead
    obtain rfl : b = first := Option.some.inj hhead
    exact h.other_of_isStray scan hstray

/-- A string literal says nothing about its text. -/
theorem spelled_of_isString (h : found.Settles lookback offset line .standard (.emit token))
    (scan : Construct.scan options first tail = .lexeme found)
    (kind : token.kind.isString = true) (text after : Bytes) : token.Spelled text after := by
  have hfits := Construct.fits_of_scan scan
  have hne : ∀ kind', kind'.isString = false → token.kind ≠ kind' := by
    rintro _ hkind rfl
    rw [kind] at hkind
    cases hkind
  refine ⟨fun op hop => ?_, fun word hword => absurd hword (hne _ rfl),
    fun hopen => absurd hopen (hne _ rfl), fun hkind => by rw [kind] at hkind; cases hkind⟩
  cases h with
  | fixed _ => cases hop
  | @annotated kind' _ form =>
    rw [form] at hfits
    rcases hfits.1 with rfl | rfl <;> cases kind
  | keyword _ _ => cases kind
  | operatorWord _ _ _ => cases kind
  | identifier _ _ => cases kind
  | operator _ _ => cases kind
  | other _ _ => cases kind
  | closeParen _ _ => cases kind

end Lexeme.Settles

/-- A keyword between parentheses names a cast. -/
theorem Keyword.isCast_of_cast? {keyword : Keyword} {op : Operator}
    (h : keyword.cast? = some op) : op.isCast = true := by
  cases keyword <;> cases h <;> rfl

/-- The table knows every cast by its canonical spelling. -/
theorem Resolver.standard_lexeme_of_isCast {op : Operator} (h : op.isCast = true)
    (previous : Option Token) : Resolver.standard ⟨op.lexeme, previous⟩ = some op := by
  refine standard_lexeme ?_ previous
  cases op <;> first | decide | cases h

/-! ### The token list -/

/-- The bytes of a span, and what follows them, where they stand. -/
theorem Span.slice_of_drop {s : Span} {source text rest : Bytes}
    (h : source.drop s.start = text ++ rest) (length : s.length = text.length) :
    s.slice source = text ∧ source.drop s.stop = rest := by
  have hstop : source.drop s.stop = rest := by
    rw [stop, ← List.drop_drop, h, length, List.drop_append_length]
  refine ⟨?_, hstop⟩
  by_cases hle : s.stop ≤ source.length
  · rw [slice_of_le hle, h, length, List.take_append_length]
  · have hlength := congrArg List.length h
    rw [List.length_drop, List.length_append] at hlength
    have hlt : source.length < s.start + s.length := Nat.lt_of_not_le hle
    rw [slice_of_lt hlt, List.length_eq_zero_iff.mp (show text.length = 0 by omega)]

namespace Laid

variable {rule : DelimiterRule} {offset : Nat} {token : Token} {tokens : List Token}
  {source bs rest : Bytes}

/-- The rest of a text that tokens make up is its end. -/
theorem suffix (h : Laid rule offset tokens bs rest) : rest <:+ bs := by
  induction h with
  | nil => exact List.suffix_rfl
  | @cons _ _ _ gap extent _ _ _ _ _ _ _ _ _ ih =>
    exact ih.trans ((List.suffix_append extent _).trans (List.suffix_append gap _))

/-- The first of the tokens, if it is no string literal, stands with its text behind a gap. -/
theorem head (h : Laid rule offset (token :: tokens) bs rest) (place : source.drop offset = bs)
    (kind : token.kind.isString = false) :
    ∃ gap more, bs = gap ++ (token.textIn source ++ more) ∧
      Trivia gap (token.textIn source ++ more) ∧
      source.drop token.text.start = token.textIn source ++ more ∧
      source.drop token.text.stop = more ∧ Laid rule token.text.stop tokens more rest := by
  cases h with
  | @cons _ _ _ gap extent more _ text trivia starts nonempty takes text_eq further =>
    have hwhole := takes.text_eq_of_not_isString kind
    have htext : token.text = ⟨offset + gap.length, extent.length⟩ := by
      rw [text_eq, hwhole]
      rfl
    have hstart : source.drop token.text.start = extent ++ more := by
      rw [htext]
      show source.drop (offset + gap.length) = _
      rw [← List.drop_drop, place, List.drop_append_length]
    have hlength : token.text.length = extent.length := by rw [htext]
    obtain ⟨hslice, hstop⟩ := Span.slice_of_drop hstart hlength
    rw [show token.textIn source = extent from hslice]
    refine ⟨gap, more, rfl, trivia, hstart, hstop, ?_⟩
    rw [htext]
    exact further

end Laid

namespace Lexer

variable {l l' : Lexer} {source : Bytes} {options : Options} {tokens tokens' : Array Token}
  {resolve : Resolver} {edit : Edit}

/-- The tokens behind a lexer cover what it has read of `source`, and each is spelled there. -/
structure Spells (source : Bytes) (l : Lexer) (tokens : Array Token) : Prop where
  covers : Covers source l tokens
  source_eq : l.cursor.source = source
  spelled : ∀ token ∈ tokens.toList,
    token.Spelled (token.textIn source) (source.drop token.text.stop)

/-- A token that is emitted is spelled in the source. -/
theorem Takes.spelled {token : Token} {gap : Bytes} {first : UInt8} {tail : Bytes} {found : Lexeme}
    (h : l.Takes .standard (.emit token) gap first tail found) :
    token.Spelled (token.textIn l.cursor.source) (l.cursor.source.drop token.text.stop) := by
  cases hkind : token.kind.isString with
  | true => exact h.settles.spelled_of_isString h.scan hkind _ _
  | false =>
    have htext := h.text_of_emit hkind
    have hstart : l.cursor.source.drop token.text.start =
        (first :: tail).take found.length ++ (first :: tail).drop found.length := by
      rw [htext, List.take_append_drop]
      exact h.drop_source
    have hlength : token.text.length = ((first :: tail).take found.length).length := by
      rw [htext, List.length_take_of_le h.length.2]
    obtain ⟨hslice, hstop⟩ := Span.slice_of_drop hstart hlength
    rw [show token.textIn l.cursor.source = _ from hslice, hstop]
    exact h.settles.spelled h.scan h.space

/-- The tokens that a cast takes back stand in the source as a parenthesis, trivia and a keyword of a
type, and behind them stands what is still ahead. -/
theorem Spells.drop_opening (h : Spells source l tokens) {opening : Token} {cast : Operator}
    (opens : l.lookback.openCast? = some (opening, cast)) :
    ∃ gap word keyword, source.drop opening.text.start =
        ascii "(" ++ (gap ++ (word ++ l.cursor.rest)) ∧
      Trivia gap (word ++ l.cursor.rest) ∧
      ReservedWord.ofBytes? word = some (.keyword keyword) ∧ keyword.cast? = some cast := by
  obtain ⟨word, keyword, holder, hlatest, hopening, hword, hnames⟩ := Lookback.of_openCast? opens
  obtain ⟨before, word', hbefore⟩ := h.covers.recalls.older opening holder
  obtain rfl : word = word' := by
    have hlast := h.covers.recalls.latest
    rw [hlatest, hbefore, List.getLast?_append] at hlast
    exact Option.some.inj hlast
  -- the two tokens are the last ones that were laid
  have hlaid := h.covers.laid
  rw [hbefore] at hlaid
  obtain ⟨offset, middle, hfront, hoffset, hlast⟩ := hlaid.exists_append
  have hplace : source.drop offset = middle := by
    rw [List.suffix_iff_eq_drop.mp hfront.suffix]
    congr 1
    omega
  obtain ⟨_, more, -, -, hstart, hstop, hlast⟩ := hlast.head hplace (by rw [hopening]; rfl)
  obtain ⟨gap, more, rfl, htrivia, -, -, hlast⟩ := hlast.head hstop (by rw [hword]; rfl)
  obtain rfl : more = l.cursor.rest := by
    cases hlast
    rfl
  rw [(h.spelled opening (by rw [hbefore]; simp)).openParen hopening] at hstart
  exact ⟨gap, word.textIn source, keyword, hstart, htrivia,
    (h.spelled word (by rw [hbefore]; simp)).keyword keyword hword, hnames⟩

/-- A cast is spelled by the parentheses, what was the keyword between them and the trivia around
it. -/
theorem Spells.spelled_of_replaceLast (h : Spells source l tokens) {count : Nat} {token : Token}
    {gap : Bytes} {first : UInt8} {tail : Bytes} {found : Lexeme}
    (takes : l.Takes .standard (.replaceLast count token) gap first tail found) :
    token.Spelled (token.textIn source) (source.drop token.text.stop) := by
  have hsettles := takes.settles
  cases hsettles with
  | @cast opening listed op form opens answer =>
    obtain ⟨gap₁, word, keyword, hstart, htrivia, hreserved, hnames⟩ := h.drop_opening opens
    obtain rfl : listed = op := by
      rw [Resolver.standard_lexeme_of_isCast (Keyword.isCast_of_cast? hnames)] at answer
      exact Option.some.inj answer
    obtain ⟨rfl, htext, -⟩ := takes.eq_closeParen form
    rw [takes.rest] at hstart htrivia
    have hwhole : source.drop opening.text.start =
        ascii "(" ++ (gap₁ ++ (word ++ (gap ++ ascii ")"))) ++ tail := by
      rw [hstart]
      simp only [List.append_assoc]
      rfl
    have hparens : (ascii "(").length = 1 ∧ (ascii ")").length = 1 := ⟨rfl, rfl⟩
    have hlength : (found.text.shift (l.cursor.offset + gap.length)).stop - opening.text.start =
        (ascii "(" ++ (gap₁ ++ (word ++ (gap ++ ascii ")")))).length := by
      have hsize := congrArg List.length hwhole
      have hread := h.covers.offset
      rw [takes.rest] at hread
      rw [htext, Span.stop_shift, Span.stop_mk]
      simp only [List.length_drop, List.length_append, List.length_cons] at hsize hread ⊢
      omega
    obtain ⟨hslice, hbehind⟩ := Span.slice_of_drop
      (s := .between opening.text.start (found.text.shift (l.cursor.offset + gap.length)).stop)
      hwhole hlength
    have htext : Token.textIn (.ofOperator (.operator listed) (.between opening.text.start
        (found.text.shift (l.cursor.offset + gap.length)).stop) opening.line listed) source =
          ascii "(" ++ (gap₁ ++ (word ++ (gap ++ ascii ")"))) := hslice
    rw [htext]
    refine ⟨?_, nofun, nofun, fun _ => iff_of_false nofun ?_⟩
    · rintro _ ⟨⟩
      show Operator.Spells (source.drop (Span.between opening.text.start _).stop) _ _
      rw [hbehind]
      exact .cast htrivia hreserved hnames takes.trivia
    · rintro ⟨b, hb, -⟩
      have hsize := congrArg List.length hb
      simp only [List.length_append, List.length_cons, List.length_nil] at hsize
      omega

/-- The tokens are spelled by the source after a step as well. -/
theorem Spells.step (h : Spells source l tokens) (answer : (l.step .standard).answer = .ok edit) :
    Spells source (l.step .standard).lexer (edit.apply tokens) := by
  obtain ⟨gap, first, tail, found, htakes⟩ := exists_takes answer
  refine ⟨h.covers.step answer, htakes.source_eq.trans h.source_eq, fun token hmem => ?_⟩
  rw [Edit.toList_apply] at hmem
  rcases List.mem_append.mp hmem with hmem | hmem
  · exact h.spelled token (List.mem_of_mem_take hmem)
  · obtain rfl := List.mem_singleton.mp hmem
    cases edit with
    | emit token =>
      have hspelled := htakes.spelled
      rw [h.source_eq] at hspelled
      exact hspelled
    | replaceLast count token => exact h.spelled_of_replaceLast htakes

theorem spells_start (source : Bytes) (options : Options) :
    Spells source (start source options) #[] :=
  ⟨covers_start source options, rfl, fun _ h => absurd h List.not_mem_nil⟩

/-- In every token list of a script an operator token is a spelling of its operator, and a token that
is no string literal is of no known kind exactly when it is a single stray byte. -/
theorem spelled_of_tokenize (h : tokenize source options = .ok tokens) :
    ∀ token ∈ tokens.toList,
      (∀ op, token.operator? = some op →
        op.Spells (source.drop token.text.stop) (token.textIn source)) ∧
      (token.kind.isString = false →
        (token.kind = .other ↔ ∃ b, token.textIn source = [b] ∧ Byte.isStray b = true)) := by
  intro token hmem
  obtain ⟨_, hspells, -⟩ := collectFrom_induction Spells.step h (spells_start source options)
  have hspelled := hspells.spelled token hmem
  exact ⟨hspelled.operator, hspelled.other⟩

/-- A cast by another name of its type, both inequalities, a reference assignment with a space in it,
an assignment before `&&` and a stray byte. -/
theorem spelled_of_tokenize_casts :
    let source := ascii "(/**/integer )a<>1!=b= &c=&&\x7f"
    ∃ tokens : Array Token, tokenize source {} = .ok tokens ∧
      tokens.toList.filterMap Token.operator? =
        [.castInt, .notEqual, .notEqual, .refAssign, .assign, .logicalAnd] ∧
      ∀ token ∈ tokens.toList,
        (∀ op, token.operator? = some op →
          op.Spells (source.drop token.text.stop) (token.textIn source)) ∧
        (token.kind.isString = false →
          (token.kind = .other ↔ ∃ b, token.textIn source = [b] ∧ Byte.isStray b = true)) := by
  intro source
  have h : tokenize source {} = .ok
      #[⟨.operator .castInt, ⟨0, 14⟩, .first, some (.operator .castInt)⟩,
        ⟨.identifier, ⟨14, 1⟩, .first, none⟩,
        ⟨.operator .notEqual, ⟨15, 2⟩, .first, some (.operator .notEqual)⟩,
        ⟨.integer, ⟨17, 1⟩, .first, none⟩,
        ⟨.operator .notEqual, ⟨18, 2⟩, .first, some (.operator .notEqual)⟩,
        ⟨.identifier, ⟨20, 1⟩, .first, none⟩,
        ⟨.operator .refAssign, ⟨21, 3⟩, .first, some (.operator .refAssign)⟩,
        ⟨.identifier, ⟨24, 1⟩, .first, none⟩,
        ⟨.operator .assign, ⟨25, 1⟩, .first, some (.operator .assign)⟩,
        ⟨.operator .logicalAnd, ⟨26, 2⟩, .first, some (.operator .logicalAnd)⟩,
        ⟨.other, ⟨28, 1⟩, .first, none⟩] := by
    decide +kernel
  exact ⟨_, h, rfl, spelled_of_tokenize h⟩

end Lexer

end TemplateScript
