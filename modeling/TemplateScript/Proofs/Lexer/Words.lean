import TemplateScript.Proofs.Lexer.Resolution
import TemplateScript.Proofs.Spelling
import TemplateScript.Proofs.Word

/-!
# The words among the tokens

Identifiers, keywords and operator words are the tokens that begin with a letter, an underscore or
the first byte of a multi-byte character and are neither string literals nor casts.  Each of them is
the longest word of the source where it stands.  With the standard operator table, the list of
reserved words alone says which of the three it is.

* `ReservedWord.ofBytes?_eq_some_iff` and `ReservedWord.standard_of_mem` — a word is looked up as it
  is listed, and the standard table knows all operators among the reserved words;
* `Token.Kind.Classifies` — what the list of reserved words says of the kind of a word;
* `Construct.form_word_iff` and `Lexer.Takes.isWord_iff` — words begin with such a byte, and nothing
  else does;
* `Lexer.words_of_tokenize` — the words of a script.
-/

namespace TemplateScript

/-! ### Reserved words -/

namespace ReservedWord

/-- The operator that the word stands for, if it is no keyword. -/
def operator? : ReservedWord → Option Operator
  | keyword _ => none
  | operator op => some op

/-- No word is listed twice. -/
theorem ofBytes?_eq_some_iff {text : Bytes} {reserved : ReservedWord} :
    ofBytes? text = some reserved ↔ (text, reserved) ∈ table := by
  constructor
  · intro h
    obtain ⟨before, after, hsplit, -⟩ := List.lookup_eq_some_iff.mp h
    rw [hsplit]
    exact List.mem_append_right _ List.mem_cons_self
  · have hall : ∀ entry ∈ table, ofBytes? entry.1 = some entry.2 := by decide +kernel
    exact hall (text, reserved)

/-- The standard table knows the operators among the reserved words under the words that are listed
for them, whatever comes before. -/
theorem standard_of_mem {text : Bytes} {op : Operator} (h : (text, .operator op) ∈ table)
    (previous : Option Token) : Resolver.standard ⟨text, previous⟩ = some op := by
  have hall : ∀ entry ∈ table, ∀ op ∈ entry.2.operator?,
      1 < entry.1.length ∧ Operator.ofLexeme? entry.1 = some op := by
    decide +kernel
  obtain ⟨hlonger, hread⟩ := hall _ h op rfl
  exact (Resolver.standard_of_longer (q := ⟨text, previous⟩) hlonger).trans hread

end ReservedWord

/-- The kinds of words. -/
def Token.Kind.isWord : Token.Kind → Bool
  | .identifier | .keyword _ | .operatorWord _ => true
  | _ => false

/-- The kind is what the list of reserved words says of a word with this text. -/
structure Token.Kind.Classifies (kind : Token.Kind) (text : Bytes) : Prop where
  keyword : ∀ word, kind = .keyword word ↔ (text, .keyword word) ∈ ReservedWord.table
  operatorWord : ∀ op, kind = .operatorWord op ↔ (text, .operator op) ∈ ReservedWord.table
  identifier : kind = .identifier ↔ ∀ reserved, (text, reserved) ∉ ReservedWord.table

namespace Token.Kind

theorem isString_of_isWord {kind : Token.Kind} (h : kind.isWord = true) : kind.isString = false := by
  cases kind <;> first | rfl | cases h

theorem isWord_of_isBare {kind : Token.Kind} (h : kind.isBare = true) : kind.isWord = false := by
  cases kind <;> first | rfl | cases h

/-- The kind of a word with this text. -/
def ofWord (text : Bytes) : Token.Kind :=
  match ReservedWord.ofBytes? text with
  | some (.keyword word) => .keyword word
  | some (.operator op) => .operatorWord op
  | none => .identifier

theorem classifies_ofWord (text : Bytes) : (ofWord text).Classifies text := by
  have hlisted : ∀ reserved, (text, reserved) ∈ ReservedWord.table ↔
      ReservedWord.ofBytes? text = some reserved := fun _ =>
    ReservedWord.ofBytes?_eq_some_iff.symm
  cases h : ReservedWord.ofBytes? text with
  | none =>
    have hkind : ofWord text = .identifier := by rw [ofWord, h]
    constructor <;> simp [hkind, hlisted, h]
  | some reserved =>
    cases reserved with
    | keyword word =>
      have hkind : ofWord text = .keyword word := by rw [ofWord, h]
      constructor <;> simp [hkind, hlisted, h]
    | operator op =>
      have hkind : ofWord text = .operatorWord op := by rw [ofWord, h]
      constructor <;> simp [hkind, hlisted, h]

end Token.Kind

/-! ### One token -/

namespace Lexeme.Settles

variable {found : Lexeme} {lookback : Lookback} {offset : Nat} {line : Line} {resolve : Resolver}
  {token : Token} {bytes : Bytes}

/-- A token is of a kind of words exactly if its lexeme is a word. -/
theorem isWord_iff (h : found.Settles lookback offset line resolve (.emit token))
    (fits : found.form.Fits bytes) :
    token.kind.isWord = true ↔ ∃ spelling, found.form = .word spelling := by
  cases h with
  | fixed form =>
    rw [form] at fits
    simp [form, Token.Kind.isWord_of_isBare fits.1]
  | annotated form =>
    rw [form] at fits
    obtain ⟨rfl | rfl, -⟩ := fits <;> simp [form, Token.Kind.isWord]
  | keyword form _ => simp [form, Token.Kind.isWord]
  | operatorWord form _ _ => simp [form, Token.Kind.isWord, Token.ofOperator]
  | identifier form _ => simp [form, Token.Kind.isWord]
  | operator form _ => simp [form, Token.Kind.isWord, Token.ofOperator]
  | other form _ => simp [form, Token.Kind.isWord]
  | closeParen form _ => simp [form, Token.Kind.isWord]

/-- With the standard operator table the list of reserved words settles the kind of a word. -/
theorem kind_eq_ofWord (h : found.Settles lookback offset line .standard (.emit token))
    (form : found.form = .word bytes) : token.kind = .ofWord bytes := by
  have hstandard : ∀ {op : Operator}, ReservedWord.ofBytes? bytes = some (.operator op) →
      Resolver.standard ⟨bytes, lookback.latest⟩ = some op := fun hop =>
    ReservedWord.standard_of_mem (ReservedWord.ofBytes?_eq_some_iff.mp hop) _
  rw [Token.Kind.ofWord]
  cases h with
  | fixed form' => rw [form] at form'; cases form'
  | annotated form' => rw [form] at form'; cases form'
  | operator form' _ => rw [form] at form'; cases form'
  | other form' _ => rw [form] at form'; cases form'
  | closeParen form' _ => rw [form] at form'; cases form'
  | keyword form' reserved =>
    cases Lexeme.Form.word.inj (form.symm.trans form')
    rw [reserved]
  | operatorWord form' reserved answer =>
    cases Lexeme.Form.word.inj (form.symm.trans form')
    rw [reserved]
    exact congrArg Token.Kind.operatorWord
      (Option.some.inj (answer.symm.trans (hstandard reserved)))
  | identifier form' free =>
    cases Lexeme.Form.word.inj (form.symm.trans form')
    cases hreserved : ReservedWord.ofBytes? bytes with
    | none => rfl
    | some reserved =>
      obtain ⟨⟨op, rfl⟩, hnone⟩ := free reserved hreserved
      rw [hstandard hreserved] at hnone
      cases hnone

end Lexeme.Settles

namespace Construct

variable {options : Options} {first : UInt8} {tail : Bytes} {found : Lexeme}

/-- A word stands exactly where a byte starts one. -/
theorem form_word_iff (scan : Construct.scan options first tail = .lexeme found) :
    (∃ spelling, found.form = .word spelling) ↔ Byte.isWordStart first = true := by
  constructor
  · rintro ⟨spelling, hform⟩
    rcases fixed_or_word_or_symbol scan with ⟨kind, hfixed⟩ | ⟨-, start⟩ | ⟨rfl, -⟩
    · rw [hfixed] at hform
      cases hform
    · exact start
    · exact absurd hform (Symbol.form_ne_word first tail spelling)
  · intro start
    rw [scan_of_wordStart start] at scan
    cases scan
    exact ⟨_, rfl⟩

end Construct

namespace Lexer

variable {l : Lexer} {resolve : Resolver} {token : Token} {gap : Bytes} {first : UInt8}
  {tail : Bytes} {found : Lexeme}

namespace Takes

theorem isWord_iff (h : l.Takes resolve (.emit token) gap first tail found) :
    token.kind.isWord = true ↔ Byte.isWordStart first = true :=
  (h.settles.isWord_iff (Construct.fits_of_scan h.scan)).trans (Construct.form_word_iff h.scan)

/-- A word is the longest one where it stands. -/
theorem isLongest_of_isWord (h : l.Takes resolve (.emit token) gap first tail found)
    (hword : token.kind.isWord = true) :
    Bytes.IsLongest Word.IsWord (l.cursor.source.drop token.text.start)
      (token.textIn l.cursor.source) := by
  have hstart := h.isWord_iff.mp hword
  have hkind := Token.Kind.isString_of_isWord hword
  have hfound : found = .word (first :: tail) :=
    Construct.lexeme.inj (h.scan.symm.trans (Construct.scan_of_wordStart hstart))
  rw [h.textIn_of_emit hkind, h.text_of_emit hkind, h.drop_source, hfound]
  exact Word.isLongest_isWord hstart tail

/-- With the standard operator table a word is of the kind of its text. -/
theorem kind_eq_ofWord (h : l.Takes .standard (.emit token) gap first tail found)
    (hword : token.kind.isWord = true) :
    token.kind = .ofWord (token.textIn l.cursor.source) := by
  have hfits := Construct.fits_of_scan h.scan
  obtain ⟨spelling, form⟩ := (h.settles.isWord_iff hfits).mp hword
  rw [form] at hfits
  rw [h.textIn_of_emit (Token.Kind.isString_of_isWord hword), ← hfits]
  exact h.settles.kind_eq_ofWord form

end Takes

/-! ### The token list -/

variable {source : Bytes} {options : Options} {tokens : Array Token}

/-- The tokens of a script that begin like a word and are neither string literals nor casts are its
identifiers, keywords and operator words.  Each of them is the longest word where it stands, and with
the standard operator table the list of reserved words alone tells them apart. -/
theorem words_of_tokenize (h : tokenizeWith resolve source options = .ok tokens) :
    ∀ token ∈ tokens.toList,
      (token.kind.isWord = true ↔ token.kind.isString = false ∧
        ¬ (start source options).Merges resolve token ∧
        ∃ b, source[token.text.start]? = some b ∧ Byte.isWordStart b = true) ∧
      (token.kind.isWord = true →
        Bytes.IsLongest Word.IsWord (source.drop token.text.start) (token.textIn source) ∧
        (resolve = .standard → token.kind.Classifies (token.textIn source))) := by
  intro token hmem
  have hmerges := merges_iff h hmem
  obtain ⟨before, after, hsplit⟩ := List.append_of_mem hmem
  obtain ⟨calls, edit, hanswer, htoken, hsource, -⟩ := exists_step_of_collect h hsplit
  obtain ⟨gap, first, tail, found, htakes⟩ := exists_takes hanswer
  cases edit with
  | replaceLast count token' =>
    obtain rfl : token' = token := htoken
    obtain ⟨op, hkind⟩ := Lexeme.Settles.operator_of_replaceLast htakes.settles
    have hword : token'.kind.isWord = false := by rw [hkind]; rfl
    rw [hword]
    exact ⟨⟨nofun, fun hfree => absurd ⟨calls, count, hanswer⟩ hfree.2.1⟩, nofun⟩
  | emit token' =>
    obtain rfl : token' = token := htoken
    have hstart := htakes.isWord_iff
    -- the byte at the start of a token that is no string literal is the first one of its lexeme
    have hfirst : token'.kind.isString = false → source[token'.text.start]? = some first := by
      intro hkind
      have hdrop := htakes.drop_source
      rw [hsource] at hdrop
      rw [htakes.text_of_emit hkind, ← List.head?_drop, hdrop]
      rfl
    refine ⟨⟨fun hword => ?_, fun ⟨hkind, _, b, hb, hb'⟩ => ?_⟩, fun hword => ⟨?_, ?_⟩⟩
    · have hkind := Token.Kind.isString_of_isWord hword
      refine ⟨hkind, fun hmerged => ?_, first, hfirst hkind, hstart.mp hword⟩
      obtain ⟨⟨op, hop⟩, -⟩ := hmerges.mp hmerged
      rw [hop] at hword
      cases hword
    · obtain rfl := Option.some.inj ((hfirst hkind).symm.trans hb)
      exact hstart.mpr hb'
    · have hlongest := htakes.isLongest_of_isWord hword
      rwa [hsource] at hlongest
    · rintro rfl
      have hkind := htakes.kind_eq_ofWord hword
      rw [hsource] at hkind
      rw [hkind]
      exact Token.Kind.classifies_ofWord _

/-- An operator word, an identifier with a character of three bytes, a string, a cast and a keyword. -/
theorem words_of_tokenize_character :
    let source := ascii "new a" ++ [0xE2, 0x82, 0xAC] ++ ascii "b'if'(int)if"
    ∃ tokens, tokenizeWith .standard source {} = .ok tokens ∧
      tokens.toList.map Token.kind = [.operatorWord .new, .identifier, .singleQuoted,
        .operator .castInt, .keyword .if_] ∧
      ∀ token ∈ tokens.toList, token.kind.isWord = true →
        Bytes.IsLongest Word.IsWord (source.drop token.text.start) (token.textIn source) ∧
          token.kind.Classifies (token.textIn source) := by
  intro source
  have h : tokenizeWith .standard source {} = .ok
      #[⟨.operatorWord .new, ⟨0, 3⟩, .first, some (.operator .new)⟩,
        ⟨.identifier, ⟨4, 5⟩, .first, none⟩, ⟨.singleQuoted, ⟨10, 2⟩, .first, none⟩,
        ⟨.operator .castInt, ⟨13, 5⟩, .first, some (.operator .castInt)⟩,
        ⟨.keyword .if_, ⟨18, 2⟩, .first, some (.keyword .if_)⟩] := by
    decide +kernel
  refine ⟨_, h, rfl, fun token hmem hword => ?_⟩
  obtain ⟨hlongest, hclass⟩ := (words_of_tokenize h token hmem).2 hword
  exact ⟨hlongest, hclass rfl⟩

end Lexer

end TemplateScript
