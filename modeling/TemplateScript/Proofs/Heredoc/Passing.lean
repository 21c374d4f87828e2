import TemplateScript.Proofs.Lexer.Heredoc
import TemplateScript.Proofs.Lines

/-!
# Passing a heredoc

From right behind its `<<<`, a heredoc is passed in two ways: `Cursor.skipHeredoc` in search of a
closing tag, `Cursor.readHeredoc` for a token.

* `Heredoc.Delimits` and `Heredoc.IsDelimiting` — a line that ends the search, and the first one;
* `Heredoc.exists_isDelimiting_le` — it never comes behind the line that ends the token;
* `Template.passes_skipHeredoc` and `Lexer.Meets.cursor_step_of_heredoc` — the search for a closing
  tag and the lexer pass a heredoc with the two;
* `Cursor.skipHeredoc_le_readHeredoc` — where the two stop, and that the search stops no later.
-/

namespace TemplateScript

namespace Heredoc

variable {rule : DelimiterRule} {opener : Opener} {delimiter blank opening body bs : Bytes}
  {line closing : Nat}

/-! ### The line that ends the search -/

/-- The line that `bs` begins starts with the delimiter, and behind it stands nothing or a byte with
which neither a delimiter nor a character goes on. -/
def Delimits (rule : DelimiterRule) (delimiter bs : Bytes) : Prop :=
  ∃ rest, bs = delimiter ++ rest ∧
    ∀ b, rest.head? = some b → rule.isDelimiterByte b = false ∧ Byte.isContinuation b = false

/-- The first line of `body` that ends the search begins at offset `line`. -/
structure IsDelimiting (rule : DelimiterRule) (delimiter body : Bytes) (line : Nat) : Prop where
  isLineStart : IsLineStart body line
  delimits : Delimits rule delimiter (body.drop line)
  first : ∀ m < line, IsLineStart body m → ¬ Delimits rule delimiter (body.drop m)

theorem not_continues_iff (rule : DelimiterRule) (b : UInt8) :
    ¬ Word.Continues b ↔ rule.isDelimiterByte b = false ∧ Byte.isContinuation b = false := by
  rw [Word.Continues, DelimiterRule.isDelimiterByte, Bool.or_eq_false_iff]
  simp only [not_or, Bool.not_eq_true]
  constructor
  · rintro ⟨hlead, hword, hlater⟩
    exact ⟨⟨hword, hlead⟩, hlater⟩
  · rintro ⟨⟨hword, hlead⟩, hlater⟩
    exact ⟨hlead, hword, hlater⟩

theorem delimiterLength?_eq_some_iff_delimits {n : Nat} :
    delimiterLength? rule delimiter bs = some n ↔
      Delimits rule delimiter bs ∧ n = delimiter.length := by
  simp only [delimiterLength?_eq_some_iff, not_continues_iff rule, Delimits]
  constructor
  · rintro ⟨rest, hbs, hrest, hn⟩
    exact ⟨⟨rest, hbs, hrest⟩, hn⟩
  · rintro ⟨⟨rest, hbs, hrest⟩, hn⟩
    exact ⟨rest, hbs, hrest, hn⟩

theorem delimiterLength?_eq_none_iff :
    delimiterLength? rule delimiter bs = none ↔ ¬ Delimits rule delimiter bs := by
  rw [Option.eq_none_iff_forall_ne_some]
  simp only [ne_eq, delimiterLength?_eq_some_iff_delimits, not_and]
  exact ⟨fun h hdelimits => h _ hdelimits rfl, fun h _ hdelimits => absurd hdelimits h⟩

/-- The search finds the first line that ends it. -/
theorem firstLine?_eq_some_iff_isDelimiting {n : Nat} :
    firstLine? (delimiterLength? rule delimiter) body = some (line, n) ↔
      IsDelimiting rule delimiter body line ∧ n = delimiter.length := by
  simp only [firstLine?_eq_some_iff, delimiterLength?_eq_some_iff_delimits,
    delimiterLength?_eq_none_iff]
  constructor
  · rintro ⟨hstart, ⟨hdelimits, hn⟩, hfirst⟩
    exact ⟨⟨hstart, hdelimits, hfirst⟩, hn⟩
  · rintro ⟨⟨hstart, hdelimits, hfirst⟩, hn⟩
    exact ⟨hstart, ⟨hdelimits, hn⟩, hfirst⟩

theorem firstLine?_eq_none_iff_delimits :
    firstLine? (delimiterLength? rule delimiter) body = none ↔
      ∀ m, IsLineStart body m → ¬ Delimits rule delimiter (body.drop m) := by
  simp only [firstLine?_eq_none_iff, delimiterLength?_eq_none_iff]

/-- A line that ends the token ends the search as well. -/
theorem delimits_of_closesWith (h : ClosesWith delimiter blank bs) :
    Delimits rule delimiter bs := by
  have hclosing := closingLength?_eq_some_iff_closesWith.mpr ⟨blank, h, rfl⟩
  exact (delimiterLength?_eq_some_iff_delimits.mp (delimiterLength?_of_closingLength? hclosing)).1

/-- The search ends no later than the token: on its line, or on one before. -/
theorem exists_isDelimiting_le (h : IsClosing delimiter body closing blank) :
    ∃ line ≤ closing, IsDelimiting rule delimiter body line := by
  have hdelimits : Delimits rule delimiter (body.drop closing) := delimits_of_closesWith h.closes
  cases hfind : firstLine? (delimiterLength? rule delimiter) body with
  | none =>
    exact absurd hdelimits (firstLine?_eq_none_iff_delimits.mp hfind closing h.isLineStart)
  | some found =>
    obtain ⟨hfirst, -⟩ := firstLine?_eq_some_iff_isDelimiting.mp hfind
    refine ⟨found.1, Nat.not_lt.mp fun hlt => ?_, hfirst⟩
    exact hfirst.first closing hlt h.isLineStart hdelimits

/-- The line that ends the token, up to the horizontal space behind its delimiter, lies within the
body. -/
theorem IsClosing.le_length (h : IsClosing delimiter body closing blank) :
    closing + delimiter.length + blank.length ≤ body.length := by
  obtain ⟨mark, rest, hline, -⟩ := h.closes
  have hstart := le_length_of_isLineStart h.isLineStart
  have hlength := congrArg List.length hline
  simp only [List.length_drop, List.length_append] at hlength
  omega

/-! ### What the search hides -/

theorem hiddenLength_of_isDelimiting (opens : OpenerLine rule opener opening)
    (ends : IsDelimiting rule opener.delimiter body line) :
    hiddenLength rule (opening ++ body) = opening.length + line + opener.delimiter.length := by
  rw [hiddenLength, readOpener_of_line opens]
  simp only [opens.length_eq, List.drop_append_length,
    firstLine?_eq_some_iff_isDelimiting.mpr ⟨ends, rfl⟩]

theorem hiddenLength_of_not_delimits (opens : OpenerLine rule opener opening)
    (endless : ∀ m, IsLineStart body m → ¬ Delimits rule opener.delimiter (body.drop m)) :
    hiddenLength rule (opening ++ body) = (opening ++ body).length := by
  rw [hiddenLength, readOpener_of_line opens]
  simp only [opens.length_eq, List.drop_append_length,
    firstLine?_eq_none_iff_delimits.mpr endless]

/-- Something is hidden exactly where a heredoc opens. -/
theorem hiddenLength_eq_zero_iff :
    hiddenLength rule bs = 0 ↔ ∃ refusal, readOpener rule bs = .error refusal := by
  constructor
  · intro hzero
    cases hread : readOpener rule bs with
    | error refusal => exact ⟨refusal, rfl⟩
    | ok opener =>
      obtain ⟨opening, body, rfl, hopening⟩ := readOpener_eq_ok_iff.mp hread
      -- the opening line holds at least its newline
      have hnewline := count_newline hopening
      have hpos : 0 < opening.length := by
        rw [List.length_pos_iff]
        rintro rfl
        cases hnewline
      cases hfind : firstLine? (delimiterLength? rule opener.delimiter) body with
      | none =>
        rw [hiddenLength_of_not_delimits hopening (firstLine?_eq_none_iff_delimits.mp hfind),
          List.length_append] at hzero
        omega
      | some found =>
        have hends := (firstLine?_eq_some_iff_isDelimiting.mp hfind).1
        rw [hiddenLength_of_isDelimiting hopening hends] at hzero
        omega
  · rintro ⟨refusal, hread⟩
    rw [hiddenLength, hread]

/-- A heredoc takes at least its `<<<`. -/
theorem three_le_length {options : Options} {found : Lexeme}
    (h : scan? options bs = some (.lexeme found)) : 3 ≤ found.length := by
  rw [scan?] at h
  split at h
  · cases h
  · split at h <;> cases h
  · next opener _ =>
    simp only [] at h
    split at h
    · cases h
      simp only [Nat.add_assoc, Nat.le_add_right]
    · split at h
      · cases h
      · cases h
        exact Nat.le_add_right _ _

end Heredoc

/-! ### Cursors -/

/-- Passes a heredoc from right behind its `<<<`, in search of a closing tag. -/
def Cursor.skipHeredoc (c : Cursor) (rule : DelimiterRule) : Cursor :=
  c.advanceBy (Heredoc.hiddenLength rule c.rest)

/-- Passes what is read for a token, or with a fault, from right behind the `<<<` of a heredoc; the
cursor stays where the bytes are left to the operators. -/
def Cursor.readHeredoc (c : Cursor) (options : Options) : Cursor :=
  match Heredoc.scan? options c.rest with
  | some found => c.advanceBy (found.length - 3)
  | none => c

/-- At `<<<` the search for a closing tag passes the three bytes and then the heredoc. -/
theorem Template.passes_skipHeredoc {c : Cursor} {bs : Bytes} (rule : DelimiterRule)
    (h : c.rest = ascii "<<<" ++ bs) :
    Passes rule c.rest ((c.advanceBy 3).skipHeredoc rule).rest := by
  have hbs : (c.advanceBy 3).rest = bs := by
    rw [Cursor.rest_advanceBy, h]
    rfl
  rw [Cursor.skipHeredoc, Cursor.rest_advanceBy, hbs, h]
  exact passes_heredoc rule bs

/-- A step that comes to `<<<` and reads a heredoc passes the three bytes and then the heredoc. -/
theorem Lexer.Meets.cursor_step_of_heredoc {l : Lexer} {gap bs : Bytes} {found : Lexeme}
    (h : l.Meets gap (ascii "<<<" ++ bs))
    (reads : Heredoc.scan? l.options bs = some (.lexeme found)) (resolve : Resolver) :
    (l.step resolve).lexer.cursor =
      (l.cursor.advanceBy (gap.length + 3)).readHeredoc l.options := by
  have hbs : (l.cursor.advanceBy (gap.length + 3)).rest = bs := by
    rw [Cursor.rest_advanceBy, h.rest, ← List.drop_drop, List.drop_append_length]
    rfl
  have hpast : (l.cursor.advanceBy (gap.length + 3)).readHeredoc l.options =
      l.cursor.advanceBy (gap.length + 3 + (found.length - 3)) := by
    rw [Cursor.readHeredoc, hbs, reads]
    exact Cursor.advanceBy_advanceBy _ _ _
  have hthree := Heredoc.three_le_length reads
  rw [cursor_step, h.found_of_lexeme (Construct.scan_of_heredoc reads), ← h.skipped, hpast]
  congr 1
  show gap.length + found.length = _
  omega

namespace Cursor

open Heredoc

variable {c : Cursor} {rule : DelimiterRule} {options : Options} {opener : Opener}
  {opening body blank : Bytes} {line : Nat}

theorem skipHeredoc_of_isDelimiting (rest : c.rest = opening ++ body)
    (opens : OpenerLine rule opener opening) (ends : IsDelimiting rule opener.delimiter body line) :
    c.skipHeredoc rule = c.advanceBy (opening.length + line + opener.delimiter.length) := by
  rw [skipHeredoc, rest, hiddenLength_of_isDelimiting opens ends]

theorem skipHeredoc_of_not_delimits (rest : c.rest = opening ++ body)
    (opens : OpenerLine rule opener opening)
    (endless : ∀ m, IsLineStart body m → ¬ Delimits rule opener.delimiter (body.drop m)) :
    c.skipHeredoc rule = c.advanceBy c.rest.length := by
  rw [skipHeredoc, rest, hiddenLength_of_not_delimits opens endless]

theorem readHeredoc_of_isClosing (rest : c.rest = opening ++ body)
    (opens : OpenerLine options.delimiters opener opening)
    (closes : IsClosing opener.delimiter body line blank) :
    c.readHeredoc options =
      c.advanceBy (opening.length + line + opener.delimiter.length + blank.length) := by
  obtain ⟨text, -, hscan⟩ := scan?_of_closing opens closes
  rw [readHeredoc, rest, hscan]
  show c.advanceBy (3 + opening.length + (line + opener.delimiter.length + blank.length) - 3) = _
  congr 1
  omega

theorem readHeredoc_of_open (rest : c.rest = opening ++ body)
    (opens : OpenerLine options.delimiters opener opening) (lenient : options.isStrict = false)
    (endless : ∀ m, IsLineStart body m → ∀ blank,
      ¬ ClosesWith opener.delimiter blank (body.drop m)) :
    c.readHeredoc options = c.advanceBy c.rest.length := by
  obtain ⟨text, -, hscan⟩ := (scan?_of_open opens endless).2 lenient
  rw [readHeredoc, rest, hscan]
  show c.advanceBy (3 + (opening ++ body).length - 3) = _
  rw [Nat.add_sub_cancel_left]

theorem offset_advanceBy_rest (c : Cursor) :
    (c.advanceBy c.rest.length).offset = c.source.length := by
  have hrest := c.length_rest
  have hle := c.offset_le
  rw [offset_advanceBy_of_le (Nat.le_refl _)]
  omega

theorem offset_advanceBy_mono (c : Cursor) {m n : Nat} (h : m ≤ n) :
    (c.advanceBy m).offset ≤ (c.advanceBy n).offset := by
  rw [offset_advanceBy, offset_advanceBy]
  omega

/-- The search for a closing tag leaves the cursor where it is exactly where no heredoc opens. -/
theorem skipHeredoc_eq_self_iff :
    c.skipHeredoc rule = c ↔ ∃ refusal, readOpener rule c.rest = .error refusal := by
  rw [← hiddenLength_eq_zero_iff]
  constructor
  · intro hstay
    have hoffset := congrArg Cursor.offset hstay
    rw [skipHeredoc, offset_advanceBy_of_le (hiddenLength_le rule c.rest)] at hoffset
    omega
  · intro hzero
    rw [skipHeredoc, hzero, advanceBy_zero]

/-- The search stops no later than a lenient lexer does behind the token. -/
theorem offset_skipHeredoc_le (rest : c.rest = opening ++ body)
    (opens : OpenerLine options.delimiters opener opening) (lenient : options.isStrict = false) :
    (c.skipHeredoc options.delimiters).offset ≤ (c.readHeredoc options).offset := by
  rcases exists_isClosing_or opener.delimiter body with ⟨closing, blank, hcloses⟩ | hnever
  · obtain ⟨line, hle, hends⟩ :
        ∃ line ≤ closing, IsDelimiting options.delimiters opener.delimiter body line :=
      exists_isDelimiting_le hcloses
    rw [skipHeredoc_of_isDelimiting rest opens hends, readHeredoc_of_isClosing rest opens hcloses]
    exact c.offset_advanceBy_mono (by omega)
  · rw [readHeredoc_of_open rest opens lenient hnever, offset_advanceBy_rest]
    exact (c.skipHeredoc options.delimiters).offset_le

/-- If one line ends both, what comes between the two stops is the space behind its delimiter. -/
theorem sliceFrom_readHeredoc (rest : c.rest = opening ++ body)
    (opens : OpenerLine options.delimiters opener opening)
    (ends : IsDelimiting options.delimiters opener.delimiter body line)
    (closes : IsClosing opener.delimiter body line blank) :
    (c.readHeredoc options).sliceFrom (c.skipHeredoc options.delimiters).offset = blank := by
  have hskipped := skipHeredoc_of_isDelimiting rest opens ends
  have hmove : c.readHeredoc options =
      (c.skipHeredoc options.delimiters).advanceBy blank.length := by
    rw [hskipped, readHeredoc_of_isClosing rest opens closes, advanceBy_advanceBy]
  obtain ⟨mark, after, hline, -⟩ := closes.closes
  have hahead : (c.skipHeredoc options.delimiters).rest = blank ++ (mark ++ after) := by
    rw [hskipped, rest_advanceBy, rest, Nat.add_assoc, ← List.drop_drop,
      List.drop_append_length, ← List.drop_drop, hline, List.drop_append_length]
  generalize c.skipHeredoc options.delimiters = skipped at hmove hahead ⊢
  rw [hmove, sliceFrom_advanceBy (Nat.le_refl _), hahead, List.take_append_length]
  show (skipped.source.take skipped.offset).drop skipped.offset ++ blank = blank
  rw [List.drop_eq_nil_of_le (List.length_take_le _ _), List.nil_append]

/-- The search for a closing tag leaves the cursor where it is exactly where no heredoc opens.
Behind an opening line it stops right behind the delimiter that begins the first line to end the
search, or at the end of the source without such a line, and never later than a lenient lexer stops
behind the token.  If one line ends both, there is only horizontal space between the two stops. -/
theorem skipHeredoc_le_readHeredoc (c : Cursor) (options : Options) :
    let rule := options.delimiters
    let skipped := c.skipHeredoc rule
    let read := c.readHeredoc options.lenient
    (skipped = c ↔ ∃ refusal, readOpener rule c.rest = .error refusal) ∧
      ∀ opener, readOpener rule c.rest = .ok opener →
        let start := c.offset + opener.length
        let body := c.rest.drop opener.length
        (∀ line, IsDelimiting rule opener.delimiter body line →
          skipped.offset = start + line + opener.delimiter.length) ∧
        ((∀ m, IsLineStart body m → ¬ Delimits rule opener.delimiter (body.drop m)) →
          skipped.offset = c.source.length) ∧
        (∀ line blank, IsClosing opener.delimiter body line blank →
          read.offset = start + line + opener.delimiter.length + blank.length) ∧
        ((∀ m, IsLineStart body m → ∀ blank, ¬ ClosesWith opener.delimiter blank (body.drop m)) →
          read.offset = c.source.length) ∧
        skipped.offset ≤ read.offset ∧
        ∀ line blank, IsDelimiting rule opener.delimiter body line →
          IsClosing opener.delimiter body line blank →
            ∀ b ∈ read.sliceFrom skipped.offset, Byte.isHorizontalSpace b = true := by
  intro rule skipped read
  refine ⟨skipHeredoc_eq_self_iff, fun opener hread => ?_⟩
  obtain ⟨opening, body, hrest, opens⟩ := readOpener_eq_ok_iff.mp hread
  have opens' : OpenerLine options.lenient.delimiters opener opening := opens
  intro start body'
  obtain rfl : body' = body := by
    show c.rest.drop opener.length = body
    rw [hrest, opens.length_eq, List.drop_append_length]
  have hstart : start = c.offset + opening.length := by rw [← opens.length_eq]
  have hlength : c.rest.length = opening.length + body'.length := by
    rw [hrest, List.length_append]
  refine ⟨fun line hends => ?_, fun hnever => ?_, fun line blank hcloses => ?_, fun hnever => ?_,
    offset_skipHeredoc_le hrest opens' rfl, fun line blank hends hcloses => ?_⟩
  · have hle := hiddenLength_le rule c.rest
    rw [hrest, hiddenLength_of_isDelimiting opens hends, ← hrest] at hle
    show (c.skipHeredoc rule).offset = _
    rw [skipHeredoc_of_isDelimiting hrest opens hends, offset_advanceBy_of_le hle, hstart]
    omega
  · show (c.skipHeredoc rule).offset = _
    rw [skipHeredoc_of_not_delimits hrest opens hnever, offset_advanceBy_rest]
  · have hle := hcloses.le_length
    show (c.readHeredoc options.lenient).offset = _
    rw [readHeredoc_of_isClosing hrest opens' hcloses, offset_advanceBy_of_le (by omega), hstart]
    omega
  · show (c.readHeredoc options.lenient).offset = _
    rw [readHeredoc_of_open hrest opens' rfl hnever, offset_advanceBy_rest]
  · have hslice : read.sliceFrom skipped.offset = blank :=
      sliceFrom_readHeredoc hrest opens' hends hcloses
    obtain ⟨mark, rest, -, hblank, -⟩ := hcloses.closes
    rw [hslice]
    exact hblank

/-- A line on which more follows the delimiter ends the search, but not the token. -/
example :
    let c := Cursor.start (ascii "E\nE+\nE \n;") .first
    (c.skipHeredoc .relaxed).offset = 3 ∧ (c.readHeredoc {}).offset = 7 := by
  decide +kernel

end Cursor

end TemplateScript
