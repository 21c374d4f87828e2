import TemplateScript.Lexeme.Word
import TemplateScript.Options

/-!
# Heredocs

After `<<<`, horizontal space, an optional quote, a delimiter, the same quote if it comes, more
horizontal space and a newline open a heredoc; with a single quote it is a nowdoc.  The body begins
on the next line.  Two readers look for the line on which it ends:

* for a token, that line is the delimiter, horizontal space and an optional `;` with nothing after
  it (`Heredoc.closingLength?`);
* for cutting a document into blocks, the delimiter just has to be a whole word there
  (`Heredoc.delimiterLength?`), so a closing tag is looked for again no later than the token ends.

Both take the first line that qualifies (`Heredoc.firstLine?`).
-/

namespace TemplateScript

namespace Heredoc

/-! ### The opener -/

/-- What follows `<<<` when a heredoc opens there; `length` counts the bytes before the body. -/
structure Opener where
  delimiter : Bytes
  isNowdoc : Bool
  length : Nat
deriving DecidableEq, Repr

/-- Why no heredoc opens after `<<<`. -/
inductive Refusal
  /-- Neither a quote nor a delimiter stands there. -/
  | absent
  /-- The opener breaks off after this many bytes. -/
  | malformed (length : Nat)
deriving DecidableEq, Repr

/-- The quote at the start of `bs` that may enclose a delimiter. -/
def quote? : Bytes → Option UInt8
  | b :: _ => if b = Byte.singleQuote ∨ b = Byte.doubleQuote then some b else none
  | [] => none

/-- The length of the longest delimiter at the start of `bs`. -/
def delimiterRun (rule : DelimiterRule) : Bytes → Nat
  | b :: bs => if rule.isLead b then Word.length (b :: bs) else 0
  | [] => 0

/-- The length of the quote that closes a quoted delimiter; leaving it out is allowed. -/
def closingQuoteLength (quote : Option UInt8) (bs : Bytes) : Nat :=
  if quote.isSome ∧ bs.head? = quote then 1 else 0

/-- Reads an opener from its delimiter on, `read` bytes of it, with this quote or none, standing
before `bs`. -/
def readDelimiter (rule : DelimiterRule) (quote : Option UInt8) (read : Nat) (bs : Bytes) :
    Except Refusal Opener :=
  let length := delimiterRun rule bs
  if length = 0 then .error (if quote.isSome then .malformed read else .absent)
  else
    let unquoted := length + closingQuoteLength quote (bs.drop length)
    let stop := unquoted + Bytes.runLength Byte.isHorizontalSpace (bs.drop unquoted)
    if (bs.drop stop).head? = some Byte.newline then
      .ok ⟨bs.take length, quote == some Byte.singleQuote, read + stop + 1⟩
    else
      .error (.malformed (read + stop))

/-- Reads the opener whose `<<<` stands right before `bs`. -/
def readOpener (rule : DelimiterRule) (bs : Bytes) : Except Refusal Opener :=
  let indent := Bytes.runLength Byte.isHorizontalSpace bs
  match quote? (bs.drop indent) with
  | some quote => readDelimiter rule (some quote) (indent + 1) (bs.drop (indent + 1))
  | none => readDelimiter rule none indent (bs.drop indent)

/-! ### The closing line -/

/-- Only horizontal space comes before the next newline or the end. -/
def isBlankLine (bs : Bytes) : Bool :=
  match bs.dropWhile Byte.isHorizontalSpace with
  | [] => true
  | b :: _ => b == Byte.newline

/-- A line may end here: at once, or after a `;` and horizontal space. -/
def endsLine : Bytes → Bool
  | [] => true
  | b :: bs => b == Byte.newline || (b == Byte.semicolon && isBlankLine bs)

/-- The length of the delimiter and the horizontal space after it, if the line that `bs` begins
closes a heredoc token. -/
def closingLength? (delimiter bs : Bytes) : Option Nat :=
  if delimiter.isPrefixOf bs then
    let rest := bs.drop delimiter.length
    let space := Bytes.runLength Byte.isHorizontalSpace rest
    if endsLine (rest.drop space) then some (delimiter.length + space) else none
  else none

/-- The length of the delimiter, if it begins the line that `bs` begins and is not the start of a
longer word there. -/
def delimiterLength? (rule : DelimiterRule) (delimiter bs : Bytes) : Option Nat :=
  if delimiter.isPrefixOf bs ∧
      (bs.drop delimiter.length).head?.all
        (fun b => !rule.isDelimiterByte b && !Byte.isContinuation b) then
    some delimiter.length
  else none

/-- The first line on which `accepts` answers, given as its offset counted from `offset`, with the
answer.  `atLineStart` says whether `bs` begins a line. -/
def firstLineFrom? (accepts : Bytes → Option Nat) (offset : Nat) (atLineStart : Bool) :
    Bytes → Option (Nat × Nat)
  | [] => if atLineStart then (accepts []).map (offset, ·) else none
  | b :: bs =>
    match if atLineStart then accepts (b :: bs) else none with
    | some answer => some (offset, answer)
    | none => firstLineFrom? accepts (offset + 1) (b == Byte.newline) bs

/-- The first line of `bs` on which `accepts` answers: its offset and the answer. -/
def firstLine? (accepts : Bytes → Option Nat) (bs : Bytes) : Option (Nat × Nat) :=
  firstLineFrom? accepts 0 true bs

/-- Where the count starts only shifts the offset of the line. -/
theorem firstLineFrom?_eq (accepts : Bytes → Option Nat) (offset : Nat) (atLineStart : Bool)
    (bs : Bytes) :
    firstLineFrom? accepts offset atLineStart bs =
      (firstLineFrom? accepts 0 atLineStart bs).map fun found => (offset + found.1, found.2) := by
  suffices h : ∀ m n, firstLineFrom? accepts (m + n) atLineStart bs =
      (firstLineFrom? accepts n atLineStart bs).map fun found => (m + found.1, found.2) from
    h offset 0
  intro m n
  induction bs generalizing n atLineStart with
  | nil =>
    simp only [firstLineFrom?]
    split
    · rw [Option.map_map]
      rfl
    · rfl
  | cons b bs ih =>
    simp only [firstLineFrom?]
    split
    · rfl
    · rw [Nat.add_assoc, ih]

/-! ### The whole construct -/

/-- The kind of token that the opener announces. -/
def Opener.kind (opener : Opener) : Token.Kind :=
  if opener.isNowdoc then .nowdoc else .heredoc

/-- The heredoc whose `<<<` stands right before `bs`, or nothing when those bytes are to be read as
operators.  Its text is the body up to the newline before the closing line, without the white space
at its end. -/
def scan? (options : Options) (bs : Bytes) : Option Construct :=
  match readOpener options.delimiters bs with
  | .error .absent => none
  | .error (.malformed length) =>
    if options.isStrict then some (.fault .invalidHeredocDelimiter (3 + length)) else none
  | .ok opener =>
    let body := bs.drop opener.length
    match firstLine? (closingLength? opener.delimiter) body with
    | some (line, length) =>
      some (.lexeme ⟨.fixed opener.kind,
        ⟨3 + opener.length, Bytes.trimmedLength (body.take (line - 1))⟩,
        3 + opener.length + line + length⟩)
    | none =>
      if options.isStrict then some (.fault .unterminatedString (3 + bs.length))
      else some (.lexeme ⟨.fixed opener.kind,
        ⟨3 + opener.length, Bytes.trimmedLength body⟩, 3 + bs.length⟩)

/-- The number of bytes after `<<<` that cannot hold a closing tag of a block: up to and including
the delimiter that ends the body, all that is left when there is none, or nothing when no heredoc
opens. -/
def hiddenLength (rule : DelimiterRule) (bs : Bytes) : Nat :=
  match readOpener rule bs with
  | .error _ => 0
  | .ok opener =>
    match firstLine? (delimiterLength? rule opener.delimiter) (bs.drop opener.length) with
    | some (line, length) => opener.length + line + length
    | none => bs.length

/-! ### Bounds -/

theorem delimiterRun_le (rule : DelimiterRule) (bs : Bytes) :
    delimiterRun rule bs ≤ bs.length := by
  cases bs with
  | nil => exact Nat.le_refl _
  | cons b bs =>
    rw [delimiterRun]
    split
    · exact Word.length_le _
    · exact Nat.zero_le _

theorem closingQuoteLength_le (quote : Option UInt8) (bs : Bytes) :
    closingQuoteLength quote bs ≤ bs.length := by
  unfold closingQuoteLength
  split
  · next h =>
    refine List.length_pos_iff.mpr fun hn => ?_
    rw [hn] at h
    have hq := h.1
    rw [← h.2] at hq
    cases hq
  · exact Nat.zero_le _

/-- The number of bytes that were read of an opener, accepted or not. -/
def readLength : Except Refusal Opener → Nat
  | .ok opener => opener.length
  | .error .absent => 0
  | .error (.malformed length) => length

theorem readLength_readDelimiter (rule : DelimiterRule) (quote : Option UInt8) (read : Nat)
    (bs : Bytes) : readLength (readDelimiter rule quote read bs) ≤ read + bs.length := by
  have h₁ := delimiterRun_le rule bs
  have h₂ := closingQuoteLength_le quote (bs.drop (delimiterRun rule bs))
  have h₃ := Bytes.runLength_le Byte.isHorizontalSpace
    (bs.drop (delimiterRun rule bs + closingQuoteLength quote (bs.drop (delimiterRun rule bs))))
  simp only [List.length_drop] at h₂ h₃
  simp only [readDelimiter]
  split
  · split
    · exact Nat.le_add_right _ _
    · exact Nat.zero_le _
  · split
    · next hn =>
      have := Bytes.lt_length_of_head?_drop hn
      simp only [readLength]
      omega
    · simp only [readLength]
      omega

/-- Reading an opener stays within the text. -/
theorem readLength_readOpener (rule : DelimiterRule) (bs : Bytes) :
    readLength (readOpener rule bs) ≤ bs.length := by
  have hi := Bytes.runLength_le Byte.isHorizontalSpace bs
  unfold readOpener
  generalize Bytes.runLength Byte.isHorizontalSpace bs = indent at hi
  simp only []
  split
  · next quote hq =>
    have hlt : 0 < (bs.drop indent).length :=
      List.length_pos_iff.mpr fun hd => by rw [hd] at hq; cases hq
    have := readLength_readDelimiter rule (some quote) (indent + 1) (bs.drop (indent + 1))
    simp only [List.length_drop] at hlt this
    omega
  · have := readLength_readDelimiter rule none indent (bs.drop indent)
    rw [List.length_drop] at this
    omega

/-- An opener lies within the text. -/
theorem length_le_of_readOpener {rule : DelimiterRule} {bs : Bytes} {opener : Opener}
    (h : readOpener rule bs = .ok opener) : opener.length ≤ bs.length := by
  have hle := readLength_readOpener rule bs
  rw [h] at hle
  exact hle

theorem closingLength?_le {delimiter bs : Bytes} {n : Nat}
    (h : closingLength? delimiter bs = some n) : n ≤ bs.length := by
  simp only [closingLength?] at h
  split at h
  · next hp =>
    have h₁ := (List.isPrefixOf_iff_prefix.mp hp).length_le
    have h₂ := Bytes.runLength_le Byte.isHorizontalSpace (bs.drop delimiter.length)
    rw [List.length_drop] at h₂
    split at h
    · cases h
      omega
    · cases h
  · cases h

theorem delimiterLength?_le {rule : DelimiterRule} {delimiter bs : Bytes} {n : Nat}
    (h : delimiterLength? rule delimiter bs = some n) : n ≤ bs.length := by
  unfold delimiterLength? at h
  split at h
  · next hp =>
    cases h
    exact (List.isPrefixOf_iff_prefix.mp hp.1).length_le
  · cases h

/-- The line that was found, and what was accepted on it, lie within the text. -/
theorem firstLineFrom?_le {accepts : Bytes → Option Nat}
    (ha : ∀ bs n, accepts bs = some n → n ≤ bs.length) {offset : Nat} {atLineStart : Bool}
    {bs : Bytes} {line n : Nat}
    (h : firstLineFrom? accepts offset atLineStart bs = some (line, n)) :
    offset ≤ line ∧ line + n ≤ offset + bs.length := by
  induction bs generalizing offset atLineStart with
  | nil =>
    simp only [firstLineFrom?] at h
    split at h
    · obtain ⟨m, hm, he⟩ := Option.map_eq_some_iff.mp h
      cases he
      have := ha _ _ hm
      omega
    · cases h
  | cons b bs ih =>
    simp only [firstLineFrom?] at h
    split at h
    · next m hm =>
      cases h
      split at hm
      · have := ha _ _ hm
        omega
      · cases hm
    · have := ih h
      simp only [List.length_cons]
      omega

theorem firstLine?_le {accepts : Bytes → Option Nat}
    (ha : ∀ bs n, accepts bs = some n → n ≤ bs.length) {bs : Bytes} {line n : Nat}
    (h : firstLine? accepts bs = some (line, n)) : line + n ≤ bs.length := by
  simpa using (firstLineFrom?_le ha h).2

/-- A heredoc takes its `<<<` and no more than there is. -/
theorem length_of_scan? {options : Options} {bs : Bytes} {found : Construct}
    (h : scan? options bs = some found) : 0 < found.length ∧ found.length ≤ bs.length + 3 := by
  unfold scan? at h
  split at h
  · cases h
  · next n hr =>
    have hn : n ≤ bs.length := by
      simpa [hr, readLength] using readLength_readOpener options.delimiters bs
    split at h
    · cases h
      exact ⟨by simp only [Construct.length]; omega, by simp only [Construct.length]; omega⟩
    · cases h
  · next opener hr =>
    have ho := length_le_of_readOpener hr
    simp only [] at h
    split at h
    · next line n hl =>
      cases h
      have := firstLine?_le (fun _ _ => closingLength?_le) hl
      rw [List.length_drop] at this
      exact ⟨by simp only [Construct.length]; omega, by simp only [Construct.length]; omega⟩
    · split at h <;> cases h <;>
        exact ⟨by simp only [Construct.length]; omega, by simp only [Construct.length]; omega⟩

theorem hiddenLength_le (rule : DelimiterRule) (bs : Bytes) : hiddenLength rule bs ≤ bs.length := by
  unfold hiddenLength
  split
  · exact Nat.zero_le _
  · next opener hr =>
    have ho := length_le_of_readOpener hr
    split
    · next line n hl =>
      have := firstLine?_le (fun _ _ => delimiterLength?_le) hl
      rw [List.length_drop] at this
      omega
    · exact Nat.le_refl _

end Heredoc

end TemplateScript
