/-!
# Bytes and their classes

Source text is a list of bytes; nothing here asks it to be valid UTF-8.  This module defines

* `Bytes`, the type of a source text, and `ascii`, the bytes of an ASCII spelling;
* the named bytes of the script language (`Byte.newline`, `Byte.slash`, …);
* the byte classes every scanner is built from: horizontal space, space, digits, letters, word
  bytes, and the lead and continuation bytes of multi-byte characters;
* `Bytes.runLength`, `Bytes.lineLength`, `Bytes.trimmedLength` and `Bytes.findPair?`, the four
  measurements the scanners take of what lies ahead.
-/

namespace TemplateScript

/-- A source text: any sequence of bytes, whether or not it is valid UTF-8. -/
abbrev Bytes := List UInt8

/-- The bytes of an ASCII spelling, one for each character. -/
def ascii (spelling : String) : Bytes :=
  spelling.toList.map fun c => UInt8.ofNat c.toNat

namespace Byte

/-! ### Named bytes -/

abbrev newline : UInt8 := 0x0A
abbrev doubleQuote : UInt8 := 0x22
abbrev hash : UInt8 := 0x23
abbrev dollar : UInt8 := 0x24
abbrev ampersand : UInt8 := 0x26
abbrev singleQuote : UInt8 := 0x27
abbrev openParen : UInt8 := 0x28
abbrev closeParen : UInt8 := 0x29
abbrev star : UInt8 := 0x2A
abbrev plus : UInt8 := 0x2B
abbrev comma : UInt8 := 0x2C
abbrev minus : UInt8 := 0x2D
abbrev dot : UInt8 := 0x2E
abbrev slash : UInt8 := 0x2F
abbrev zero : UInt8 := 0x30
abbrev colon : UInt8 := 0x3A
abbrev semicolon : UInt8 := 0x3B
abbrev less : UInt8 := 0x3C
abbrev greater : UInt8 := 0x3E
abbrev question : UInt8 := 0x3F
abbrev openBracket : UInt8 := 0x5B
abbrev backslash : UInt8 := 0x5C
abbrev closeBracket : UInt8 := 0x5D
abbrev underscore : UInt8 := 0x5F
abbrev backtick : UInt8 := 0x60
abbrev openCurly : UInt8 := 0x7B
abbrev closeCurly : UInt8 := 0x7D

/-! ### Classes -/

/-- Space, tab, carriage return, vertical tab or form feed: what a line may carry before its
newline. -/
def isHorizontalSpace (b : UInt8) : Bool :=
  b == 0x20 || b == 0x09 || b == 0x0D || b == 0x0B || b == 0x0C

/-- The white space of scripts: horizontal space or a newline. -/
def isSpace (b : UInt8) : Bool :=
  b == newline || isHorizontalSpace b

/-- The white space dropped at the end of a body: space, tab, newline, form feed or carriage
return.  A vertical tab stays. -/
def isTrailingSpace (b : UInt8) : Bool :=
  b == 0x20 || b == 0x09 || b == newline || b == 0x0C || b == 0x0D

/-- A decimal digit. -/
def isDigit (b : UInt8) : Bool :=
  0x30 ≤ b && b ≤ 0x39

/-- A hexadecimal digit, in either case. -/
def isHexDigit (b : UInt8) : Bool :=
  isDigit b || (0x41 ≤ b && b ≤ 0x46) || (0x61 ≤ b && b ≤ 0x66)

/-- A binary digit. -/
def isBinaryDigit (b : UInt8) : Bool :=
  b == 0x30 || b == 0x31

/-- An ASCII letter, in either case. -/
def isLetter (b : UInt8) : Bool :=
  (0x41 ≤ b && b ≤ 0x5A) || (0x61 ≤ b && b ≤ 0x7A)

/-- A letter, a digit or an underscore: the bytes of a word outside the multi-byte range. -/
def isWordByte (b : UInt8) : Bool :=
  isLetter b || isDigit b || b == underscore

/-- The first byte of a multi-byte character. -/
def isLead (b : UInt8) : Bool :=
  0xC0 ≤ b

/-- A later byte of a multi-byte character: its two high bits are `10`. -/
def isContinuation (b : UInt8) : Bool :=
  b &&& 0xC0 == 0x80

/-- A byte that starts a word: a letter, an underscore or the first byte of a multi-byte
character. -/
def isWordStart (b : UInt8) : Bool :=
  isLetter b || b == underscore || isLead b

/-- One of the three bytes that open a quoted string. -/
def isQuote (b : UInt8) : Bool :=
  b == singleQuote || b == doubleQuote || b == backtick

/-- The lower-case form of an ASCII letter; any other byte is itself. -/
def toLower (b : UInt8) : UInt8 :=
  if 0x41 ≤ b && b ≤ 0x5A then b + 0x20 else b

end Byte

namespace Bytes

/-! ### Measurements -/

/-- The number of leading bytes for which `p` holds. -/
def runLength (p : UInt8 → Bool) (bs : Bytes) : Nat :=
  (bs.takeWhile p).length

/-- The number of bytes before the first newline, or all of them. -/
def lineLength (bs : Bytes) : Nat :=
  runLength (· != Byte.newline) bs

/-- The number of bytes left after dropping the white space at the end. -/
def trimmedLength (bs : Bytes) : Nat :=
  (bs.reverse.dropWhile Byte.isTrailingSpace).length

/-- The offset of the first place at which `a` is directly followed by `b`, counted from
`offset`. -/
def findPairFrom? (a b : UInt8) (offset : Nat) : Bytes → Option Nat
  | [] => none
  | c :: bs =>
    if c == a && bs.head? == some b then some offset else findPairFrom? a b (offset + 1) bs

/-- The offset of the first place at which `a` is directly followed by `b`. -/
def findPair? (a b : UInt8) (bs : Bytes) : Option Nat :=
  findPairFrom? a b 0 bs

theorem runLength_le (p : UInt8 → Bool) (bs : Bytes) : runLength p bs ≤ bs.length :=
  (List.takeWhile_sublist p).length_le

theorem lineLength_le (bs : Bytes) : lineLength bs ≤ bs.length :=
  runLength_le _ bs

theorem runLength_cons_of_pos {p : UInt8 → Bool} {b : UInt8} (h : p b = true) (bs : Bytes) :
    runLength p (b :: bs) = runLength p bs + 1 := by
  simp [runLength, h]

theorem runLength_cons_of_neg {p : UInt8 → Bool} {b : UInt8} (h : p b = false) (bs : Bytes) :
    runLength p (b :: bs) = 0 := by
  simp [runLength, h]

theorem lt_length_of_head?_drop {bs : Bytes} {n : Nat} {b : UInt8}
    (h : (bs.drop n).head? = some b) : n < bs.length := by
  rw [List.head?_drop] at h
  exact (List.getElem?_eq_some_iff.mp h).1

/-- Where the count starts only shifts the answer. -/
theorem findPairFrom?_eq (a b : UInt8) (offset : Nat) (bs : Bytes) :
    findPairFrom? a b offset bs = (findPair? a b bs).map (offset + ·) := by
  unfold findPair?
  suffices h : ∀ m n, findPairFrom? a b (m + n) bs = (findPairFrom? a b n bs).map (m + ·) from
    h offset 0
  intro m n
  induction bs generalizing n with
  | nil => rfl
  | cons c bs ih =>
    simp only [findPairFrom?]
    split
    · rfl
    · rw [Nat.add_assoc, ih]

theorem findPairFrom?_lt {a b : UInt8} {offset n : Nat} {bs : Bytes}
    (h : findPairFrom? a b offset bs = some n) : offset ≤ n ∧ n + 2 ≤ offset + bs.length := by
  induction bs generalizing offset with
  | nil => cases h
  | cons c bs ih =>
    simp only [findPairFrom?] at h
    split at h
    · next hc =>
      cases h
      cases bs with
      | nil => simp at hc
      | cons d bs => simp only [List.length_cons]; omega
    · have := ih h
      simp only [List.length_cons]
      omega

/-- The two bytes that were found lie within the text. -/
theorem findPair?_lt {a b : UInt8} {n : Nat} {bs : Bytes} (h : findPair? a b bs = some n) :
    n + 2 ≤ bs.length := by
  simpa using (findPairFrom?_lt h).2

end Bytes

end TemplateScript
