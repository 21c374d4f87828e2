import TemplateScript.Source.Line

/-!
# Options

How a source is read: the number of its first line, what becomes of a construct that the input
leaves open, and which bytes a heredoc delimiter may start with.
-/

namespace TemplateScript

/-- What happens when the input ends inside a string, a comment or a heredoc. -/
inductive Ending
  /-- The construct ends with the input. -/
  | lenient
  /-- The construct is an error. -/
  | strict
deriving DecidableEq, Repr

/-- Which bytes may begin the delimiter of a heredoc. -/
inductive DelimiterRule
  /-- A letter, a digit, an underscore or a multi-byte character. -/
  | relaxed
  /-- The same without the digits. -/
  | standard
deriving DecidableEq, Repr

namespace DelimiterRule

/-- The byte may begin a delimiter. -/
def isLead : DelimiterRule → UInt8 → Bool
  | relaxed, b => Byte.isWordByte b || Byte.isLead b
  | standard, b => Byte.isWordStart b

/-- The byte may follow in a delimiter; the rules do not differ here. -/
def isDelimiterByte (_rule : DelimiterRule) (b : UInt8) : Bool :=
  Byte.isWordByte b || Byte.isLead b

theorem isDelimiterByte_of_isLead {rule : DelimiterRule} {b : UInt8} (h : rule.isLead b = true) :
    rule.isDelimiterByte b = true := by
  cases rule with
  | relaxed => exact h
  | standard =>
    simp only [isLead, Byte.isWordStart, Bool.or_eq_true] at h
    rcases h with (h | h) | h <;> simp [isDelimiterByte, Byte.isWordByte, h]

end DelimiterRule

/-- How a source is read. -/
structure Options where
  startLine : Line := .first
  ending : Ending := .lenient
  delimiters : DelimiterRule := .relaxed
deriving DecidableEq, Repr

namespace Options

instance : Inhabited Options := ⟨{}⟩

/-- The same options with open constructs reported as errors. -/
def strict (o : Options) : Options := { o with ending := .strict }

/-- The same options with open constructs ended by the input. -/
def lenient (o : Options) : Options := { o with ending := .lenient }

/-- Open constructs are errors. -/
def isStrict (o : Options) : Bool := o.ending == .strict

end Options

end TemplateScript
