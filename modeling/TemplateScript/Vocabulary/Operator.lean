import TemplateScript.Byte

/-!
# Operators

* `Operator` lists what the expression layer can do with an operator token; unary and binary
  readings of one symbol are different operators.
* `Operator.spelling` is the canonical spelling, which a merged token shows in place of its source
  text: `(double)` spells the operator `(float)`.
* `Operator.ofLexeme?` is the part of the standard operator table that does not depend on what
  came before.
-/

namespace TemplateScript

/-- What an operator token means to the expression layer. -/
inductive Operator
  -- assignments
  | assign | refAssign | addAssign | subAssign | mulAssign | divAssign | modAssign
  | concatAssign | andAssign | orAssign | xorAssign | shlAssign | shrAssign
  -- arithmetic and concatenation
  | add | sub | mul | div | mod | concat | unaryPlus | unaryMinus | increment | decrement
  -- comparisons
  | equal | notEqual | identical | notIdentical | lt | le | gt | ge
  -- logic and bits
  | logicalAnd | logicalOr | logicalNot | bitAnd | bitOr | bitXor | bitNot | shl | shr
  -- references, members and lists
  | reference | ternary | errorSuppress | arrow | staticMember | comma | subscript
  -- operators spelled with letters
  | new | clone | wordAnd | wordOr | wordXor | instanceOf | strEq | strNe
  -- casts
  | castInt | castFloat | castBool | castString | castArray | castObject | castUnset
deriving DecidableEq, Repr

namespace Operator

/-- The canonical spelling. -/
def spelling : Operator → String
  | .assign => "="
  | .refAssign => "=&"
  | .addAssign => "+="
  | .subAssign => "-="
  | .mulAssign => "*="
  | .divAssign => "/="
  | .modAssign => "%="
  | .concatAssign => ".="
  | .andAssign => "&="
  | .orAssign => "|="
  | .xorAssign => "^="
  | .shlAssign => "<<="
  | .shrAssign => ">>="
  | .add => "+"
  | .sub => "-"
  | .mul => "*"
  | .div => "/"
  | .mod => "%"
  | .concat => "."
  | .unaryPlus => "+"
  | .unaryMinus => "-"
  | .increment => "++"
  | .decrement => "--"
  | .equal => "=="
  | .notEqual => "!="
  | .identical => "==="
  | .notIdentical => "!=="
  | .lt => "<"
  | .le => "<="
  | .gt => ">"
  | .ge => ">="
  | .logicalAnd => "&&"
  | .logicalOr => "||"
  | .logicalNot => "!"
  | .bitAnd => "&"
  | .bitOr => "|"
  | .bitXor => "^"
  | .bitNot => "~"
  | .shl => "<<"
  | .shr => ">>"
  | .reference => "&"
  | .ternary => "?"
  | .errorSuppress => "@"
  | .arrow => "->"
  | .staticMember => "::"
  | .comma => ","
  | .subscript => "["
  | .new => "new"
  | .clone => "clone"
  | .wordAnd => "and"
  | .wordOr => "or"
  | .wordXor => "xor"
  | .instanceOf => "instanceof"
  | .strEq => "eq"
  | .strNe => "ne"
  | .castInt => "(int)"
  | .castFloat => "(float)"
  | .castBool => "(bool)"
  | .castString => "(string)"
  | .castArray => "(array)"
  | .castObject => "(object)"
  | .castUnset => "(unset)"

/-- The bytes of the canonical spelling. -/
def lexeme (op : Operator) : Bytes := ascii op.spelling

/-- The operator converts its operand to a type. -/
def isCast : Operator → Bool
  | .castInt | .castFloat | .castBool | .castString | .castArray | .castObject | .castUnset => true
  | _ => false

/-! ### The table of fixed readings -/

/-- The lexemes that are always the same operator, whatever comes before them. -/
def fixedSpellings : List (String × Operator) :=
  [("=", .assign),
   ("=&", .refAssign),
   ("+=", .addAssign),
   ("-=", .subAssign),
   ("*=", .mulAssign),
   ("/=", .divAssign),
   ("%=", .modAssign),
   (".=", .concatAssign),
   ("&=", .andAssign),
   ("|=", .orAssign),
   ("^=", .xorAssign),
   ("<<=", .shlAssign),
   (">>=", .shrAssign),
   ("*", .mul),
   ("/", .div),
   ("%", .mod),
   (".", .concat),
   ("++", .increment),
   ("--", .decrement),
   ("==", .equal),
   ("!=", .notEqual),
   ("<>", .notEqual),
   ("===", .identical),
   ("!==", .notIdentical),
   ("<", .lt),
   ("<=", .le),
   (">", .gt),
   (">=", .ge),
   ("&&", .logicalAnd),
   ("||", .logicalOr),
   ("!", .logicalNot),
   ("|", .bitOr),
   ("^", .bitXor),
   ("~", .bitNot),
   ("<<", .shl),
   (">>", .shr),
   ("?", .ternary),
   ("@", .errorSuppress),
   ("->", .arrow),
   ("::", .staticMember),
   (",", .comma),
   ("new", .new),
   ("clone", .clone),
   ("and", .wordAnd),
   ("or", .wordOr),
   ("xor", .wordXor),
   ("instanceof", .instanceOf),
   ("eq", .strEq),
   ("ne", .strNe),
   ("(int)", .castInt),
   ("(float)", .castFloat),
   ("(bool)", .castBool),
   ("(string)", .castString),
   ("(array)", .castArray),
   ("(object)", .castObject),
   ("(unset)", .castUnset)]

/-- The same lexemes by their bytes. -/
def fixedReadings : List (Bytes × Operator) :=
  fixedSpellings.map fun reading => (ascii reading.1, reading.2)

/-- The operator that these bytes always spell. -/
def ofLexeme? (lexeme : Bytes) : Option Operator := fixedReadings.lookup lexeme

end Operator

end TemplateScript
