import TemplateScript.Vocabulary.Keyword
import TemplateScript.Vocabulary.Operator

/-!
# Reserved words

A word is reserved when its exact spelling is in `reservedWords`; case counts.  It then is a
keyword or an operator that happens to be spelled with letters.
-/

namespace TemplateScript

/-- What a reserved word stands for. -/
inductive ReservedWord
  | keyword (word : Keyword)
  | operator (op : Operator)
deriving DecidableEq, Repr

/-- The reserved words and what they stand for. -/
def reservedWords : List (String × ReservedWord) :=
  [("abstract", .keyword .abstract),
   ("array", .keyword .array),
   ("as", .keyword .as_),
   ("bool", .keyword .bool),
   ("boolean", .keyword .bool),
   ("break", .keyword .break_),
   ("callable", .keyword .callable),
   ("case", .keyword .case_),
   ("catch", .keyword .catch_),
   ("class", .keyword .class_),
   ("const", .keyword .const),
   ("continue", .keyword .continue_),
   ("declare", .keyword .declare),
   ("default", .keyword .default_),
   ("die", .keyword .die),
   ("do", .keyword .do_),
   ("double", .keyword .float),
   ("echo", .keyword .echo),
   ("elif", .keyword .elseIf),
   ("else", .keyword .else_),
   ("elseif", .keyword .elseIf),
   ("empty", .keyword .empty),
   ("enddeclare", .keyword .endDeclare),
   ("endfor", .keyword .endFor),
   ("endforeach", .keyword .endForeach),
   ("endif", .keyword .endIf),
   ("endswitch", .keyword .endSwitch),
   ("endwhile", .keyword .endWhile),
   ("eval", .keyword .eval),
   ("exit", .keyword .exit),
   ("extends", .keyword .extends_),
   ("final", .keyword .final),
   ("finally", .keyword .finally_),
   ("float", .keyword .float),
   ("for", .keyword .for_),
   ("foreach", .keyword .foreach),
   ("function", .keyword .function),
   ("global", .keyword .global),
   ("goto", .keyword .goto),
   ("if", .keyword .if_),
   ("implements", .keyword .implements),
   ("include", .keyword .include_),
   ("include_once", .keyword .includeOnce),
   ("int", .keyword .int),
   ("integer", .keyword .int),
   ("interface", .keyword .interface),
   ("isset", .keyword .isset),
   ("list", .keyword .list),
   ("namespace", .keyword .namespace_),
   ("object", .keyword .object),
   ("parent", .keyword .parent),
   ("print", .keyword .print),
   ("private", .keyword .private_),
   ("protected", .keyword .protected_),
   ("public", .keyword .public_),
   ("require", .keyword .require),
   ("require_once", .keyword .requireOnce),
   ("return", .keyword .return_),
   ("self", .keyword .self),
   ("static", .keyword .static),
   ("string", .keyword .string),
   ("switch", .keyword .switch),
   ("throw", .keyword .throw),
   ("try", .keyword .try_),
   ("unset", .keyword .unset),
   ("use", .keyword .use),
   ("var", .keyword .var),
   ("while", .keyword .while_),
   ("new", .operator .new),
   ("clone", .operator .clone),
   ("and", .operator .wordAnd),
   ("or", .operator .wordOr),
   ("xor", .operator .wordXor),
   ("instanceof", .operator .instanceOf),
   ("eq", .operator .strEq),
   ("ne", .operator .strNe)]

namespace ReservedWord

/-- The reserved words by their bytes. -/
def table : List (Bytes × ReservedWord) :=
  reservedWords.map fun entry => (ascii entry.1, entry.2)

/-- What a word stands for when it is reserved. -/
def ofBytes? (word : Bytes) : Option ReservedWord := table.lookup word

end ReservedWord

/-- The cast that a keyword between parentheses spells. -/
def Keyword.cast? : Keyword → Option Operator
  | .int => some .castInt
  | .float => some .castFloat
  | .bool => some .castBool
  | .string => some .castString
  | .array => some .castArray
  | .object => some .castObject
  | .unset => some .castUnset
  | _ => none

end TemplateScript
