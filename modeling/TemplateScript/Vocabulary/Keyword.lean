/-!
# Keywords

The reserved words of the script language that are not operators.  Different spellings may share a
keyword: `elseif` and `elif` are both `Keyword.elseIf`.  A constructor whose plain name is reserved
in Lean ends in an underscore.
-/

namespace TemplateScript

/-- A reserved word that is not an operator. -/
inductive Keyword
  | abstract | array | as_ | bool | break_ | callable | case_ | catch_ | class_ | const
  | continue_ | declare | default_ | die | do_ | echo | elseIf | else_ | empty | endDeclare
  | endFor | endForeach | endIf | endSwitch | endWhile | eval | exit | extends_ | final
  | finally_ | float | for_ | foreach | function | global | goto | if_ | implements | include_
  | includeOnce | int | interface | isset | list | namespace_ | object | parent | print
  | private_ | protected_ | public_ | require | requireOnce | return_ | self | static | string
  | switch | throw | try_ | unset | use | var | while_
deriving DecidableEq, Repr

namespace Keyword

/-- The name a listing shows for the keyword. -/
def name : Keyword → String
  | .abstract => "Abstract"
  | .array => "Array"
  | .as_ => "As"
  | .bool => "Bool"
  | .break_ => "Break"
  | .callable => "Callable"
  | .case_ => "Case"
  | .catch_ => "Catch"
  | .class_ => "Class"
  | .const => "Const"
  | .continue_ => "Continue"
  | .declare => "Declare"
  | .default_ => "Default"
  | .die => "Die"
  | .do_ => "Do"
  | .echo => "Echo"
  | .elseIf => "ElseIf"
  | .else_ => "Else"
  | .empty => "Empty"
  | .endDeclare => "EndDeclare"
  | .endFor => "EndFor"
  | .endForeach => "EndForeach"
  | .endIf => "EndIf"
  | .endSwitch => "EndSwitch"
  | .endWhile => "EndWhile"
  | .eval => "Eval"
  | .exit => "Exit"
  | .extends_ => "Extends"
  | .final => "Final"
  | .finally_ => "Finally"
  | .float => "Float"
  | .for_ => "For"
  | .foreach => "Foreach"
  | .function => "Function"
  | .global => "Global"
  | .goto => "Goto"
  | .if_ => "If"
  | .implements => "Implements"
  | .include_ => "Include"
  | .includeOnce => "IncludeOnce"
  | .int => "Int"
  | .interface => "Interface"
  | .isset => "Isset"
  | .list => "List"
  | .namespace_ => "Namespace"
  | .object => "Object"
  | .parent => "Parent"
  | .print => "Print"
  | .private_ => "Private"
  | .protected_ => "Protected"
  | .public_ => "Public"
  | .require => "Require"
  | .requireOnce => "RequireOnce"
  | .return_ => "Return"
  | .self => "SelfKw"
  | .static => "Static"
  | .string => "String"
  | .switch => "Switch"
  | .throw => "Throw"
  | .try_ => "Try"
  | .unset => "Unset"
  | .use => "Use"
  | .var => "Var"
  | .while_ => "While"

end Keyword

end TemplateScript
