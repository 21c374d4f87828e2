import TemplateScript.Token.Basic

/-!
# Edits of a token list

A cast such as `(int)` is only recognised at its closing parenthesis, when `(` and the type keyword
have already been handed out.  The lexer therefore answers with edits of the list its caller keeps.
`Edit.toList_apply` says what an edit does to the list.
-/

namespace TemplateScript

/-- One change of a token list: push a token, or drop the last `count` tokens and push one. -/
inductive Edit
  | emit (token : Token)
  | replaceLast (count : Nat) (token : Token)
deriving DecidableEq, Repr

namespace Edit

/-- The token that the edit pushes. -/
def token : Edit → Token
  | emit token => token
  | replaceLast _ token => token

/-- How many tokens the edit drops from the end. -/
def dropped : Edit → Nat
  | emit _ => 0
  | replaceLast count _ => count

/-- The token list after the edit. -/
def apply (edit : Edit) (tokens : Array Token) : Array Token :=
  match edit with
  | emit token => tokens.push token
  | replaceLast count token => (tokens.take (tokens.size - count)).push token

/-- An emitted token drops none. -/
theorem take_dropped_emit (token : Token) (tokens : Array Token) :
    tokens.toList.take (tokens.size - (emit token).dropped) = tokens.toList :=
  List.take_of_length_le (Nat.le_of_eq Array.length_toList)

theorem toList_apply (edit : Edit) (tokens : Array Token) :
    (edit.apply tokens).toList =
      tokens.toList.take (tokens.size - edit.dropped) ++ [edit.token] := by
  cases edit with
  | emit token =>
    show (tokens.push token).toList = _
    rw [Array.toList_push, take_dropped_emit]
    rfl
  | replaceLast count token => simp [apply, dropped, Edit.token]

theorem size_apply (edit : Edit) (tokens : Array Token) :
    (edit.apply tokens).size = tokens.size - edit.dropped + 1 := by
  rw [← Array.length_toList, toList_apply, List.length_append, List.length_take,
    Array.length_toList, Nat.min_eq_left (Nat.sub_le _ _)]
  rfl

end Edit

end TemplateScript
