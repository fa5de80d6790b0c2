import LineGrammar.Expr.Basic

/-!
Joining expressions two at a time. Where the left one is already an unnamed
combination of the same kind it is widened by the right one, so that a chain of
joins gives one flat combination.
-/

namespace LineGrammar.Expr

def or (left right : Expr) : Expr :=
  match left with
  | .set none items bounds =>
      if bounds.min = 1 ∧ bounds.max = none then .set none (items ++ [right]) bounds
      else any [left, right]
  | _ => any [left, right]

def and (left right : Expr) : Expr :=
  match left with
  | .set none items bounds =>
      if bounds.max = none ∧ bounds.min = items.length then
        .set none (items ++ [right]) { bounds with min := bounds.min + 1 }
      else all [left, right]
  | _ => all [left, right]

def xor (left right : Expr) : Expr :=
  match left with
  | .set none items bounds =>
      if bounds.max = some 1 ∧ bounds.min = 1 then .set none (items ++ [right]) bounds
      else oneOf [left, right]
  | _ => oneOf [left, right]

def followedBy (left right : Expr) : Expr :=
  match left with
  | .sequence none items skips =>
      if skips.isPlain then .sequence none (items ++ [right]) skips else seq [left, right]
  | _ => seq [left, right]

end LineGrammar.Expr
