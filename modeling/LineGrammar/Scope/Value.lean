import LineGrammar.Text.Quoted

/-!
Values of scope variables. Numbers have no bounds, so adding to a variable never
overflows.
-/

namespace LineGrammar

inductive Value where
  | int (number : Int)
  | text (content : String)
  | list (items : List Value)
  deriving Repr

namespace Value

mutual

def decEq : (left right : Value) → Decidable (left = right)
  | .int number, .int number' => decidable_of_iff (number = number') (by simp)
  | .text content, .text content' => decidable_of_iff (content = content') (by simp)
  | .list items, .list items' =>
      match decEqList items items' with
      | isTrue same => isTrue (by simp [same])
      | isFalse different => isFalse (by simp [different])
  | .int _, .text _ | .int _, .list _ => isFalse (by simp)
  | .text _, .int _ | .text _, .list _ => isFalse (by simp)
  | .list _, .int _ | .list _, .text _ => isFalse (by simp)

def decEqList : (left right : List Value) → Decidable (left = right)
  | [], [] => isTrue rfl
  | [], _ :: _ => isFalse (by simp)
  | _ :: _, [] => isFalse (by simp)
  | first :: rest, first' :: rest' =>
      match decEq first first', decEqList rest rest' with
      | isTrue sameFirst, isTrue sameRest => isTrue (by simp [sameFirst, sameRest])
      | isFalse different, _ => isFalse (by simp [different])
      | _, isFalse different => isFalse (by simp [different])

end

instance : DecidableEq Value := decEq

def int? : Value → Option Int
  | .int number => some number
  | _ => none

def text? : Value → Option String
  | .text content => some content
  | _ => none

def list? : Value → Option (List Value)
  | .list items => some items
  | _ => none

mutual

def render : Value → String
  | .int number => toString number
  | .text content => content
  | .list items => Text.bracketed (renderList items)

def renderList : List Value → List String
  | [] => []
  | first :: rest => first.render :: renderList rest

end

mutual

def describe : Value → String
  | .int number => "Int(" ++ toString number ++ ")"
  | .text content => "Text(" ++ Text.quote content ++ ")"
  | .list items => "List(" ++ Text.bracketed (describeList items) ++ ")"

def describeList : List Value → List String
  | [] => []
  | first :: rest => first.describe :: describeList rest

end

end Value

end LineGrammar
