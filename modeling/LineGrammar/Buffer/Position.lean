/-!
Positions in a text of several lines: a line index and a column that counts
bytes from the start of the line. Positions are ordered first by line.
-/

namespace LineGrammar

structure Position where
  line : Nat
  column : Nat
  deriving DecidableEq, Repr

namespace Position

def origin : Position := ⟨0, 0⟩

instance : LE Position where
  le left right := left.line < right.line ∨ left.line = right.line ∧ left.column ≤ right.column

instance : LT Position where
  lt left right := left.line < right.line ∨ left.line = right.line ∧ left.column < right.column

instance (left right : Position) : Decidable (left ≤ right) :=
  inferInstanceAs (Decidable (_ ∨ _ ∧ _))

instance (left right : Position) : Decidable (left < right) :=
  inferInstanceAs (Decidable (_ ∨ _ ∧ _))

def order (left right : Position) : Ordering :=
  (compare left.line right.line).then (compare left.column right.column)

def render (position : Position) : String :=
  "(" ++ toString position.line ++ "," ++ toString position.column ++ ")"

def describe (position : Position) : String :=
  "Position \x7b line: " ++ toString position.line ++ ", col: " ++ toString position.column ++
    " \x7d"

end Position

end LineGrammar
