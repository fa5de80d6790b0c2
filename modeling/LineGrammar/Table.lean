/-!
Tables from names to values, kept in the order in which the names came.
-/

namespace LineGrammar

abbrev Table (Value : Type) := List (String × Value)

namespace Table

variable {Value : Type}

def get? (table : Table Value) (name : String) : Option Value := List.lookup name table

def has (table : Table Value) (name : String) : Bool := (table.get? name).isSome

def set (name : String) (value : Value) : Table Value → Table Value
  | [] => [(name, value)]
  | (other, old) :: rest =>
      if other = name then (name, value) :: rest else (other, old) :: set name value rest

def names (table : Table Value) : List String := table.map Prod.fst

end Table

end LineGrammar
