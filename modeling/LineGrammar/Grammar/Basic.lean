import LineGrammar.Grammar.Rule

/-!
Grammars: scopes with their rules.
-/

namespace LineGrammar

/-- A named list of rules. In a strict scope some rule has to match. -/
structure Scope where
  name : String
  rules : List Rule
  strict : Bool

structure Grammar where
  scopes : List Scope

namespace Grammar

variable (grammar : Grammar)

def scope? (name : String) : Option Scope := grammar.scopes.find? (·.name == name)

def contains (name : String) : Bool := (grammar.scope? name).isSome

def size : Nat := grammar.scopes.length

def strictness : Table Bool := grammar.scopes.map fun scope => (scope.name, scope.strict)

end Grammar

end LineGrammar
