/-!
The words of the instructions in grammar descriptions. Most instructions have
several names; messages show the longest one, of equally long ones the last.
-/

namespace LineGrammar

inductive Mnemonic where
  | error
  | replace
  | increment
  | decrement
  | define
  | append
  | tag
  | pre
  | post
  | proc
  | call
  | save
  | strict
  | relax
  | open
  | close
  | swap
  | next
  | advance
  | reverse
  | goto
  deriving DecidableEq, Repr

namespace Mnemonic

def all : List Mnemonic :=
  [.error, .replace, .increment, .decrement, .define, .append, .tag, .pre, .post, .proc, .call,
    .save, .strict, .relax, .open, .close, .swap, .next, .advance, .reverse, .goto]

/-- The names of an instruction, the proper one first. -/
def names : Mnemonic → List String
  | .error => ["error", "raise", "err"]
  | .replace => ["replace", "rep", "sub"]
  | .increment => ["increment", "inc"]
  | .decrement => ["decrement", "dec"]
  | .define => ["define", "def", "let"]
  | .append => ["append"]
  | .tag => ["tag", "label"]
  | .pre => ["pre", "check", "chk"]
  | .post => ["post", "validate", "valid"]
  | .proc => ["proc", "apply", "do"]
  | .call => ["call", "cb"]
  | .save => ["save"]
  | .strict => ["strict"]
  | .relax => ["relax"]
  | .open => ["open", "push"]
  | .close => ["close", "pop"]
  | .swap => ["swap", "swp"]
  | .next => ["next", "nxt"]
  | .advance => ["advance", "adv"]
  | .reverse => ["reverse", "rev"]
  | .goto => ["goto"]

def ofName? (name : String) : Option Mnemonic :=
  all.find? (·.names.contains name)

/-- The name shown in messages. -/
def render (mnemonic : Mnemonic) : String :=
  mnemonic.names.foldl (fun best name => if best.length ≤ name.length then name else best) ""

def describe (mnemonic : Mnemonic) : String :=
  match mnemonic.names with
  | [] => ""
  | name :: _ => name.capitalize

end Mnemonic

end LineGrammar
