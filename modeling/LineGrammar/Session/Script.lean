import LineGrammar.Session.Basic

/-!
What a rule may do to a session once it has matched: single operations, and
scripts in which a host program looks at the cursor and the context and decides
on the next operation, or has other lines parsed. A script does not try the rules
of a scope itself. For the cursor and the tree, a match that a host makes within a
match amounts to the operations of the rule that wins; the event and the notes that
tell of such an inner match have no counterpart here.
-/

namespace LineGrammar

inductive Operation where
  | save (found : Match)
  | openScope (scope : String)
  | closeScopes (count : Nat)
  | swapScope (scope : String)
  | nextScope (scope : String) (count : Nat)
  | define (name : String) (value : Value) (level : Nat)
  | add (name : String) (amount : Int) (level : Nat)
  | append (name : String) (value : Value) (level : Nat)
  | setStrict (scope : String) (strict : Bool)
  | move (movement : Movement)
  | abandon (message : String)
  deriving DecidableEq, Repr

def Operation.run : Operation → Action Unit
  | .save found => Session.save found
  | .openScope scope => Session.openScope scope
  | .closeScopes count => Session.closeScopes count
  | .swapScope scope => Session.swapScope scope
  | .nextScope scope count => Session.nextScope scope count
  | .define name value level => Session.define name value level
  | .add name amount level => Session.add name amount level
  | .append name value level => Session.append name value level
  | .setStrict scope strict => Session.setStrict scope strict
  | .move movement => Session.move movement
  | .abandon message => Session.abandon (.stated message)

inductive Script where
  | done
  | fail (error : Error)
  | look (next : Cursor → Context → Script)
  | perform (operation : Operation) (next : Except Error Unit → Script)
  /-- parses other lines in the same setting and goes on with the result -/
  | parse (lines : List String) (next : Except Error Tree → Script)

namespace Script

def run : Script → Action Unit
  | .done => fun session => .ok () session
  | .fail error => fun session => .error error session
  | .look next => fun session => run (next session.cursor session.context) session
  | .perform operation next => fun session =>
      match operation.run session with
      | .ok () session => run (next (.ok ())) session
      | .error error session => run (next (.error error)) session
  | .parse lines next => fun session =>
      let nested := session.context.setting.nested lines
      run (next nested.result) { session with notes := session.notes ++ nested.notes }

/-- Performs an operation; an error ends the script. -/
def act (operation : Operation) (next : Script) : Script :=
  .perform operation fun
    | .ok () => next
    | .error error => .fail error

def actAll (operations : List Operation) (next : Script) : Script :=
  operations.foldr act next

def parseThen (lines : List String) (next : Tree → Script) : Script :=
  .parse lines fun
    | .ok tree => next tree
    | .error error => .fail error

end Script

end LineGrammar
