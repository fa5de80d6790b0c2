import LineGrammar.Scope.Event
import LineGrammar.Session.Context

/-!
A parse in progress: the cursor, the context, and what has been made known and
noted so far. The operations on scopes and variables each check everything
before they change anything; a failed one leaves the session as it was. Going on
to a next scope is two of them, one after the other.
-/

namespace LineGrammar

structure Session where
  cursor : Cursor
  context : Context
  events : Array Event
  notes : Array Note

/-- A step of a parse. It leaves a session behind also when it fails. -/
abbrev Action := EStateM Error Session

namespace Session

def begin (setting : Setting) (cursor : Cursor) : Session :=
  { cursor := cursor, context := .initial setting, events := #[], notes := #[] }

def note (session : Session) (note : Note) : Session :=
  { session with notes := session.notes.push note }

def publish (session : Session) (event : Event) : Session :=
  { session with events := session.events.push event }

def mapContext (session : Session) (change : Context → Context) : Session :=
  { session with context := change session.context }

def mapTree (session : Session) (change : Tree → Tree) : Session :=
  session.mapContext fun context => { context with tree := change context.tree }

def refuse (cause : ScopeFault) : Action Unit := fun session =>
  .error (session.context.fault cause) session

/-- Records a match in the current scope. A match equal to the one saved last
is not recorded again. -/
def save (found : Match) : Action Unit := fun session =>
  if session.context.lastSave = some found then .ok () session
  else
    let scope := session.context.scopeName
    let current := session.context.current
    let session := session.note (.saved found scope)
    let session := session.mapContext fun context =>
      { context with lastSave := some found, tree := context.tree.save current found }
    .ok () (session.publish (.saved scope found))

def openScope (scope : String) : Action Unit := fun session =>
  if session.context.knows scope then
    let session := session.mapContext fun context =>
      { context with
        tree := context.tree.addChild context.current scope
        current := context.tree.size }
    let depth := session.context.depth
    .ok () ((session.note (.opened scope depth)).publish (.opened scope depth))
  else refuse (.openUnknown scope) session

/-- Closes the current scope. The root stays open. -/
def closeOne (session : Session) : Session :=
  let scope := session.context.scopeName
  let depth := session.context.depth
  ((session.note (.closed scope depth)).publish (.closed scope depth)).mapContext fun context =>
    { context with current := (context.tree.parentOf context.current).getD context.current }

def closeTimes : Nat → Session → Session
  | 0, session => session
  | count + 1, session => closeTimes count session.closeOne

def closeScopes (count : Nat) : Action Unit := fun session =>
  let depth := session.context.depth
  if depth < count then refuse (.closeTooMany count depth) session
  else .ok () (session.closeTimes count)

/-- Renames the current scope, which then follows the rules of its new name. -/
def swapScope (scope : String) : Action Unit := fun session =>
  if session.context.depth = 0 then refuse .swapRoot session
  else if session.context.knows scope then
    let old := session.context.scopeName
    let current := session.context.current
    let session := (session.note (.swapped old scope)).publish (.swapped old scope)
    .ok () (session.mapTree fun tree => tree.rename current scope)
  else refuse (.swapUnknown scope) session

def nextScope (scope : String) (count : Nat) : Action Unit := do
  closeScopes count
  openScope scope

/-- Changes a variable of the scope so many levels up to what `change` makes of
its value. -/
def changeVariable (name : String) (level : Nat)
    (change : Option Value → Except ScopeFault Value) : Action Unit := fun session =>
  match session.context.tree.ancestor? session.context.current level with
  | none => refuse (.noAncestor level session.context.depth) session
  | some id =>
      match change (session.context.tree.valueOf? id name) with
      | .error cause => refuse cause session
      | .ok value => .ok () (session.mapTree fun tree => tree.setVariable id name value)

def define (name : String) (value : Value) (level : Nat) : Action Unit :=
  changeVariable name level fun _ => .ok value

/-- Adds to an integer variable; a missing one counts as 0. -/
def add (name : String) (amount : Int) (level : Nat) : Action Unit :=
  changeVariable name level fun
    | none => .ok (.int amount)
    | some (.int number) => .ok (.int (number + amount))
    | some other => .error (.notInteger name other)

def append (name : String) (value : Value) (level : Nat) : Action Unit :=
  changeVariable name level fun
    | none => .ok (.list [value])
    | some (.list items) => .ok (.list (items ++ [value]))
    | some other => .error (.notList name other)

def setStrict (scope : String) (strict : Bool) : Action Unit := fun session =>
  if session.context.knows scope then
    .ok () (session.mapContext fun context =>
      { context with overrides := context.overrides.set scope strict })
  else refuse (.unknown scope) session

def abandon {Result : Type} (complaint : Complaint) : Action Result := fun session =>
  let diagnostic := session.context.diagnose session.cursor complaint
  .error (.fatal diagnostic) (session.note (.abandoned diagnostic))

def move (movement : Movement) : Action Unit := fun session =>
  .ok () { session with cursor := movement.apply session.cursor }

end Session

end LineGrammar
