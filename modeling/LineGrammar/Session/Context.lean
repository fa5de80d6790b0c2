import LineGrammar.Note
import LineGrammar.Scope.Tree

/-!
The state of the scopes during a parse: the scope tree, the current scope in
it, the scopes that were made strict or relaxed, and the last saved match. The
setting of the parse, which stays the same, is kept with it.
-/

namespace LineGrammar

structure Nested where
  result : Except Error Tree
  notes : Array Note

structure Setting where
  /-- the scopes of the grammar and whether each is strict -/
  scopes : Table Bool
  config : Config
  /-- parses other lines with the same grammar and configuration -/
  nested : List String → Nested

structure Context where
  setting : Setting
  tree : Tree
  current : Nat
  /-- strictness set during the parse -/
  overrides : Table Bool
  lastSave : Option Match

namespace Context

def mainScope : String := "main"

def initial (setting : Setting) : Context :=
  { setting := setting
    tree := .ofRoot mainScope
    current := Tree.root
    overrides := []
    lastSave := none }

variable (context : Context)

def knows (scope : String) : Bool := context.setting.scopes.has scope

def scopeName : String := context.tree.nameOf context.current

def depth : Nat := context.tree.depthOf context.current

def trace : List String := context.tree.trace context.current

def valueOf? (name : String) (level : Nat) : Option Value :=
  (context.tree.ancestor? context.current level).bind fun id => context.tree.valueOf? id name

/-- Whether a scope is strict, as set during the parse or else by the grammar. -/
def isStrict (scope : String) : Bool :=
  match context.overrides.get? scope with
  | some strict => strict
  | none => (context.setting.scopes.get? scope).getD false

def fault (cause : ScopeFault) : Error := .scope cause context.trace

/-- How much of a line diagnostics show on either side. -/
def excerptWidth : Nat := 60

def diagnose (cursor : Cursor) (complaint : Complaint) : Diagnostic :=
  { complaint := complaint
    position := cursor.position
    excerpt := cursor.excerpt excerptWidth
    trace := context.trace }

end Context

end LineGrammar
