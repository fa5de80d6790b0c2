import LineGrammar.Match
import LineGrammar.Scope.Value
import LineGrammar.Table

/-!
The tree of scopes that a parse opens. Nodes are numbered in the order in which
they were opened, the root being node 0. Each keeps its history: the matches
saved in it and, where they were opened, its child scopes.
-/

namespace LineGrammar

inductive Element where
  | saved (found : Match)
  | scope (id : Nat)
  deriving DecidableEq, Repr

structure Node where
  name : String
  parent : Option Nat
  depth : Nat
  history : Array Element
  bindings : Table Value
  deriving DecidableEq, Repr

namespace Node

def fresh (name : String) (parent : Option Nat) (depth : Nat) : Node :=
  ⟨name, parent, depth, #[], []⟩

def record (node : Node) (element : Element) : Node :=
  { node with history := node.history.push element }

def setVariable (node : Node) (name : String) (value : Value) : Node :=
  { node with bindings := node.bindings.set name value }

def ownMatches (node : Node) : List Match :=
  node.history.toList.filterMap fun
    | .saved found => some found
    | .scope _ => none

/-- The child scopes, in the order in which they were opened. -/
def children (node : Node) : List Nat :=
  node.history.toList.filterMap fun
    | .saved _ => none
    | .scope id => some id

end Node

structure Tree where
  nodes : Array Node
  deriving DecidableEq, Repr

namespace Tree

def root : Nat := 0

def ofRoot (name : String) : Tree := ⟨#[.fresh name none 0]⟩

variable (tree : Tree)

def size : Nat := tree.nodes.size

def node? (id : Nat) : Option Node := tree.nodes[id]?

def nameOf (id : Nat) : String :=
  match tree.node? id with
  | some node => node.name
  | none => ""

def depthOf (id : Nat) : Nat :=
  match tree.node? id with
  | some node => node.depth
  | none => 0

def parentOf (id : Nat) : Option Nat := (tree.node? id).bind Node.parent

def valueOf? (id : Nat) (name : String) : Option Value :=
  (tree.node? id).bind fun node => node.bindings.get? name

def update (id : Nat) (change : Node → Node) : Tree := ⟨tree.nodes.modify id change⟩

/-- Opens a child scope; its number is the size of the tree before. -/
def addChild (parent : Nat) (name : String) : Tree :=
  let recorded := tree.update parent fun node => node.record (.scope tree.size)
  ⟨recorded.nodes.push (.fresh name (some parent) (tree.depthOf parent + 1))⟩

def save (id : Nat) (found : Match) : Tree := tree.update id fun node => node.record (.saved found)

def rename (id : Nat) (name : String) : Tree :=
  tree.update id fun node => { node with name := name }

def setVariable (id : Nat) (name : String) (value : Value) : Tree :=
  tree.update id fun node => node.setVariable name value

def ancestor? (id : Nat) : Nat → Option Nat
  | 0 => some id
  | level + 1 =>
      match tree.parentOf id with
      | some parent => ancestor? parent level
      | none => none

def pathUp : Nat → Nat → List String
  | 0, _ => []
  | limit + 1, id =>
      match tree.node? id with
      | none => []
      | some node =>
          node.name :: match node.parent with
            | some parent => pathUp limit parent
            | none => []

def trace (id : Nat) : List String := (tree.pathUp tree.size id).reverse

def named (name : String) : List Nat :=
  (List.range tree.size).filter fun id => (tree.node? id).any fun node => node.name == name

/-- Goes over histories, of which a stack holds what is still to come, and goes
into a child scope where its entry stands. -/
def walk : Nat → List (List Element) → List Match
  | 0, _ => []
  | _ + 1, [] => []
  | steps + 1, [] :: stack => walk steps stack
  | steps + 1, (.saved found :: rest) :: stack => found :: walk steps (rest :: stack)
  | steps + 1, (.scope id :: rest) :: stack =>
      match tree.node? id with
      | some node => walk steps (node.history.toList :: rest :: stack)
      | none => walk steps (rest :: stack)

def walkLength : Nat :=
  tree.nodes.toList.foldr (fun node length => node.history.size + 1 + length) 0

/-- The matches saved in a node and below it, child scopes in their places. -/
def matchesOf (id : Nat) : List Match :=
  match tree.node? id with
  | some node => tree.walk tree.walkLength [node.history.toList]
  | none => []

def tagged (tag : String) : List Match :=
  ((tree.matchesOf root).flatMap Match.flatten).filter (·.tag == some tag)

def indented (indent : Nat) (line : String) : String :=
  String.ofList (List.replicate (2 * indent) ' ') ++ line ++ "\n"

def renderNode : Nat → Nat → Nat → String
  | 0, _, _ => ""
  | limit + 1, id, indent =>
      match tree.node? id with
      | none => ""
      | some node =>
          node.history.foldl
            (fun lines element =>
              lines ++ match element with
                | .saved found => indented (indent + 1) found.render
                | .scope child => renderNode limit child (indent + 1))
            (indented indent ("[" ++ node.name ++ "]"))

def render : String := tree.renderNode tree.size root 0

end Tree

end LineGrammar
