import LineGrammar.Proofs.Scope.Arena

/-!
Trees of scopes of which part is left out. Leaving out the variables of all
nodes, or the matches saved in them, keeps the nodes and how they hang together.
So paths and names are read off the rest as before, and changes that do not
depend on what is left out can be made to the rest.
-/

namespace LineGrammar

/-- Whether a change of nodes leaves something out, but neither of their place
in the tree nor of their children. -/
structure Node.Erasure (erase : Node → Node) : Prop where
  name : ∀ node, (erase node).name = node.name
  parent : ∀ node, (erase node).parent = node.parent
  depth : ∀ node, (erase node).depth = node.depth
  fresh : ∀ name parent depth, erase (.fresh name parent depth) = .fresh name parent depth
  rename : ∀ node name, erase { node with name := name } = { erase node with name := name }
  child : ∀ node id, erase (node.record (.scope id)) = (erase node).record (.scope id)

namespace Tree

def mapNodes (tree : Tree) (change : Node → Node) : Tree := ⟨tree.nodes.map change⟩

theorem ext_node? {first second : Tree} (same : ∀ id, first.node? id = second.node? id) :
    first = second := by
  cases first
  cases second
  exact congrArg Tree.mk (Array.ext_getElem? same)

variable (tree : Tree) {erase change : Node → Node}

@[simp]
theorem size_mapNodes : (tree.mapNodes erase).size = tree.size := by
  simp [mapNodes, size]

theorem node?_mapNodes (id : Nat) :
    (tree.mapNodes erase).node? id = (tree.node? id).map erase := by
  simp [mapNodes, node?]

theorem view_mapNodes {View : Type} {view : Node → View}
    (blind : ∀ node, view (erase node) = view node) (id : Nat) :
    ((tree.mapNodes erase).node? id).map view = (tree.node? id).map view := by
  rw [node?_mapNodes]
  cases tree.node? id with
  | none => rfl
  | some node => exact congrArg some (blind node)

theorem mapNodes_update (blind : ∀ node, erase (change node) = change (erase node)) (id : Nat) :
    (tree.update id change).mapNodes erase = (tree.mapNodes erase).update id change := by
  apply ext_node?
  intro other
  rw [node?_mapNodes, node?_update, node?_update, node?_mapNodes]
  split
  · cases tree.node? other with
    | none => rfl
    | some node => exact congrArg some (blind node)
  · rfl

theorem mapNodes_update_of_erased (erased : ∀ node, erase (change node) = erase node) (id : Nat) :
    (tree.update id change).mapNodes erase = tree.mapNodes erase := by
  apply ext_node?
  intro other
  rw [node?_mapNodes, node?_mapNodes, view_update erased]

end Tree

namespace Node.Erasure

variable {erase : Node → Node} (erasure : Node.Erasure erase) (tree : Tree)

include erasure

theorem nameOf (id : Nat) : (tree.mapNodes erase).nameOf id = tree.nameOf id := by
  rw [Tree.nameOf_eq, Tree.nameOf_eq, tree.view_mapNodes erasure.name]

theorem depthOf (id : Nat) : (tree.mapNodes erase).depthOf id = tree.depthOf id := by
  rw [Tree.depthOf_eq, Tree.depthOf_eq, tree.view_mapNodes erasure.depth]

theorem parentOf (id : Nat) : (tree.mapNodes erase).parentOf id = tree.parentOf id := by
  rw [Tree.parentOf_eq, Tree.parentOf_eq, tree.view_mapNodes erasure.parent]

theorem ancestor? (id level : Nat) :
    (tree.mapNodes erase).ancestor? id level = tree.ancestor? id level := by
  induction level generalizing id with
  | zero => rfl
  | succ level induction =>
      simp only [Tree.ancestor?, erasure.parentOf tree]
      cases tree.parentOf id with
      | none => rfl
      | some parent => exact induction parent

theorem pathUp (limit id : Nat) : (tree.mapNodes erase).pathUp limit id = tree.pathUp limit id := by
  induction limit generalizing id with
  | zero => rfl
  | succ limit induction =>
      simp only [Tree.pathUp, Tree.node?_mapNodes]
      cases tree.node? id with
      | none => rfl
      | some node =>
          simp only [Option.map_some, erasure.name, erasure.parent]
          cases node.parent with
          | none => rfl
          | some parent => exact congrArg (node.name :: ·) (induction parent)

theorem trace (id : Nat) : (tree.mapNodes erase).trace id = tree.trace id := by
  unfold Tree.trace
  rw [Tree.size_mapNodes, erasure.pathUp]

theorem ofRoot (name : String) : (Tree.ofRoot name).mapNodes erase = Tree.ofRoot name := by
  simp [Tree.mapNodes, Tree.ofRoot, erasure.fresh]

theorem renamed (id : Nat) (name : String) :
    (tree.rename id name).mapNodes erase = (tree.mapNodes erase).rename id name := by
  apply Tree.mapNodes_update
  intro node
  exact erasure.rename node name

theorem addChild (parent : Nat) (name : String) :
    (tree.addChild parent name).mapNodes erase = (tree.mapNodes erase).addChild parent name := by
  have recorded : (tree.update parent fun node => node.record (.scope tree.size)).mapNodes erase =
      (tree.mapNodes erase).update parent fun node =>
        node.record (.scope (tree.mapNodes erase).size) := by
    rw [Tree.size_mapNodes]
    apply Tree.mapNodes_update
    intro node
    exact erasure.child node tree.size
  apply congrArg Tree.mk
  rw [Tree.addChild, Array.map_push, erasure.fresh, erasure.depthOf tree]
  exact congrArg (fun tree : Tree => tree.nodes.push (.fresh name (some parent) _)) recorded

end Node.Erasure

/-! Without the matches that were saved. -/

def Element.isScope : Element → Bool
  | .scope _ => true
  | .saved _ => false

def Node.unsaved (node : Node) : Node :=
  { node with history := node.history.filter Element.isScope }

theorem Node.erasure_unsaved : Node.Erasure Node.unsaved where
  name _ := rfl
  parent _ := rfl
  depth _ := rfl
  fresh _ _ _ := rfl
  rename _ _ := rfl
  child node id := by
    have kept : Element.isScope (.scope id) = true := rfl
    simp [unsaved, record, Array.filter_push_of_pos kept]

namespace Tree

/-- The tree without the matches saved in it: the scopes with their names, their
places, their variables and the order of their children. -/
def unsaved (tree : Tree) : Tree := tree.mapNodes Node.unsaved

variable (tree : Tree)

theorem unsaved_save (id : Nat) (found : Match) : (tree.save id found).unsaved = tree.unsaved := by
  apply mapNodes_update_of_erased
  intro node
  simp [Node.unsaved, Node.record, Element.isScope]

theorem unsaved_setVariable (id : Nat) (name : String) (value : Value) :
    (tree.setVariable id name value).unsaved = tree.unsaved.setVariable id name value := by
  apply mapNodes_update
  intro node
  rfl

theorem valueOf?_unsaved (id : Nat) (name : String) :
    tree.unsaved.valueOf? id name = tree.valueOf? id name := by
  unfold valueOf? unsaved
  rw [node?_mapNodes]
  cases tree.node? id with
  | none => rfl
  | some node => rfl

end Tree

end LineGrammar
