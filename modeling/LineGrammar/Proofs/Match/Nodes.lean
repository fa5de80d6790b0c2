import LineGrammar.Match
import LineGrammar.Proofs.Cursor.Place

/-!
The nodes of a match tree and how the children of a node lie in it. The visit
of a tree on a stack gives each node followed by the nodes of its children, in
order. Children are ordered if each begins where the one before has ended or
later, and tile a span if nothing is left between them.
-/

namespace LineGrammar.Match

mutual

def nodes : Match → List Match
  | .leaf extent pattern groups => [.leaf extent pattern groups]
  | .composite extent origin children =>
      .composite extent origin children :: nodesList children

def nodesList : List Match → List Match
  | [] => []
  | first :: rest => first.nodes ++ nodesList rest

end

theorem nodesList_eq_flatMap (front : List Match) : nodesList front = front.flatMap nodes := by
  induction front with
  | nil => rfl
  | cons first rest induction => rw [nodesList, induction, List.flatMap_cons]

theorem nodes_eq_cons (found : Match) : found.nodes = found :: found.children.flatMap nodes := by
  rw [← nodesList_eq_flatMap]
  cases found <;> rfl

mutual

theorem length_nodes (found : Match) : found.nodes.length = found.size := by
  match found with
  | .leaf extent pattern groups => rfl
  | .composite extent origin children =>
      rw [nodes, size, List.length_cons, length_nodesList children]

theorem length_nodesList (front : List Match) : (nodesList front).length = sizeList front := by
  match front with
  | [] => rfl
  | first :: rest =>
      rw [nodesList, sizeList, List.length_append, length_nodes first, length_nodesList rest]

end

/-- What is still to be visited are the nodes of the matches on the stack, in
order, and every step visits the next one. -/
theorem walk_eq_take (steps : Nat) (stack : List Match) :
    walk steps stack = (stack.flatMap nodes).take steps := by
  induction steps generalizing stack with
  | zero => rfl
  | succ steps induction =>
      cases stack with
      | nil => rfl
      | cons found stack =>
          have rest := induction (found.children ++ stack)
          rw [walk, rest, List.flatMap_cons, nodes_eq_cons found, List.cons_append,
            List.take_succ_cons, List.flatMap_append]

theorem flatten_eq_nodes (found : Match) : found.flatten = found.nodes := by
  rw [flatten, walk_eq_take, List.flatMap_singleton, ← length_nodes, List.take_length]

theorem flatten_eq_cons (found : Match) :
    found.flatten = found :: found.children.flatMap flatten := by
  have nodes : flatten = nodes := funext flatten_eq_nodes
  rw [nodes]
  exact nodes_eq_cons found

theorem walk_singleton (steps : Nat) (found : Match) :
    walk steps [found] = found.flatten.take steps := by
  rw [walk_eq_take, List.flatMap_singleton, flatten_eq_nodes]

/-- Whether matches come one after the other from `start` to `stop`, none
beginning before the one in front of it has ended. -/
def Ordered : Position → Position → List Match → Prop
  | start, stop, [] => start ≤ stop
  | start, stop, first :: rest =>
      start ≤ first.start ∧ first.start ≤ first.stop ∧ Ordered first.stop stop rest

/-- Whether matches lie end to end from `start` to `stop`. -/
def Tiles : Position → Position → List Match → Prop
  | start, stop, [] => start = stop
  | start, stop, first :: rest => first.start = start ∧ Tiles first.stop stop rest

theorem Ordered.le {start stop : Position} {matched : List Match}
    (ordered : Ordered start stop matched) : start ≤ stop := by
  induction matched generalizing start with
  | nil => exact ordered
  | cons first rest induction =>
      rcases ordered with ⟨begins, forward, later⟩
      exact Position.le_trans begins (Position.le_trans forward (induction later))

theorem Ordered.inside {start stop : Position} {matched : List Match}
    (ordered : Ordered start stop matched) {found : Match} (member : found ∈ matched) :
    start ≤ found.start ∧ found.stop ≤ stop := by
  induction matched generalizing start with
  | nil => simp at member
  | cons first rest induction =>
      rcases ordered with ⟨begins, forward, later⟩
      rcases List.mem_cons.mp member with rfl | member
      · exact ⟨begins, later.le⟩
      · have within := induction later member
        exact ⟨Position.le_trans begins (Position.le_trans forward within.1), within.2⟩

@[simp]
theorem start_withTag (found : Match) (tag : Option String) :
    (found.withTag tag).start = found.start := by
  cases found <;> rfl

@[simp]
theorem stop_withTag (found : Match) (tag : Option String) :
    (found.withTag tag).stop = found.stop := by
  cases found <;> rfl

@[simp]
theorem text_withTag (found : Match) (tag : Option String) :
    (found.withTag tag).text = found.text := by
  cases found <;> rfl

@[simp]
theorem children_withTag (found : Match) (tag : Option String) :
    (found.withTag tag).children = found.children := by
  cases found <;> rfl

@[simp]
theorem start_withText (found : Match) (text : String) :
    (found.withText text).start = found.start := by
  cases found <;> rfl

@[simp]
theorem stop_withText (found : Match) (text : String) :
    (found.withText text).stop = found.stop := by
  cases found <;> rfl

@[simp]
theorem children_withText (found : Match) (text : String) :
    (found.withText text).children = found.children := by
  cases found <;> rfl

@[simp]
theorem text_withText (found : Match) (text : String) : (found.withText text).text = text := by
  cases found <;> rfl

end LineGrammar.Match
