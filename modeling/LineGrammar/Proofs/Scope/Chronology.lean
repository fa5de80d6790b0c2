import LineGrammar.Scope.Tree
import Mathlib.Data.List.Nodup

/-!
Reading a tree of scopes in the order of time. Matches are saved in the current
scope only, and a scope that was closed is never opened again. So the open
scopes form a path that always takes the last entry of a history, whatever is
added is added at the end of the whole tree, and going over the tree gives back
the matches in the order in which they were saved.
-/

namespace LineGrammar.Tree

variable (tree : Tree)

def historyOf (id : Nat) : List Element :=
  match tree.node? id with
  | some node => node.history.toList
  | none => []

section Updates

variable {tree}

@[simp]
theorem size_update (id : Nat) (change : Node → Node) : (tree.update id change).size = tree.size := by
  simp [update, size]

@[simp]
theorem size_addChild (parent : Nat) (name : String) :
    (tree.addChild parent name).size = tree.size + 1 := by
  simp [addChild, update, size]

theorem node?_update (id other : Nat) (change : Node → Node) :
    (tree.update id change).node? other =
      if id = other then (tree.node? other).map change else tree.node? other := by
  simp only [update, node?, Array.getElem?_modify]

theorem node?_addChild_of_lt {parent other : Nat} (name : String) (old : other < tree.size) :
    (tree.addChild parent name).node? other =
      (tree.update parent fun node => node.record (.scope tree.size)).node? other := by
  have bound : other < (tree.update parent fun node => node.record (.scope tree.size)).nodes.size := by
    simpa [size, update] using old
  simp only [addChild, node?, Array.getElem?_push_lt bound]
  exact (Array.getElem?_eq_getElem bound).symm

theorem node?_addChild_size (parent : Nat) (name : String) :
    (tree.addChild parent name).node? tree.size =
      some (.fresh name (some parent) (tree.depthOf parent + 1)) := by
  have last : tree.size = (tree.update parent fun node =>
      node.record (.scope tree.size)).nodes.size := by
    simp [size, update]
  simp only [addChild, node?]
  rw [Array.getElem?_push, if_pos last]

theorem lt_size_of_parentOf {id parent : Nat} (above : tree.parentOf id = some parent) :
    id < tree.size := by
  rcases Option.bind_eq_some_iff.mp above with ⟨node, found, _⟩
  exact (Array.getElem?_eq_some_iff.mp found).1

theorem exists_node {id : Nat} (exist : id < tree.size) : ∃ node, tree.node? id = some node :=
  ⟨_, Array.getElem?_eq_getElem exist⟩

theorem parentOf_update {change : Node → Node}
    (keeps : ∀ node, (change node).parent = node.parent) (id other : Nat) :
    (tree.update id change).parentOf other = tree.parentOf other := by
  simp only [parentOf, node?_update]
  split
  · cases tree.node? other with
    | none => rfl
    | some node => exact keeps node
  · rfl

end Updates

section Histories

variable {tree}

theorem historyOf_of_node {id : Nat} {node : Node} (found : tree.node? id = some node) :
    tree.historyOf id = node.history.toList := by
  rw [historyOf, found]

theorem historyOf_update_of_ne {id other : Nat} (change : Node → Node) (different : id ≠ other) :
    (tree.update id change).historyOf other = tree.historyOf other := by
  simp only [historyOf, node?_update, if_neg different]

theorem historyOf_update_of_history {change : Node → Node}
    (keeps : ∀ node, (change node).history = node.history) (id other : Nat) :
    (tree.update id change).historyOf other = tree.historyOf other := by
  by_cases same : id = other
  · simp only [historyOf, node?_update, if_pos same]
    cases tree.node? other with
    | none => rfl
    | some node => exact congrArg Array.toList (keeps node)
  · exact historyOf_update_of_ne change same

theorem historyOf_record {id : Nat} (exist : id < tree.size) (element : Element) :
    (tree.update id fun node => node.record element).historyOf id =
      tree.historyOf id ++ [element] := by
  rcases exists_node exist with ⟨node, found⟩
  simp only [historyOf, node?_update, if_pos, found, Option.map_some, Node.record,
    Array.toList_push]

end Histories

/-- What a history says when every child scope is read in its place: the child
scopes that are visited, in order, and the matches. -/
inductive Spells : List Element → List Nat → List Match → Prop
  | nil : Spells [] [] []
  | saved {rest : List Element} {ids : List Nat} {matched : List Match} (found : Match)
      (later : Spells rest ids matched) : Spells (.saved found :: rest) ids (found :: matched)
  | scope {rest : List Element} {inner ids : List Nat} {within matched : List Match} (id : Nat)
      (below : Spells (tree.historyOf id) inner within) (later : Spells rest ids matched) :
      Spells (.scope id :: rest) (id :: (inner ++ ids)) (within ++ matched)

/-- So many turns of a walk over histories on a stack, the matches that they reach
and the stack that they leave. Only scopes that exist are gone into. A walk ends
when nothing is left on the stack. -/
inductive Runs : Nat → List (List Element) → List Match → List (List Element) → Prop
  | stop (stack : List (List Element)) : Runs 0 stack [] stack
  | back {turns : Nat} {stack left : List (List Element)} {matched : List Match}
      (later : Runs turns stack matched left) : Runs (turns + 1) ([] :: stack) matched left
  | saved {turns : Nat} {rest : List Element} {stack left : List (List Element)}
      {matched : List Match} (found : Match) (later : Runs turns (rest :: stack) matched left) :
      Runs (turns + 1) ((.saved found :: rest) :: stack) (found :: matched) left
  | scope {turns id : Nat} {rest : List Element} {stack left : List (List Element)}
      {matched : List Match} (exist : id < tree.size)
      (later : Runs turns (tree.historyOf id :: rest :: stack) matched left) :
      Runs (turns + 1) ((.scope id :: rest) :: stack) matched left

/-- The way from a scope down to an open one: it always takes the last entry of
the history, and the way back is by the parents. -/
inductive OpenPath : Nat → Nat → Prop
  | here (id : Nat) : OpenPath id id
  | down {id next current : Nat} {earlier : List Element}
      (last : tree.historyOf id = earlier ++ [.scope next]) (back : tree.parentOf next = some id)
      (rest : OpenPath next current) : OpenPath id current

variable {tree} {other : Tree}

theorem Spells.append {front back : List Element} {ids ids' : List Nat}
    {matched matched' : List Match} (first : tree.Spells front ids matched)
    (second : tree.Spells back ids' matched') :
    tree.Spells (front ++ back) (ids ++ ids') (matched ++ matched') := by
  induction first with
  | nil => exact second
  | saved found _ induction => exact .saved found induction
  | scope id below _ _ induction =>
      have joined := Spells.scope id below induction
      simpa [List.append_assoc] using joined

theorem Spells.split {front back : List Element} {ids : List Nat} {matched : List Match}
    (whole : tree.Spells (front ++ back) ids matched) :
    ∃ ids₁ ids₂ matched₁ matched₂, ids = ids₁ ++ ids₂ ∧ matched = matched₁ ++ matched₂ ∧
      tree.Spells front ids₁ matched₁ ∧ tree.Spells back ids₂ matched₂ := by
  induction front generalizing ids matched with
  | nil => exact ⟨[], ids, [], matched, rfl, rfl, .nil, whole⟩
  | cons element rest induction =>
      cases whole with
      | saved found later =>
          rcases induction later with ⟨ids₁, ids₂, matched₁, matched₂, rfl, rfl, first, second⟩
          exact ⟨ids₁, ids₂, found :: matched₁, matched₂, rfl, rfl, .saved found first, second⟩
      | @scope _ inner _ within _ id below later =>
          rcases induction later with ⟨ids₁, ids₂, matched₁, matched₂, rfl, rfl, first, second⟩
          refine ⟨id :: (inner ++ ids₁), ids₂, within ++ matched₁, matched₂, ?_, ?_,
            .scope id below first, second⟩
          · simp [List.append_assoc]
          · simp [List.append_assoc]

theorem Spells.transfer {elements : List Element} {ids : List Nat} {matched : List Match}
    (spelled : tree.Spells elements ids matched)
    (same : ∀ id ∈ ids, other.historyOf id = tree.historyOf id) :
    other.Spells elements ids matched := by
  induction spelled with
  | nil => exact .nil
  | saved found _ induction => exact .saved found (induction same)
  | @scope _ inner ids _ _ id _ _ inductionBelow inductionLater =>
      have below := inductionBelow (fun visited member => same visited (by simp [member]))
      have later := inductionLater (fun visited member => same visited (by simp [member]))
      rw [← same id (by simp)] at below
      exact .scope id below later

theorem Spells.of_last {next : Nat} {earlier history : List Element} {ids : List Nat}
    {matched : List Match} (spelled : tree.Spells history ids matched)
    (last : history = earlier ++ [.scope next]) :
    ∃ ids₁ inner matched₁ within, ids = ids₁ ++ next :: inner ∧ matched = matched₁ ++ within ∧
      tree.Spells earlier ids₁ matched₁ ∧ tree.Spells (tree.historyOf next) inner within := by
  rw [last] at spelled
  rcases spelled.split with ⟨ids₁, ids₂, matched₁, matched₂, rfl, rfl, first, final⟩
  cases final with
  | @scope _ inner _ within _ _ inside later =>
      cases later
      refine ⟨ids₁, inner, matched₁, within, ?_, ?_, first, inside⟩
      · rw [List.append_nil]
      · rw [List.append_nil]

theorem OpenPath.visited {id current : Nat} {ids : List Nat} {matched : List Match}
    (path : tree.OpenPath id current) (spelled : tree.Spells (tree.historyOf id) ids matched) :
    current ∈ id :: ids := by
  induction path generalizing ids matched with
  | here id => simp
  | down last back rest induction =>
      rcases spelled.of_last last with ⟨ids₁, inner, _, _, rfl, _, _, inside⟩
      exact List.mem_cons_of_mem _ (List.mem_append_right ids₁ (induction inside))

/-- What is added to the history of the open scope at the end of a path is added
at the end of what the whole says. The other scopes are visited elsewhere, so
they are not touched; that every scope is visited once is used for this. -/
theorem Spells.extend {id current : Nat} {ids ids' : List Nat} {matched matched' : List Match}
    {tail : List Element} (spelled : tree.Spells (tree.historyOf id) ids matched)
    (path : tree.OpenPath id current) (once : (id :: ids).Nodup)
    (grown : other.historyOf current = tree.historyOf current ++ tail)
    (same : ∀ visited ∈ id :: ids, visited ≠ current →
      other.historyOf visited = tree.historyOf visited)
    (added : other.Spells tail ids' matched') :
    other.Spells (other.historyOf id) (ids ++ ids') (matched ++ matched') := by
  induction path generalizing ids matched with
  | here id =>
      rw [grown]
      refine (spelled.transfer ?_).append added
      intro visited member
      refine same visited (List.mem_cons_of_mem _ member) ?_
      rintro rfl
      exact (List.nodup_cons.mp once).1 member
  | @down id next current earlier last back rest induction =>
      rcases spelled.of_last last with ⟨ids₁, inner, matched₁, within, rfl, rfl, first, inside⟩
      have inNext := rest.visited inside
      rcases List.nodup_cons.mp once with ⟨notBelow, onceBelow⟩
      rcases List.nodup_append.mp onceBelow with ⟨_, onceNext, apart⟩
      have notHere : id ≠ current := by
        rintro rfl
        exact notBelow (List.mem_append_right ids₁ inNext)
      have firstKept : other.Spells earlier ids₁ matched₁ := by
        refine first.transfer (fun seen member => same seen ?_ (apart seen member current inNext))
        exact List.mem_cons_of_mem _ (List.mem_append_left _ member)
      have nextGrown := induction inside onceNext grown (fun seen member different =>
        same seen (List.mem_cons_of_mem _ (List.mem_append_right ids₁ member)) different)
      have here : other.historyOf id = earlier ++ [.scope next] := by
        rw [same id List.mem_cons_self notHere, last]
      have joined := firstKept.append (Spells.scope next nextGrown .nil)
      rw [here]
      simpa [List.append_assoc] using joined

theorem OpenPath.extend {id current : Nat} {ids : List Nat} {matched : List Match}
    (path : tree.OpenPath id current) (spelled : tree.Spells (tree.historyOf id) ids matched)
    (once : (id :: ids).Nodup)
    (same : ∀ visited ∈ id :: ids, visited ≠ current →
      other.historyOf visited = tree.historyOf visited)
    (parents : ∀ child parent, tree.parentOf child = some parent →
      other.parentOf child = some parent) :
    other.OpenPath id current := by
  induction path generalizing ids matched with
  | here id => exact .here id
  | @down id next current earlier last back rest induction =>
      rcases spelled.of_last last with ⟨ids₁, inner, _, _, rfl, _, _, inside⟩
      have inNext := rest.visited inside
      rcases List.nodup_cons.mp once with ⟨notBelow, onceBelow⟩
      have notHere : id ≠ current := by
        rintro rfl
        exact notBelow (List.mem_append_right ids₁ inNext)
      have here : other.historyOf id = earlier ++ [.scope next] := by
        rw [same id List.mem_cons_self notHere, last]
      refine .down here (parents next id back) ?_
      refine induction inside (List.nodup_append.mp onceBelow).2.1 (fun seen member different => ?_)
      exact same seen (List.mem_cons_of_mem _ (List.mem_append_right ids₁ member)) different

theorem OpenPath.snoc {id current next : Nat} {earlier : List Element}
    (path : tree.OpenPath id current) (last : tree.historyOf current = earlier ++ [.scope next])
    (back : tree.parentOf next = some current) : tree.OpenPath id next := by
  induction path with
  | here id => exact .down last back (.here next)
  | down last' back' _ induction => exact .down last' back' (induction last back)

theorem OpenPath.parent {id current : Nat} (path : tree.OpenPath id current) :
    current = id ∨ ∃ parent, tree.parentOf current = some parent ∧ tree.OpenPath id parent := by
  induction path with
  | here id => exact .inl rfl
  | @down id next current earlier last back rest induction =>
      rcases induction with rfl | ⟨parent, above, path⟩
      · exact .inr ⟨id, back, .here id⟩
      · exact .inr ⟨parent, above, .down last back path⟩

/-- The steps of a walk over the histories of some scopes: one for each entry and
one for the end of each history. -/
def stepsOver (tree : Tree) (ids : List Nat) : Nat :=
  ids.foldr (fun id steps => (tree.historyOf id).length + 1 + steps) 0

theorem stepsOver_cons (tree : Tree) (id : Nat) (ids : List Nat) :
    tree.stepsOver (id :: ids) = (tree.historyOf id).length + 1 + tree.stepsOver ids := rfl

theorem stepsOver_append (tree : Tree) (front back : List Nat) :
    tree.stepsOver (front ++ back) = tree.stepsOver front + tree.stepsOver back := by
  induction front with
  | nil => simp [stepsOver]
  | cons id rest induction =>
      rw [List.cons_append, stepsOver_cons, stepsOver_cons, induction]
      omega

theorem Runs.trans {turns turns' : Nat} {stack middle left : List (List Element)}
    {matched matched' : List Match} (first : tree.Runs turns stack matched middle)
    (second : tree.Runs turns' middle matched' left) :
    tree.Runs (turns + turns') stack (matched ++ matched') left := by
  induction first with
  | stop stack =>
      rw [Nat.zero_add]
      exact second
  | back _ induction =>
      rw [Nat.add_right_comm]
      exact .back (induction second)
  | saved found _ induction =>
      rw [Nat.add_right_comm]
      exact .saved found (induction second)
  | scope exist _ induction =>
      rw [Nat.add_right_comm]
      exact .scope exist (induction second)

theorem Runs.walk_eq {turns : Nat} {stack left : List (List Element)} {matched : List Match}
    (runs : tree.Runs turns stack matched left) (more : Nat) :
    tree.walk (turns + more) stack = matched ++ tree.walk more left := by
  induction runs with
  | stop stack =>
      rw [Nat.zero_add]
      rfl
  | back _ induction =>
      rw [Nat.add_right_comm, walk, induction]
  | saved found _ induction =>
      rw [Nat.add_right_comm, walk, induction, List.cons_append]
  | @scope _ id rest stack _ _ exist _ induction =>
      obtain ⟨node, found⟩ := exists_node exist
      rw [historyOf_of_node found] at induction
      rw [Nat.add_right_comm, walk, found]
      exact induction

theorem Runs.walk_of_ended {turns : Nat} {stack : List (List Element)} {matched : List Match}
    (runs : tree.Runs turns stack matched []) (more : Nat) :
    tree.walk (turns + more) stack = matched := by
  have ended : tree.walk more [] = [] := by
    cases more <;> rfl
  rw [runs.walk_eq, ended, List.append_nil]

/-- A walk over a history goes over the scopes visited on the way, and then on to
what stands below on the stack. -/
theorem Spells.runs {elements : List Element} {ids : List Nat} {matched : List Match}
    (spelled : tree.Spells elements ids matched) (exist : ∀ id ∈ ids, id < tree.size)
    (stack : List (List Element)) :
    tree.Runs (elements.length + 1 + tree.stepsOver ids) (elements :: stack) matched stack := by
  induction spelled generalizing stack with
  | nil => exact .back (.stop stack)
  | @saved rest ids matched found later induction =>
      have count : (Element.saved found :: rest).length + 1 + tree.stepsOver ids =
          rest.length + 1 + tree.stepsOver ids + 1 := by
        rw [List.length_cons]
        omega
      rw [count]
      exact .saved found (induction exist stack)
  | @scope rest inner ids within matched id below later inductionBelow inductionLater =>
      -- The walk puts the rest aside: it goes over the inner history first, with the
      -- turns for the rest still to be made.
      have insideFirst := inductionBelow (fun seen member => exist seen (by simp [member]))
        (rest :: stack)
      have thenRest := inductionLater (fun seen member => exist seen (by simp [member])) stack
      have count : (Element.scope id :: rest).length + 1 +
          tree.stepsOver (id :: (inner ++ ids)) =
            (tree.historyOf id).length + 1 + tree.stepsOver inner +
              (rest.length + 1 + tree.stepsOver ids) + 1 := by
        rw [stepsOver_cons, stepsOver_append, List.length_cons]
        omega
      rw [count]
      exact .scope (exist id (by simp)) (insideFirst.trans thenRest)

theorem matchesOf_of_runs {id turns : Nat} {matched : List Match} (exist : id < tree.size)
    (runs : tree.Runs turns [tree.historyOf id] matched []) (inTime : turns ≤ tree.walkLength) :
    tree.matchesOf id = matched := by
  obtain ⟨node, found⟩ := exists_node exist
  obtain ⟨more, length⟩ := Nat.exists_eq_add_of_le inTime
  have walked := runs.walk_of_ended more
  rw [← length, historyOf_of_node found] at walked
  simp only [matchesOf, found]
  exact walked

/-- The state of a tree that has been built in the order of time: the way to the
current scope is open, every scope is visited exactly once and in the order of
its number, and the whole says what was saved. -/
structure Chronicle (tree : Tree) (current : Nat) (saved : List Match) : Prop where
  nonempty : 0 < tree.size
  rooted : tree.parentOf root = none
  path : tree.OpenPath root current
  spells : tree.Spells (tree.historyOf root) (List.range' 1 (tree.size - 1)) saved

section Chronicles

variable {current : Nat} {saved : List Match}

theorem root_cons_range' {size : Nat} (nonempty : 0 < size) :
    root :: List.range' 1 (size - 1) = List.range size := by
  rcases Nat.exists_eq_add_of_lt nonempty with ⟨before, rfl⟩
  rw [Nat.zero_add, Nat.add_sub_cancel, List.range_eq_range', List.range'_succ]
  rfl

theorem Chronicle.once (chronicle : Chronicle tree current saved) :
    (root :: List.range' 1 (tree.size - 1)).Nodup := by
  rw [root_cons_range' chronicle.nonempty]
  exact List.nodup_range

theorem Chronicle.visited_lt (chronicle : Chronicle tree current saved) {id : Nat}
    (member : id ∈ root :: List.range' 1 (tree.size - 1)) : id < tree.size := by
  rw [root_cons_range' chronicle.nonempty] at member
  exact List.mem_range.mp member

theorem Chronicle.current_lt (chronicle : Chronicle tree current saved) : current < tree.size :=
  chronicle.visited_lt (chronicle.path.visited chronicle.spells)

theorem chronicle_ofRoot (name : String) : Chronicle (ofRoot name) root [] :=
  ⟨Nat.zero_lt_one, rfl, .here root, .nil⟩

theorem Chronicle.update (chronicle : Chronicle tree current saved) {change : Node → Node}
    (history : ∀ node, (change node).history = node.history)
    (parent : ∀ node, (change node).parent = node.parent) (id : Nat) :
    Chronicle (tree.update id change) current saved := by
  have histories := @historyOf_update_of_history tree change history id
  have parents := @parentOf_update tree change parent id
  refine ⟨?_, ?_, ?_, ?_⟩
  · rw [size_update]
    exact chronicle.nonempty
  · rw [parents]
    exact chronicle.rooted
  · refine chronicle.path.extend chronicle.spells chronicle.once ?_ ?_
    · intro visited _ _
      exact histories visited
    · intro child above back
      rw [parents, back]
  · rw [size_update, histories]
    exact chronicle.spells.transfer fun visited _ => histories visited

theorem Chronicle.save (chronicle : Chronicle tree current saved) (found : Match) :
    Chronicle (tree.save current found) current (saved ++ [found]) := by
  have grown := historyOf_record chronicle.current_lt (.saved found)
  have same : ∀ visited ∈ root :: List.range' 1 (tree.size - 1), visited ≠ current →
      (tree.save current found).historyOf visited = tree.historyOf visited := by
    intro visited _ different
    exact historyOf_update_of_ne _ different.symm
  have parents := @parentOf_update tree (fun node => node.record (.saved found)) (fun _ => rfl) current
  refine ⟨?_, ?_, ?_, ?_⟩
  · rw [Tree.save, size_update]
    exact chronicle.nonempty
  · exact (parents root).trans chronicle.rooted
  · refine chronicle.path.extend chronicle.spells chronicle.once same ?_
    intro child above back
    exact (parents child).trans back
  · have extended := chronicle.spells.extend chronicle.path chronicle.once grown same
      (.saved found .nil)
    rw [List.append_nil] at extended
    rwa [Tree.save, size_update]

theorem Chronicle.addChild (chronicle : Chronicle tree current saved) (name : String) :
    Chronicle (tree.addChild current name) tree.size saved := by
  have grown : (tree.addChild current name).historyOf current =
      tree.historyOf current ++ [.scope tree.size] := by
    have recorded := historyOf_record chronicle.current_lt (.scope tree.size)
    simp only [historyOf, node?_addChild_of_lt name chronicle.current_lt] at recorded ⊢
    exact recorded
  have fresh : (tree.addChild current name).historyOf tree.size = [] := by
    simp only [historyOf, node?_addChild_size]
    rfl
  have same : ∀ visited ∈ root :: List.range' 1 (tree.size - 1), visited ≠ current →
      (tree.addChild current name).historyOf visited = tree.historyOf visited := by
    intro visited member different
    simp only [historyOf, node?_addChild_of_lt name (chronicle.visited_lt member), node?_update,
      if_neg different.symm]
  have parents : ∀ child, child < tree.size →
      (tree.addChild current name).parentOf child = tree.parentOf child := by
    intro child exist
    have kept := @parentOf_update tree (fun node => node.record (.scope tree.size)) (fun _ => rfl)
      current child
    simp only [parentOf, node?_addChild_of_lt name exist] at kept ⊢
    exact kept
  have back : (tree.addChild current name).parentOf tree.size = some current := by
    simp only [parentOf, node?_addChild_size]
    rfl
  refine ⟨?_, ?_, ?_, ?_⟩
  · rw [size_addChild]
    exact Nat.succ_pos _
  · rw [parents root chronicle.nonempty]
    exact chronicle.rooted
  · refine (chronicle.path.extend chronicle.spells chronicle.once same ?_).snoc grown back
    intro child above backwards
    rw [parents child (lt_size_of_parentOf backwards), backwards]
  · have inside : (tree.addChild current name).Spells
        ((tree.addChild current name).historyOf tree.size) [] [] := by
      rw [fresh]
      exact .nil
    have extended := chronicle.spells.extend chronicle.path chronicle.once grown same
      (.scope tree.size inside .nil)
    have count : tree.size - 1 + 1 = tree.size := Nat.sub_add_cancel chronicle.nonempty
    have visits : List.range' 1 (tree.size - 1) ++ [tree.size] = List.range' 1 tree.size := by
      have longer := @List.range'_1_concat 1 (tree.size - 1)
      rw [Nat.add_comm 1, count] at longer
      exact longer.symm
    rw [size_addChild, Nat.add_sub_cancel]
    simpa [visits] using extended

theorem Chronicle.close (chronicle : Chronicle tree current saved) :
    Chronicle tree ((tree.parentOf current).getD current) saved := by
  rcases chronicle.path.parent with rfl | ⟨parent, above, path⟩
  · rw [chronicle.rooted]
    exact chronicle
  · rw [above]
    exact ⟨chronicle.nonempty, chronicle.rooted, path, chronicle.spells⟩

end Chronicles

theorem walkLength_eq (tree : Tree) : tree.walkLength = tree.stepsOver (List.range tree.size) := by
  have lengths : ((List.range tree.size).map fun id => (tree.historyOf id).length + 1) =
      tree.nodes.toList.map fun node => node.history.size + 1 := by
    apply List.ext_getElem
    · simp [size]
    · intro id bound _
      have exist : id < tree.nodes.size := by simpa [size] using bound
      simp [historyOf, node?, exist]
  have folded := congrArg (List.foldr (fun length steps => length + steps) 0) lengths
  rw [List.foldr_map, List.foldr_map] at folded
  exact folded.symm

/-- Going over a tree that was built in the order of time gives the saved
matches in that order. -/
theorem Chronicle.matchesOf_eq {current : Nat} {saved : List Match}
    (chronicle : Chronicle tree current saved) : tree.matchesOf root = saved := by
  have runs := chronicle.spells.runs
    (fun id member => chronicle.visited_lt (List.mem_cons_of_mem _ member)) []
  refine matchesOf_of_runs chronicle.nonempty runs (Nat.le_of_eq ?_)
  rw [walkLength_eq, ← root_cons_range' chronicle.nonempty, stepsOver_cons]

end LineGrammar.Tree
