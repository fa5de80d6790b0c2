import LineGrammar.Proofs.Scope.Chronology
import LineGrammar.Session.Context

/-!
The shape of a tree of scopes. Every node but the root has a parent with a
smaller number, whose history names it once, and lies one level below it. So the
way up from a node takes as many steps as its depth says, it ends at the root,
and the names on it are the trace of the node.
-/

namespace LineGrammar.Tree

def childrenOf (tree : Tree) (id : Nat) : List Nat := ((tree.node? id).map Node.children).getD []

def scopesIn (elements : List Element) : List Nat :=
  elements.filterMap fun
    | .saved _ => none
    | .scope id => some id

theorem childrenOf_eq_scopesIn (tree : Tree) (id : Nat) :
    tree.childrenOf id = scopesIn (tree.historyOf id) := by
  unfold childrenOf historyOf
  cases tree.node? id <;> rfl

/-- Whether a tree has the shape that opening scopes one below the other gives
it, all of them by names that are known. -/
structure WellFormed (known : String → Bool) (tree : Tree) : Prop where
  nonempty : 0 < tree.size
  root_name : tree.nameOf root = Context.mainScope
  root_parent : tree.parentOf root = none
  root_depth : tree.depthOf root = 0
  above : ∀ id, 0 < id → id < tree.size →
    ∃ parent < id, tree.parentOf id = some parent ∧ tree.depthOf id = tree.depthOf parent + 1
  below : ∀ id parent, id ∈ tree.childrenOf parent ↔ tree.parentOf id = some parent
  increasing : ∀ id, (tree.childrenOf id).Pairwise (· < ·)
  names : ∀ id < tree.size, known (tree.nameOf id) = true

section Views

variable {tree : Tree} {View : Type} {view : Node → View}

theorem nameOf_eq (tree : Tree) (id : Nat) :
    tree.nameOf id = ((tree.node? id).map Node.name).getD "" := by
  unfold nameOf
  cases tree.node? id <;> rfl

theorem depthOf_eq (tree : Tree) (id : Nat) :
    tree.depthOf id = ((tree.node? id).map Node.depth).getD 0 := by
  unfold depthOf
  cases tree.node? id <;> rfl

theorem parentOf_eq (tree : Tree) (id : Nat) :
    tree.parentOf id = ((tree.node? id).map Node.parent).join := by
  unfold parentOf
  cases tree.node? id <;> rfl

/-- What a change leaves alone in every node looks the same after it. -/
theorem view_update {change : Node → Node} (keeps : ∀ node, view (change node) = view node)
    (id other : Nat) :
    ((tree.update id change).node? other).map view = (tree.node? other).map view := by
  rw [node?_update]
  split
  · cases tree.node? other with
    | none => rfl
    | some node => exact congrArg some (keeps node)
  · rfl

theorem view_addChild_of_lt {other : Nat}
    (keeps : ∀ (node : Node) (element : Element), view (node.record element) = view node)
    (parent : Nat) (name : String) (old : other < tree.size) :
    ((tree.addChild parent name).node? other).map view = (tree.node? other).map view := by
  rw [node?_addChild_of_lt name old]
  exact view_update (fun node => keeps node _) parent other

theorem node?_eq_none {id : Nat} (outside : tree.size ≤ id) : tree.node? id = none :=
  Array.getElem?_eq_none outside

@[simp]
theorem children_fresh (name : String) (parent : Option Nat) (depth : Nat) :
    (Node.fresh name parent depth).children = [] := rfl

@[simp]
theorem children_record_scope (node : Node) (id : Nat) :
    (node.record (.scope id)).children = node.children ++ [id] := by
  simp [Node.children, Node.record]

@[simp]
theorem children_record_saved (node : Node) (found : Match) :
    (node.record (.saved found)).children = node.children := by
  simp [Node.children, Node.record]

theorem childrenOf_addChild_parent {parent : Nat} (name : String) (old : parent < tree.size) :
    (tree.addChild parent name).childrenOf parent = tree.childrenOf parent ++ [tree.size] := by
  obtain ⟨node, found⟩ := exists_node old
  simp [childrenOf, node?_addChild_of_lt name old, node?_update, found]

theorem childrenOf_addChild_of_ne {parent other : Nat} (name : String)
    (different : other ≠ parent) :
    (tree.addChild parent name).childrenOf other = tree.childrenOf other := by
  rcases Nat.lt_trichotomy other tree.size with old | rfl | outside
  · simp [childrenOf, node?_addChild_of_lt name old, node?_update, different.symm]
  · simp [childrenOf, node?_addChild_size, node?_eq_none (Nat.le_refl tree.size)]
  · have outside' : (tree.addChild parent name).size ≤ other := by
      rw [size_addChild]
      exact outside
    simp [childrenOf, node?_eq_none outside', node?_eq_none (Nat.le_of_lt outside)]

theorem pathUp_succ {id : Nat} (bound : id < tree.size) (limit : Nat) :
    tree.pathUp (limit + 1) id =
      tree.nameOf id :: (tree.parentOf id).elim [] (tree.pathUp limit) := by
  obtain ⟨node, found⟩ := exists_node bound
  simp only [pathUp, nameOf, parentOf, found, Option.bind_some]
  cases node.parent <;> rfl

end Views

namespace WellFormed

variable {known : String → Bool} {tree : Tree} {id parent : Nat}

theorem ofRoot (isKnown : known Context.mainScope = true) :
    (Tree.ofRoot Context.mainScope).WellFormed known := by
  have only : ∀ id, id < (Tree.ofRoot Context.mainScope).size → id = root := by
    intro id bound
    exact Nat.lt_one_iff.mp bound
  have parents : ∀ id, (Tree.ofRoot Context.mainScope).parentOf id = none := by
    intro id
    cases above : (Tree.ofRoot Context.mainScope).parentOf id with
    | none => rfl
    | some parent =>
        cases only id (lt_size_of_parentOf above)
        cases above
  have children : ∀ id, (Tree.ofRoot Context.mainScope).childrenOf id = [] := by
    intro id
    cases id with
    | zero => rfl
    | succ id => rfl
  refine ⟨Nat.zero_lt_one, rfl, rfl, rfl, ?_, ?_, ?_, ?_⟩
  · intro id positive bound
    exact absurd (only id bound) (Nat.pos_iff_ne_zero.mp positive)
  · intro id parent
    simp [children, parents]
  · intro id
    simp [children]
  · intro id bound
    cases only id bound
    exact isKnown

/-- Changes of a node that leave its place in the tree alone and, if they give
it another name, give one that is known to a node other than the root. -/
theorem update (formed : tree.WellFormed known) {change : Node → Node}
    (parents : ∀ node, (change node).parent = node.parent)
    (depths : ∀ node, (change node).depth = node.depth)
    (children : ∀ node, (change node).children = node.children)
    (names : (∀ node, (change node).name = node.name) ∨
      id ≠ root ∧ ∀ node, known (change node).name = true) :
    (tree.update id change).WellFormed known := by
  have parents' : ∀ other, (tree.update id change).parentOf other = tree.parentOf other := by
    intro other
    rw [parentOf_eq, parentOf_eq, view_update parents]
  have depths' : ∀ other, (tree.update id change).depthOf other = tree.depthOf other := by
    intro other
    rw [depthOf_eq, depthOf_eq, view_update depths]
  have children' : ∀ other, (tree.update id change).childrenOf other = tree.childrenOf other := by
    intro other
    rw [childrenOf, childrenOf, view_update children]
  refine ⟨?_, ?_, ?_, ?_, ?_, ?_, ?_, ?_⟩
  · rw [size_update]
    exact formed.nonempty
  · rcases names with same | ⟨inner, _⟩
    · rw [nameOf_eq, view_update same, ← nameOf_eq]
      exact formed.root_name
    · rw [nameOf, node?_update, if_neg inner]
      exact formed.root_name
  · rw [parents']
    exact formed.root_parent
  · rw [depths']
    exact formed.root_depth
  · intro other positive bound
    rw [size_update] at bound
    simp only [parents', depths']
    exact formed.above other positive bound
  · intro other parent
    rw [parents', children']
    exact formed.below other parent
  · intro other
    rw [children']
    exact formed.increasing other
  · intro other bound
    rw [size_update] at bound
    rcases names with same | ⟨_, given⟩
    · rw [nameOf_eq, view_update same, ← nameOf_eq]
      exact formed.names other bound
    · obtain ⟨node, found⟩ := exists_node bound
      by_cases same : id = other
      · rw [nameOf, node?_update, if_pos same, found]
        exact given node
      · rw [nameOf, node?_update, if_neg same]
        exact formed.names other bound

theorem save (formed : tree.WellFormed known) (id : Nat) (found : Match) :
    (tree.save id found).WellFormed known := by
  refine formed.update (fun _ => rfl) (fun _ => rfl) ?_ (.inl fun _ => rfl)
  intro node
  exact children_record_saved node found

theorem addChild (formed : tree.WellFormed known) (old : parent < tree.size) {name : String}
    (isKnown : known name = true) : (tree.addChild parent name).WellFormed known := by
  have parents : ∀ other, other < tree.size →
      (tree.addChild parent name).parentOf other = tree.parentOf other := by
    intro other bound
    rw [parentOf_eq, parentOf_eq, view_addChild_of_lt (fun _ _ => rfl) parent name bound]
  have depths : ∀ other, other < tree.size →
      (tree.addChild parent name).depthOf other = tree.depthOf other := by
    intro other bound
    rw [depthOf_eq, depthOf_eq, view_addChild_of_lt (fun _ _ => rfl) parent name bound]
  have names : ∀ other, other < tree.size →
      (tree.addChild parent name).nameOf other = tree.nameOf other := by
    intro other bound
    rw [nameOf_eq, nameOf_eq, view_addChild_of_lt (fun _ _ => rfl) parent name bound]
  have newParent : (tree.addChild parent name).parentOf tree.size = some parent := by
    rw [parentOf, node?_addChild_size]
    rfl
  have newDepth : (tree.addChild parent name).depthOf tree.size = tree.depthOf parent + 1 := by
    rw [depthOf, node?_addChild_size]
    rfl
  refine ⟨?_, ?_, ?_, ?_, ?_, ?_, ?_, ?_⟩
  · rw [size_addChild]
    exact Nat.succ_pos _
  · rw [names root formed.nonempty]
    exact formed.root_name
  · rw [parents root formed.nonempty]
    exact formed.root_parent
  · rw [depths root formed.nonempty]
    exact formed.root_depth
  · intro other positive bound
    rw [size_addChild] at bound
    rcases Nat.lt_succ_iff_lt_or_eq.mp bound with before | rfl
    · obtain ⟨upper, less, above, deeper⟩ := formed.above other positive before
      refine ⟨upper, less, ?_, ?_⟩
      · rw [parents other before]
        exact above
      · rw [depths other before, depths upper (Nat.lt_trans less before)]
        exact deeper
    · refine ⟨parent, old, newParent, ?_⟩
      rw [newDepth, depths parent old]
  · intro other upper
    -- The new scope is named by its parent only, and names nothing itself.
    have fresh : tree.size ∉ tree.childrenOf upper := by
      intro member
      exact Nat.lt_irrefl _ (lt_size_of_parentOf ((formed.below _ _).mp member))
    have olds : other ∈ tree.childrenOf upper ↔
        other < tree.size ∧ (tree.addChild parent name).parentOf other = some upper := by
      constructor
      · intro member
        have above := (formed.below other upper).mp member
        have bound := lt_size_of_parentOf above
        exact ⟨bound, (parents other bound).trans above⟩
      · rintro ⟨bound, above⟩
        exact (formed.below other upper).mpr ((parents other bound).symm.trans above)
    have bounded : (tree.addChild parent name).parentOf other = some upper →
        other < tree.size ∨ other = tree.size := by
      intro above
      have bound := lt_size_of_parentOf above
      rw [size_addChild] at bound
      exact Nat.lt_succ_iff_lt_or_eq.mp bound
    by_cases same : upper = parent
    · subst same
      rw [childrenOf_addChild_parent name old, List.mem_append, List.mem_singleton, olds]
      constructor
      · rintro (⟨_, above⟩ | rfl)
        · exact above
        · exact newParent
      · intro above
        rcases bounded above with bound | rfl
        · exact .inl ⟨bound, above⟩
        · exact .inr rfl
    · rw [childrenOf_addChild_of_ne name same, olds]
      constructor
      · exact fun both => both.2
      · intro above
        rcases bounded above with bound | rfl
        · exact ⟨bound, above⟩
        · rw [newParent, Option.some_inj] at above
          exact absurd above.symm same
  · intro other
    by_cases same : other = parent
    · subst same
      rw [childrenOf_addChild_parent name old]
      refine List.pairwise_append.mpr ⟨formed.increasing other, List.pairwise_singleton _ _, ?_⟩
      intro child member last isLast
      rw [List.mem_singleton.mp isLast]
      exact lt_size_of_parentOf ((formed.below child other).mp member)
    · rw [childrenOf_addChild_of_ne name same]
      exact formed.increasing other
  · intro other bound
    rw [size_addChild] at bound
    rcases Nat.lt_succ_iff_lt_or_eq.mp bound with before | rfl
    · rw [names other before]
      exact formed.names other before
    · rw [nameOf, node?_addChild_size]
      exact isKnown

theorem parent_lt (formed : tree.WellFormed known) (above : tree.parentOf id = some parent) :
    parent < id ∧ id < tree.size ∧ tree.depthOf id = tree.depthOf parent + 1 := by
  have bound := lt_size_of_parentOf above
  rcases Nat.eq_zero_or_pos id with rfl | positive
  · cases above.symm.trans formed.root_parent
  · obtain ⟨upper, less, above', deeper⟩ := formed.above id positive bound
    cases above.symm.trans above'
    exact ⟨less, bound, deeper⟩

theorem exists_parent (formed : tree.WellFormed known) (deep : tree.depthOf id ≠ 0)
    (bound : id < tree.size) : ∃ parent, tree.parentOf id = some parent := by
  rcases Nat.eq_zero_or_pos id with rfl | positive
  · exact absurd formed.root_depth deep
  · obtain ⟨parent, _, above, _⟩ := formed.above id positive bound
    exact ⟨parent, above⟩

theorem depthOf_le (formed : tree.WellFormed known) (bound : id < tree.size) :
    tree.depthOf id ≤ id := by
  induction id using Nat.strongRecOn with
  | ind id induction =>
      rcases Nat.eq_zero_or_pos id with rfl | positive
      · exact Nat.le_of_eq formed.root_depth
      · obtain ⟨parent, less, _, deeper⟩ := formed.above id positive bound
        have shallow := induction parent less (Nat.lt_trans less bound)
        omega

/-- The way up is complete once its limit exceeds the depth. -/
theorem pathUp_eq (formed : tree.WellFormed known) {limit limit' : Nat} (bound : id < tree.size)
    (enough : tree.depthOf id < limit) (enough' : tree.depthOf id < limit') :
    tree.pathUp limit id = tree.pathUp limit' id := by
  induction limit generalizing limit' id with
  | zero => exact absurd enough (Nat.not_lt_zero _)
  | succ limit induction =>
      obtain ⟨limit', rfl⟩ := Nat.exists_eq_add_one_of_ne_zero (Nat.ne_zero_of_lt enough')
      rw [pathUp_succ bound, pathUp_succ bound]
      cases above : tree.parentOf id with
      | none => rfl
      | some parent =>
          obtain ⟨less, _, deeper⟩ := formed.parent_lt above
          have shorter : tree.pathUp limit parent = tree.pathUp limit' parent :=
            induction (Nat.lt_trans less bound) (by omega) (by omega)
          simp only [Option.elim_some, shorter]

theorem trace_eq (formed : tree.WellFormed known) (bound : id < tree.size) :
    tree.trace id = ((tree.parentOf id).elim [] tree.trace) ++ [tree.nameOf id] := by
  have shallow := formed.depthOf_le bound
  rw [trace, formed.pathUp_eq bound (by omega) (Nat.lt_succ_self _), pathUp_succ bound]
  cases above : tree.parentOf id with
  | none => rfl
  | some parent =>
      obtain ⟨less, _, deeper⟩ := formed.parent_lt above
      have shorter : tree.pathUp (tree.depthOf id) parent = tree.pathUp tree.size parent :=
        formed.pathUp_eq (Nat.lt_trans less bound) (by omega) (by omega)
      simp only [Option.elim_some, List.reverse_cons, trace, shorter]

theorem trace_root (formed : tree.WellFormed known) : tree.trace root = [Context.mainScope] := by
  have inside : root < tree.size := formed.nonempty
  rw [formed.trace_eq inside, formed.root_parent, formed.root_name]
  rfl

theorem trace_child (formed : tree.WellFormed known) (above : tree.parentOf id = some parent) :
    tree.trace id = tree.trace parent ++ [tree.nameOf id] := by
  rw [formed.trace_eq (lt_size_of_parentOf above), above]
  rfl

theorem trace_spec (formed : tree.WellFormed known) (bound : id < tree.size) :
    (tree.trace id).length = tree.depthOf id + 1 ∧
      (tree.trace id).head? = some Context.mainScope := by
  induction id using Nat.strongRecOn with
  | ind id induction =>
      rcases Nat.eq_zero_or_pos id with rfl | positive
      · have trace : tree.trace 0 = [Context.mainScope] := formed.trace_root
        have depth : tree.depthOf 0 = 0 := formed.root_depth
        rw [trace, depth]
        exact ⟨rfl, rfl⟩
      · obtain ⟨parent, less, above, deeper⟩ := formed.above id positive bound
        obtain ⟨length, first⟩ := induction parent less (Nat.lt_trans less bound)
        rw [formed.trace_child above, List.length_append, length, deeper, List.head?_append, first]
        exact ⟨rfl, rfl⟩

theorem ancestor_of_le (formed : tree.WellFormed known) {level : Nat} (bound : id < tree.size)
    (within : level ≤ tree.depthOf id) :
    ∃ upper, tree.ancestor? id level = some upper ∧ upper < tree.size ∧
      tree.depthOf upper = tree.depthOf id - level ∧
      tree.trace upper = (tree.trace id).take (tree.depthOf id - level + 1) := by
  induction level generalizing id with
  | zero =>
      refine ⟨id, rfl, bound, rfl, ?_⟩
      rw [List.take_of_length_le]
      exact Nat.le_of_eq (formed.trace_spec bound).1
  | succ level induction =>
      obtain ⟨parent, above⟩ := formed.exists_parent (by omega) bound
      obtain ⟨less, _, deeper⟩ := formed.parent_lt above
      have old := Nat.lt_trans less bound
      obtain ⟨upper, found, exist, depth, trace⟩ := induction old (by omega)
      have length := (formed.trace_spec old).1
      have level' : tree.depthOf parent - level = tree.depthOf id - (level + 1) := by omega
      refine ⟨upper, ?_, exist, ?_, ?_⟩
      · rw [ancestor?, above]
        exact found
      · rw [depth, level']
      · rw [trace, formed.trace_child above, level', List.take_append_of_le_length]
        omega

theorem ancestor_of_lt (formed : tree.WellFormed known) {level : Nat} (bound : id < tree.size)
    (beyond : tree.depthOf id < level) : tree.ancestor? id level = none := by
  induction level generalizing id with
  | zero => exact absurd beyond (Nat.not_lt_zero _)
  | succ level induction =>
      rw [ancestor?]
      cases above : tree.parentOf id with
      | none => rfl
      | some parent =>
          obtain ⟨less, _, deeper⟩ := formed.parent_lt above
          exact induction (Nat.lt_trans less bound) (by omega)

/-- Among all histories a scope other than the root is named exactly once. -/
theorem named_once (formed : tree.WellFormed known) (positive : 0 < id) (bound : id < tree.size) :
    ((List.range tree.size).flatMap tree.childrenOf).count id = 1 := by
  obtain ⟨parent, less, above, _⟩ := formed.above id positive bound
  apply List.count_eq_one_of_mem
  · refine List.nodup_flatMap.mpr ⟨?_, ?_⟩
    · intro other _
      exact (formed.increasing other).imp Nat.ne_of_lt
    · refine List.nodup_range.imp ?_
      intro first second different child inFirst inSecond
      have above := ((formed.below child first).mp inFirst).symm.trans
        ((formed.below child second).mp inSecond)
      exact different (Option.some_inj.mp above)
  · refine List.mem_flatMap.mpr ⟨parent, ?_, (formed.below id parent).mpr above⟩
    exact List.mem_range.mpr (Nat.lt_trans less bound)

end WellFormed

end LineGrammar.Tree
