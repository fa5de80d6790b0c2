import LineGrammar.Proofs.Match.Captures
import LineGrammar.Proofs.Scope.Arena
import Mathlib.Data.List.Perm.Subperm

/-!
Histories read in place. In a well-formed tree no scope lies below two children
of the same scope, so whoever reads a history and enters every child where it
stands visits each scope at most once. The walk over the histories on a stack
therefore ends within its limit, and it is the one function that gives every
scope its history with each child scope replaced by what is given for that child.
-/

namespace LineGrammar

/-- What an entry of a history stands for if a child scope stands for what is
given for it. -/
def Element.expand (inner : Nat → List Match) : Element → List Match
  | .saved found => [found]
  | .scope id => inner id

namespace Tree

/-- Whether every scope is given its history, expanded in place. -/
def Expands (tree : Tree) (expand : Nat → List Match) : Prop :=
  ∀ id, expand id = (tree.historyOf id).flatMap (Element.expand expand)

def stackOf (tree : Tree) (id : Nat) : List (List Element) :=
  (tree.node? id).toList.map fun node => node.history.toList

def Encloses (tree : Tree) (upper id : Nat) : Prop :=
  ∃ level, tree.ancestor? id level = some upper

variable {tree : Tree} {known : String → Bool} {id child parent upper other : Nat}

section Enclosure

theorem ancestor?_succ_iff {level : Nat} :
    tree.ancestor? id (level + 1) = some upper ↔
      ∃ parent, tree.parentOf id = some parent ∧ tree.ancestor? parent level = some upper := by
  rw [ancestor?]
  cases tree.parentOf id <;> simp

theorem ancestor?_snoc {level : Nat} (up : tree.ancestor? id level = some child)
    (above : tree.parentOf child = some parent) :
    tree.ancestor? id (level + 1) = some parent := by
  induction level generalizing id with
  | zero =>
      cases up
      exact ancestor?_succ_iff.mpr ⟨parent, above, rfl⟩
  | succ level induction =>
      obtain ⟨next, first, rest⟩ := ancestor?_succ_iff.mp up
      exact ancestor?_succ_iff.mpr ⟨next, first, induction rest⟩

theorem Encloses.refl (tree : Tree) (id : Nat) : tree.Encloses id id := ⟨0, rfl⟩

theorem Encloses.up (encloses : tree.Encloses child id)
    (above : tree.parentOf child = some parent) : tree.Encloses parent id := by
  obtain ⟨level, up⟩ := encloses
  exact ⟨level + 1, ancestor?_snoc up above⟩

theorem Encloses.lt_size (encloses : tree.Encloses upper id) (exist : upper < tree.size) :
    id < tree.size := by
  obtain ⟨level, up⟩ := encloses
  cases level with
  | zero =>
      cases up
      exact exist
  | succ level =>
      obtain ⟨_, above, _⟩ := ancestor?_succ_iff.mp up
      exact lt_size_of_parentOf above

namespace WellFormed

theorem depth_of_ancestor (formed : tree.WellFormed known) {level : Nat} (exist : id < tree.size)
    (up : tree.ancestor? id level = some upper) :
    tree.depthOf upper + level = tree.depthOf id := by
  rcases Nat.lt_or_ge (tree.depthOf id) level with beyond | within
  · cases up.symm.trans (formed.ancestor_of_lt exist beyond)
  · obtain ⟨_, found, _, depth, _⟩ := formed.ancestor_of_le exist within
    cases up.symm.trans found
    omega

/-- On every level at most one scope encloses a given one. -/
theorem enclosing_unique (formed : tree.WellFormed known) (exist : id < tree.size)
    (first : tree.Encloses upper id) (second : tree.Encloses other id)
    (level : tree.depthOf upper = tree.depthOf other) : upper = other := by
  obtain ⟨up, found⟩ := first
  obtain ⟨up', found'⟩ := second
  have depth := formed.depth_of_ancestor exist found
  have depth' := formed.depth_of_ancestor exist found'
  have same : up = up' := by omega
  rw [same, found'] at found
  exact (Option.some_inj.mp found).symm

theorem parentOf_of_named (formed : tree.WellFormed known)
    (named : child ∈ scopesIn (tree.historyOf id)) : tree.parentOf child = some id := by
  rw [← childrenOf_eq_scopesIn] at named
  exact (formed.below child id).mp named

theorem nodup_scopesIn (formed : tree.WellFormed known) (id : Nat) :
    (scopesIn (tree.historyOf id)).Nodup := by
  rw [← childrenOf_eq_scopesIn]
  exact (formed.increasing id).imp Nat.ne_of_lt

/-- What holds of a scope if it holds of its children holds of every scope, as
children have greater numbers and there are only so many. -/
theorem children_first (formed : tree.WellFormed known) {motive : Nat → Prop}
    (step : ∀ id, (∀ child ∈ scopesIn (tree.historyOf id), motive child) → motive id) (id : Nat) :
    motive id := by
  induction remaining : tree.size - id using Nat.strongRecOn generalizing id with
  | ind remaining induction =>
      refine step id fun child named => ?_
      obtain ⟨less, bound, _⟩ := formed.parent_lt (formed.parentOf_of_named named)
      exact induction _ (by omega) child rfl

end WellFormed

end Enclosure

section Reading

variable {elements : List Element} {ids : List Nat} {matched : List Match}

theorem Spells.enclosed (formed : tree.WellFormed known)
    (spelled : tree.Spells elements ids matched) {seen : Nat} (member : seen ∈ ids) :
    ∃ child ∈ scopesIn elements, tree.Encloses child seen := by
  induction spelled with
  | nil => cases member
  | saved found _ induction => exact induction member
  | scope id below later inductionBelow inductionLater =>
      rcases List.mem_cons.mp member with rfl | member
      · exact ⟨seen, List.mem_cons_self, .refl tree seen⟩
      · rcases List.mem_append.mp member with inside | after
        · obtain ⟨child, named, encloses⟩ := inductionBelow inside
          exact ⟨id, List.mem_cons_self, encloses.up (formed.parentOf_of_named named)⟩
        · obtain ⟨child, named, encloses⟩ := inductionLater after
          exact ⟨child, List.mem_cons_of_mem _ named, encloses⟩

theorem Spells.enclosed_in_child (formed : tree.WellFormed known)
    (spelled : tree.Spells (tree.historyOf id) ids matched) {seen : Nat} (member : seen ∈ ids) :
    ∃ child, tree.parentOf child = some id ∧ tree.Encloses child seen := by
  obtain ⟨child, named, encloses⟩ := spelled.enclosed formed member
  exact ⟨child, formed.parentOf_of_named named, encloses⟩

theorem Spells.lt_size (formed : tree.WellFormed known)
    (spelled : tree.Spells (tree.historyOf id) ids matched) {seen : Nat} (member : seen ∈ ids) :
    seen < tree.size := by
  obtain ⟨child, above, encloses⟩ := spelled.enclosed_in_child formed member
  exact encloses.lt_size (lt_size_of_parentOf above)

theorem Spells.not_mem (formed : tree.WellFormed known)
    (spelled : tree.Spells (tree.historyOf id) ids matched) : id ∉ ids := by
  intro member
  obtain ⟨child, above, encloses⟩ := spelled.enclosed_in_child formed member
  obtain ⟨level, up⟩ := encloses
  have deeper := (formed.parent_lt above).2.2
  have depth := formed.depth_of_ancestor (spelled.lt_size formed member) up
  omega

/-- While children of one scope are read no scope is visited twice, since no scope
lies in two of them. -/
theorem Spells.nodup (formed : tree.WellFormed known)
    (spelled : tree.Spells elements ids matched)
    (siblings : ∀ child ∈ scopesIn elements, tree.parentOf child = some parent)
    (distinct : (scopesIn elements).Nodup) : ids.Nodup := by
  induction spelled generalizing parent with
  | nil => exact List.nodup_nil
  | saved found _ induction => exact induction siblings distinct
  | @scope rest inner ids within matched id below later inductionBelow inductionLater =>
      obtain ⟨fresh, distinctLater⟩ := List.nodup_cons.mp distinct
      have above := siblings id List.mem_cons_self
      have siblingsLater : ∀ child ∈ scopesIn rest, tree.parentOf child = some parent :=
        fun child named => siblings child (List.mem_cons_of_mem _ named)
      -- A scope that lay in this child and in a later one would have two different
      -- scopes above it on one level.
      have apart : ∀ seen ∈ ids, ¬tree.Encloses id seen := by
        intro seen member encloses
        obtain ⟨child, named, encloses'⟩ := later.enclosed formed member
        have depth := (formed.parent_lt above).2.2
        have depth' := (formed.parent_lt (siblingsLater child named)).2.2
        have same := formed.enclosing_unique (encloses.lt_size (lt_size_of_parentOf above)) encloses
          encloses' (depth.trans depth'.symm)
        rw [same] at fresh
        exact fresh named
      have innerOnce : inner.Nodup :=
        inductionBelow (fun _ => formed.parentOf_of_named) (formed.nodup_scopesIn id)
      have laterOnce : ids.Nodup := inductionLater siblingsLater distinctLater
      refine List.nodup_cons.mpr ⟨?_, List.nodup_append.mpr ⟨innerOnce, laterOnce, ?_⟩⟩
      · intro member
        rcases List.mem_append.mp member with inside | after
        · exact below.not_mem formed inside
        · exact apart id after (.refl tree id)
      · rintro seen inside _ after rfl
        obtain ⟨child, belongs, encloses⟩ := below.enclosed_in_child formed inside
        exact apart seen after (encloses.up belongs)

theorem exists_spells_of_children
    (inner : ∀ child ∈ scopesIn elements, ∃ ids matched,
      tree.Spells (tree.historyOf child) ids matched) :
    ∃ ids matched, tree.Spells elements ids matched := by
  induction elements with
  | nil => exact ⟨[], [], .nil⟩
  | cons element rest induction =>
      cases element with
      | saved found =>
          obtain ⟨ids, matched, later⟩ := induction inner
          exact ⟨ids, found :: matched, .saved found later⟩
      | scope id =>
          obtain ⟨within, reached, below⟩ := inner id List.mem_cons_self
          obtain ⟨ids, matched, later⟩ :=
            induction fun child named => inner child (List.mem_cons_of_mem _ named)
          exact ⟨id :: (within ++ ids), reached ++ matched, .scope id below later⟩

theorem WellFormed.exists_spells (formed : tree.WellFormed known) (id : Nat) :
    ∃ ids matched, tree.Spells (tree.historyOf id) ids matched := by
  induction id using formed.children_first with
  | step id inner => exact exists_spells_of_children inner

theorem stepsOver_perm {all : List Nat} (same : ids.Perm all) :
    tree.stepsOver ids = tree.stepsOver all := by
  induction same with
  | nil => rfl
  | cons id _ induction => rw [stepsOver_cons, stepsOver_cons, induction]
  | swap first second rest =>
      simp only [stepsOver_cons]
      omega
  | trans _ _ induction induction' => exact induction.trans induction'

theorem stepsOver_le_of_sublist {all : List Nat} (within : ids.Sublist all) :
    tree.stepsOver ids ≤ tree.stepsOver all := by
  induction within with
  | slnil => exact Nat.le_refl _
  | cons id _ induction =>
      rw [stepsOver_cons]
      exact Nat.le_trans induction (Nat.le_add_left _ _)
  | cons_cons id _ induction =>
      rw [stepsOver_cons, stepsOver_cons]
      exact Nat.add_le_add_left induction _

theorem stepsOver_le {all : List Nat} (contained : ids.Subperm all) :
    tree.stepsOver ids ≤ tree.stepsOver all := by
  obtain ⟨part, same, within⟩ := contained
  rw [← stepsOver_perm same]
  exact stepsOver_le_of_sublist within

/-- The walk from a scope ends within the limit: the turns for the histories of
the scopes that it visits are among those for all histories. -/
theorem Spells.ends (formed : tree.WellFormed known) (exist : id < tree.size)
    (spelled : tree.Spells (tree.historyOf id) ids matched) :
    ∃ turns ≤ tree.walkLength, tree.Runs turns [tree.historyOf id] matched [] := by
  have below : ids.Nodup :=
    spelled.nodup formed (fun _ => formed.parentOf_of_named) (formed.nodup_scopesIn id)
  have once : (id :: ids).Nodup := List.nodup_cons.mpr ⟨spelled.not_mem formed, below⟩
  have contained : (id :: ids).Subperm (List.range tree.size) := by
    refine List.subperm_of_subset once fun seen member => List.mem_range.mpr ?_
    rcases List.mem_cons.mp member with rfl | member
    · exact exist
    · exact spelled.lt_size formed member
  refine ⟨_, ?_, spelled.runs (fun seen member => spelled.lt_size formed member) []⟩
  rw [walkLength_eq, ← stepsOver_cons]
  exact stepsOver_le contained

theorem WellFormed.matchesOf_eq (formed : tree.WellFormed known) (exist : id < tree.size)
    (spelled : tree.Spells (tree.historyOf id) ids matched) : tree.matchesOf id = matched := by
  obtain ⟨turns, inTime, runs⟩ := spelled.ends formed exist
  exact matchesOf_of_runs exist runs inTime

theorem Spells.matched_eq (formed : tree.WellFormed known)
    (spelled : tree.Spells elements ids matched)
    (exist : ∀ child ∈ scopesIn elements, child < tree.size) :
    matched = elements.flatMap (Element.expand tree.matchesOf) := by
  induction spelled with
  | nil => rfl
  | saved found _ induction =>
      rw [List.flatMap_cons, ← induction exist]
      rfl
  | scope id below _ _ inductionLater =>
      have inside := formed.matchesOf_eq (exist id List.mem_cons_self) below
      have after := inductionLater fun child named => exist child (List.mem_cons_of_mem _ named)
      rw [List.flatMap_cons, ← after, Element.expand, inside]

end Reading

section Walks

theorem matchesOf_of_size_le (outside : tree.size ≤ id) : tree.matchesOf id = [] := by
  rw [matchesOf, node?_eq_none outside]

theorem historyOf_of_size_le (outside : tree.size ≤ id) : tree.historyOf id = [] := by
  rw [historyOf, node?_eq_none outside]

namespace WellFormed

theorem expands (formed : tree.WellFormed known) : tree.Expands tree.matchesOf := by
  intro id
  rcases Nat.lt_or_ge id tree.size with exist | outside
  · obtain ⟨ids, matched, spelled⟩ := formed.exists_spells id
    rw [formed.matchesOf_eq exist spelled]
    exact spelled.matched_eq formed fun child named =>
      lt_size_of_parentOf (formed.parentOf_of_named named)
  · rw [matchesOf_of_size_le outside, historyOf_of_size_le outside]
    rfl

theorem expands_unique (formed : tree.WellFormed known) {expand expand' : Nat → List Match}
    (expands : tree.Expands expand) (expands' : tree.Expands expand') : expand = expand' := by
  funext id
  induction id using formed.children_first with
  | step id inner =>
      rw [expands id, expands' id]
      refine List.flatMap_congr fun element member => ?_
      cases element with
      | saved found => rfl
      | scope child => exact inner child (List.mem_filterMap.mpr ⟨.scope child, member, rfl⟩)

theorem exists_runs (formed : tree.WellFormed known) (id : Nat) :
    ∃ turns ≤ tree.walkLength, tree.Runs turns (tree.stackOf id) (tree.matchesOf id) [] := by
  rcases Nat.lt_or_ge id tree.size with exist | outside
  · obtain ⟨ids, matched, spelled⟩ := formed.exists_spells id
    obtain ⟨node, found⟩ := exists_node exist
    have stack : tree.stackOf id = [tree.historyOf id] := by
      rw [stackOf, found, historyOf_of_node found]
      rfl
    rw [stack, formed.matchesOf_eq exist spelled]
    exact spelled.ends formed exist
  · have stack : tree.stackOf id = [] := by
      rw [stackOf, node?_eq_none outside]
      rfl
    rw [stack, matchesOf_of_size_le outside]
    exact ⟨0, Nat.zero_le _, .stop []⟩

end WellFormed

theorem tagged_eq_flatMap (tree : Tree) (tag : String) :
    tree.tagged tag = (tree.matchesOf root).flatMap fun found => found.tagged tag := by
  rw [tagged, List.filter_flatMap]
  rfl

end Walks

/-- What is visited on a stack is what a recursion would visit. From a match the
visit gives the match and then what the visits of its children give, in order,
and ends there. The nodes that carry a tag are kept under it, all of them in that
order or the last of them, and nothing is kept under any other name. From a scope
of a well-formed tree the walk ends, without going into a scope that does not
exist, and reaches nothing more however long it may go on; it alone gives every
scope its history expanded in place. The nodes that carry a tag are found match by
match. -/
theorem stack_walks_are_recursions :
    (∀ found : Match,
      found.flatten = found :: found.children.flatMap Match.flatten ∧
      (∀ steps, Match.walk steps [found] = found.flatten.take steps) ∧
      (∀ tag, found.tagged tag = found.flatten.filter fun node => node.tag = some tag) ∧
      found.captures.names.Nodup ∧ found.lastCaptures.names.Nodup ∧
      (∀ tag, tag ∈ found.captures.names ↔ ∃ node ∈ found.flatten, node.tag = some tag) ∧
      (∀ tag, tag ∈ found.lastCaptures.names ↔ ∃ node ∈ found.flatten, node.tag = some tag) ∧
      (∀ tag ∈ found.captures.names, found.captures.get? tag = some (found.tagged tag)) ∧
      ∀ tag, found.lastCaptures.get? tag = (found.tagged tag).getLast?) ∧
    ∀ (known : String → Bool) (tree : Tree), tree.WellFormed known →
      (∀ id, ∃ turns ≤ tree.walkLength,
        tree.Runs turns (tree.stackOf id) (tree.matchesOf id) [] ∧
          ∀ more, tree.walk (turns + more) (tree.stackOf id) = tree.matchesOf id) ∧
      tree.Expands tree.matchesOf ∧
      (∀ expand, tree.Expands expand → expand = tree.matchesOf) ∧
      ∀ tag, tree.tagged tag = (tree.matchesOf root).flatMap fun found => found.tagged tag := by
  constructor
  · intro found
    refine ⟨found.flatten_eq_cons, fun steps => Match.walk_singleton steps found, ?_,
      Match.nodup_names_foldl_keep _ .nil, Match.nodup_names_foldl_keep _ .nil,
      fun _ => Match.mem_names_captures, fun _ => Match.mem_names_lastCaptures, ?_,
      found.get?_lastCaptures⟩
    · intro tag
      exact List.filter_congr fun node _ => Bool.beq_eq_decide_eq node.tag (some tag)
    · intro tag kept
      rw [Match.get?_captures, if_neg]
      exact Match.tagged_ne_nil_iff.mpr (Match.mem_names_captures.mp kept)
  · intro known tree formed
    refine ⟨?_, formed.expands, ?_, tree.tagged_eq_flatMap⟩
    · intro id
      obtain ⟨turns, inTime, runs⟩ := formed.exists_runs id
      exact ⟨turns, inTime, runs, runs.walk_of_ended⟩
    · intro expand expands
      exact formed.expands_unique expands formed.expands

/-- A list in a quote in the main scope, with a word before and a word after the
quote in the main scope. -/
theorem list_in_quote_is_read_in_place :
    let word (text tag : String) : Match := .leaf ⟨⟨0, 0⟩, ⟨0, 1⟩, some tag, text⟩ "." []
    let tree := (((((((Tree.ofRoot "main").save 0 (word "a" "word")).addChild 0 "quote").save 1
      (word "b" "word")).addChild 1 "list").save 2 (word "c" "item")).save 0 (word "d" "word"))
    tree.WellFormed (fun _ => true) ∧
      tree.matchesOf 1 = (tree.historyOf 1).flatMap (Element.expand tree.matchesOf) ∧
      (tree.matchesOf 1).map Match.text = ["b", "c"] ∧
      (tree.matchesOf root).map Match.text = ["a", "b", "c", "d"] ∧
      tree.tagged "word" = (tree.matchesOf root).flatMap (fun found => found.tagged "word") ∧
      (tree.tagged "word").map Match.text = ["a", "b", "d"] := by
  intro word tree
  have begun : (Tree.ofRoot "main").WellFormed fun _ => true := .ofRoot rfl
  have quote : (((Tree.ofRoot "main").save 0 (word "a" "word")).addChild 0 "quote").WellFormed
      fun _ => true := (begun.save 0 _).addChild (by decide) rfl
  have formed : tree.WellFormed fun _ => true :=
    (((quote.save 1 _).addChild (by decide) rfl).save 2 _).save 0 _
  obtain ⟨_, expands, _, tags⟩ := stack_walks_are_recursions.2 _ tree formed
  exact ⟨formed, expands 1, by decide +kernel, by decide +kernel, tags "word", by decide +kernel⟩

end Tree

end LineGrammar
