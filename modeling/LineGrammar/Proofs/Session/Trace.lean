import LineGrammar.Proofs.Scope.Erasure
import LineGrammar.Proofs.Session.Act
import LineGrammar.Proofs.Table

/-!
What operations do to the open scopes. Opening a scope puts its name at the end
of the trace, closing one takes the last name off, and the other operations leave
the trace alone; a new scope has no variables, and setting a variable of the
current scope changes no other. All of them succeed under the conditions that a
host can read off the trace.
-/

namespace LineGrammar

def Action.Succeeds (outcome : EStateM.Result Error Session Unit) (holds : Session → Prop) :
    Prop :=
  ∃ after, outcome = .ok () after ∧ holds after

theorem Action.Succeeds.imp {outcome : EStateM.Result Error Session Unit}
    {holds holds' : Session → Prop} (succeeds : Action.Succeeds outcome holds)
    (implies : ∀ after, holds after → holds' after) : Action.Succeeds outcome holds' := by
  obtain ⟨after, ran, held⟩ := succeeds
  exact ⟨after, ran, implies after held⟩

theorem Rule.succeeds_cons {found : Match} {callback : Callback} {later : List Callback}
    {session : Session} {holds : Session → Prop}
    (succeeds : Action.Succeeds (callback.run found session) fun next =>
      Action.Succeeds (runCallbacks found later next) holds) :
    Action.Succeeds (runCallbacks found (callback :: later) session) holds := by
  obtain ⟨next, first, after, rest, held⟩ := succeeds
  refine ⟨after, ?_, held⟩
  simp only [runCallbacks, first, rest]

theorem Rule.runCallbacks_one (found : Match) (callback : Callback) (session : Session) :
    runCallbacks found [callback] session = callback.run found session := by
  simp only [runCallbacks]
  cases callback.run found session <;> rfl

theorem Rule.succeeds_one {found : Match} {callback : Callback} {session : Session}
    {holds : Session → Prop} (succeeds : Action.Succeeds (callback.run found session) holds) :
    Action.Succeeds (runCallbacks found [callback] session) holds := by
  rw [runCallbacks_one]
  exact succeeds

theorem Script.succeeds_act {operation : Operation} {next : Script} {session : Session}
    {holds : Session → Prop}
    (succeeds : Action.Succeeds (operation.run session) fun after =>
      Action.Succeeds (next.run after) holds) :
    Action.Succeeds ((Script.act operation next).run session) holds := by
  obtain ⟨middle, first, after, rest, held⟩ := succeeds
  refine ⟨after, ?_, held⟩
  simp only [act, run, first, rest]

theorem Script.succeeds_parseThen {lines : List String} {next : Tree → Script} {session : Session}
    {holds : Session → Prop} {tree : Tree}
    (parsed : (session.context.setting.nested lines).result = .ok tree)
    (succeeds : ∀ notes,
      Action.Succeeds ((next tree).run { session with notes := notes }) holds) :
    Action.Succeeds ((Script.parseThen lines next).run session) holds := by
  simp only [parseThen, run, parsed]
  exact succeeds _

namespace Tree

variable {tree tree' : Tree} {known known' : String → Bool} {id : Nat}

theorem WellFormed.trace_congr (formed : tree.WellFormed known) (formed' : tree'.WellFormed known')
    (bound : tree.size ≤ tree'.size)
    (names : ∀ id < tree.size, tree'.nameOf id = tree.nameOf id)
    (parents : ∀ id < tree.size, tree'.parentOf id = tree.parentOf id)
    (old : id < tree.size) : tree'.trace id = tree.trace id := by
  induction id using Nat.strongRecOn with
  | ind id induction =>
      rw [formed.trace_eq old, formed'.trace_eq (Nat.lt_of_lt_of_le old bound), names id old,
        parents id old]
      cases above : tree.parentOf id with
      | none => rfl
      | some parent =>
          obtain ⟨less, _⟩ := formed.parent_lt above
          rw [Option.elim_some, Option.elim_some,
            induction parent less (Nat.lt_trans less old)]

theorem trace_update {change : Node → Node} (formed : tree.WellFormed known)
    (formed' : (tree.update id change).WellFormed known)
    (names : ∀ node, (change node).name = node.name)
    (parents : ∀ node, (change node).parent = node.parent) {other : Nat}
    (old : other < tree.size) : (tree.update id change).trace other = tree.trace other := by
  apply formed.trace_congr formed' (Nat.le_of_eq (size_update id change).symm)
  · intro node _
    rw [nameOf_eq, nameOf_eq, view_update names]
  · intro node _
    exact parentOf_update parents id node
  · exact old

theorem trace_addChild {parent : Nat} {name : String} (formed : tree.WellFormed known)
    (old : parent < tree.size) (isKnown : known name = true) :
    (tree.addChild parent name).trace tree.size = tree.trace parent ++ [name] := by
  have formed' := formed.addChild old isKnown
  have above : (tree.addChild parent name).parentOf tree.size = some parent := by
    rw [parentOf, node?_addChild_size]
    rfl
  have named : (tree.addChild parent name).nameOf tree.size = name := by
    rw [nameOf, node?_addChild_size]
    rfl
  rw [formed'.trace_child above, named]
  congr 1
  apply formed.trace_congr formed'
  · rw [size_addChild]
    exact Nat.le_succ _
  · intro id inside
    rw [nameOf_eq, nameOf_eq, view_addChild_of_lt (fun _ _ => rfl) parent name inside]
  · intro id inside
    rw [parentOf_eq, parentOf_eq, view_addChild_of_lt (fun _ _ => rfl) parent name inside]
  · exact old

theorem valueOf?_eq (tree : Tree) (id : Nat) (name : String) :
    tree.valueOf? id name =
      ((tree.node? id).map Node.bindings).bind fun bindings => bindings.get? name := by
  rw [valueOf?, Option.bind_map]
  rfl

theorem valueOf?_setVariable (old : id < tree.size) (name other : String) (value : Value) :
    (tree.setVariable id name value).valueOf? id other =
      if other = name then some value else tree.valueOf? id other := by
  obtain ⟨node, found⟩ := exists_node old
  rw [valueOf?, valueOf?, setVariable, node?_update, if_pos rfl, found]
  exact Table.get?_set node.bindings name other value

theorem valueOf?_setVariable_of_ne {other : Nat} {name key : String} {value : Value}
    (different : id = other → key ≠ name) :
    (tree.setVariable id name value).valueOf? other key = tree.valueOf? other key := by
  rw [valueOf?, valueOf?, setVariable, node?_update]
  split
  · rename_i same
    cases found : tree.node? other with
    | none => rfl
    | some node =>
        exact (Table.get?_set node.bindings name key value).trans (if_neg (different same))
  · rfl

theorem nameOf_setVariable (id other : Nat) (name : String) (value : Value) :
    (tree.setVariable id name value).nameOf other = tree.nameOf other := by
  have kept : ∀ node : Node, (node.setVariable name value).name = node.name := fun _ => rfl
  rw [nameOf_eq, nameOf_eq, setVariable, view_update kept]

theorem parentOf_setVariable (id other : Nat) (name : String) (value : Value) :
    (tree.setVariable id name value).parentOf other = tree.parentOf other := by
  apply parentOf_update
  intro node
  rfl

theorem valueOf?_addChild_of_lt {parent other : Nat} {name : String} (key : String)
    (old : other < tree.size) :
    (tree.addChild parent name).valueOf? other key = tree.valueOf? other key := by
  rw [valueOf?_eq, valueOf?_eq, view_addChild_of_lt (fun _ _ => rfl) parent name old]

theorem valueOf?_addChild_size {parent : Nat} {name : String} (key : String) :
    (tree.addChild parent name).valueOf? tree.size key = none := by
  rw [valueOf?, node?_addChild_size]
  rfl

end Tree

namespace Context

variable {context : Context} {outer : List String} {inner : String}

theorem Sound.length_trace (sound : context.Sound) : context.trace.length = context.depth + 1 :=
  (sound.formed.trace_spec sound.current).1

theorem Sound.scopeName_eq (sound : context.Sound) (opened : context.trace = outer ++ [inner]) :
    context.scopeName = inner := by
  have last := sound.formed.trace_eq sound.current
  rw [show context.tree.trace context.current = outer ++ [inner] from opened] at last
  exact (List.append_inj' last rfl).2 |> List.singleton_inj.mp |>.symm

theorem Sound.current_eq_root (sound : context.Sound) (opened : context.trace = [inner]) :
    context.current = Tree.root := by
  have length := sound.length_trace
  rw [opened, List.length_singleton] at length
  rcases Nat.eq_zero_or_pos context.current with root | positive
  · exact root
  · obtain ⟨parent, _, _, deeper⟩ := sound.formed.above _ positive sound.current
    rw [depth, deeper] at length
    omega

theorem Sound.parent_eq_root {main : String} (sound : context.Sound)
    (opened : context.trace = [main, inner]) :
    context.tree.parentOf context.current = some Tree.root := by
  have length := sound.length_trace
  rw [opened, List.length_cons, List.length_singleton] at length
  obtain ⟨parent, above⟩ := sound.formed.exists_parent
    (show context.tree.depthOf context.current ≠ 0 by rw [depth] at length; omega) sound.current
  have old := Nat.lt_trans (sound.formed.parent_lt above).1 sound.current
  have outer := sound.formed.trace_child above
  rw [show context.tree.trace context.current = [main] ++ [inner] from opened] at outer
  have root : parent = Tree.root :=
    @Sound.current_eq_root { context with current := parent } main ⟨sound.formed, old⟩
      (List.append_inj' outer rfl).1.symm
  rw [above, root]

end Context

namespace Session

/-- Whether the cursor, the setting and the strictness of the scopes are as
before, and the tree is still in shape. -/
structure Beside (before after : Session) : Prop where
  cursor : after.cursor = before.cursor
  setting : after.context.setting = before.context.setting
  overrides : after.context.overrides = before.context.overrides
  sound : after.context.Sound

/-- Whether moreover the scopes are the same, with the same variables, and the same
one is current. -/
structure Unmoved (before after : Session) : Prop extends before.Beside after where
  tree : after.context.tree.unsaved = before.context.tree.unsaved
  current : after.context.current = before.context.current

theorem Beside.trans {first second third : Session} (early : first.Beside second)
    (late : second.Beside third) : first.Beside third :=
  ⟨late.cursor.trans early.cursor, late.setting.trans early.setting,
    late.overrides.trans early.overrides, late.sound⟩

theorem Unmoved.trans {first second third : Session} (early : first.Unmoved second)
    (late : second.Unmoved third) : first.Unmoved third :=
  ⟨early.toBeside.trans late.toBeside, late.tree.trans early.tree,
    late.current.trans early.current⟩

theorem Unmoved.trace {before after : Session} (same : before.Unmoved after) :
    after.context.trace = before.context.trace := by
  unfold Context.trace
  rw [← Node.erasure_unsaved.trace after.context.tree,
    ← Node.erasure_unsaved.trace before.context.tree, same.current]
  exact congrArg (fun tree : Tree => tree.trace before.context.current) same.tree

variable {session : Session} (sound : session.context.Sound)

include sound

theorem unmoved_aside (events : Array Event) (notes : Array Note) :
    session.Unmoved { session with events := events, notes := notes } :=
  ⟨⟨rfl, rfl, rfl, sound⟩, rfl, rfl⟩

theorem openScope_here {scope : String} (known : session.context.knows scope = true) :
    Action.Succeeds (openScope scope session) fun after => session.Beside after ∧
      after.context.trace = session.context.trace ++ [scope] ∧
      after.context.tree = session.context.tree.addChild session.context.current scope ∧
      after.context.current = session.context.tree.size := by
  have kept := (openScope_acts scope session).sound sound
  have trace := Tree.trace_addChild sound.formed sound.current known
  simp only [openScope, if_pos known] at kept ⊢
  exact ⟨_, rfl, ⟨rfl, rfl, rfl, kept⟩, trace, rfl, rfl⟩

theorem closeScopes_one {outer : List String} {inner : String}
    (opened : session.context.trace = outer ++ [inner]) (nested : outer ≠ []) :
    Action.Succeeds (closeScopes 1 session) fun after => session.Beside after ∧
      after.context.trace = outer ∧ after.context.tree = session.context.tree ∧
      session.context.tree.parentOf session.context.current = some after.context.current := by
  have positive := List.length_pos_of_ne_nil nested
  have length := sound.length_trace
  rw [opened, List.length_append, List.length_singleton] at length
  have deep : session.context.depth ≠ 0 := by omega
  obtain ⟨parent, above⟩ := sound.formed.exists_parent deep sound.current
  obtain ⟨acts, closed⟩ := closeOne_acts above
  have parted := sound.formed.trace_child above
  rw [show session.context.tree.trace session.context.current = outer ++ [inner] from opened]
    at parted
  refine ⟨session.closeOne, ?_, ⟨rfl, ?_, ?_, acts.sound sound⟩, ?_, ?_, ?_⟩
  · simp only [closeScopes, if_neg (show ¬session.context.depth < 1 by omega)]
    rfl
  · rw [closed]
  · rw [closed]
  · rw [closed]
    exact (List.append_inj' parted rfl).1.symm
  · rw [closed]
  · rw [closed]
    exact above

theorem save_here (found : Match) :
    Action.Succeeds (save found session) session.Unmoved := by
  have kept := (save_acts found session).sound sound
  unfold save at kept ⊢
  split
  · exact ⟨session, rfl, unmoved_aside sound session.events session.notes⟩
  · rename_i fresh
    rw [if_neg fresh] at kept
    exact ⟨_, rfl, ⟨⟨rfl, rfl, rfl, kept⟩, Tree.unsaved_save _ _ _, rfl⟩⟩

theorem changeVariable_above {name : String} {level id : Nat} {value : Value}
    {change : Option Value → Except ScopeFault Value}
    (above : session.context.tree.ancestor? session.context.current level = some id)
    (changed : change (session.context.tree.valueOf? id name) = .ok value) :
    Action.Succeeds (changeVariable name level change session) fun after =>
      session.Beside after ∧ after.context.trace = session.context.trace ∧
      after.context.tree = session.context.tree.setVariable id name value ∧
      after.context.current = session.context.current := by
  have kept := (changeVariable_acts name level change session).sound sound
  simp only [changeVariable, above, changed] at kept ⊢
  refine ⟨_, rfl, ⟨rfl, rfl, rfl, kept⟩, ?_, rfl, rfl⟩
  exact Tree.trace_update sound.formed kept.formed (fun _ => rfl) (fun _ => rfl) sound.current

theorem changeVariable_here {name : String} {value : Value}
    {change : Option Value → Except ScopeFault Value}
    (changed : change (session.context.valueOf? name 0) = .ok value) :
    Action.Succeeds (changeVariable name 0 change session) fun after => session.Beside after ∧
      after.context.trace = session.context.trace ∧
      after.context.tree = session.context.tree.setVariable session.context.current name value ∧
      after.context.current = session.context.current :=
  changeVariable_above sound rfl changed

theorem define_here (name : String) (value : Value) :
    Action.Succeeds (define name value 0 session) fun after => session.Beside after ∧
      after.context.trace = session.context.trace ∧
      after.context.tree = session.context.tree.setVariable session.context.current name value ∧
      after.context.current = session.context.current :=
  changeVariable_here sound rfl

end Session

end LineGrammar
