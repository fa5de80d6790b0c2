import LineGrammar.Proofs.Parser.Lockstep
import LineGrammar.Proofs.Scope.Erasure

/-!
What a session shows apart from the matches it has saved. Nothing that happens in
a session without the host depends on which matches were saved, on the one saved
last or on whether matches are recorded: operations go the same way in sessions
of the same outline and leave sessions of the same outline, and saving a match
does not change it.
-/

namespace LineGrammar

/-- Whether an event tells of anything but a match that was saved. -/
def Event.unsaved (event : Event) : Bool := event.channel != .saved

/-- A session apart from what it has saved and noted. -/
structure Outline where
  cursor : Cursor
  scopes : Table Bool
  /-- the settings, as if no matches were recorded -/
  config : Config
  tree : Tree
  current : Nat
  overrides : Table Bool
  events : List Event

namespace Session

def outline (session : Session) : Outline :=
  { cursor := session.cursor
    scopes := session.context.setting.scopes
    config := { session.context.setting.config with recordAll := false }
    tree := session.context.tree.unsaved
    current := session.context.current
    overrides := session.context.overrides
    events := session.events.toList.filter Event.unsaved }

def Similar (left right : Session) : Prop := left.outline = right.outline

namespace Similar

variable {left right : Session}

theorem refl (session : Session) : session.Similar session := Eq.refl session.outline

theorem symm (similar : left.Similar right) : right.Similar left := Eq.symm similar

theorem trans {other : Session} (first : left.Similar other) (second : other.Similar right) :
    left.Similar right := Eq.trans first second

theorem cursor (similar : left.Similar right) : left.cursor = right.cursor :=
  congrArg Outline.cursor similar

theorem scopes (similar : left.Similar right) :
    left.context.setting.scopes = right.context.setting.scopes :=
  congrArg Outline.scopes similar

theorem config (similar : left.Similar right) :
    { left.context.setting.config with recordAll := false } =
      { right.context.setting.config with recordAll := false } :=
  congrArg Outline.config similar

theorem tree (similar : left.Similar right) :
    left.context.tree.unsaved = right.context.tree.unsaved :=
  congrArg Outline.tree similar

theorem current (similar : left.Similar right) : left.context.current = right.context.current :=
  congrArg Outline.current similar

theorem overrides (similar : left.Similar right) :
    left.context.overrides = right.context.overrides :=
  congrArg Outline.overrides similar

theorem events (similar : left.Similar right) :
    left.events.toList.filter Event.unsaved = right.events.toList.filter Event.unsaved :=
  congrArg Outline.events similar

theorem size (similar : left.Similar right) :
    left.context.tree.size = right.context.tree.size := by
  have same := congrArg Tree.size similar.tree
  rwa [Tree.unsaved, Tree.unsaved, Tree.size_mapNodes, Tree.size_mapNodes] at same

theorem read {Answer : Type} {ask : Tree → Nat → Answer} (similar : left.Similar right)
    (erased : ∀ (tree : Tree) id, ask tree.unsaved id = ask tree id) :
    ask left.context.tree left.context.current = ask right.context.tree right.context.current := by
  rw [← erased, similar.tree, similar.current, erased]

theorem scopeName (similar : left.Similar right) :
    left.context.scopeName = right.context.scopeName :=
  similar.read Node.erasure_unsaved.nameOf

theorem depth (similar : left.Similar right) : left.context.depth = right.context.depth :=
  similar.read Node.erasure_unsaved.depthOf

theorem trace (similar : left.Similar right) : left.context.trace = right.context.trace :=
  similar.read Node.erasure_unsaved.trace

theorem parentOf (similar : left.Similar right) :
    left.context.tree.parentOf left.context.current =
      right.context.tree.parentOf right.context.current :=
  similar.read Node.erasure_unsaved.parentOf

theorem ancestor? (similar : left.Similar right) (level : Nat) :
    left.context.tree.ancestor? left.context.current level =
      right.context.tree.ancestor? right.context.current level :=
  @read left right (Option Nat) (fun tree id => tree.ancestor? id level) similar
    fun tree id => Node.erasure_unsaved.ancestor? tree id level

theorem valueOf? (similar : left.Similar right) (id : Nat) (name : String) :
    left.context.tree.valueOf? id name = right.context.tree.valueOf? id name := by
  rw [← Tree.valueOf?_unsaved, similar.tree, Tree.valueOf?_unsaved]

theorem knows (similar : left.Similar right) (scope : String) :
    left.context.knows scope = right.context.knows scope := by
  unfold Context.knows
  rw [similar.scopes]

theorem answers (similar : left.Similar right) : SameAnswers left right where
  position := by rw [similar.cursor]
  atEnd := by rw [similar.cursor]
  atLineEnd := by rw [similar.cursor]
  scopeName := similar.scopeName
  isStrict scope := by
    unfold Context.isStrict
    rw [similar.overrides, similar.scopes]
  fault cause := by
    unfold Context.fault
    rw [similar.trace]
  diagnose complaint := by
    unfold Context.diagnose
    rw [similar.trace, similar.cursor]
  maxStall := by
    have same := congrArg Config.maxStall similar.config
    exact same
  start := by
    have same := congrArg Config.start similar.config
    exact same
  stop := by
    have same := congrArg Config.stop similar.config
    exact same

/-! What keeps sessions similar. -/

theorem notes (similar : left.Similar right) (note note' : Note) :
    (left.note note).Similar (right.note note') := similar

theorem tell (similar : left.Similar right) (event : Event) :
    (left.publish event).Similar (right.publish event) := by
  have outline : left.outline = right.outline := similar
  have events : (left.events.push event).toList.filter Event.unsaved =
      (right.events.push event).toList.filter Event.unsaved := by
    rw [Array.toList_push, Array.toList_push, List.filter_append, List.filter_append,
      similar.events]
  change { left.outline with events := (left.events.push event).toList.filter Event.unsaved } =
    { right.outline with events := (right.events.push event).toList.filter Event.unsaved }
  rw [outline, events]

theorem move (similar : left.Similar right) (movement : Movement) :
    Similar { left with cursor := movement.apply left.cursor }
      { right with cursor := movement.apply right.cursor } := by
  have outline : left.outline = right.outline := similar
  change { left.outline with cursor := movement.apply left.cursor } =
    { right.outline with cursor := movement.apply right.cursor }
  rw [outline, similar.cursor]

theorem placed {tree tree' : Tree} {current current' : Nat} (similar : left.Similar right)
    (sameTree : tree.unsaved = tree'.unsaved) (sameCurrent : current = current') :
    Similar
      (left.mapContext fun context => { context with tree := tree, current := current })
      (right.mapContext fun context => { context with tree := tree', current := current' }) := by
  have outline : left.outline = right.outline := similar
  change { left.outline with tree := tree.unsaved, current := current } =
    { right.outline with tree := tree'.unsaved, current := current' }
  rw [outline, sameTree, sameCurrent]

theorem strictened (similar : left.Similar right) (scope : String) (strict : Bool) :
    Similar
      (left.mapContext fun context =>
        { context with overrides := context.overrides.set scope strict })
      (right.mapContext fun context =>
        { context with overrides := context.overrides.set scope strict }) := by
  have outline : left.outline = right.outline := similar
  change { left.outline with overrides := left.context.overrides.set scope strict } =
    { right.outline with overrides := right.context.overrides.set scope strict }
  rw [outline, similar.overrides]

theorem closeOne (similar : left.Similar right) : left.closeOne.Similar right.closeOne := by
  unfold Session.closeOne
  simp only [similar.scopeName, similar.depth]
  have told := similar.tell (.closed right.context.scopeName right.context.depth)
  have parent : (left.context.tree.parentOf left.context.current).getD left.context.current =
      (right.context.tree.parentOf right.context.current).getD right.context.current := by
    rw [similar.parentOf, similar.current]
  exact told.placed similar.tree parent

theorem closeTimes (similar : left.Similar right) (count : Nat) :
    (left.closeTimes count).Similar (right.closeTimes count) := by
  induction count generalizing left right with
  | zero => exact similar
  | succ count induction => exact induction similar.closeOne

end Similar

/-! Operations in similar sessions. -/

variable {left right : Session}

theorem save_similar (found : Match) (session : Session) :
    ∃ after, save found session = .ok () after ∧ session.Similar after := by
  unfold save
  split
  · exact ⟨session, rfl, .refl session⟩
  · refine ⟨_, rfl, ?_⟩
    have events : (session.events.push (.saved session.context.scopeName found)).toList.filter
        Event.unsaved = session.events.toList.filter Event.unsaved := by
      rw [Array.toList_push, List.filter_append]
      exact List.append_nil _
    change session.outline =
      { session.outline with
        tree := (session.context.tree.save session.context.current found).unsaved
        events := (session.events.push (.saved session.context.scopeName found)).toList.filter
          Event.unsaved }
    rw [Tree.unsaved_save, events]
    rfl

theorem refuse_related (cause : ScopeFault) (similar : left.Similar right) :
    Action.Related Similar (refuse cause left) (refuse cause right) := by
  unfold refuse
  rw [similar.answers.fault cause]
  exact .error _ similar

theorem save_related (found : Match) (similar : left.Similar right) :
    Action.Related Similar (save found left) (save found right) := by
  obtain ⟨_, here, before⟩ := save_similar found left
  obtain ⟨_, there, before'⟩ := save_similar found right
  rw [here, there]
  exact .ok () (before.symm.trans (similar.trans before'))

theorem openScope_related (scope : String) (similar : left.Similar right) :
    Action.Related Similar (openScope scope left) (openScope scope right) := by
  simp only [openScope, ← similar.knows scope]
  split
  · have tree : (left.context.tree.addChild left.context.current scope).unsaved =
        (right.context.tree.addChild right.context.current scope).unsaved := by
      unfold Tree.unsaved
      rw [Node.erasure_unsaved.addChild, Node.erasure_unsaved.addChild]
      exact congrArg₂ (fun tree current => Tree.addChild tree current scope) similar.tree
        similar.current
    have opened : Similar
        (left.mapContext fun context =>
          { context with
            tree := context.tree.addChild context.current scope
            current := context.tree.size })
        (right.mapContext fun context =>
          { context with
            tree := context.tree.addChild context.current scope
            current := context.tree.size }) := similar.placed tree similar.size
    simp only [← opened.depth]
    exact .ok () (opened.tell _)
  · exact refuse_related _ similar

theorem closeScopes_related (count : Nat) (similar : left.Similar right) :
    Action.Related Similar (closeScopes count left) (closeScopes count right) := by
  simp only [closeScopes, ← similar.depth]
  split
  · exact refuse_related _ similar
  · exact .ok () (similar.closeTimes count)

theorem swapScope_related (scope : String) (similar : left.Similar right) :
    Action.Related Similar (swapScope scope left) (swapScope scope right) := by
  simp only [swapScope, ← similar.depth, ← similar.knows scope]
  split
  · exact refuse_related _ similar
  · split
    · have tree : (left.context.tree.rename left.context.current scope).unsaved =
          (right.context.tree.rename right.context.current scope).unsaved := by
        unfold Tree.unsaved
        rw [Node.erasure_unsaved.renamed, Node.erasure_unsaved.renamed]
        exact congrArg₂ (fun tree current => Tree.rename tree current scope) similar.tree
          similar.current
      simp only [similar.scopeName]
      exact .ok () ((similar.tell _).placed tree similar.current)
    · exact refuse_related _ similar

theorem nextScope_related (scope : String) (count : Nat) (similar : left.Similar right) :
    Action.Related Similar (nextScope scope count left) (nextScope scope count right) := by
  obtain ⟨_, _, _, here, there, after⟩ | ⟨error, _, _, here, there, after⟩ :=
    (closeScopes_related count similar).outcomes
  · simp only [nextScope, bind, EStateM.bind, here, there]
    exact openScope_related scope after
  · simp only [nextScope, bind, EStateM.bind, here, there]
    exact .error error after

theorem changeVariable_related (name : String) (level : Nat)
    (change : Option Value → Except ScopeFault Value) (similar : left.Similar right) :
    Action.Related Similar (changeVariable name level change left)
      (changeVariable name level change right) := by
  simp only [changeVariable, ← similar.ancestor? level, ← similar.valueOf?, ← similar.depth]
  split
  · exact refuse_related _ similar
  · rename_i id _
    split
    · exact refuse_related _ similar
    · rename_i value _
      have tree : (left.context.tree.setVariable id name value).unsaved =
          (right.context.tree.setVariable id name value).unsaved := by
        rw [Tree.unsaved_setVariable, Tree.unsaved_setVariable, similar.tree]
      exact .ok () (similar.placed tree similar.current)

theorem setStrict_related (scope : String) (strict : Bool) (similar : left.Similar right) :
    Action.Related Similar (setStrict scope strict left) (setStrict scope strict right) := by
  simp only [setStrict, ← similar.knows scope]
  split
  · exact .ok () (similar.strictened scope strict)
  · exact refuse_related _ similar

theorem abandon_related (complaint : Complaint) (similar : left.Similar right) :
    Action.Related Similar (abandon complaint left : EStateM.Result Error Session Unit)
      (abandon complaint right) := by
  simp only [abandon, similar.answers.diagnose complaint]
  exact .error _ similar

end Session

variable {left right : Session}

theorem Operation.run_related (operation : Operation) (similar : left.Similar right) :
    Action.Related Session.Similar (operation.run left) (operation.run right) := by
  cases operation with
  | save found => exact Session.save_related found similar
  | openScope scope => exact Session.openScope_related scope similar
  | closeScopes count => exact Session.closeScopes_related count similar
  | swapScope scope => exact Session.swapScope_related scope similar
  | nextScope scope count => exact Session.nextScope_related scope count similar
  | define name value level =>
      simp only [run, Session.define]
      exact Session.changeVariable_related name level _ similar
  | add name amount level =>
      simp only [run, Session.add]
      exact Session.changeVariable_related name level _ similar
  | append name value level =>
      simp only [run, Session.append]
      exact Session.changeVariable_related name level _ similar
  | setStrict scope strict => exact Session.setStrict_related scope strict similar
  | move movement => exact .ok () (similar.move movement)
  | abandon message => exact Session.abandon_related _ similar

end LineGrammar
