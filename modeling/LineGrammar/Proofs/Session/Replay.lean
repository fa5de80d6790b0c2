import LineGrammar.Proofs.Scope.Erasure
import LineGrammar.Proofs.Session.Shape

/-!
Replaying events. Who hears of every event from the beginning on can build the
tree of scopes for himself: he starts with a main scope, opens, closes and
renames scopes and saves matches as he is told, and checks that what he is told
of the current scope is true of his own. Nothing he is told ever contradicts
what he has, and in the end he has the tree of the session but for its
variables.
-/

namespace LineGrammar

def Node.bare (node : Node) : Node := { node with bindings := [] }

theorem Node.erasure_bare : Node.Erasure Node.bare where
  name _ := rfl
  parent _ := rfl
  depth _ := rfl
  fresh _ _ _ := rfl
  rename _ _ := rfl
  child _ _ := rfl

namespace Tree

def bare (tree : Tree) : Tree := ⟨tree.nodes.map Node.bare⟩

variable (tree : Tree)

@[simp]
theorem size_bare : tree.bare.size = tree.size := tree.size_mapNodes

@[simp]
theorem nameOf_bare (id : Nat) : tree.bare.nameOf id = tree.nameOf id :=
  Node.erasure_bare.nameOf tree id

@[simp]
theorem depthOf_bare (id : Nat) : tree.bare.depthOf id = tree.depthOf id :=
  Node.erasure_bare.depthOf tree id

@[simp]
theorem parentOf_bare (id : Nat) : tree.bare.parentOf id = tree.parentOf id :=
  Node.erasure_bare.parentOf tree id

theorem bare_ofRoot (name : String) : (ofRoot name).bare = ofRoot name :=
  Node.erasure_bare.ofRoot name

theorem bare_save (id : Nat) (found : Match) :
    (tree.save id found).bare = tree.bare.save id found := by
  apply mapNodes_update
  intro node
  rfl

theorem bare_rename (id : Nat) (name : String) :
    (tree.rename id name).bare = tree.bare.rename id name :=
  Node.erasure_bare.renamed tree id name

theorem bare_addChild (parent : Nat) (name : String) :
    (tree.addChild parent name).bare = tree.bare.addChild parent name :=
  Node.erasure_bare.addChild tree parent name

theorem bare_setVariable (id : Nat) (name : String) (value : Value) :
    (tree.setVariable id name value).bare = tree.bare := by
  apply mapNodes_update_of_erased
  intro node
  rfl

end Tree

/-- What a listener has made of the events so far. -/
structure Replay where
  tree : Tree
  current : Nat
  deriving DecidableEq, Repr

namespace Replay

def start : Replay := ⟨.ofRoot Context.mainScope, Tree.root⟩

/-- Does what an event tells, or nothing if the event does not fit. -/
def step (replay : Replay) : Event → Option Replay
  | .opened scope depth =>
      let next : Replay :=
        ⟨replay.tree.addChild replay.current scope, replay.tree.size⟩
      if next.tree.depthOf next.current = depth then some next else none
  | .closed scope depth =>
      if replay.tree.nameOf replay.current = scope ∧ replay.tree.depthOf replay.current = depth then
        (replay.tree.parentOf replay.current).map fun parent => { replay with current := parent }
      else none
  | .swapped old new =>
      if replay.tree.nameOf replay.current = old then
        some { replay with tree := replay.tree.rename replay.current new }
      else none
  | .saved scope found =>
      if replay.tree.nameOf replay.current = scope then
        some { replay with tree := replay.tree.save replay.current found }
      else none
  | .matched .. | .lineBegun _ | .lineEnded _ => some replay

def run (events : List Event) : Option Replay := events.foldlM step start

theorem run_push {events : Array Event} {replay : Replay} (event : Event)
    (sofar : run events.toList = some replay) :
    run (events.push event).toList = replay.step event := by
  unfold run at *
  rw [Array.toList_push, List.foldlM_append, sofar]
  cases told : replay.step event <;> simp [told]

end Replay

namespace Session

/-- What a listener should have made of the events of a session: its tree without
variables, and its current scope. -/
def replay (session : Session) : Replay := ⟨session.context.tree.bare, session.context.current⟩

def Replayed (session : Session) : Prop := Replay.run session.events.toList = some session.replay

variable {before after : Session} {offered : List Match}

theorem step_of_plain {event : Event} (plain : event.ofScopes = false) (replay : Replay) :
    replay.step event = some replay := by
  cases event with
  | matched scope rule found => rfl
  | lineBegun position => rfl
  | lineEnded position => rfl
  | _ => cases plain

/-- Every act is told by an event that fits, or has nothing to do with the
scopes. -/
theorem Act.replayed (act : Act before offered after) (replayed : before.Replayed) :
    after.Replayed := by
  unfold Replayed at *
  cases act with
  | aside cursor notes => exact replayed
  | again found last => exact replayed
  | setStrict scope strict => exact replayed
  | setVariable id name value =>
      rw [replayed, replay, replay, Tree.bare_setVariable]
  | tell event plain => exact (Replay.run_push event replayed).trans (step_of_plain plain _)
  | save found fresh =>
      rw [Replay.run_push _ replayed]
      simp only [Replay.step, replay, Tree.nameOf_bare, Context.scopeName, if_true, Tree.bare_save]
  | openScope scope known =>
      rw [Replay.run_push _ replayed]
      simp only [Replay.step, replay, ← Tree.bare_addChild, Tree.size_bare, Tree.depthOf_bare,
        if_true]
  | closeScope parent above =>
      rw [Replay.run_push _ replayed]
      simp only [Replay.step, replay, Tree.nameOf_bare, Tree.depthOf_bare, Tree.parentOf_bare,
        Context.scopeName, Context.depth, and_self, if_true, above, Option.map_some]
  | swapScope scope inner known =>
      rw [Replay.run_push _ replayed]
      simp only [Replay.step, replay, Tree.nameOf_bare, Context.scopeName, if_true,
        Tree.bare_rename]

/-- In every session that comes about by requests after the start scope of a
built grammar was entered, the events from the beginning on fit one after the
other, and replaying them gives the tree without its variables and the current
scope. -/
theorem events_replay_to_tree (builder : Builder) (grammar : Grammar)
    (built : builder.build = .ok grammar) (config : Config) (parse : Cursor → Outcome)
    (cursor : Cursor) (entered : Session)
    (entering : enter (begin (grammar.setting config parse) cursor) = .ok () entered)
    (requests : List Request) :
    (entered.serveAll grammar requests).Replayed := by
  have begun : (begin (grammar.setting config parse) cursor).Replayed :=
    congrArg (fun tree => some (Replay.mk tree Tree.root)) (Tree.bare_ofRoot _).symm
  exact (reached_acts built entering requests).keep Replayed (fun _ _ _ act => act.replayed) begun

/-- A parse starts in a list; the host opens an item, sets a variable, renames
the item and goes on to the next one. -/
theorem next_item_is_replayed :
    let builder := ({} : Builder)
      |>.scope "main" [RuleSpec.always]
      |>.scope "list" [RuleSpec.always]
      |>.scope "item" [RuleSpec.always]
    let grammar : Grammar := ⟨[⟨"main", [.always], false⟩, ⟨"list", [.always], false⟩,
      ⟨"item", [.always], false⟩]⟩
    let session := begin (grammar.setting { start := "list" }
      fun cursor => ⟨.error .exhausted, cursor, #[], #[]⟩) (.near (.ofLines ["a"]) .origin)
    let entered := Action.final (enter session)
    let requests : List Request :=
      [.perform (.openScope "item"), .perform (.define "mark" (.text "-") 1),
        .perform (.swapScope "list"), .perform (.nextScope "item" 1), .makeRound,
        .perform (.closeScopes 2)]
    let reached := entered.serveAll grammar requests
    builder.build = .ok grammar ∧ enter session = .ok () entered ∧
      reached.context.tree.nodes.toList.map Node.depth = [0, 1, 2, 2] ∧
      reached.context.current = Tree.root ∧
      reached.events.toList.map Event.channel =
        [.opened, .opened, .swapped, .closed, .opened, .lineBegun, .matched, .closed, .closed] ∧
      reached.Replayed := by
  intro builder grammar session entered requests reached
  have built : builder.build = .ok grammar := rfl
  have entering : enter session = .ok () entered := rfl
  have replayed := events_replay_to_tree builder grammar built { start := "list" } _ _ entered
    entering requests
  exact ⟨built, entering, by decide +kernel, by decide +kernel, by decide +kernel, replayed⟩

end Session

end LineGrammar
