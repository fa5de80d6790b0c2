import LineGrammar.Proofs.Grammar.Compiled
import LineGrammar.Proofs.Session.Act

/-!
The shape of the tree in every session that a host can come to. Whatever is
asked of a session, in whatever order and whether it succeeds or fails, the tree
of its scopes stays in shape, and the open scopes can be read off the current
one.
-/

namespace LineGrammar.Session

variable {builder : Builder} {grammar : Grammar} {config : Config} {parse : Cursor → Outcome}
  {cursor : Cursor} {entered : Session}

theorem sound_of_build (built : builder.build = .ok grammar) :
    (begin (grammar.setting config parse) cursor).context.Sound := by
  apply begin_sound
  rw [show (grammar.setting config parse).scopes = grammar.strictness from rfl,
    grammar.has_strictness]
  exact Builder.main_of_build built

theorem scope_of_sound {session : Session} (sound : session.context.Sound)
    (scopes : session.context.setting.scopes = grammar.strictness) :
    ∃ scope, grammar.scope? session.context.scopeName = some scope := by
  have known := sound.formed.names _ sound.current
  rw [Context.knows, scopes, grammar.has_strictness] at known
  exact Option.isSome_iff_exists.mp known

theorem reached_acts (built : builder.build = .ok grammar)
    (entering : enter (begin (grammar.setting config parse) cursor) = .ok () entered)
    (requests : List Request) :
    Acts (begin (grammar.setting config parse) cursor) (entered.offeredByAll grammar requests)
      (entered.serveAll grammar requests) := by
  have opening : Acts (begin (grammar.setting config parse) cursor) [] entered := by
    have acts := enter_acts (begin (grammar.setting config parse) cursor)
    rwa [entering] at acts
  exact opening.trans (serveAll_acts grammar requests (opening.sound (sound_of_build built)))

theorem Acts.setting_eq {before after : Session} {offered : List Match}
    (acts : Acts before offered after) : after.context.setting = before.context.setting := by
  refine acts.keep (fun session => session.context.setting = before.context.setting) ?_ rfl
  intro session offered next act same
  cases act <;> exact same

/-- In every session that comes about by requests after the start scope of a
built grammar was entered, node 0 is the root and every other node has one parent
with a smaller number, one level higher, whose history alone names it, and names
it once. All names are scopes of the grammar. The current scope exists, the trace
leads from the main scope to it with one name for each level, and going up leads
along the trace as far as the root and no further. -/
theorem reached_tree_is_in_shape (builder : Builder) (grammar : Grammar)
    (built : builder.build = .ok grammar) (config : Config) (parse : Cursor → Outcome)
    (cursor : Cursor) (entered : Session)
    (entering : enter (begin (grammar.setting config parse) cursor) = .ok () entered)
    (requests : List Request) :
    let context := (entered.serveAll grammar requests).context
    context.tree.WellFormed grammar.contains ∧
      (∀ id, 0 < id → id < context.tree.size →
        ((List.range context.tree.size).flatMap context.tree.childrenOf).count id = 1) ∧
      (∀ id, ∀ child ∈ context.tree.childrenOf id, child < context.tree.size) ∧
      context.current < context.tree.size ∧
      context.trace.length = context.depth + 1 ∧
      context.trace.head? = some Context.mainScope ∧
      ∀ level, ((context.tree.ancestor? context.current level).isSome ↔ level ≤ context.depth) ∧
        ∀ upper, context.tree.ancestor? context.current level = some upper →
          context.tree.depthOf upper = context.depth - level ∧
          context.tree.trace upper = context.trace.take (context.depth - level + 1) := by
  intro context
  have acts := reached_acts built entering requests
  obtain ⟨formed, current⟩ := acts.sound (sound_of_build built)
  have known : context.knows = grammar.contains := by
    funext name
    rw [Context.knows, show context.setting = _ from acts.setting_eq]
    exact grammar.has_strictness name
  have formed' : context.tree.WellFormed grammar.contains := known ▸ formed
  refine ⟨formed', fun id => formed.named_once, ?_, current, (formed.trace_spec current).1,
    (formed.trace_spec current).2, ?_⟩
  · intro id child member
    exact Tree.lt_size_of_parentOf ((formed.below child id).mp member)
  · intro level
    rcases Nat.lt_or_ge context.depth level with beyond | within
    · have none := formed.ancestor_of_lt current beyond
      constructor
      · exact ⟨fun some => by simp [context, none] at some, fun within => by omega⟩
      · intro upper some
        cases none.symm.trans some
    · obtain ⟨upper, found, _, depth, trace⟩ := formed.ancestor_of_le current within
      constructor
      · exact ⟨fun _ => within, fun _ => by rw [found, Option.isSome_some]⟩
      · intro other some
        cases found.symm.trans some
        exact ⟨depth, trace⟩

/-- A host opens two scopes, renames the inner one, asks for more to be closed
than is open, and closes one. -/
theorem renamed_scope_stays_in_shape :
    let builder := ({} : Builder)
      |>.scope "main" [RuleSpec.always]
      |>.scope "list" [RuleSpec.always]
      |>.scope "item" [RuleSpec.always]
    let grammar : Grammar := ⟨[⟨"main", [.always], false⟩, ⟨"list", [.always], false⟩,
      ⟨"item", [.always], false⟩]⟩
    let session := begin (grammar.setting {} fun cursor => ⟨.error .exhausted, cursor, #[], #[]⟩)
      (.near (.ofLines ["a"]) .origin)
    let context := (session.serveAll grammar
      [.perform (.openScope "list"), .perform (.openScope "list"), .perform (.swapScope "item"),
        .perform (.closeScopes 3), .perform (.closeScopes 1), .matchRules]).context
    builder.build = .ok grammar ∧ enter session = .ok () session ∧
      context.tree.nodes.toList.map Node.name = ["main", "list", "item"] ∧
      context.trace = ["main", "list"] ∧ context.tree.WellFormed grammar.contains := by
  intro builder grammar session context
  have built : builder.build = .ok grammar := rfl
  have entering : enter session = .ok () session := rfl
  have shape := reached_tree_is_in_shape builder grammar built {} _ _ session entering
    [.perform (.openScope "list"), .perform (.openScope "list"), .perform (.swapScope "item"),
      .perform (.closeScopes 3), .perform (.closeScopes 1), .matchRules]
  exact ⟨built, entering, by decide +kernel, by decide +kernel, shape.1⟩

end LineGrammar.Session
