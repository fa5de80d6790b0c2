import LineGrammar.Proofs.Session.Guard

/-!
Going on to another scope. The scopes before it are closed first and only then is
it asked whether the grammar has the new one, so unlike the other operations this
one may fail half way: the tree is as before, but the scopes stay closed and that
was told. If more scopes are to be closed than are open, nothing happens at all.
-/

namespace LineGrammar.Session

variable {grammar : Grammar} {session : Session}

theorem nextScope_cases (belongs : session.Belongs grammar) (scope : String) (count : Nat) :
    (session.context.depth < count ∧
      ∃ error, nextScope scope count session = .error error session) ∨
    (count ≤ session.context.depth ∧ grammar.contains scope = false ∧
      ∃ error closed, nextScope scope count session = .error error closed ∧
        session.Closes count closed) ∨
    (count ≤ session.context.depth ∧ grammar.contains scope = true ∧
      ∃ closed after, nextScope scope count session = .ok () after ∧
        session.Closes count closed ∧ closed.Opens scope closed.context.current after) := by
  have closing := closeScopes_checked belongs.sound count
  rcases Nat.lt_or_ge session.context.depth count with beyond | within
  · obtain ⟨error, failed⟩ := closing.error_of_refused beyond
    refine .inl ⟨beyond, error, ?_⟩
    simp only [nextScope, bind, EStateM.bind, failed]
  · obtain ⟨closed, ran, closes⟩ := closing.ok_of_allowed (Nat.not_lt.mpr within)
    have acts := closeScopes_acts count belongs.sound
    rw [ran] at acts
    have opening := openScope_checked (acts.belongs belongs) scope
    have next : nextScope scope count session = openScope scope closed := by
      simp only [nextScope, bind, EStateM.bind, ran]
    rw [next]
    cases contained : grammar.contains scope with
    | false =>
        obtain ⟨error, failed⟩ := opening.error_of_refused contained
        exact .inr (.inl ⟨within, rfl, error, closed, failed, closes⟩)
    | true =>
        obtain ⟨after, opened, opens⟩ := opening.ok_of_allowed (by simp [contained])
        exact .inr (.inr ⟨within, rfl, closed, after, opened, closes, opens⟩)

theorem Closes.tree_eq {count : Nat} {after : Session} (closes : session.Closes count after) :
    after.context.tree = session.context.tree := by
  obtain ⟨id, _, context⟩ := closes.up
  rw [context]

theorem Closes.eq_of_zero {after : Session} (closes : session.Closes 0 after) :
    after.context = session.context ∧ after.events = session.events := by
  obtain ⟨⟨id, up, context⟩, _, ⟨told, heard, none, _⟩, _⟩ := closes
  cases up
  rw [List.eq_nil_of_length_eq_zero none, List.append_nil] at heard
  exact ⟨context, Array.toList_inj.mp heard⟩

/-- What was opened after some scopes had been closed is a new scope below the
one so many levels up. -/
theorem Closes.opens {scope : String} {count : Nat} {closed after : Session}
    (closes : session.Closes count closed)
    (opens : closed.Opens scope closed.context.current after) :
    ∃ parent, session.context.tree.ancestor? session.context.current count = some parent ∧
      after.context.depth = session.context.depth - count + 1 ∧
      session.context.tree.node? after.context.current = none ∧
      after.context.scopeName = scope ∧
      after.context.tree.parentOf after.context.current = some parent := by
  have tree := closes.tree_eq
  have depth := closes.depth
  obtain ⟨parent, up, context⟩ := closes.up
  obtain ⟨fresh, named, below, deeper, _⟩ := opens
  have current : closed.context.current = parent := by rw [context]
  rw [tree] at fresh
  rw [current] at below
  refine ⟨parent, up, ?_, fresh, named, below⟩
  rw [← Context.depth] at deeper
  omega

/-- In every session that comes about by requests after the start scope of a built
grammar was entered, going on to another scope fails exactly if more scopes are to
be closed than the depth is or the grammar does not have the new one. If it fails,
the tree is as before. So are the current scope and the events if too many scopes
were to be closed, or none; otherwise the scopes have been closed, and nothing else
has happened. If it succeeds, the current scope is a new one with the given name
below the scope so many levels up. -/
theorem next_closes_before_it_opens (builder : Builder) (grammar : Grammar)
    (built : builder.build = .ok grammar) (config : Config) (parse : Cursor → Outcome)
    (cursor : Cursor) (entered : Session)
    (entering : enter (begin (grammar.setting config parse) cursor) = .ok () entered)
    (requests : List Request) (scope : String) (count : Nat) :
    let session := entered.serveAll grammar requests
    let depth := session.context.depth
    ((∃ error after, nextScope scope count session = .error error after) ↔
      depth < count ∨ grammar.contains scope = false) ∧
    (∀ error after, nextScope scope count session = .error error after →
      after.context.tree = session.context.tree ∧
      (depth < count → after = session) ∧
      (count = 0 → after.context = session.context ∧ after.events = session.events) ∧
      (count ≤ depth → session.Closes count after)) ∧
    ∀ after, nextScope scope count session = .ok () after →
      ∃ parent, session.context.tree.ancestor? session.context.current count = some parent ∧
        after.context.depth = depth - count + 1 ∧
        session.context.tree.node? after.context.current = none ∧
        after.context.scopeName = scope ∧
        after.context.tree.parentOf after.context.current = some parent := by
  intro session depth
  rcases nextScope_cases (reached_belongs built entering requests) scope count with
    ⟨beyond, error, failed⟩ | ⟨within, unknown, error, closed, failed, closes⟩ |
      ⟨within, known, closed, after, ran, closes, opens⟩
  · refine ⟨⟨fun _ => .inl beyond, fun _ => ⟨error, _, failed⟩⟩, ?_, ?_⟩
    · intro error' after failed'
      cases failed.symm.trans failed'
      exact ⟨rfl, fun _ => rfl, fun _ => ⟨rfl, rfl⟩,
        fun within => absurd beyond (Nat.not_lt.mpr within)⟩
    · intro after ran
      cases failed.symm.trans ran
  · refine ⟨⟨fun _ => .inr unknown, fun _ => ⟨error, closed, failed⟩⟩, ?_, ?_⟩
    · intro error' after failed'
      cases failed.symm.trans failed'
      refine ⟨closes.tree_eq, fun beyond => absurd within (Nat.not_le.mpr beyond), ?_,
        fun _ => closes⟩
      intro none
      rw [none] at closes
      exact closes.eq_of_zero
    · intro after ran
      cases failed.symm.trans ran
  · refine ⟨⟨?_, ?_⟩, ?_, ?_⟩
    · rintro ⟨error, after', failed⟩
      cases ran.symm.trans failed
    · rintro (beyond | unknown)
      · exact absurd within (Nat.not_le.mpr beyond)
      · cases known.symm.trans unknown
    · intro error after' failed
      cases ran.symm.trans failed
    · intro after' ran'
      cases ran.symm.trans ran'
      exact closes.opens opens

theorem second_item_follows_first :
    let builder := ({} : Builder)
      |>.scope "main" [RuleSpec.always]
      |>.scope "list" [RuleSpec.always]
      |>.scope "item" [RuleSpec.always]
    let grammar : Grammar := ⟨[⟨"main", [.always], false⟩, ⟨"list", [.always], false⟩,
      ⟨"item", [.always], false⟩]⟩
    let session := begin (grammar.setting {} fun cursor => ⟨.error .exhausted, cursor, #[], #[]⟩)
      (.near (.ofLines ["a"]) .origin)
    let reached := session.serveAll grammar
      [.perform (.openScope "list"), .perform (.openScope "item")]
    builder.build = .ok grammar ∧ enter session = .ok () session ∧
      reached.context.trace = ["main", "list", "item"] ∧
      ∃ after parent, nextScope "item" 1 reached = .ok () after ∧
        reached.context.tree.ancestor? reached.context.current 1 = some parent ∧
        after.context.depth = 2 ∧
        reached.context.tree.node? after.context.current = none ∧
        after.context.tree.parentOf after.context.current = some parent := by
  intro builder grammar session reached
  have built : builder.build = .ok grammar := rfl
  have entering : enter session = .ok () session := rfl
  have next := next_closes_before_it_opens builder grammar built {} _ _ session entering
    [.perform (.openScope "list"), .perform (.openScope "item")] "item" 1
  obtain ⟨parent, up, depth, fresh, _, below⟩ := next.2.2 _ rfl
  exact ⟨built, entering, by decide +kernel, _, parent, rfl, up, depth, fresh, below⟩

/-- A host goes on from an item to a scope that the grammar does not have. That
fails, but the item has been closed by then, and that was told. -/
theorem unknown_next_scope_ends_item :
    let builder := ({} : Builder)
      |>.scope "main" [RuleSpec.always]
      |>.scope "item" [RuleSpec.always]
    let grammar : Grammar := ⟨[⟨"main", [.always], false⟩, ⟨"item", [.always], false⟩]⟩
    let session := begin (grammar.setting {} fun cursor => ⟨.error .exhausted, cursor, #[], #[]⟩)
      (.near (.ofLines ["a"]) .origin)
    let reached := session.serveAll grammar [.perform (.openScope "item")]
    builder.build = .ok grammar ∧ enter session = .ok () session ∧
      ∃ after, nextScope "note" 1 reached =
          .error (.scope (.openUnknown "note") ["main"]) after ∧
        after.context.current ≠ reached.context.current ∧
        after.events.toList = reached.events.toList ++ [.closed "item" 1] := by
  intro builder grammar session reached
  exact ⟨rfl, rfl, _, rfl, by decide +kernel, by decide +kernel⟩

end LineGrammar.Session
