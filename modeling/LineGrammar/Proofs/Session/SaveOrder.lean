import LineGrammar.Proofs.Session.Record
import LineGrammar.Proofs.Session.Shape
import Mathlib.Data.List.Destutter

/-!
That a tree of scopes keeps what was saved in the order of time. Saves are
scattered over the histories of the scopes that were current; going over the
tree gives them back in order, each run of equal ones once, and visits the
scopes in the order in which they were opened.
-/

namespace LineGrammar

namespace Tree

/-- A node and those below it, every node before its children, for at most
`limit` levels. -/
def preorder (tree : Tree) : Nat → Nat → List Nat
  | 0, _ => []
  | limit + 1, id => id :: (tree.childrenOf id).flatMap (tree.preorder limit)

variable {tree : Tree}

/-- The scopes visited while a history is read, in the order of a walk that
enters every child where it stands. The limit is used up by one for each scope
that is entered, so as many levels as there are scopes to visit are enough. -/
theorem Spells.preorder_eq {elements : List Element} {ids : List Nat} {matched : List Match}
    (spelled : tree.Spells elements ids matched) {limit : Nat} (enough : ids.length ≤ limit) :
    (scopesIn elements).flatMap (tree.preorder limit) = ids := by
  induction spelled generalizing limit with
  | nil => rfl
  | saved found _ induction => exact induction enough
  | @scope rest inner ids within matched id below later inductionBelow inductionLater =>
      rw [List.length_cons, List.length_append] at enough
      obtain ⟨limit, rfl⟩ := Nat.exists_eq_add_one_of_ne_zero (Nat.ne_zero_of_lt enough)
      have inside := @inductionBelow limit (by omega)
      have rest' := @inductionLater (limit + 1) (by omega)
      have entered : tree.preorder (limit + 1) id = id :: inner := by
        rw [preorder, childrenOf_eq_scopesIn, inside]
      have first : scopesIn (.scope id :: rest) = id :: scopesIn rest := rfl
      rw [first, List.flatMap_cons, entered, rest', List.cons_append]

theorem Chronicle.preorder_eq {current : Nat} {saved : List Match}
    (chronicle : Chronicle tree current saved) :
    tree.preorder tree.size root = List.range tree.size := by
  have some : tree.size = tree.size - 1 + 1 := (Nat.sub_add_cancel chronicle.nonempty).symm
  have visited := @Spells.preorder_eq tree _ _ _ chronicle.spells (tree.size - 1) (by simp)
  rw [← root_cons_range' chronicle.nonempty, some, preorder, childrenOf_eq_scopesIn, visited,
    Nat.add_sub_cancel]

end Tree

/-- One more match makes no difference to the runs of equal ones if it is equal
to the last. -/
theorem Match.destutter_concat (log : List Match) (found : Match) :
    (log ++ [found]).destutter (· ≠ ·) =
      log.destutter (· ≠ ·) ++ if log.getLast? = some found then [] else [found] := by
  have after : ∀ (rest : List Match) (first : Match),
      (rest ++ [found]).destutter' (· ≠ ·) first =
        rest.destutter' (· ≠ ·) first ++
          if (first :: rest).getLast? = some found then [] else [found] := by
    intro rest
    induction rest with
    | nil =>
        intro first
        by_cases same : first = found <;> simp [same]
    | cons second rest induction =>
        intro first
        have last : (first :: second :: rest).getLast? = (second :: rest).getLast? := by
          rw [List.getLast?_cons_cons]
        by_cases same : first = second
        · subst same
          rw [List.cons_append, List.destutter'_cons_neg _ (by simp), induction,
            List.destutter'_cons_neg _ (by simp), last]
        · rw [List.cons_append, List.destutter'_cons_pos _ same, induction,
            List.destutter'_cons_pos _ same, last, List.cons_append]
  cases log with
  | nil => rfl
  | cons first rest => exact after rest first

namespace Session

/-- Whether a session has saved what was handed over so far, each run of equal
matches once, and remembers the last of it. -/
structure Recorded (log : List Match) (session : Session) : Prop where
  savings : session.savings = log.destutter (· ≠ ·)
  last : session.context.lastSave = log.getLast?

variable {before after : Session} {log offered : List Match}

theorem Recorded.of_same (recorded : before.Recorded log)
    (savings : after.savings = before.savings)
    (last : after.context.lastSave = before.context.lastSave) : after.Recorded (log ++ []) := by
  rw [List.append_nil]
  exact ⟨savings.trans recorded.savings, last.trans recorded.last⟩

theorem saved?_of_plain {event : Event} (plain : event.ofScopes = false) : event.saved? = none := by
  cases event with
  | saved scope found => cases plain
  | _ => rfl

theorem Act.recorded (act : Act before offered after) (recorded : before.Recorded log) :
    after.Recorded (log ++ offered) := by
  cases act with
  | save found fresh =>
      rw [recorded.last] at fresh
      refine ⟨?_, by rw [List.getLast?_concat]⟩
      rw [Match.destutter_concat, if_neg fresh, ← recorded.savings]
      exact filterMap_push _ _ _
  | again found last =>
      rw [recorded.last] at last
      refine ⟨?_, by rw [List.getLast?_concat, recorded.last, last]⟩
      rw [Match.destutter_concat, if_pos last, List.append_nil, recorded.savings]
  | aside cursor notes => exact recorded.of_same rfl rfl
  | tell event plain =>
      exact recorded.of_same (filterMap_push_of_none (saved?_of_plain plain)) rfl
  | openScope scope known => exact recorded.of_same (filterMap_push_of_none rfl) rfl
  | closeScope parent above => exact recorded.of_same (filterMap_push_of_none rfl) rfl
  | swapScope scope inner known => exact recorded.of_same (filterMap_push_of_none rfl) rfl
  | setVariable id name value => exact recorded.of_same rfl rfl
  | setStrict scope strict => exact recorded.of_same rfl rfl

theorem Acts.recorded (acts : Acts before offered after) (recorded : before.Recorded log) :
    after.Recorded (log ++ offered) := by
  induction acts with
  | refl =>
      rw [List.append_nil]
      exact recorded
  | tail _ act induction =>
      rw [← List.append_assoc]
      exact act.recorded induction

theorem Act.chronicled (act : Act before offered after) (chronicled : before.Chronicled) :
    after.Chronicled := by
  have changed : ∀ {after}, Change (fun _ => True) (fun _ => True) before after →
      after.Chronicled := fun change => change.chronicled chronicled
  cases act with
  | aside cursor notes => exact chronicled
  | tell event plain =>
      exact chronicled.of_same rfl rfl (filterMap_push_of_none (saved?_of_plain plain))
  | save found fresh => exact changed (.save found trivial fresh)
  | again found last => exact chronicled
  | openScope scope known => exact changed (.openScope scope _ known)
  | closeScope parent above =>
      have closed := changed .closeScope
      rw [above] at closed
      exact closed
  | swapScope scope inner known => exact changed (.swapScope scope known)
  | setVariable id name value => exact changed (.setVariable id name value)
  | setStrict scope strict => exact changed (.setStrict scope strict trivial)

/-- In every session that comes about by requests after the start scope of a
built grammar was entered, going over the tree gives the matches that were handed
over to be saved, in the order of time, each run of equal ones once; so no two
neighbours are equal. They are the ones whose saving was made known. The walk
visits the scopes in the order of their numbers. -/
theorem reached_tree_tells_saves_in_order (builder : Builder) (grammar : Grammar)
    (built : builder.build = .ok grammar) (config : Config) (parse : Cursor → Outcome)
    (cursor : Cursor) (entered : Session)
    (entering : enter (begin (grammar.setting config parse) cursor) = .ok () entered)
    (requests : List Request) :
    let reached := entered.serveAll grammar requests
    let tree := reached.context.tree
    tree.matchesOf Tree.root = (entered.offeredByAll grammar requests).destutter (· ≠ ·) ∧
      (tree.matchesOf Tree.root).IsChain (· ≠ ·) ∧
      tree.matchesOf Tree.root = reached.events.toList.filterMap Event.saved? ∧
      tree.preorder tree.size Tree.root = List.range tree.size := by
  intro reached tree
  have acts := reached_acts built entering requests
  have begun : (begin (grammar.setting config parse) cursor).Recorded [] := ⟨rfl, rfl⟩
  have recorded : reached.Recorded (entered.offeredByAll grammar requests) := acts.recorded begun
  have chronicled := acts.keep Chronicled (fun _ _ _ act => act.chronicled)
    (Tree.chronicle_ofRoot Context.mainScope)
  have told : tree.matchesOf Tree.root = reached.savings := chronicled.matchesOf_eq
  refine ⟨told.trans recorded.savings, ?_, told, chronicled.preorder_eq⟩
  rw [told, recorded.savings]
  exact List.isChain_destutter _ _

/-- A callback of the host saves a letter, opens a scope, saves the letter again
and then the empty match of its rule, closes the scope and saves the letter once
more. Then the host saves it, too. -/
theorem letter_is_saved_around_empty_match :
    let letter : Match := .leaf ⟨⟨0, 0⟩, ⟨0, 1⟩, none, "a"⟩ "a" []
    let rule : Rule :=
      { expr := .always
        callbacks := [.host fun found => .actAll
          [.save letter, .openScope "part", .save letter, .save found, .closeScopes 1, .save letter]
          .done] }
    let builder := ({} : Builder)
      |>.scopeRules "main" [rule]
      |>.scope "part" [RuleSpec.always]
    let grammar : Grammar := ⟨[⟨"main", [rule], false⟩, ⟨"part", [.always], false⟩]⟩
    let session := begin (grammar.setting {} fun cursor => ⟨.error .exhausted, cursor, #[], #[]⟩)
      (.near (.ofLines ["a"]) .origin)
    let tree := (session.serveAll grammar [.matchRules, .perform (.save letter)]).context.tree
    builder.build = .ok grammar ∧ enter session = .ok () session ∧
      (session.offeredByAll grammar [.matchRules, .perform (.save letter)]).map Match.text =
        ["a", "a", "", "a", "a"] ∧
      (tree.matchesOf Tree.root).map Match.text = ["a", "", "a"] ∧
      tree.matchesOf Tree.root =
        (session.offeredByAll grammar [.matchRules, .perform (.save letter)]).destutter (· ≠ ·) := by
  intro letter rule builder grammar session tree
  have built : builder.build = .ok grammar := rfl
  have entering : enter session = .ok () session := rfl
  have order := reached_tree_tells_saves_in_order builder grammar built {} _ _ session entering
    [.matchRules, .perform (.save letter)]
  exact ⟨built, entering, by decide +kernel, by decide +kernel, order.1⟩

end Session

end LineGrammar
