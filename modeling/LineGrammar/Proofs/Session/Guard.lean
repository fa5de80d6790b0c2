import LineGrammar.Proofs.Parser.Faults
import LineGrammar.Proofs.Session.Replay
import LineGrammar.Proofs.Session.Trace

/-!
Operations on scopes and variables check everything before they change anything.
In every session that a host can come to, each of them fails exactly under a
condition that can be read off the open scopes, their variables and the grammar.
If it fails, nothing has happened; if it succeeds, it has changed what it is meant
to change and nothing else, and has told of it.
-/

namespace LineGrammar

/-- Whether an action that begins in a session fails exactly if it is refused and
then leaves the session as it was, and otherwise does what it should. -/
structure Action.Checked (session : Session) (refused : Prop) (does : Session → Prop)
    (outcome : EStateM.Result Error Session Unit) : Prop where
  fails_iff : (∃ error after, outcome = .error error after) ↔ refused
  unchanged : ∀ error after, outcome = .error error after → after = session
  does : ∀ after, outcome = .ok () after → does after

namespace Action.Checked

variable {session after : Session} {refused : Prop} {does : Session → Prop} {error : Error}

theorem of_refused (isRefused : refused) : Checked session refused does (.error error session) where
  fails_iff := ⟨fun _ => isRefused, fun _ => ⟨error, session, rfl⟩⟩
  unchanged := by
    rintro _ _ ⟨⟩
    rfl
  does := by
    rintro _ ⟨⟩

theorem of_done (allowed : ¬refused) (done : does after) :
    Checked session refused does (.ok () after) where
  fails_iff := by
    constructor
    · rintro ⟨_, _, ⟨⟩⟩
    · exact fun isRefused => absurd isRefused allowed
  unchanged := by
    rintro _ _ ⟨⟩
  does := by
    rintro _ ⟨⟩
    exact done

variable {outcome : EStateM.Result Error Session Unit}

theorem error_of_refused (checked : Checked session refused does outcome) (isRefused : refused) :
    ∃ error, outcome = .error error session := by
  obtain ⟨error, after, failed⟩ := checked.fails_iff.mpr isRefused
  obtain rfl := checked.unchanged error after failed
  exact ⟨error, failed⟩

theorem ok_of_allowed (checked : Checked session refused does outcome) (allowed : ¬refused) :
    ∃ after, outcome = .ok () after ∧ does after := by
  cases ran : outcome with
  | ok value after => exact ⟨after, rfl, checked.does after ran⟩
  | error error after => exact absurd (checked.fails_iff.mp ⟨error, after, ran⟩) allowed

end Action.Checked

theorem Tree.valueOf?_setVariable_iff {tree : Tree} {id : Nat} (old : id < tree.size)
    (name : String) (value : Value) (other : Nat) (key : String) :
    (tree.setVariable id name value).valueOf? other key =
      if other = id ∧ key = name then some value else tree.valueOf? other key := by
  by_cases same : other = id
  · subst same
    rw [valueOf?_setVariable old]
    simp only [true_and]
  · rw [if_neg fun both => same both.1, valueOf?, setVariable, node?_update,
      if_neg fun equal => same equal.symm]
    rfl

namespace Session

structure Opens (scope : String) (parent : Nat) (before after : Session) : Prop where
  fresh : before.context.tree.node? after.context.current = none
  named : after.context.scopeName = scope
  below : after.context.tree.parentOf after.context.current = some parent
  depth : after.context.depth = before.context.tree.depthOf parent + 1
  told : after.events = before.events.push (.opened scope after.context.depth)

/-- Whether so many scopes were closed: each of them was told, the innermost
first, and nothing else has changed. -/
structure Closes (count : Nat) (before after : Session) : Prop where
  up : ∃ id, before.context.tree.ancestor? before.context.current count = some id ∧
    after.context = { before.context with current := id }
  depth : after.context.depth + count = before.context.depth
  told : ∃ told : List Event, after.events.toList = before.events.toList ++ told ∧
    told.length = count ∧ ∀ step < count, ∃ id,
      before.context.tree.ancestor? before.context.current step = some id ∧
      told[step]? = some (.closed (before.context.tree.nameOf id) (before.context.depth - step))
  cursor : after.cursor = before.cursor

structure Renames (scope : String) (before after : Session) : Prop where
  named : ∃ node, before.context.tree.node? before.context.current = some node ∧
    after.context.tree.node? before.context.current = some { node with name := scope }
  others : ∀ id, id ≠ before.context.current →
    after.context.tree.node? id = before.context.tree.node? id
  told : after.events = before.events.push (.swapped before.context.scopeName scope)
  same : after.context = { before.context with tree := after.context.tree }
  cursor : after.cursor = before.cursor

structure Assigns (name : String) (level : Nat) (value : Value) (before after : Session) :
    Prop where
  place : ∃ id, before.context.tree.ancestor? before.context.current level = some id ∧
    ∀ other key, after.context.tree.valueOf? other key =
      if other = id ∧ key = name then some value else before.context.tree.valueOf? other key
  bare : after.context.tree.bare = before.context.tree.bare
  same : after = { before with context := { before.context with tree := after.context.tree } }

structure MakesStrict (scope : String) (strict : Bool) (before after : Session) : Prop where
  strict : ∀ other, after.context.isStrict other =
    if other = scope then strict else before.context.isStrict other
  same : after =
    { before with context := { before.context with overrides := after.context.overrides } }

variable {grammar : Grammar} {session : Session}

theorem openScope_checked (belongs : session.Belongs grammar) (scope : String) :
    Action.Checked session (grammar.contains scope = false)
      (session.Opens scope session.context.current) (openScope scope session) := by
  unfold openScope
  split
  · rename_i known
    have contained : grammar.contains scope = true := by rw [← belongs.knows, known]
    have node := @Tree.node?_addChild_size session.context.tree session.context.current scope
    refine .of_done (by simp [contained]) ⟨?_, ?_, ?_, ?_, rfl⟩
    · exact Tree.node?_eq_none (Nat.le_refl _)
    · change Tree.nameOf (session.context.tree.addChild session.context.current scope)
        session.context.tree.size = scope
      rw [Tree.nameOf, node]
      rfl
    · change Tree.parentOf (session.context.tree.addChild session.context.current scope)
        session.context.tree.size = some session.context.current
      rw [Tree.parentOf, node]
      rfl
    · change Tree.depthOf (session.context.tree.addChild session.context.current scope)
        session.context.tree.size = _
      rw [Tree.depthOf, node]
      rfl
  · rename_i unknown
    exact .of_refused (by rwa [← belongs.knows, ← Bool.not_eq_true])

theorem Closes.succ {parent count : Nat} {after : Session} (sound : session.context.Sound)
    (above : session.context.tree.parentOf session.context.current = some parent)
    (later : session.closeOne.Closes count after) : session.Closes (count + 1) after := by
  have closed := (closeOne_acts above).2
  have deeper : session.context.depth = session.context.tree.depthOf parent + 1 :=
    (sound.formed.parent_lt above).2.2
  let event := Event.closed session.context.scopeName session.context.depth
  have events : session.closeOne.events.toList = session.events.toList ++ [event] :=
    Array.toList_push
  obtain ⟨⟨id, up, context⟩, depth, ⟨told, heard, length, each⟩, cursor⟩ := later
  simp only [closed, Context.depth] at up context depth heard each
  rw [← Context.depth] at depth
  refine ⟨⟨id, ?_, context⟩, ?_, ⟨event :: told, ?_, ?_, ?_⟩, cursor⟩
  · rw [Tree.ancestor?, above]
    exact up
  · omega
  · rw [heard, events, List.append_assoc, List.singleton_append]
  · rw [List.length_cons, length]
  · intro step before
    cases step with
    | zero => exact ⟨session.context.current, rfl, rfl⟩
    | succ step =>
        obtain ⟨id, up, next⟩ := each step (by omega)
        refine ⟨id, ?_, ?_⟩
        · rw [Tree.ancestor?, above]
          exact up
        · rw [List.getElem?_cons_succ, next, deeper, Nat.add_sub_add_right]

theorem closeTimes_closes {count : Nat} (sound : session.context.Sound)
    (within : count ≤ session.context.depth) : session.Closes count (session.closeTimes count) := by
  induction count generalizing session with
  | zero => exact ⟨⟨_, rfl, rfl⟩, rfl, ⟨[], by simp [closeTimes], rfl, by simp⟩, rfl⟩
  | succ count induction =>
      have deep : session.context.tree.depthOf session.context.current ≠ 0 := by
        rw [Context.depth] at within
        omega
      obtain ⟨parent, above⟩ := sound.formed.exists_parent deep sound.current
      obtain ⟨acts, closed⟩ := closeOne_acts above
      obtain ⟨_, _, deeper⟩ := sound.formed.parent_lt above
      refine .succ sound above (induction (acts.sound sound) ?_)
      rw [Context.depth, deeper] at within
      rw [closed, Context.depth]
      exact Nat.le_of_succ_le_succ within

theorem closeScopes_checked (sound : session.context.Sound) (count : Nat) :
    Action.Checked session (session.context.depth < count) (session.Closes count)
      (closeScopes count session) := by
  simp only [closeScopes]
  split
  · rename_i beyond
    exact .of_refused beyond
  · rename_i within
    exact .of_done within (closeTimes_closes sound (Nat.le_of_not_lt within))

theorem swapScope_checked (belongs : session.Belongs grammar) (scope : String) :
    Action.Checked session (session.context.depth = 0 ∨ grammar.contains scope = false)
      (session.Renames scope) (swapScope scope session) := by
  unfold swapScope
  split
  · rename_i atRoot
    exact .of_refused (.inl atRoot)
  · rename_i inner
    split
    · rename_i known
      have contained : grammar.contains scope = true := by rw [← belongs.knows, known]
      refine .of_done (by simp [contained, inner]) ⟨?_, ?_, rfl, rfl, rfl⟩
      · obtain ⟨node, found⟩ := Tree.exists_node belongs.sound.current
        refine ⟨node, found, ?_⟩
        change Tree.node? (session.context.tree.rename session.context.current scope)
          session.context.current = _
        rw [Tree.rename, Tree.node?_update, if_pos rfl, found]
        rfl
      · intro id different
        change Tree.node? (session.context.tree.rename session.context.current scope) id = _
        rw [Tree.rename, Tree.node?_update, if_neg different.symm]
    · rename_i unknown
      exact .of_refused (.inr (by rwa [← belongs.knows, ← Bool.not_eq_true]))

theorem changeVariable_checked (sound : session.context.Sound) {name : String} {level : Nat}
    {change : Option Value → Except ScopeFault Value} {value : Value} {unfit : Prop}
    (refuses : unfit → ∃ cause, change (session.context.valueOf? name level) = .error cause)
    (gives : ¬unfit → change (session.context.valueOf? name level) = .ok value) :
    Action.Checked session (session.context.depth < level ∨ unfit)
      (session.Assigns name level value) (changeVariable name level change session) := by
  rcases Nat.lt_or_ge session.context.depth level with beyond | within
  · have none := sound.formed.ancestor_of_lt sound.current beyond
    simp only [changeVariable, none]
    exact .of_refused (.inl beyond)
  · obtain ⟨id, found, old, _⟩ := sound.formed.ancestor_of_le sound.current within
    have looked : session.context.valueOf? name level = session.context.tree.valueOf? id name := by
      rw [Context.valueOf?, found, Option.bind_some]
    rw [looked] at refuses gives
    simp only [changeVariable, found]
    by_cases isUnfit : unfit
    · obtain ⟨cause, refused⟩ := refuses isUnfit
      simp only [refused]
      exact .of_refused (.inr isUnfit)
    · simp only [gives isUnfit]
      refine .of_done ?_ ⟨⟨id, found, ?_⟩, ?_, rfl⟩
      · exact fun refused => refused.elim (Nat.not_lt.mpr within) isUnfit
      · exact Tree.valueOf?_setVariable_iff old name value
      · exact Tree.bare_setVariable _ id name value

theorem define_checked (sound : session.context.Sound) (name : String) (value : Value)
    (level : Nat) :
    Action.Checked session (session.context.depth < level) (session.Assigns name level value)
      (define name value level session) := by
  have checked := @changeVariable_checked session sound name level (fun _ => .ok value) value False
    False.elim fun _ => rfl
  rwa [or_false] at checked

/-- The integer that a variable counts as when something is added to it. -/
def sumOf (session : Session) (name : String) (level : Nat) : Int :=
  ((session.context.valueOf? name level).bind Value.int?).getD 0

def itemsOf (session : Session) (name : String) (level : Nat) : List Value :=
  ((session.context.valueOf? name level).bind Value.list?).getD []

theorem add_checked (sound : session.context.Sound) (name : String) (amount : Int) (level : Nat) :
    Action.Checked session
      (session.context.depth < level ∨
        ∃ value, session.context.valueOf? name level = some value ∧ value.int? = none)
      (session.Assigns name level (.int (session.sumOf name level + amount)))
      (add name amount level session) := by
  apply changeVariable_checked sound
  · rintro ⟨value, found, other⟩
    rw [found]
    cases value with
    | int number => cases other
    | text content => exact ⟨_, rfl⟩
    | list items => exact ⟨_, rfl⟩
  · intro fits
    unfold sumOf
    cases found : session.context.valueOf? name level with
    | none => simp
    | some value =>
        cases value with
        | int number => rfl
        | text content => exact absurd ⟨_, found, rfl⟩ fits
        | list items => exact absurd ⟨_, found, rfl⟩ fits

theorem append_checked (sound : session.context.Sound) (name : String) (value : Value)
    (level : Nat) :
    Action.Checked session
      (session.context.depth < level ∨
        ∃ value, session.context.valueOf? name level = some value ∧ value.list? = none)
      (session.Assigns name level (.list (session.itemsOf name level ++ [value])))
      (append name value level session) := by
  apply changeVariable_checked sound
  · rintro ⟨old, found, other⟩
    rw [found]
    cases old with
    | int number => exact ⟨_, rfl⟩
    | text content => exact ⟨_, rfl⟩
    | list items => cases other
  · intro fits
    unfold itemsOf
    cases found : session.context.valueOf? name level with
    | none => rfl
    | some old =>
        cases old with
        | int number => exact absurd ⟨_, found, rfl⟩ fits
        | text content => exact absurd ⟨_, found, rfl⟩ fits
        | list items => rfl

theorem setStrict_checked (belongs : session.Belongs grammar) (scope : String) (strict : Bool) :
    Action.Checked session (grammar.contains scope = false) (session.MakesStrict scope strict)
      (setStrict scope strict session) := by
  unfold setStrict
  split
  · rename_i known
    have contained : grammar.contains scope = true := by rw [← belongs.knows, known]
    refine .of_done (by simp [contained]) ⟨?_, rfl⟩
    intro other
    change Context.isStrict { session.context with
      overrides := session.context.overrides.set scope strict } other = _
    unfold Context.isStrict
    simp only [Table.get?_set]
    by_cases same : other = scope <;> simp [same]
  · rename_i unknown
    exact .of_refused (by rwa [← belongs.knows, ← Bool.not_eq_true])

/-- Whatever a host can come to is a session of its grammar with a tree in shape. -/
theorem reached_belongs {builder : Builder} {config : Config} {parse : Cursor → Outcome}
    {cursor : Cursor} {entered : Session} (built : builder.build = .ok grammar)
    (entering : enter (begin (grammar.setting config parse) cursor) = .ok () entered)
    (requests : List Request) : (entered.serveAll grammar requests).Belongs grammar :=
  (reached_acts built entering requests).belongs ⟨sound_of_build built, rfl⟩

/-- In every session that comes about by requests after the start scope of a built
grammar was entered, opening a scope fails exactly if the grammar does not have it,
closing exactly if more scopes are to be closed than the depth is, renaming exactly
at depth 0 or if the grammar does not have the scope, setting a variable exactly if
its level exceeds the depth, adding and appending exactly if the level exceeds the
depth or the variable has a value that is not an integer or not a list, and making
a scope strict or relaxed exactly if the grammar does not have it. Whatever fails
leaves the session as it was. Whatever succeeds changes only what it is meant to:
the variable of that name in the scope so many levels up, or the current scope,
which is then so many levels up, while each closed scope is told, innermost first,
with its depth. -/
theorem operations_check_before_they_change (builder : Builder) (grammar : Grammar)
    (built : builder.build = .ok grammar) (config : Config) (parse : Cursor → Outcome)
    (cursor : Cursor) (entered : Session)
    (entering : enter (begin (grammar.setting config parse) cursor) = .ok () entered)
    (requests : List Request) :
    let session := entered.serveAll grammar requests
    let depth := session.context.depth
    (∀ scope, Action.Checked session (grammar.contains scope = false)
      (session.Opens scope session.context.current) (openScope scope session)) ∧
    (∀ count, Action.Checked session (depth < count)
      (session.Closes count) (closeScopes count session)) ∧
    (∀ scope, Action.Checked session (depth = 0 ∨ grammar.contains scope = false)
      (session.Renames scope) (swapScope scope session)) ∧
    (∀ name value level, Action.Checked session (depth < level)
      (session.Assigns name level value) (define name value level session)) ∧
    (∀ name amount level, Action.Checked session
      (depth < level ∨
        ∃ value, session.context.valueOf? name level = some value ∧ value.int? = none)
      (session.Assigns name level (.int (session.sumOf name level + amount)))
      (add name amount level session)) ∧
    (∀ name value level, Action.Checked session
      (depth < level ∨
        ∃ value, session.context.valueOf? name level = some value ∧ value.list? = none)
      (session.Assigns name level (.list (session.itemsOf name level ++ [value])))
      (append name value level session)) ∧
    ∀ scope strict, Action.Checked session (grammar.contains scope = false)
      (session.MakesStrict scope strict) (setStrict scope strict session) := by
  intro session depth
  have belongs := reached_belongs built entering requests
  have sound := belongs.sound
  exact ⟨openScope_checked belongs, closeScopes_checked sound, swapScope_checked belongs,
    define_checked sound, add_checked sound, append_checked sound, setStrict_checked belongs⟩

/-- Inside an item of a list with a text as its mark, the mark cannot be counted
up, and closing both scopes is told in order. -/
theorem text_mark_is_not_counted_up :
    let builder := ({} : Builder)
      |>.scope "main" [RuleSpec.always]
      |>.scope "list" [RuleSpec.always]
      |>.scope "item" [RuleSpec.always]
    let grammar : Grammar := ⟨[⟨"main", [.always], false⟩, ⟨"list", [.always], false⟩,
      ⟨"item", [.always], false⟩]⟩
    let session := begin (grammar.setting {} fun cursor => ⟨.error .exhausted, cursor, #[], #[]⟩)
      (.near (.ofLines ["a"]) .origin)
    let reached := session.serveAll grammar
      [.perform (.openScope "list"), .perform (.define "mark" (.text "-") 0),
        .perform (.openScope "item")]
    builder.build = .ok grammar ∧ enter session = .ok () session ∧ reached.context.depth = 2 ∧
      (∃ error, add "mark" 1 1 reached = .error error reached) ∧
      reached.Closes 2 (reached.closeTimes 2) ∧
      (reached.closeTimes 2).events.toList =
        reached.events.toList ++ [.closed "item" 2, .closed "list" 1] := by
  intro builder grammar session reached
  have built : builder.build = .ok grammar := rfl
  have entering : enter session = .ok () session := rfl
  obtain ⟨_, closing, _, _, adding, _⟩ := operations_check_before_they_change builder grammar built
    {} _ _ session entering
    [.perform (.openScope "list"), .perform (.define "mark" (.text "-") 0),
      .perform (.openScope "item")]
  have isText : ∃ value, reached.context.valueOf? "mark" 1 = some value ∧ value.int? = none :=
    ⟨.text "-", by decide +kernel, rfl⟩
  exact ⟨built, entering, by decide +kernel, (adding "mark" 1 1).error_of_refused (.inr isText),
    (closing 2).does _ rfl, by decide +kernel⟩

end Session

end LineGrammar
