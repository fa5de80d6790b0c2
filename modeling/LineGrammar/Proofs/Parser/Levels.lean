import LineGrammar.Proofs.Grammar.Compiled
import LineGrammar.Proofs.Parser.Alike
import LineGrammar.Proofs.Parser.Run

/-!
More levels of parses inside parses make no difference. What is left of the levels
shows in a parse only where a script parses other lines. If all scripts give up
when that uses up the levels, and look at nothing else that depends on them, then a
parse uses up its levels or comes to the same with any larger number of them.
-/

namespace LineGrammar

variable {old new nested : List String → Nested} {session : Session}

def Context.renest (nested : List String → Nested) (context : Context) : Context :=
  { context with setting := { context.setting with nested := nested } }

def Session.renest (nested : List String → Nested) (session : Session) : Session :=
  session.mapContext (Context.renest nested)

def Action.renest {Result : Type} (nested : List String → Nested) :
    EStateM.Result Error Session Result → EStateM.Result Error Session Result
  | .ok value session => .ok value (session.renest nested)
  | .error error session => .error error (session.renest nested)

/-! Operations do not depend on how other lines are parsed. -/

namespace Session

theorem save_renest (found : Match) :
    save found (session.renest nested) = Action.renest nested (save found session) := by
  have last : (session.renest nested).context.lastSave = session.context.lastSave := rfl
  simp only [save, last]
  split <;> rfl

theorem openScope_renest (scope : String) :
    openScope scope (session.renest nested) = Action.renest nested (openScope scope session) := by
  have same : (session.renest nested).context.knows scope = session.context.knows scope := rfl
  simp only [openScope, same]
  split <;> rfl

theorem closeTimes_renest (count : Nat) :
    (session.renest nested).closeTimes count = (session.closeTimes count).renest nested := by
  induction count generalizing session with
  | zero => rfl
  | succ count induction => exact @induction session.closeOne

theorem closeScopes_renest (count : Nat) :
    closeScopes count (session.renest nested) =
      Action.renest nested (closeScopes count session) := by
  have same : (session.renest nested).context.depth = session.context.depth := rfl
  simp only [closeScopes, same, closeTimes_renest]
  split <;> rfl

theorem swapScope_renest (scope : String) :
    swapScope scope (session.renest nested) = Action.renest nested (swapScope scope session) := by
  have depth : (session.renest nested).context.depth = session.context.depth := rfl
  have known : (session.renest nested).context.knows scope = session.context.knows scope := rfl
  simp only [swapScope, depth, known]
  split
  · rfl
  · split <;> rfl

theorem nextScope_renest (scope : String) (count : Nat) :
    nextScope scope count (session.renest nested) =
      Action.renest nested (nextScope scope count session) := by
  simp only [nextScope, bind, EStateM.bind, closeScopes_renest]
  cases closeScopes count session with
  | error error after => rfl
  | ok value after => exact openScope_renest scope

theorem changeVariable_renest (name : String) (level : Nat)
    (change : Option Value → Except ScopeFault Value) :
    changeVariable name level change (session.renest nested) =
      Action.renest nested (changeVariable name level change session) := by
  have tree : (session.renest nested).context.tree = session.context.tree := rfl
  have current : (session.renest nested).context.current = session.context.current := rfl
  simp only [changeVariable, tree, current]
  split
  · rfl
  · split <;> rfl

theorem setStrict_renest (scope : String) (strict : Bool) :
    setStrict scope strict (session.renest nested) =
      Action.renest nested (setStrict scope strict session) := by
  have known : (session.renest nested).context.knows scope = session.context.knows scope := rfl
  simp only [setStrict, known]
  split <;> rfl

end Session

theorem Operation.run_renest (operation : Operation) :
    operation.run (session.renest nested) = Action.renest nested (operation.run session) := by
  cases operation with
  | save found => exact Session.save_renest found
  | openScope scope => exact Session.openScope_renest scope
  | closeScopes count => exact Session.closeScopes_renest count
  | swapScope scope => exact Session.swapScope_renest scope
  | nextScope scope count => exact Session.nextScope_renest scope count
  | define name value level =>
      simp only [run, Session.define]
      exact Session.changeVariable_renest name level _
  | add name amount level =>
      simp only [run, Session.add]
      exact Session.changeVariable_renest name level _
  | append name value level =>
      simp only [run, Session.append]
      exact Session.changeVariable_renest name level _
  | setStrict scope strict => exact Session.setStrict_renest scope strict
  | move movement => rfl
  | abandon message => rfl

/-- Whether the levels were used up, or it came to the same in either session. -/
def Action.Agrees {Result : Type} (old new : List String → Nested)
    (first second : EStateM.Result Error Session Result) : Prop :=
  (∃ session, first = .error .exhausted session) ∨
    ∃ outcome, first = Action.renest old outcome ∧ second = Action.renest new outcome

theorem Action.Agrees.outcomes {Result : Type}
    {first second : EStateM.Result Error Session Result} (agrees : Action.Agrees old new first second) :
    (∃ after, first = .error .exhausted after) ∨
    (∃ (value : Result) (after : Session), first = .ok value (after.renest old) ∧
      second = .ok value (after.renest new)) ∨
    ∃ error, ∃ after : Session, first = .error error (after.renest old) ∧
      second = .error error (after.renest new) := by
  rcases agrees with used | ⟨outcome, rfl, rfl⟩
  · exact .inl used
  · cases outcome with
    | ok value after => exact .inr (.inl ⟨value, after, rfl, rfl⟩)
    | error error after => exact .inr (.inr ⟨error, after, rfl, rfl⟩)

def Action.giving {Result : Type} (value : Result) :
    EStateM.Result Error Session Unit → EStateM.Result Error Session Result
  | .ok () session => .ok value session
  | .error error session => .error error session

theorem Action.Agrees.giving {Result : Type} {first second : EStateM.Result Error Session Unit}
    (agrees : Action.Agrees old new first second) (value : Result) :
    Action.Agrees old new (Action.giving value first) (Action.giving value second) := by
  obtain ⟨after, rfl⟩ | ⟨_, after, rfl, rfl⟩ | ⟨error, after, rfl, rfl⟩ := agrees.outcomes
  · exact .inl ⟨after, rfl⟩
  · exact .inr ⟨.ok value after, rfl, rfl⟩
  · exact .inr ⟨.error error after, rfl, rfl⟩

/-- Whether one way to parse other lines uses up its levels or gives what the other
gives. -/
def Nested.Extends (old new : List String → Nested) : Prop :=
  ∀ lines, (old lines).result = .error .exhausted ∨ old lines = new lines

/-- Whether a script gives up when the levels are used up, and else cannot tell how
many are left. -/
def Script.Yields : Script → Prop
  | .done => True
  | .fail _ => True
  | .look next => ∀ cursor context,
      (∀ nested, next cursor (context.renest nested) = next cursor context) ∧
        (next cursor context).Yields
  | .perform _ next => ∀ result, (next result).Yields
  | .parse _ next => next (.error .exhausted) = .fail .exhausted ∧
      ∀ result, (next result).Yields

def Callback.Yields : Callback → Prop
  | .host script => ∀ found, (script found).Yields
  | _ => True

structure Rule.Yields (rule : Rule) : Prop where
  pre : ∀ check ∈ rule.pre, ∀ cursor context nested,
    check cursor (Context.renest nested context) = check cursor context
  post : ∀ accepts, .host accepts ∈ rule.post → ∀ cursor context nested found,
    accepts cursor (Context.renest nested context) found = accepts cursor context found
  callbacks : ∀ callback ∈ rule.callbacks, callback.Yields

theorem Script.run_agrees {script : Script} (yields : script.Yields)
    (extend : Nested.Extends old new) (session : Session) :
    Action.Agrees old new (script.run (session.renest old)) (script.run (session.renest new)) := by
  induction script generalizing session with
  | done => exact .inr ⟨.ok () session, rfl, rfl⟩
  | fail error => exact .inr ⟨.error error session, rfl, rfl⟩
  | look next induction =>
      obtain ⟨same, later⟩ := yields session.cursor session.context
      have left : next (session.renest old).cursor (session.renest old).context =
          next session.cursor session.context := same old
      have right : next (session.renest new).cursor (session.renest new).context =
          next session.cursor session.context := same new
      simp only [run, left, right]
      exact induction _ _ later session
  | perform operation next induction =>
      simp only [run, operation.run_renest]
      cases operation.run session with
      | ok value after => exact induction _ (yields (.ok ())) after
      | error error after => exact induction _ (yields (.error error)) after
  | parse lines next induction =>
      have left : (session.renest old).context.setting.nested = old := rfl
      have right : (session.renest new).context.setting.nested = new := rfl
      simp only [run, left, right]
      rcases extend lines with used | same
      · rw [used, yields.1]
        exact .inl ⟨_, rfl⟩
      · rw [← same]
        exact induction (old lines).result (yields.2 _)
          { session with notes := session.notes ++ (old lines).notes }

theorem Callback.run_agrees {callback : Callback} (yields : callback.Yields)
    (extend : Nested.Extends old new) (found : Match) (session : Session) :
    Action.Agrees old new (callback.run found (session.renest old))
      (callback.run found (session.renest new)) := by
  cases callback with
  | save => exact .inr ⟨_, Session.save_renest found, Session.save_renest found⟩
  | perform operation => exact .inr ⟨_, operation.run_renest, operation.run_renest⟩
  | host script => exact Script.run_agrees (yields found) extend session

namespace Rule

theorem runCallbacks_agrees {callbacks : List Callback}
    (yields : ∀ callback ∈ callbacks, callback.Yields)
    (extend : Nested.Extends old new) (found : Match) (session : Session) :
    Action.Agrees old new (runCallbacks found callbacks (session.renest old))
      (runCallbacks found callbacks (session.renest new)) := by
  induction callbacks generalizing session with
  | nil => exact .inr ⟨.ok () session, rfl, rfl⟩
  | cons callback later induction =>
      obtain ⟨after, used⟩ | ⟨_, after, here, there⟩ | ⟨error, after, here, there⟩ :=
        (Callback.run_agrees (yields callback (by simp)) extend found session).outcomes
      · simp only [runCallbacks, used]
        exact .inl ⟨after, rfl⟩
      · simp only [runCallbacks, here, there]
        exact induction (fun other member => yields other (by simp [member])) after
      · simp only [runCallbacks, here, there]
        exact .inr ⟨.error error after, rfl, rfl⟩

variable {rule : Rule}

theorem Yields.pre_eq (yields : rule.Yields) (cursor : Cursor) (context : Context)
    (nested : List String → Nested) :
    (rule.pre.all fun check => check cursor (context.renest nested)) =
      rule.pre.all fun check => check cursor context :=
  all_eq fun check member => yields.pre check member cursor context nested

theorem Yields.post_eq (yields : rule.Yields) (cursor : Cursor) (context : Context)
    (nested : List String → Nested) (found : Match) :
    (rule.post.all fun check => check.accepts cursor (context.renest nested) found) =
      rule.post.all fun check => check.accepts cursor context found := by
  apply all_eq
  intro check member
  cases check with
  | validator accepts arguments => rfl
  | host accepts => exact yields.post accepts member cursor context nested found

theorem matchAt_agrees (yields : rule.Yields) (extend : Nested.Extends old new)
    (session : Session) :
    Action.Agrees old new (rule.matchAt (session.renest old))
      (rule.matchAt (session.renest new)) := by
  have context : ∀ nested, (session.renest nested).context = session.context.renest nested :=
    fun _ => rfl
  have cursor : ∀ nested, (session.renest nested).cursor = session.cursor := fun _ => rfl
  let behind : Session := { session with
    cursor := (rule.expr.attempt session.cursor).cursor
    notes := session.notes ++ (rule.expr.attempt session.cursor).trace.toArray }
  unfold matchAt
  simp only [context, cursor, yields.pre_eq]
  split
  · cases (rule.expr.attempt session.cursor).result with
    | error error => exact .inr ⟨.error error behind, rfl, rfl⟩
    | ok found =>
        simp only [yields.post_eq]
        split
        · have called := runCallbacks_agrees yields.callbacks extend (rule.dress found) behind
          exact called.giving (rule.dress found)
        · exact .inr ⟨rule.reject session.cursor.position (.postCheck session.cursor.position)
            behind, rfl, rfl⟩
  · exact .inr ⟨.error (.preCheck session.cursor.position) (session.note _), rfl, rfl⟩

end Rule

namespace Session

variable {grammar : Grammar}

theorem win_renest (scope : String) (index : Nat) (found : Match) :
    win scope index found (session.renest nested) =
      Action.renest nested (win scope index found session) := by
  have noted : ∀ note, (session.renest nested).note note = (session.note note).renest nested :=
    fun _ => rfl
  have config : ∀ note, ((session.note note).renest nested).context.setting.config =
      session.context.setting.config := fun _ => rfl
  have config' : ∀ note, (session.note note).context.setting.config =
      session.context.setting.config := fun _ => rfl
  simp only [win, noted, config, config']
  by_cases recorded : (session.context.setting.config.recordAll && !found.isEmpty) = true
  · simp only [if_pos recorded, save_renest]
    cases save found (session.note (.matched scope index found.start found.stop)) <;> rfl
  · simp only [if_neg recorded]
    rfl

theorem tryRules_agrees {rules : List Rule} (yields : ∀ rule ∈ rules, rule.Yields)
    (extend : Nested.Extends old new) (scope : String) (start : Position) (index : Nat)
    (session : Session) :
    Action.Agrees old new (tryRules scope start index rules (session.renest old))
      (tryRules scope start index rules (session.renest new)) := by
  induction rules generalizing index session with
  | nil => exact .inr ⟨.ok false session, rfl, rfl⟩
  | cons rule later induction =>
      obtain ⟨after, used⟩ | ⟨found, after, here, there⟩ | ⟨error, after, here, there⟩ :=
        (Rule.matchAt_agrees (yields rule (by simp)) extend session).outcomes
      · simp only [tryRules, used]
        exact .inl ⟨after, rfl⟩
      · simp only [tryRules, here, there]
        exact .inr ⟨_, win_renest scope index found, win_renest scope index found⟩
      · simp only [tryRules, here, there]
        split
        · exact induction (fun other member => yields other (by simp [member])) (index + 1)
            { after with cursor := after.cursor.moveTo start }
        · exact .inr ⟨.error error after, rfl, rfl⟩

theorem matchAt_agrees (yields : grammar.Every Rule.Yields) (extend : Nested.Extends old new)
    (session : Session) :
    Action.Agrees old new (matchAt grammar (session.renest old))
      (matchAt grammar (session.renest new)) := by
  have name : ∀ nested, (session.renest nested).context.scopeName = session.context.scopeName :=
    fun _ => rfl
  have cursor : ∀ nested, (session.renest nested).cursor = session.cursor := fun _ => rfl
  have strict : ∀ (session : Session) nested scope,
      (session.renest nested).context.isStrict scope = session.context.isStrict scope :=
    fun _ _ _ => rfl
  simp only [matchAt, name, cursor]
  cases known : grammar.scope? session.context.scopeName with
  | none => exact .inr ⟨.error (session.context.fault _) session, rfl, rfl⟩
  | some scope =>
      have tried := tryRules_agrees (yields scope (List.mem_of_find?_eq_some known)) extend
        session.context.scopeName session.cursor.position 0 session
      obtain ⟨after, used⟩ | ⟨answer, after, here, there⟩ | ⟨error, after, here, there⟩ :=
        tried.outcomes
      · simp only [used]
        exact .inl ⟨after, rfl⟩
      · simp only [here, there]
        cases answer with
        | true => exact .inr ⟨.ok true after, rfl, rfl⟩
        | false =>
            simp only [strict]
            split
            · exact .inr ⟨abandon (.noRule session.context.scopeName) after, rfl, rfl⟩
            · exact .inr ⟨.ok false after, rfl, rfl⟩
      · simp only [here, there]
        exact .inr ⟨.error error after, rfl, rfl⟩

theorem announceStart_renest :
    (session.renest nested).announceStart = session.announceStart.renest nested := by
  have cursor : (session.renest nested).cursor = session.cursor := rfl
  simp only [announceStart, cursor]
  split <;> rfl

theorem skipChar_renest : (session.renest nested).skipChar = session.skipChar.renest nested := by
  have cursor : (session.renest nested).cursor = session.cursor := rfl
  simp only [skipChar, cursor]
  split <;> rfl

theorem endLine_renest : (session.renest nested).endLine = session.endLine.renest nested := by
  have cursor : (session.renest nested).cursor = session.cursor := rfl
  simp only [endLine, cursor]
  split <;> rfl

theorem round_agrees (yields : grammar.Every Rule.Yields) (extend : Nested.Extends old new)
    (session : Session) :
    Action.Agrees old new (round grammar (session.renest old))
      (round grammar (session.renest new)) := by
  simp only [round, announceStart_renest]
  obtain ⟨after, used⟩ | ⟨answer, after, here, there⟩ | ⟨error, after, here, there⟩ :=
    (matchAt_agrees yields extend session.announceStart).outcomes
  · simp only [used]
    exact .inl ⟨after, rfl⟩
  · simp only [here, there]
    cases answer with
    | true =>
        simp only [endLine_renest]
        exact .inr ⟨.ok () after.endLine, rfl, rfl⟩
    | false =>
        simp only [skipChar_renest, endLine_renest]
        exact .inr ⟨.ok () after.skipChar.endLine, rfl, rfl⟩
  · simp only [here, there]
    exact .inr ⟨.error error after, rfl, rfl⟩

theorem rounds_agrees (yields : grammar.Every Rule.Yields) (extend : Nested.Extends old new)
    (limit : Nat) (fuse : Fuse) (session : Session) :
    Action.Agrees old new (rounds grammar limit fuse (session.renest old))
      (rounds grammar limit fuse (session.renest new)) := by
  have cursor : ∀ (session : Session) nested, (session.renest nested).cursor = session.cursor :=
    fun _ _ => rfl
  have config : ∀ (session : Session) nested,
      (session.renest nested).context.setting.config = session.context.setting.config :=
    fun _ _ => rfl
  induction limit generalizing fuse session with
  | zero =>
      rw [rounds.eq_def]
      simp only [cursor]
      split
      · exact .inr ⟨.ok () session, rfl, rfl⟩
      · exact .inr ⟨.error .exhausted session, rfl, rfl⟩
  | succ limit induction =>
      rw [rounds.eq_def]
      simp only [cursor]
      split
      · exact .inr ⟨.ok () session, rfl, rfl⟩
      · obtain ⟨after, used⟩ | ⟨_, after, here, there⟩ | ⟨error, after, here, there⟩ :=
          (round_agrees yields extend session).outcomes
        · simp only [used]
          exact .inl ⟨after, rfl⟩
        · simp only [here, there, cursor, config]
          split
          · exact induction _ after
          · exact .inr ⟨stall after, rfl, rfl⟩
        · simp only [here, there]
          exact .inr ⟨.error error after, rfl, rfl⟩

theorem enter_renest : enter (session.renest nested) = Action.renest nested (enter session) := by
  have config : (session.renest nested).context.setting.config = session.context.setting.config :=
    rfl
  simp only [enter, config]
  split
  · rfl
  · exact openScope_renest _

theorem leave_renest : leave (session.renest nested) = Action.renest nested (leave session) := by
  have config : (session.renest nested).context.setting.config = session.context.setting.config :=
    rfl
  have name : (session.renest nested).context.scopeName = session.context.scopeName := rfl
  simp only [leave, config, name]
  split
  · rfl
  · split <;> rfl

theorem parse_agrees (yields : grammar.Every Rule.Yields) (extend : Nested.Extends old new)
    (limit : Nat) (session : Session) :
    Action.Agrees old new (parse grammar limit (session.renest old))
      (parse grammar limit (session.renest new)) := by
  have cursor : ∀ (session : Session) nested, (session.renest nested).cursor = session.cursor :=
    fun _ _ => rfl
  rw [parse_eq, parse_eq, enter_renest, enter_renest]
  cases enter session with
  | error error after => exact .inr ⟨.error error after, rfl, rfl⟩
  | ok value entered =>
      simp only [Action.renest, cursor]
      obtain ⟨after, used⟩ | ⟨_, after, here, there⟩ | ⟨error, after, here, there⟩ :=
        (rounds_agrees yields extend limit ⟨entered.cursor.position, 0⟩ entered).outcomes
      · simp only [used]
        exact .inl ⟨after, rfl⟩
      · simp only [here, there, leave_renest]
        cases leave after with
        | error error last => exact .inr ⟨.error error last, rfl, rfl⟩
        | ok value last =>
            exact .inr ⟨.ok last.context.tree (last.note (.parseDone last.context.tree.size)),
              rfl, rfl⟩
      · simp only [here, there]
        exact .inr ⟨.error error after, rfl, rfl⟩

end Session

/-- A parse uses up its levels or comes to the same with more of them. -/
theorem Grammar.drive_extends {grammar : Grammar} (yields : grammar.Every Rule.Yields)
    (config : Config) (extra : Nat) {depth more : Nat} (within : depth ≤ more) (cursor : Cursor) :
    (grammar.drive config extra depth cursor).result = .error .exhausted ∨
      grammar.drive config extra depth cursor = grammar.drive config extra more cursor := by
  induction depth generalizing more cursor with
  | zero => exact .inl rfl
  | succ depth induction =>
      obtain ⟨more, rfl⟩ := Nat.exists_eq_add_one_of_ne_zero (Nat.ne_zero_of_lt within)
      have extend : Nested.Extends
          (grammar.setting config (grammar.drive config extra depth)).nested
          (grammar.setting config (grammar.drive config extra more)).nested := by
        intro lines
        rcases induction (Nat.le_of_succ_le_succ within) ⟨.ofLines lines, .origin⟩ with used | same
        · exact .inl used
        · simp only [setting, same]
          exact .inr trivial
      have agrees := Session.parse_agrees yields extend (config.roundLimit cursor.buffer + extra)
        (grammar.opening config extra depth cursor)
      rw [drive_succ, drive_succ]
      rcases agrees with ⟨after, used⟩ | ⟨outcome, here, there⟩
      · exact .inl (congrArg (fun done => (Session.conclude done).result) used)
      · right
        have concluded : ∀ nested, Session.conclude (Action.renest nested outcome) =
            Session.conclude outcome := by
          intro nested
          cases outcome <;> rfl
        calc _ = Session.conclude (Action.renest _ outcome) := congrArg Session.conclude here
          _ = Session.conclude outcome := concluded _
          _ = Session.conclude (Action.renest _ outcome) := (concluded _).symm
          _ = _ := congrArg Session.conclude there.symm

theorem Grammar.drive_eq_of_ok {grammar : Grammar} (yields : grammar.Every Rule.Yields)
    {config : Config} {extra depth more : Nat} {cursor : Cursor} {tree tree' : Tree}
    (parsed : (grammar.drive config extra depth cursor).result = .ok tree)
    (parsed' : (grammar.drive config extra more cursor).result = .ok tree') :
    grammar.drive config extra depth cursor = grammar.drive config extra more cursor := by
  rcases Nat.le_total depth more with within | within
  · rcases drive_extends yields config extra within cursor with used | same
    · cases parsed.symm.trans used
    · exact same
  · rcases drive_extends yields config extra within cursor with used | same
    · cases parsed'.symm.trans used
    · exact same.symm

end LineGrammar
