import LineGrammar.Parser.Round
import LineGrammar.Proofs.Expr.Placement
import LineGrammar.Proofs.Session.Change

/-!
Which rule of a scope wins. Whether a rule matches at a cursor is decided by
its checks and its expression alone. A rule that does not match leaves nothing
behind but notes, so the rules of a scope are all tried in the same situation
and the first one that matches runs its callbacks there. Where no rule matches,
a strict scope ends the parse and a relaxed one answers that nothing matched.
-/

namespace LineGrammar

namespace Rule

/-- What a rule matches at a cursor, before its tag and its edits. -/
def match? (rule : Rule) (cursor : Cursor) (context : Context) : Option Match :=
  if rule.pre.all fun accepts => accepts cursor context then
    match (rule.expr.attempt cursor).result with
    | .error _ => none
    | .ok found =>
        if rule.post.all fun check =>
            check.accepts (rule.expr.attempt cursor).cursor context found then some found
        else none
  else none

/-- Whether no error of the callbacks of a rule is taken for a refusal. -/
def Decisive (rule : Rule) : Prop :=
  ∀ (found : Match) (session : Session),
    Action.Ends (runCallbacks found rule.callbacks session) (fun _ _ => True)
      (fun error _ => error.EndsParse)

variable {rule : Rule} {session : Session} {found : Match}

theorem decisive_of_callbacks
    (ends : ∀ callback ∈ rule.callbacks, ∀ (found : Match) (session : Session),
      Action.Ends (callback.run found session) (fun _ _ => True) (fun error _ => error.EndsParse)) :
    rule.Decisive := by
  intro found session
  apply runCallbacks_ends _ trivial
  intro callback member next _
  exact ends callback member found next

theorem attempt_of_match? {cursor : Cursor} {context : Context}
    (accepted : rule.match? cursor context = some found) :
    (rule.expr.attempt cursor).result = .ok found := by
  unfold match? at accepted
  split at accepted
  · split at accepted
    · cases accepted
    · rename_i outcome
      split at accepted
      · cases accepted
        exact outcome
      · cases accepted
  · cases accepted

/-- A rule that does not match refuses and leaves nothing behind but notes. -/
theorem matchAt_of_none (valid : session.cursor.Valid)
    (refused : rule.match? session.cursor session.context = none) :
    ∃ error notes, rule.matchAt session = .error error { session with notes := notes } ∧
      error.isRecoverable = true := by
  unfold matchAt
  unfold match? at refused
  split at refused
  · rename_i allowed
    simp only [if_pos allowed]
    cases outcome : (rule.expr.attempt session.cursor).result with
    | error error =>
        rcases (rule.expr.attempt_lawful session.cursor valid).of_error outcome with ⟨refusal, back⟩
        refine ⟨error, session.notes ++ (rule.expr.attempt session.cursor).trace.toArray, ?_, ?_⟩
        · simp only [back]
        · rw [refusal]
          rfl
    | ok found =>
        have covers := rule.expr.covers_of_attempt valid outcome
        have back := valid.moveTo_eq covers.leads.buffer
        simp only [outcome] at refused
        split at refused
        · cases refused
        · rename_i rejected
          refine ⟨.postCheck session.cursor.position,
            (session.notes ++ (rule.expr.attempt session.cursor).trace.toArray).push
              (.probed session.cursor (.rule rule.tag)
                (.failed (.postCheck session.cursor.position))), ?_, rfl⟩
          simp only [if_neg rejected, reject, back]
          rfl
  · rename_i forbidden
    simp only [if_neg forbidden]
    exact ⟨_, _, rfl, rfl⟩

theorem matchAt_of_some (accepted : rule.match? session.cursor session.context = some found) :
    ∃ notes, rule.matchAt session =
      match runCallbacks (rule.dress found) rule.callbacks
        { session with cursor := (rule.expr.attempt session.cursor).cursor, notes := notes } with
      | .ok () after => .ok (rule.dress found) after
      | .error error after => .error error after := by
  have outcome := attempt_of_match? accepted
  unfold matchAt
  unfold match? at accepted
  split at accepted
  · rename_i allowed
    simp only [outcome] at accepted
    split at accepted
    · rename_i checked
      refine ⟨session.notes ++ (rule.expr.attempt session.cursor).trace.toArray, ?_⟩
      cases called : runCallbacks (rule.dress found) rule.callbacks
        { session with
          cursor := (rule.expr.attempt session.cursor).cursor
          notes := session.notes ++ (rule.expr.attempt session.cursor).trace.toArray } with
      | ok value after => simp only [if_pos allowed, outcome, if_pos checked, called]
      | error error after => simp only [if_pos allowed, outcome, if_pos checked, called]
    · cases accepted
  · cases accepted

end Rule

namespace Session

variable {session : Session}

/-- A winning match is saved, if it has a width and the configuration says so,
and made known. -/
theorem win_eq (sets : Bool → Prop) (scope : String) (index : Nat) (found : Match)
    (session : Session) :
    ∃ last, Changes (· = found) sets session last ∧
      win scope index found session = .ok true (last.publish (.matched scope index found)) ∧
      (session.context.setting.config.recordAll = true → found.isEmpty = false →
        last.context.lastSave = some found) := by
  have noted := @Change.notes (· = found) sets session
    (session.notes.push (.matched scope index found.start found.stop))
  have context : (session.note (.matched scope index found.start found.stop)).context =
      session.context := rfl
  unfold win
  by_cases recorded :
      (session.context.setting.config.recordAll && !found.isEmpty) = true
  · rcases @save_changes (· = found) sets found rfl
      (session.note (.matched scope index found.start found.stop)) with
      ⟨last, saved, changes, isLast⟩
    refine ⟨last, noted.changes.trans changes, ?_, fun _ _ => isLast⟩
    simp only [context, if_pos recorded, saved]
  · refine ⟨_, noted.changes, ?_, ?_⟩
    · simp only [context, if_neg recorded]
      rfl
    · intro wanted wide
      have both : (session.context.setting.config.recordAll && !found.isEmpty) = true := by
        simp [wanted, wide]
      exact absurd both recorded

theorem tryRules_of_none {rules : List Rule} (scope : String) (index : Nat)
    (valid : session.cursor.Valid)
    (refused : ∀ rule ∈ rules, rule.match? session.cursor session.context = none) :
    ∃ notes, tryRules scope session.cursor.position index rules session =
      .ok false { session with notes := notes } := by
  induction rules generalizing session index with
  | nil => exact ⟨session.notes, rfl⟩
  | cons rule later induction =>
      rcases Rule.matchAt_of_none valid (refused rule (by simp)) with
        ⟨error, notes, outcome, recoverable⟩
      have back := valid.moveTo_eq rfl
      have rest := @induction { session with notes := notes } (index + 1) valid
        (fun other member => refused other (by simp [member]))
      simpa only [tryRules, outcome, recoverable, if_true, back] using rest

/-- The first rule that matches runs its callbacks, and wins if they succeed. -/
theorem tryRules_of_some {earlier later : List Rule} {rule : Rule} {found : Match} (scope : String)
    (index : Nat) (valid : session.cursor.Valid) (decisive : rule.Decisive)
    (refused : ∀ other ∈ earlier, other.match? session.cursor session.context = none)
    (accepted : rule.match? session.cursor session.context = some found) :
    ∃ notes, tryRules scope session.cursor.position index (earlier ++ rule :: later) session =
      match Rule.runCallbacks (rule.dress found) rule.callbacks
        { session with cursor := (rule.expr.attempt session.cursor).cursor, notes := notes } with
      | .ok () after => win scope (index + earlier.length) (rule.dress found) after
      | .error error after => .error error after := by
  induction earlier generalizing session index with
  | nil =>
      rcases Rule.matchAt_of_some accepted with ⟨notes, outcome⟩
      refine ⟨notes, ?_⟩
      have ends := decisive (rule.dress found)
        { session with cursor := (rule.expr.attempt session.cursor).cursor, notes := notes }
      simp only [List.nil_append, tryRules, outcome]
      cases ran : Rule.runCallbacks (rule.dress found) rule.callbacks
        { session with cursor := (rule.expr.attempt session.cursor).cursor, notes := notes } with
      | ok value after => rfl
      | error error after =>
          rw [ran] at ends
          simp only [Error.EndsParse.not_recoverable ends, Bool.false_eq_true, if_false]
  | cons first earlier induction =>
      rcases Rule.matchAt_of_none valid (refused first (by simp)) with
        ⟨error, notes, outcome, recoverable⟩
      have back := valid.moveTo_eq rfl
      rcases @induction { session with notes := notes } (index + 1) valid
        (fun other member => refused other (by simp [member])) accepted with ⟨notes', rest⟩
      refine ⟨notes', ?_⟩
      have count : index + (first :: earlier).length = index + 1 + earlier.length := by
        rw [List.length_cons]
        omega
      rw [count]
      simpa only [List.cons_append, tryRules, outcome, recoverable, if_true, back] using rest

inductive Answers (grammar : Grammar) (before : Session) : EStateM.Result Error Session Bool → Prop
  /-- no rule of the scope matches, and the scope is not strict -/
  | passed {scope : Scope} (notes : Array Note)
      (known : grammar.scope? before.context.scopeName = some scope)
      (refused : ∀ rule ∈ scope.rules, rule.match? before.cursor before.context = none)
      (relaxed : before.context.isStrict before.context.scopeName = false) :
      Answers grammar before (.ok false { before with notes := notes })
  /-- the first rule that matches has run its callbacks and wins -/
  | won {scope : Scope} {earlier later : List Rule} {rule : Rule} {found : Match}
      {ran after : Session} (notes : Array Note)
      (known : grammar.scope? before.context.scopeName = some scope)
      (listed : scope.rules = earlier ++ rule :: later)
      (refused : ∀ other ∈ earlier, other.match? before.cursor before.context = none)
      (accepted : rule.match? before.cursor before.context = some found)
      (called : Rule.runCallbacks (rule.dress found) rule.callbacks
        { before with
          cursor := (rule.expr.attempt before.cursor).cursor
          notes := notes } = .ok () ran)
      (wins : win before.context.scopeName earlier.length (rule.dress found) ran = .ok true after) :
      Answers grammar before (.ok true after)
  | failed {error : Error} {after : Session} (ends : error.EndsParse) :
      Answers grammar before (.error error after)

theorem matchAt_answers {grammar : Grammar} (valid : session.cursor.Valid)
    (decisive : ∀ scope ∈ grammar.scopes, ∀ rule ∈ scope.rules, rule.Decisive) :
    Answers grammar session (matchAt grammar session) := by
  cases known : grammar.scope? session.context.scopeName with
  | none =>
      have ends : (session.context.fault (.noRules session.context.scopeName)).EndsParse := trivial
      simp only [matchAt, known]
      exact .failed ends
  | some scope =>
      have inGrammar : scope ∈ grammar.scopes := List.mem_of_find?_eq_some known
      simp only [matchAt, known]
      cases first : scope.rules.findSome? fun rule =>
          (rule.match? session.cursor session.context).map fun found => (rule, found) with
      | none =>
          have refused : ∀ rule ∈ scope.rules,
              rule.match? session.cursor session.context = none := by
            intro rule member
            simpa using List.findSome?_eq_none_iff.mp first rule member
          rcases tryRules_of_none session.context.scopeName 0 valid refused with ⟨notes, tried⟩
          simp only [tried]
          cases strict : session.context.isStrict session.context.scopeName with
          | true =>
              have ends : (Error.fatal (session.context.diagnose session.cursor
                (.noRule session.context.scopeName))).EndsParse := trivial
              exact .failed ends
          | false => exact .passed notes known refused strict
      | some pair =>
          rcases List.findSome?_eq_some_iff.mp first with
            ⟨earlier, rule, later, listed, mapped, refusedEarlier⟩
          rcases Option.map_eq_some_iff.mp mapped with ⟨found, accepted, rfl⟩
          have refused : ∀ other ∈ earlier,
              other.match? session.cursor session.context = none := by
            intro other member
            simpa using refusedEarlier other member
          have decided := decisive scope inGrammar rule (by simp [listed])
          rcases @tryRules_of_some session earlier later rule found session.context.scopeName 0
            valid decided refused accepted with ⟨notes, tried⟩
          have ends := decided (rule.dress found)
            { session with cursor := (rule.expr.attempt session.cursor).cursor, notes := notes }
          simp only [listed, tried]
          cases called : Rule.runCallbacks (rule.dress found) rule.callbacks
            { session with cursor := (rule.expr.attempt session.cursor).cursor, notes := notes } with
          | ok value ran =>
              rcases win_eq (fun _ => True) session.context.scopeName earlier.length
                (rule.dress found) ran with ⟨last, _, wins, _⟩
              simp only [Nat.zero_add, wins]
              exact .won notes known listed refused accepted called wins
          | error error after =>
              rw [called] at ends
              exact .failed ends

end Session

end LineGrammar
