import LineGrammar.Proofs.Parser.Way
import LineGrammar.Proofs.Session.Act

/-!
Where a round leads and why it fails, whatever its callbacks are. A script of the
host can do no more to a session than the operations it performs, so it stays in
the buffer, at places where a cursor may stand, and in the same setting. And an
error that ends a round is one of the scopes, or that of an abandoned parse, or
it is what a script has answered.
-/

namespace LineGrammar

namespace Session

/-- How an action ends that stays in the buffer and in the setting, whether it
succeeds or fails. -/
def EndsWithin {Result : Type} (before : Session) (failed : Error → Session → Prop)
    (outcome : EStateM.Result Error Session Result) : Prop :=
  Action.Ends outcome (fun _ after => before.Along Cursor.Within after)
    (fun error after => before.Along Cursor.Within after ∧ failed error after)

variable {before middle session : Session}

theorem along_self (valid : session.cursor.Valid) : session.Along Cursor.Within session :=
  ⟨⟨rfl, valid⟩, rfl⟩

theorem Along.within {Result : Type} {failed failed' : Error → Session → Prop}
    {outcome : EStateM.Result Error Session Result} (early : before.Along Cursor.Within middle)
    (late : middle.EndsWithin failed outcome)
    (causes : ∀ error after, failed error after → failed' error after) :
    before.EndsWithin failed' outcome := by
  cases outcome with
  | ok value after => exact early.trans Cursor.way_within late
  | error error after => exact ⟨early.trans Cursor.way_within late.1, causes error after late.2⟩

end Session

variable {session middle : Session} {error : Error} {after : Session}

theorem Operation.run_within (operation : Operation) (valid : session.cursor.Valid) :
    session.EndsWithin (fun error _ => error.EndsParse) (operation.run session) := by
  by_cases onScopes : operation.OnScopes fun _ => True
  · have changing := @Operation.run_changing (fun _ => True) _ _ onScopes session
    cases outcome : operation.run session with
    | ok value after =>
        rw [outcome] at changing
        exact Session.Changes.along Cursor.way_within changing valid
    | error error after =>
        rw [outcome] at changing
        exact ⟨changing.2.along Cursor.way_within valid, changing.1⟩
  · cases operation with
    | save found =>
        obtain ⟨after, saved, changes, _⟩ :=
          @Session.save_changes (fun _ => True) (fun _ => True) found trivial session
        simp only [run, saved]
        exact changes.along Cursor.way_within valid
    | move movement => exact ⟨movement.within valid, rfl⟩
    | _ => exact absurd trivial onScopes

theorem Script.run_within (script : Script) (valid : session.cursor.Valid) :
    session.EndsWithin (fun _ _ => True) (script.run session) := by
  induction script generalizing session with
  | done => exact Session.along_self valid
  | fail error => exact ⟨Session.along_self valid, trivial⟩
  | look next induction => exact induction session.cursor session.context valid
  | perform operation next induction =>
      have first := operation.run_within valid
      simp only [run]
      cases outcome : operation.run session with
      | ok value after =>
          rw [outcome] at first
          exact Session.Along.within first (induction (.ok ()) first.cursor.valid)
            fun _ _ holds => holds
      | error error after =>
          rw [outcome] at first
          exact first.1.within (induction (.error error) first.1.cursor.valid)
            fun _ _ holds => holds
  | parse lines next induction =>
      have noted : session.Along Cursor.Within
          { session with
            notes := session.notes ++ (session.context.setting.nested lines).notes } :=
        ⟨⟨rfl, valid⟩, rfl⟩
      exact noted.within (induction _ valid) fun _ _ holds => holds

namespace Rule

/-- Whether the error with which a session was left is what a script of one of
these callbacks has answered, in the same buffer and setting as before. -/
def HostFails (callbacks : List Callback) (before : Session) (error : Error) (after : Session) :
    Prop :=
  ∃ script found middle, Callback.host script ∈ callbacks ∧ before.Along Cursor.Within middle ∧
    (script found).run middle = .error error after

theorem HostFails.earlier {callbacks : List Callback}
    (fails : HostFails callbacks middle error after) (along : session.Along Cursor.Within middle) :
    HostFails callbacks session error after := by
  obtain ⟨script, found, place, member, reached, answered⟩ := fails
  exact ⟨script, found, place, member, along.trans Cursor.way_within reached, answered⟩

theorem runCallbacks_within (callbacks : List Callback) (found : Match)
    (valid : session.cursor.Valid) :
    session.EndsWithin
      (fun error after => error.EndsParse ∨ HostFails callbacks session error after)
      (runCallbacks found callbacks session) := by
  apply runCallbacks_ends _ (Session.along_self valid)
  intro callback member next along
  cases callback with
  | save =>
      exact along.within ((Operation.save found).run_within along.cursor.valid)
        fun _ _ ends => .inl ends
  | perform operation =>
      exact along.within (operation.run_within along.cursor.valid) fun _ _ ends => .inl ends
  | host script =>
      have ran := (script found).run_within along.cursor.valid
      simp only [Callback.run]
      cases outcome : (script found).run next with
      | ok value after =>
          rw [outcome] at ran
          exact along.trans Cursor.way_within ran
      | error error after =>
          rw [outcome] at ran
          exact ⟨along.trans Cursor.way_within ran.1,
            .inr ⟨script, found, next, member, along, outcome⟩⟩

theorem matchAt_within (rule : Rule) (valid : session.cursor.Valid) :
    session.EndsWithin
      (fun error after => error.isRecoverable = true ∨
        error.EndsParse ∨ HostFails rule.callbacks session error after)
      (rule.matchAt session) := by
  cases accepted : rule.match? session.cursor session.context with
  | none =>
      obtain ⟨error, notes, refused, recoverable⟩ := matchAt_of_none valid accepted
      rw [refused]
      exact ⟨⟨⟨rfl, valid⟩, rfl⟩, .inl recoverable⟩
  | some found =>
      obtain ⟨notes, matched⟩ := matchAt_of_some accepted
      have covers := rule.expr.covers_of_attempt valid (attempt_of_match? accepted)
      have behind : session.Along Cursor.Within
          { session with
            cursor := (rule.expr.attempt session.cursor).cursor
            notes := notes } := ⟨(covers.leads.to_onward valid).within, rfl⟩
      have ran := runCallbacks_within rule.callbacks (rule.dress found) behind.cursor.valid
      rw [matched]
      cases called : runCallbacks (rule.dress found) rule.callbacks
        { session with cursor := (rule.expr.attempt session.cursor).cursor, notes := notes } with
      | ok value after =>
          rw [called] at ran
          exact behind.trans Cursor.way_within ran
      | error error after =>
          rw [called] at ran
          exact ⟨behind.trans Cursor.way_within ran.1,
            .inr (ran.2.imp_right fun fails => fails.earlier behind)⟩

end Rule

def Grammar.HostFails (grammar : Grammar) (before : Session) (error : Error) (after : Session) :
    Prop :=
  ∃ scope ∈ grammar.scopes, ∃ rule ∈ scope.rules, Rule.HostFails rule.callbacks before error after

namespace Session

variable {grammar : Grammar}

theorem tryRules_within (rules : List Rule) (valid : session.cursor.Valid) (scope : String)
    (start : Position) (index : Nat) :
    session.EndsWithin
      (fun error after => error.EndsParse ∨
        ∃ rule ∈ rules, Rule.HostFails rule.callbacks session error after)
      (tryRules scope start index rules session) := by
  induction rules generalizing session index with
  | nil => exact along_self valid
  | cons rule later induction =>
      have first := rule.matchAt_within valid
      simp only [tryRules]
      cases outcome : rule.matchAt session with
      | ok found middle =>
          rw [outcome] at first
          obtain ⟨last, changes, won, _⟩ := win_eq (fun _ => True) scope index found middle
          simp only [won]
          exact Along.trans Cursor.way_within first
            (win_along Cursor.way_within won first.cursor.valid)
      | error error middle =>
          rw [outcome] at first
          simp only
          split
          · have back : session.Along Cursor.Within
                { middle with cursor := middle.cursor.moveTo start } := by
              refine ⟨⟨?_, Cursor.near_valid _ start⟩, first.1.setting⟩
              exact first.1.cursor.buffer
            apply back.within (induction back.cursor.valid (index + 1))
            rintro error after (ends | ⟨other, member, fails⟩)
            · exact .inl ends
            · exact .inr ⟨other, List.mem_cons_of_mem rule member, fails.earlier back⟩
          · rename_i ends
            refine ⟨first.1, ?_⟩
            rcases first.2.resolve_left ends with ends | fails
            · exact .inl ends
            · exact .inr ⟨rule, List.mem_cons_self, fails⟩

theorem matchAt_within (grammar : Grammar) (valid : session.cursor.Valid) :
    session.EndsWithin
      (fun error after => error.EndsParse ∨ grammar.HostFails session error after)
      (matchAt grammar session) := by
  simp only [matchAt]
  cases known : grammar.scope? session.context.scopeName with
  | none => exact ⟨along_self valid, .inl trivial⟩
  | some scope =>
      have tried := tryRules_within scope.rules valid session.context.scopeName
        session.cursor.position 0
      simp only
      split
      · rename_i middle passed
        rw [passed] at tried
        split
        · exact ⟨⟨tried.cursor, tried.setting⟩, .inl trivial⟩
        · exact tried
      · apply (along_self valid).within tried
        rintro error after (ends | fails)
        · exact .inl ends
        · exact .inr ⟨scope, List.mem_of_find?_eq_some known, fails⟩

theorem round_within (grammar : Grammar) (valid : session.cursor.Valid) :
    session.EndsWithin
      (fun error after => error.EndsParse ∨ grammar.HostFails session error after)
      (round grammar session) := by
  have announced : session.Along Cursor.Within session.announceStart := by
    refine ⟨?_, by rw [announceStart_context]⟩
    rw [announceStart_cursor]
    exact ⟨rfl, valid⟩
  have matching := matchAt_within grammar announced.cursor.valid
  unfold round
  cases outcome : matchAt grammar session.announceStart with
  | error error after =>
      rw [outcome] at matching
      apply announced.within matching
      rintro error after (ends | ⟨scope, inGrammar, rule, inScope, fails⟩)
      · exact .inl ends
      · exact .inr ⟨scope, inGrammar, rule, inScope, fails.earlier announced⟩
  | ok answer middle =>
      rw [outcome] at matching
      have matched := announced.trans Cursor.way_within matching
      cases answer with
      | true =>
          exact matched.trans Cursor.way_within
            (endLine_along Cursor.way_within matched.cursor.valid)
      | false =>
          have skipped := matched.trans Cursor.way_within
            (skipChar_along Cursor.way_within matched.cursor.valid)
          exact skipped.trans Cursor.way_within
            (endLine_along Cursor.way_within skipped.cursor.valid)

end Session

end LineGrammar
