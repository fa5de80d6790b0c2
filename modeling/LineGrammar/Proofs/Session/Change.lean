import LineGrammar.Grammar.Rule
import Mathlib.Logic.Relation

/-!
What operations may do to a session. Apart from moving the cursor, an operation
makes a number of elementary changes, each of which touches the scopes in one
way and makes that known. Everything that holds through elementary changes holds
through the callbacks of a rule.
-/

namespace LineGrammar

/-- What holds when an action has ended, whether it succeeds or fails. -/
def Action.Ends {Result : Type} (outcome : EStateM.Result Error Session Result)
    (done : Result → Session → Prop) (failed : Error → Session → Prop) : Prop :=
  match outcome with
  | .ok value session => done value session
  | .error error session => failed error session

instance {Result : Type} (outcome : EStateM.Result Error Session Result)
    (done : Result → Session → Prop) (failed : Error → Session → Prop)
    [∀ value session, Decidable (done value session)]
    [∀ error session, Decidable (failed error session)] :
    Decidable (Action.Ends outcome done failed) :=
  match outcome with
  | .ok value session => inferInstanceAs (Decidable (done value session))
  | .error error session => inferInstanceAs (Decidable (failed error session))

/-- Whether an error ends a parse where it arises in it: a fault of the scopes
or a parse that was abandoned. -/
def Error.EndsParse : Error → Prop
  | .scope .. => True
  | .fatal _ => True
  | _ => False

theorem Error.EndsParse.not_recoverable {error : Error} (ends : error.EndsParse) :
    error.isRecoverable = false := by
  cases error <;> first | rfl | cases ends

namespace Session

/-- An elementary change of a session. Only matches that `may` allows are saved,
and scopes are made strict or relaxed only as `sets` allows. -/
inductive Change (may : Match → Prop) (sets : Bool → Prop) (before : Session) : Session → Prop
  | notes (notes : Array Note) : Change may sets before { before with notes := notes }
  | save (found : Match) (allowed : may found)
      (fresh : before.context.lastSave ≠ some found) :
      Change may sets before
        { before with
          context :=
            { before.context with
              lastSave := some found
              tree := before.context.tree.save before.context.current found }
          events := before.events.push (.saved before.context.scopeName found) }
  | openScope (scope : String) (depth : Nat) (known : before.context.knows scope = true) :
      Change may sets before
        { before with
          context :=
            { before.context with
              tree := before.context.tree.addChild before.context.current scope
              current := before.context.tree.size }
          events := before.events.push (.opened scope depth) }
  | closeScope :
      Change may sets before
        { before with
          context :=
            { before.context with
              current := (before.context.tree.parentOf before.context.current).getD
                before.context.current }
          events := before.events.push (.closed before.context.scopeName before.context.depth) }
  | swapScope (scope : String) (known : before.context.knows scope = true) :
      Change may sets before
        { before with
          context :=
            { before.context with
              tree := before.context.tree.rename before.context.current scope }
          events := before.events.push (.swapped before.context.scopeName scope) }
  | setVariable (id : Nat) (name : String) (value : Value) :
      Change may sets before
        { before with
          context :=
            { before.context with tree := before.context.tree.setVariable id name value } }
  | setStrict (scope : String) (strict : Bool) (allowed : sets strict) :
      Change may sets before
        { before with
          context :=
            { before.context with overrides := before.context.overrides.set scope strict } }

def Changes (may : Match → Prop) (sets : Bool → Prop) : Session → Session → Prop :=
  Relation.ReflTransGen (Change may sets)

variable {may : Match → Prop} {sets : Bool → Prop} {before middle after : Session}

theorem Changes.refl (session : Session) : Changes may sets session session :=
  Relation.ReflTransGen.refl

theorem Change.changes (change : Change may sets before after) : Changes may sets before after :=
  .single change

theorem Changes.trans (first : Changes may sets before middle) (second : Changes may sets middle after) :
    Changes may sets before after := Relation.ReflTransGen.trans first second

theorem Changes.keep (holds : Session → Prop)
    (step : ∀ session next, Change may sets session next → holds session → holds next)
    (changes : Changes may sets before after) (initial : holds before) : holds after := by
  induction changes with
  | refl => exact initial
  | tail _ change induction => exact step _ _ change induction

theorem Changes.cursor_eq (changes : Changes may sets before after) : after.cursor = before.cursor := by
  refine changes.keep (fun session => session.cursor = before.cursor) ?_ rfl
  intro session next change same
  cases change <;> exact same

theorem Changes.setting_eq (changes : Changes may sets before after) :
    after.context.setting = before.context.setting := by
  refine changes.keep (fun session => session.context.setting = before.context.setting) ?_ rfl
  intro session next change same
  cases change <;> exact same

/-- How an operation on the scopes ends: it has made changes, and an error of it
ends the parse. -/
def Changing (may : Match → Prop) (sets : Bool → Prop) (before : Session)
    (outcome : EStateM.Result Error Session Unit) : Prop :=
  Action.Ends outcome (fun _ after => Changes may sets before after)
    (fun error after => error.EndsParse ∧ Changes may sets before after)

theorem Changing.ends {outcome : EStateM.Result Error Session Unit}
    (changing : Changing may sets before outcome) :
    Action.Ends outcome (fun _ _ => True) (fun error _ => error.EndsParse) := by
  cases outcome with
  | ok value after => trivial
  | error error after => exact changing.1

theorem Changing.changes {outcome : EStateM.Result Error Session Unit}
    (changing : Changing may sets before outcome) (done : outcome = .ok () after) :
    Changes may sets before after := by
  rw [done] at changing
  exact changing

theorem refuse_changing (cause : ScopeFault) (session : Session) :
    Changing may sets session (refuse cause session) := ⟨trivial, .refl session⟩

theorem save_changes (found : Match) (allowed : may found) (session : Session) :
    ∃ after, save found session = .ok () after ∧ Changes may sets session after ∧
      after.context.lastSave = some found := by
  unfold save
  split
  · rename_i last
    exact ⟨session, rfl, .refl session, last⟩
  · rename_i fresh
    have saved := @Change.save may sets session found allowed fresh
    exact ⟨_, rfl, saved.changes.trans (Change.notes _).changes, rfl⟩

theorem openScope_changing (scope : String) (session : Session) :
    Changing may sets session (openScope scope session) := by
  unfold openScope
  split
  · rename_i known
    exact (Change.openScope scope _ known).changes.trans (Change.notes _).changes
  · exact refuse_changing _ session

theorem closeOne_changes (session : Session) : Changes may sets session session.closeOne :=
  Change.closeScope.changes.trans (Change.notes _).changes

theorem closeTimes_changes (count : Nat) (session : Session) :
    Changes may sets session (session.closeTimes count) := by
  induction count generalizing session with
  | zero => exact .refl session
  | succ count induction => exact (closeOne_changes session).trans (induction session.closeOne)

theorem closeScopes_changing (count : Nat) (session : Session) :
    Changing may sets session (closeScopes count session) := by
  simp only [closeScopes]
  split
  · exact refuse_changing _ session
  · exact closeTimes_changes count session

theorem swapScope_changing (scope : String) (session : Session) :
    Changing may sets session (swapScope scope session) := by
  unfold swapScope
  split
  · exact refuse_changing _ session
  · split
    · rename_i known
      exact (Change.swapScope scope known).changes.trans (Change.notes _).changes
    · exact refuse_changing _ session

theorem Changes.following {outcome : EStateM.Result Error Session Unit}
    (first : Changes may sets before middle) (second : Changing may sets middle outcome) :
    Changing may sets before outcome := by
  cases outcome with
  | ok value after => exact first.trans second
  | error error after => exact ⟨second.1, first.trans second.2⟩

theorem nextScope_changing (scope : String) (count : Nat) (session : Session) :
    Changing may sets session (nextScope scope count session) := by
  have closing := @closeScopes_changing may sets count session
  simp only [nextScope, bind, EStateM.bind]
  cases outcome : closeScopes count session with
  | ok value closed =>
      rw [outcome] at closing
      exact Changes.following closing (openScope_changing scope closed)
  | error error closed =>
      rw [outcome] at closing
      exact closing

theorem changeVariable_changing (name : String) (level : Nat)
    (change : Option Value → Except ScopeFault Value) (session : Session) :
    Changing may sets session (changeVariable name level change session) := by
  unfold changeVariable
  split
  · exact refuse_changing _ session
  · split
    · exact refuse_changing _ session
    · exact (Change.setVariable _ name _).changes

theorem setStrict_changing (scope : String) {strict : Bool} (allowed : sets strict)
    (session : Session) :
    Changing may sets session (setStrict scope strict session) := by
  unfold setStrict
  split
  · exact (Change.setStrict scope strict allowed).changes
  · exact refuse_changing _ session

theorem abandon_changing (complaint : Complaint) (session : Session) :
    Changing may sets session (abandon complaint session) :=
  ⟨trivial, (Change.notes _).changes⟩

end Session

/-- Whether an operation is one on the scopes: it neither moves the cursor nor
saves a match of its own, and makes scopes strict or relaxed as `sets` allows. -/
def Operation.OnScopes (sets : Bool → Prop) : Operation → Prop
  | .save _ => False
  | .move _ => False
  | .setStrict _ strict => sets strict
  | _ => True

theorem Operation.run_changing {may : Match → Prop} {sets : Bool → Prop} {operation : Operation}
    (onScopes : operation.OnScopes sets) (session : Session) :
    Session.Changing may sets session (operation.run session) := by
  cases operation with
  | save found => exact onScopes.elim
  | openScope scope => exact Session.openScope_changing scope session
  | closeScopes count => exact Session.closeScopes_changing count session
  | swapScope scope => exact Session.swapScope_changing scope session
  | nextScope scope count => exact Session.nextScope_changing scope count session
  | define name value level =>
      simp only [run, Session.define]
      exact Session.changeVariable_changing name level _ session
  | add name amount level =>
      simp only [run, Session.add]
      exact Session.changeVariable_changing name level _ session
  | append name value level =>
      simp only [run, Session.append]
      exact Session.changeVariable_changing name level _ session
  | setStrict scope strict => exact Session.setStrict_changing scope onScopes session
  | move movement => exact onScopes.elim
  | abandon message => exact Session.abandon_changing _ session

theorem Operation.run_ends (operation : Operation) (session : Session) :
    Action.Ends (operation.run session) (fun _ _ => True) (fun error _ => error.EndsParse) := by
  by_cases onScopes : operation.OnScopes fun _ => True
  · exact (@Operation.run_changing (fun _ => True) _ _ onScopes session).ends
  · cases operation with
    | save found =>
        obtain ⟨after, saved, _⟩ :=
          @Session.save_changes (fun _ => True) (fun _ => True) found trivial session
        simp only [run, saved]
        trivial
    | move movement => trivial
    | _ => exact absurd trivial onScopes

/-- Whether a callback stays at its place: it saves the match it is given or
performs an operation on the scopes. -/
def Callback.Still (sets : Bool → Prop) : Callback → Prop
  | .save => True
  | .perform operation => operation.OnScopes sets
  | .host _ => False

theorem Callback.run_changing {sets : Bool → Prop} {callback : Callback}
    (still : callback.Still sets) (found : Match) (session : Session) :
    Session.Changing (· = found) sets session (callback.run found session) := by
  cases callback with
  | save =>
      rcases @Session.save_changes (· = found) sets found rfl session with
        ⟨after, saved, changes, _⟩
      simp only [Callback.run, saved]
      exact changes
  | perform operation => exact Operation.run_changing still session
  | host script => exact still.elim

theorem Callback.Still.ends {sets : Bool → Prop} {callback : Callback}
    (still : callback.Still sets) (found : Match) (session : Session) :
    Action.Ends (callback.run found session) (fun _ _ => True) (fun error _ => error.EndsParse) := by
  exact (Callback.run_changing still found session).ends

theorem Rule.runCallbacks_ends {found : Match} {callbacks : List Callback} {holds : Session → Prop}
    {failed : Error → Session → Prop}
    (each : ∀ callback ∈ callbacks, ∀ session, holds session →
      Action.Ends (callback.run found session) (fun _ after => holds after) failed)
    {session : Session} (initial : holds session) :
    Action.Ends (Rule.runCallbacks found callbacks session) (fun _ after => holds after) failed := by
  induction callbacks generalizing session with
  | nil => exact initial
  | cons callback later induction =>
      have first := each callback (by simp) session initial
      simp only [Rule.runCallbacks]
      cases outcome : callback.run found session with
      | ok value next =>
          rw [outcome] at first
          apply induction _ first
          intro other member
          exact each other (by simp [member])
      | error error next =>
          rw [outcome] at first
          exact first

theorem Rule.runCallbacks_changing {sets : Bool → Prop} {callbacks : List Callback}
    (still : ∀ callback ∈ callbacks, callback.Still sets) (found : Match) (session : Session) :
    Session.Changing (· = found) sets session (Rule.runCallbacks found callbacks session) := by
  apply Rule.runCallbacks_ends _ (Session.Changes.refl session)
  intro callback member next changes
  exact changes.following (Callback.run_changing (still callback member) found next)

end LineGrammar
