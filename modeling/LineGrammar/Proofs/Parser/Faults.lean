import LineGrammar.Proofs.Grammar.Names
import LineGrammar.Proofs.Parser.Endless
import LineGrammar.Proofs.Session.Shape

/-!
What can still go wrong when a grammar has been checked. Every scope that a parse
comes to has a name that the grammar knows, because the start scope and all names
in the instructions were looked up beforehand. So a parse with a built grammar,
none of whose callbacks is the host's own, fails only for what the text leads to:
it is abandoned or gets stuck, closes more scopes than are open, renames the root,
reaches above the root, or takes a variable for what it is not.
-/

namespace LineGrammar

/-- Whether a fault, met with the given scopes open, is one that no check
beforehand can exclude, and tells the truth. -/
def ScopeFault.AtRun (trace : List String) : ScopeFault → Prop
  | .closeTooMany count depth => depth < count ∧ trace.length = depth + 1
  | .swapRoot => trace.length = 1
  | .noAncestor level depth => depth < level ∧ trace.length = depth + 1
  | .notInteger _ value => value.int? = none
  | .notList _ value => value.list? = none
  | _ => False

/-- Whether an error is one that no check of a grammar can exclude. A parse that
uses up its budget has not come to an error of its own. -/
def Error.AtRun : Error → Prop
  | .fatal _ => True
  | .stuck _ => True
  | .exhausted => True
  | .scope fault trace => fault.AtRun trace
  | _ => False

/-- Whether the tree of a session is in shape, with the names of a grammar. -/
structure Session.Belongs (grammar : Grammar) (session : Session) : Prop where
  sound : session.context.Sound
  scopes : session.context.setting.scopes = grammar.strictness

def Action.FailsAtRun {Result : Type} (outcome : EStateM.Result Error Session Result) : Prop :=
  Action.Ends outcome (fun _ _ => True) (fun error _ => error.AtRun)

variable {grammar : Grammar} {session : Session}

namespace Session

theorem Belongs.knows (belongs : session.Belongs grammar) (name : String) :
    session.context.knows name = grammar.contains name := by
  rw [Context.knows, belongs.scopes, grammar.has_strictness]

theorem Belongs.trace_length (belongs : session.Belongs grammar) :
    session.context.trace.length = session.context.depth + 1 :=
  (belongs.sound.formed.trace_spec belongs.sound.current).1

theorem Acts.belongs {before after : Session} {offered : List Match}
    (acts : Acts before offered after) (belongs : before.Belongs grammar) :
    after.Belongs grammar :=
  ⟨acts.sound belongs.sound, by rw [acts.setting_eq, belongs.scopes]⟩

theorem refuse_failsAtRun {cause : ScopeFault} (atRun : cause.AtRun session.context.trace) :
    Action.FailsAtRun (refuse cause session) := atRun

theorem openScope_failsAtRun {scope : String} (known : session.context.knows scope = true) :
    Action.FailsAtRun (openScope scope session) := by
  simp only [openScope, if_pos known]
  trivial

theorem closeScopes_failsAtRun (belongs : session.Belongs grammar) (count : Nat) :
    Action.FailsAtRun (closeScopes count session) := by
  simp only [closeScopes]
  split
  · rename_i beyond
    exact refuse_failsAtRun ⟨beyond, belongs.trace_length⟩
  · trivial

theorem swapScope_failsAtRun (belongs : session.Belongs grammar) {scope : String}
    (known : session.context.knows scope = true) :
    Action.FailsAtRun (swapScope scope session) := by
  simp only [swapScope, if_pos known]
  split
  · rename_i atRoot
    have length := belongs.trace_length
    rw [atRoot] at length
    exact refuse_failsAtRun length
  · trivial

theorem nextScope_failsAtRun (belongs : session.Belongs grammar) {scope : String}
    (known : grammar.contains scope = true) (count : Nat) :
    Action.FailsAtRun (nextScope scope count session) := by
  have closing := closeScopes_failsAtRun belongs count
  have acts := closeScopes_acts count belongs.sound
  simp only [nextScope, bind, EStateM.bind]
  cases outcome : closeScopes count session with
  | ok value closed =>
      rw [outcome] at acts
      exact openScope_failsAtRun (((acts.belongs belongs).knows scope).trans known)
  | error error closed =>
      rw [outcome] at closing
      exact closing

theorem changeVariable_failsAtRun (belongs : session.Belongs grammar) (name : String) (level : Nat)
    {change : Option Value → Except ScopeFault Value}
    (atRun : ∀ value cause, change value = .error cause → cause.AtRun session.context.trace) :
    Action.FailsAtRun (changeVariable name level change session) := by
  unfold changeVariable
  split
  · rename_i missing
    apply refuse_failsAtRun
    refine ⟨?_, belongs.trace_length⟩
    -- Up to the root every level has a scope.
    by_contra within
    obtain ⟨upper, found, _⟩ := belongs.sound.formed.ancestor_of_le belongs.sound.current
      (Nat.le_of_not_lt within)
    rw [missing] at found
    cases found
  · split
    · rename_i refused
      exact refuse_failsAtRun (atRun _ _ refused)
    · trivial

theorem setStrict_failsAtRun {scope : String} {strict : Bool}
    (known : session.context.knows scope = true) :
    Action.FailsAtRun (setStrict scope strict session) := by
  simp only [setStrict, if_pos known]
  trivial

end Session

theorem Operation.run_failsAtRun {operation : Operation} (belongs : session.Belongs grammar)
    (named : ∀ scope ∈ operation.scope?, grammar.contains scope = true) :
    Action.FailsAtRun (operation.run session) := by
  cases operation with
  | save found =>
      obtain ⟨after, saved, _⟩ :=
        @Session.save_changes (fun _ => True) (fun _ => True) found trivial session
      simp only [run, saved]
      trivial
  | openScope scope =>
      exact Session.openScope_failsAtRun ((belongs.knows scope).trans (named scope rfl))
  | closeScopes count => exact Session.closeScopes_failsAtRun belongs count
  | swapScope scope =>
      exact Session.swapScope_failsAtRun belongs ((belongs.knows scope).trans (named scope rfl))
  | nextScope scope count => exact Session.nextScope_failsAtRun belongs (named scope rfl) count
  | define name value level =>
      simp only [run, Session.define]
      apply Session.changeVariable_failsAtRun belongs name level
      intro value cause refused
      cases refused
  | add name amount level =>
      simp only [run, Session.add]
      apply Session.changeVariable_failsAtRun belongs name level
      intro value cause refused
      split at refused
      · cases refused
      · cases refused
      · rename_i other notInt
        cases refused
        cases other with
        | int number => exact absurd rfl (notInt number)
        | text content => rfl
        | list items => rfl
  | append name value level =>
      simp only [run, Session.append]
      apply Session.changeVariable_failsAtRun belongs name level
      intro value cause refused
      split at refused
      · cases refused
      · cases refused
      · rename_i other notList
        cases refused
        cases other with
        | list items => exact absurd rfl (notList items)
        | int number => rfl
        | text content => rfl
  | setStrict scope strict =>
      exact Session.setStrict_failsAtRun ((belongs.knows scope).trans (named scope rfl))
  | move movement => trivial
  | abandon message => trivial

theorem Callback.run_failsAtRun {callback : Callback} (belongs : session.Belongs grammar)
    (names : callback.Names fun name => grammar.contains name = true) (found : Match) :
    Action.FailsAtRun (callback.run found session) := by
  cases callback with
  | save => exact @Operation.run_failsAtRun _ _ (.save found) belongs nofun
  | perform operation => exact Operation.run_failsAtRun belongs names
  | host script => exact names.elim

theorem Rule.runCallbacks_failsAtRun {callbacks : List Callback}
    (belongs : session.Belongs grammar)
    (names : ∀ callback ∈ callbacks, callback.Names fun name => grammar.contains name = true)
    (found : Match) : Action.FailsAtRun (Rule.runCallbacks found callbacks session) := by
  induction callbacks generalizing session with
  | nil => trivial
  | cons callback later induction =>
      have first := Callback.run_failsAtRun belongs (names callback (by simp)) found
      have acts := callback.run_acts found belongs.sound
      simp only [Rule.runCallbacks]
      cases outcome : callback.run found session with
      | ok value next =>
          rw [outcome] at acts
          apply induction (acts.belongs belongs)
          intro other member
          exact names other (by simp [member])
      | error error next =>
          rw [outcome] at first
          exact first

theorem Rule.matchAt_failsAtRun {rule : Rule} (belongs : session.Belongs grammar)
    (valid : session.cursor.Valid) (names : rule.Names fun name => grammar.contains name = true) :
    Action.Ends (rule.matchAt session) (fun _ _ => True)
      (fun error _ => error.isRecoverable = true ∨ error.AtRun) := by
  cases accepted : rule.match? session.cursor session.context with
  | none =>
      obtain ⟨error, notes, refused, recoverable⟩ := matchAt_of_none valid accepted
      rw [refused]
      exact .inl recoverable
  | some found =>
      obtain ⟨notes, matched⟩ := matchAt_of_some accepted
      have behind : Session.Belongs grammar
          { session with
            cursor := (rule.expr.attempt session.cursor).cursor
            notes := notes } := ⟨belongs.sound, belongs.scopes⟩
      have ran := runCallbacks_failsAtRun behind names (rule.dress found)
      rw [matched]
      cases called : runCallbacks (rule.dress found) rule.callbacks
        { session with cursor := (rule.expr.attempt session.cursor).cursor, notes := notes } with
      | ok value after => trivial
      | error error after =>
          rw [called] at ran
          exact .inr ran

namespace Session

theorem tryRules_failsAtRun {rules : List Rule} (belongs : session.Belongs grammar)
    (valid : session.cursor.Valid)
    (names : ∀ rule ∈ rules, rule.Names fun name => grammar.contains name = true)
    (scope : String) (start : Position) (index : Nat) :
    Action.FailsAtRun (tryRules scope start index rules session) := by
  induction rules generalizing session index with
  | nil => trivial
  | cons rule later induction =>
      have first := Rule.matchAt_failsAtRun belongs valid (names rule (by simp))
      have acts := rule.matchAt_acts belongs.sound
      simp only [tryRules]
      cases outcome : rule.matchAt session with
      | ok found after =>
          obtain ⟨last, _, won, _⟩ := win_eq (fun _ => True) scope index found after
          simp only [won]
          trivial
      | error error after =>
          rw [outcome] at first acts
          simp only
          split
          · have later' := acts.belongs belongs
            apply induction
            · exact ⟨later'.sound, later'.scopes⟩
            · exact Cursor.near_valid _ start
            · intro other member
              exact names other (by simp [member])
          · rename_i ends
            exact first.resolve_left ends

theorem matchAt_failsAtRun (belongs : session.Belongs grammar) (valid : session.cursor.Valid)
    (names : grammar.Every (Rule.Names fun name => grammar.contains name = true)) :
    Action.FailsAtRun (matchAt grammar session) := by
  obtain ⟨scope, known⟩ := scope_of_sound belongs.sound belongs.scopes
  have tried := tryRules_failsAtRun belongs valid (names scope (List.mem_of_find?_eq_some known))
    session.context.scopeName session.cursor.position 0
  simp only [matchAt, known]
  split
  · split
    · trivial
    · trivial
  · exact tried

theorem round_failsAtRun (belongs : session.Belongs grammar) (valid : session.cursor.Valid)
    (names : grammar.Every (Rule.Names fun name => grammar.contains name = true)) :
    Action.FailsAtRun (round grammar session) := by
  have announced := (announceStart_acts session).belongs belongs
  have matching := matchAt_failsAtRun announced (by rwa [announceStart_cursor]) names
  unfold round
  split
  · trivial
  · trivial
  · rename_i outcome
    rw [outcome] at matching
    exact matching

theorem enter_failsAtRun (belongs : session.Belongs grammar)
    (known : grammar.contains session.context.setting.config.start = true) :
    Action.FailsAtRun (enter session) := by
  simp only [enter]
  split
  · trivial
  · exact openScope_failsAtRun ((belongs.knows _).trans known)

theorem Reaches.belongs {before after : Session} (reaches : Reaches grammar before after)
    (goes : grammar.Every (Rule.Goes Cursor.Within)) (belongs : before.Belongs grammar)
    (valid : before.cursor.Valid) : after.Belongs grammar ∧ after.cursor.Valid := by
  induction reaches with
  | refl => exact ⟨belongs, valid⟩
  | tail _ made induction =>
      obtain ⟨belongs', valid'⟩ := induction
      have acts := round_acts grammar belongs'.sound
      have along := round_endsAlong Cursor.way_within goes valid'
      rw [made.2] at acts along
      exact ⟨acts.belongs belongs', along.cursor.valid⟩

theorem FailsWith.atRun {error : Error} (fails : FailsWith grammar session error)
    (belongs : session.Belongs grammar) (valid : session.cursor.Valid)
    (known : grammar.contains session.context.setting.config.start = true)
    (goes : grammar.Every (Rule.Goes Cursor.Within))
    (names : grammar.Every (Rule.Names fun name => grammar.contains name = true)) :
    error.AtRun := by
  cases fails with
  | entering refused =>
      have entering := enter_failsAtRun belongs known
      rw [refused] at entering
      exact entering
  | exhausted => trivial
  | stuck diagnostic => trivial
  | leaving diagnostic => trivial
  | @inRound entered before after error entering reaches failed =>
      have acts := enter_acts session
      rw [entering] at acts
      have cursor := (changes_of_enter (fun _ => True) (fun _ => True) entering).cursor_eq
      obtain ⟨belongs', valid'⟩ := reaches.belongs goes (acts.belongs belongs) (by rwa [cursor])
      have round := round_failsAtRun belongs' valid' names
      rw [failed] at round
      exact round

end Session

namespace Parser

theorem start_of_withConfig {config : Config} {parser : Parser}
    (made : withConfig grammar config = .ok parser) :
    parser.grammar = grammar ∧ grammar.contains parser.config.start = true := by
  unfold withConfig at made
  split at made
  · cases made
  · rename_i known
    cases made
    simpa using List.find?_eq_none.mp known config.start List.mem_cons_self

/-- A parser over a built grammar whose callbacks all come from instructions other
than a call, made with the default configuration or with one that was accepted,
fails on no buffer, from no place and within no budget with an error that checking
the grammar is to exclude: none of an unknown scope or of a scope without rules, and
none of the grammar, of a multiplicity, of a pattern or of a source. A fault of the
scopes says truly that more scopes are closed than are open, that the root is renamed,
that a level lies above the root, or that a variable has a value of another kind. -/
theorem checked_grammar_fails_at_run_only (builder : Builder) (grammar : Grammar)
    (built : builder.build = .ok grammar)
    (confined : builder.Every (Entry.Confined fun mnemonic _ => mnemonic ≠ .call))
    (parser : Parser)
    (made : parser = .new grammar ∨ ∃ config, withConfig grammar config = .ok parser)
    (extra depth : Nat) (buffer : Buffer) (position : Position) (error : Error)
    (failed : (parser.grammar.drive parser.config extra depth (.near buffer position)).result =
      .error error) : error.AtRun := by
  obtain ⟨isGrammar, start⟩ :
      parser.grammar = grammar ∧ grammar.contains parser.config.start = true := by
    rcases made with rfl | ⟨config, accepted⟩
    · exact ⟨rfl, Builder.main_of_build built⟩
    · exact start_of_withConfig accepted
  rw [isGrammar] at failed
  rcases Grammar.drive_error failed with rfl | ⟨less, fails⟩
  · trivial
  · apply fails.atRun _ (Cursor.near_valid buffer position) start
      (Builder.within_of_build confined built) (Builder.names_of_build confined built)
    exact ⟨@Session.sound_of_build _ _ _ _ (.near buffer position) built, rfl⟩

/-- Each of the two scopes is closed once, the inner one rightly. -/
theorem closing_the_root_fails_at_run :
    let builder := ({} : Builder)
      |>.scope "main" [RuleSpec.always.instruct "close" []]
      |>.scope "item" [RuleSpec.always.instruct "close" []]
    let closing : Rule := { expr := .always, callbacks := [.perform (.closeScopes 1)] }
    let grammar : Grammar := ⟨[⟨"main", [closing], false⟩, ⟨"item", [closing], false⟩]⟩
    let parser : Parser := ⟨grammar, { start := "item" }⟩
    let error : Error := .scope (.closeTooMany 1 0) ["main"]
    builder.build = .ok grammar ∧ withConfig grammar { start := "item" } = .ok parser ∧
      (parser.parse (.near (.ofLines ["a"]) .origin)).result = .error error ∧ error.AtRun := by
  intro builder closing grammar parser error
  have built : builder.build = .ok grammar := rfl
  have made : withConfig grammar { start := "item" } = .ok parser := rfl
  have confined : builder.Every (Entry.Confined fun mnemonic _ => mnemonic ≠ .call) := by
    decide +kernel
  have failed : (parser.parse (.near (.ofLines ["a"]) .origin)).result = .error error := by
    decide +kernel
  exact ⟨built, made, failed, checked_grammar_fails_at_run_only builder grammar built confined
    parser (.inr ⟨_, made⟩) _ _ (.ofLines ["a"]) .origin error failed⟩

end Parser

end LineGrammar
