import LineGrammar.Proofs.Parser.Cause

/-!
Refusals stay where they arise. Whatever the callbacks of a rule do and with
whatever error they fail, an error that only refuses a match goes no further than
the rules of the current scope: the next rule is tried, and from where the first
one was. So no parse ends with a refusal, and where no rule has matched the cursor
has not moved. This needs only that a host cannot take the cursor out of its buffer.
-/

namespace LineGrammar

namespace Session

variable {grammar : Grammar} {session after : Session} {error : Error}

theorem win_not_error {scope : String} {index : Nat} {found : Match} :
    win scope index found session ≠ .error error after := by
  obtain ⟨last, _, won, _⟩ := win_eq (fun _ => True) scope index found session
  rw [won]
  exact nofun

theorem tryRules_error {scope : String} {start : Position} {index : Nat} {rules : List Rule}
    (failed : tryRules scope start index rules session = .error error after) :
    error.isRecoverable = false := by
  induction rules generalizing session index with
  | nil => cases failed
  | cons rule later induction =>
      simp only [tryRules] at failed
      split at failed
      · exact absurd failed win_not_error
      · split at failed
        · exact induction failed
        · rename_i ends
          cases failed
          exact Bool.eq_false_iff.mpr ends

theorem tryRules_cons_false {scope : String} {index : Nat} {rule : Rule} {later : List Rule}
    (valid : session.cursor.Valid)
    (passed : tryRules scope session.cursor.position index (rule :: later) session =
      .ok false after) :
    ∃ error last, rule.matchAt session = .error error last ∧ error.isRecoverable = true ∧
      tryRules scope session.cursor.position (index + 1) later
        { last with cursor := session.cursor } = .ok false after := by
  have inside := rule.matchAt_within valid
  simp only [tryRules] at passed
  cases outcome : rule.matchAt session with
  | ok found last =>
      obtain ⟨_, _, won, _⟩ := win_eq (fun _ => True) scope index found last
      rw [outcome] at passed
      simp only [won] at passed
      cases passed
  | error error last =>
      rw [outcome] at passed inside
      have back : last.cursor.moveTo session.cursor.position = session.cursor :=
        valid.moveTo_eq inside.1.cursor.buffer
      simp only [back] at passed
      split at passed
      · rename_i refuses
        exact ⟨error, last, rfl, refuses, passed⟩
      · cases passed

/-- The next rule is tried from where the first one was, so if none has matched
the cursor has come back. -/
theorem tryRules_false {scope : String} {index : Nat} {rules : List Rule}
    (valid : session.cursor.Valid)
    (passed : tryRules scope session.cursor.position index rules session = .ok false after) :
    after.cursor = session.cursor := by
  induction rules generalizing session index with
  | nil =>
      cases passed
      rfl
  | cons rule later induction =>
      obtain ⟨error, last, _, _, rest⟩ := tryRules_cons_false valid passed
      exact @induction { last with cursor := session.cursor } (index + 1) valid rest

theorem matchAt_error (failed : matchAt grammar session = .error error after) :
    error.isRecoverable = false := by
  unfold matchAt at failed
  simp only at failed
  split at failed
  · cases failed
    rfl
  · split at failed
    · split at failed
      · cases failed
        rfl
      · cases failed
    · exact tryRules_error failed

theorem matchAt_false (valid : session.cursor.Valid)
    (passed : matchAt grammar session = .ok false after) : after.cursor = session.cursor := by
  unfold matchAt at passed
  simp only at passed
  split at passed
  · cases passed
  · split at passed
    · rename_i tried
      split at passed
      · cases passed
      · cases passed
        exact tryRules_false valid tried
    · exact tryRules_false valid passed

theorem round_error (failed : round grammar session = .error error after) :
    error.isRecoverable = false := by
  unfold round at failed
  split at failed
  · cases failed
  · cases failed
  · rename_i matching
    cases failed
    exact matchAt_error matching

theorem FailsWith.not_recoverable (fails : FailsWith grammar session error) :
    error.isRecoverable = false := by
  cases fails with
  | entering refused =>
      have ends := (@enter_changing (fun _ => True) (fun _ => True) session).ends
      rw [refused] at ends
      exact Error.EndsParse.not_recoverable ends
  | exhausted => rfl
  | stuck diagnostic => rfl
  | inRound entering reaches failed => exact round_error failed
  | leaving diagnostic => rfl

end Session

/-- Whatever the callbacks of a grammar do and with whatever errors they fail, no
parse with it and no parse inside one fails with a refusal, and wherever trying
the rules of a scope is answered by "nothing matched", the cursor is where it was
before. -/
theorem Grammar.refusals_stay_inside (grammar : Grammar) (config : Config) :
    (∀ extra depth cursor error,
      (grammar.drive config extra depth cursor).result = .error error →
        error.isRecoverable = false) ∧
    (∀ extra depth lines error,
      ((grammar.setting config (grammar.drive config extra depth)).nested lines).result =
        .error error → error.isRecoverable = false) ∧
    ∀ (session after : Session) (buffer : Buffer) (position : Position),
      Session.matchAt grammar { session with cursor := .near buffer position } = .ok false after →
        after.cursor = .near buffer position := by
  have never : ∀ extra depth cursor error,
      (grammar.drive config extra depth cursor).result = .error error →
        error.isRecoverable = false := by
    intro extra depth cursor error failed
    rcases drive_error failed with rfl | ⟨_, fails⟩
    · rfl
    · exact fails.not_recoverable
  refine ⟨never, ?_, ?_⟩
  · intro extra depth lines error failed
    exact never extra depth ⟨.ofLines lines, .origin⟩ error failed
  · intro session after buffer position passed
    exact Session.matchAt_false (Cursor.near_valid buffer position) passed

/-- A callback goes to the end of the buffer, parses other text with the same
grammar and then refuses the match. -/
theorem Grammar.host_refusal_is_swallowed :
    let wandering : Rule :=
      { expr := .always
        callbacks := [.host fun _ => .perform (.move .bufferEnd) fun _ =>
          .parse ["c"] fun _ => .fail (.noMatch .host ⟨0, 0⟩)] }
    let relaxed : Grammar := ⟨[⟨"main", [wandering], false⟩]⟩
    let strict : Grammar := ⟨[⟨"main", [wandering], true⟩]⟩
    let cursor : Cursor := .near (.ofLines ["ab"]) ⟨0, 1⟩
    let session := Session.begin (relaxed.setting {} (relaxed.drive {} 0 2)) cursor
    (∃ after, Session.matchAt relaxed session = .ok false after ∧ after.cursor = cursor) ∧
      ∃ error, (strict.drive {} 0 2 cursor).result = .error error ∧
        error.isRecoverable = false := by
  intro wandering relaxed strict cursor session
  constructor
  · obtain ⟨after, passed⟩ : ∃ after, Session.matchAt relaxed session = .ok false after := ⟨_, rfl⟩
    exact ⟨after, passed, (refusals_stay_inside relaxed {}).2.2 session after _ _ passed⟩
  · obtain ⟨error, failed⟩ : ∃ error, (strict.drive {} 0 2 cursor).result = .error error :=
      ⟨_, rfl⟩
    exact ⟨error, failed, (refusals_stay_inside strict {}).1 0 2 cursor error failed⟩

end LineGrammar
