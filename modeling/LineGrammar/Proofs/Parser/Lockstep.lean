import LineGrammar.Proofs.Grammar.Compiled
import LineGrammar.Proofs.Parser.Run
import LineGrammar.Proofs.Session.Act

/-!
Two parses in lockstep. A parse asks its session only a few questions, and it
changes it only by trying rules, by recording what won, by telling of lines, by
moving the cursor and by opening its start scope. If related sessions answer the
questions the same and these changes keep them related, then rounds and whole
parses of both go the same way and end in related sessions.
-/

namespace LineGrammar

/-- Whether two actions have answered the same and left related sessions. -/
inductive Action.Related {Result : Type} (related : Session → Session → Prop) :
    EStateM.Result Error Session Result → EStateM.Result Error Session Result → Prop
  | ok {left right : Session} (value : Result) (after : related left right) :
      Related related (.ok value left) (.ok value right)
  | error {left right : Session} (error : Error) (after : related left right) :
      Related related (.error error left) (.error error right)

theorem Action.Related.outcomes {Result : Type} {related : Session → Session → Prop}
    {first second : EStateM.Result Error Session Result}
    (pair : Action.Related related first second) :
    (∃ value left right, first = .ok value left ∧ second = .ok value right ∧
      related left right) ∨
    ∃ error left right, first = .error error left ∧ second = .error error right ∧
      related left right := by
  cases pair with
  | ok value after => exact .inl ⟨value, _, _, rfl, rfl, after⟩
  | error error after => exact .inr ⟨error, _, _, rfl, rfl, after⟩

namespace Session

/-- Whether two sessions answer the same wherever a parse asks. -/
structure SameAnswers (left right : Session) : Prop where
  position : left.cursor.position = right.cursor.position
  atEnd : left.cursor.atEnd = right.cursor.atEnd
  atLineEnd : left.cursor.atLineEnd = right.cursor.atLineEnd
  scopeName : left.context.scopeName = right.context.scopeName
  isStrict : ∀ scope, left.context.isStrict scope = right.context.isStrict scope
  fault : ∀ cause, left.context.fault cause = right.context.fault cause
  diagnose : ∀ complaint,
    left.context.diagnose left.cursor complaint = right.context.diagnose right.cursor complaint
  maxStall : left.context.setting.config.maxStall = right.context.setting.config.maxStall
  start : left.context.setting.config.start = right.context.setting.config.start
  stop : left.context.setting.config.stop = right.context.setting.config.stop

/-- Whether a relation between sessions is kept by whatever a parse does to both. -/
structure Lockstep (grammar : Grammar) (related : Session → Session → Prop) : Prop where
  answers : ∀ {left right}, related left right → SameAnswers left right
  notes : ∀ {left right}, related left right → ∀ note note',
    related (left.note note) (right.note note')
  tell : ∀ {left right}, related left right → ∀ event, event.ofScopes = false →
    related (left.publish event) (right.publish event)
  move : ∀ {left right}, related left right → ∀ movement : Movement,
    related { left with cursor := movement.apply left.cursor }
      { right with cursor := movement.apply right.cursor }
  openScope : ∀ {left right}, related left right → ∀ scope,
    Action.Related related (openScope scope left) (openScope scope right)
  rule : grammar.Every fun rule => ∀ {left right}, related left right →
    Action.Related related (rule.matchAt left) (rule.matchAt right)
  win : ∀ {left right}, related left right → ∀ scope index found,
    Action.Related related (win scope index found left) (win scope index found right)

namespace Lockstep

variable {grammar : Grammar} {related : Session → Session → Prop} {left right : Session}

theorem abandon {Result : Type} (lockstep : Lockstep grammar related) (complaint : Complaint)
    (pair : related left right) :
    Action.Related related (Session.abandon complaint left : EStateM.Result Error Session Result)
      (Session.abandon complaint right) := by
  simp only [Session.abandon, (lockstep.answers pair).diagnose complaint]
  exact .error _ (lockstep.notes pair _ _)

theorem tryRules (lockstep : Lockstep grammar related) {rules : List Rule}
    (listed : ∀ rule ∈ rules, ∀ {left right}, related left right →
      Action.Related related (rule.matchAt left) (rule.matchAt right))
    (scope : String) (start : Position) (index : Nat) (pair : related left right) :
    Action.Related related (Session.tryRules scope start index rules left)
      (Session.tryRules scope start index rules right) := by
  induction rules generalizing left right index with
  | nil => exact .ok false pair
  | cons rule later induction =>
      obtain ⟨found, _, _, here, there, after⟩ | ⟨error, _, _, here, there, after⟩ :=
        (listed rule (by simp) pair).outcomes
      · simp only [Session.tryRules, here, there]
        exact lockstep.win after scope index found
      · simp only [Session.tryRules, here, there]
        split
        · apply induction
          · intro other member
            exact listed other (by simp [member])
          · exact lockstep.move after (.to start)
        · exact .error error after

theorem matchAt (lockstep : Lockstep grammar related) (pair : related left right) :
    Action.Related related (Session.matchAt grammar left) (Session.matchAt grammar right) := by
  have same := lockstep.answers pair
  unfold Session.matchAt
  simp only [← same.scopeName, ← same.position, ← same.fault]
  cases known : grammar.scope? left.context.scopeName with
  | none => exact .error _ pair
  | some scope =>
      have tried := lockstep.tryRules (lockstep.rule scope (List.mem_of_find?_eq_some known))
        left.context.scopeName left.cursor.position 0 pair
      obtain ⟨answer, _, _, here, there, after⟩ | ⟨error, _, _, here, there, after⟩ :=
        tried.outcomes
      · simp only [here, there]
        cases answer with
        | true => exact .ok true after
        | false =>
            simp only [← (lockstep.answers after).isStrict]
            split
            · exact lockstep.abandon _ after
            · exact .ok false after
      · simp only [here, there]
        exact .error error after

theorem announceStart (lockstep : Lockstep grammar related) (pair : related left right) :
    related left.announceStart right.announceStart := by
  have same := lockstep.answers pair
  have atStart : left.cursor.atLineStart = right.cursor.atLineStart := by
    unfold Cursor.atLineStart
    rw [same.atEnd, same.position]
  unfold Session.announceStart
  rw [← atStart, ← same.position]
  split
  · exact lockstep.tell pair _ rfl
  · exact pair

theorem skipChar (lockstep : Lockstep grammar related) (pair : related left right) :
    related left.skipChar right.skipChar := by
  unfold Session.skipChar
  rw [← (lockstep.answers pair).atLineEnd]
  split
  · exact pair
  · exact lockstep.move pair (.advance 1)

theorem endLine (lockstep : Lockstep grammar related) (pair : related left right) :
    related left.endLine right.endLine := by
  have same := lockstep.answers pair
  unfold Session.endLine
  rw [← same.atLineEnd, ← same.position]
  split
  · exact lockstep.move (lockstep.tell pair (.lineEnded left.cursor.position) rfl) .nextLine
  · exact pair

theorem round (lockstep : Lockstep grammar related) (pair : related left right) :
    Action.Related related (Session.round grammar left) (Session.round grammar right) := by
  obtain ⟨answer, _, _, here, there, after⟩ | ⟨error, _, _, here, there, after⟩ :=
    (lockstep.matchAt (lockstep.announceStart pair)).outcomes
  · simp only [Session.round, here, there]
    cases answer with
    | true => exact .ok () (lockstep.endLine after)
    | false => exact .ok () (lockstep.endLine (lockstep.skipChar after))
  · simp only [Session.round, here, there]
    exact .error error after

theorem stall (lockstep : Lockstep grammar related) (pair : related left right) :
    Action.Related related (Session.stall left) (Session.stall right) := by
  have same := lockstep.answers pair
  simp only [Session.stall, ← same.maxStall, ← same.scopeName, ← same.diagnose]
  exact .error _ (lockstep.notes pair _ _)

theorem rounds (lockstep : Lockstep grammar related) (limit : Nat) (fuse : Fuse)
    (pair : related left right) :
    Action.Related related (Session.rounds grammar limit fuse left)
      (Session.rounds grammar limit fuse right) := by
  induction limit generalizing left right fuse with
  | zero =>
      rw [Session.rounds.eq_def]
      simp only [← (lockstep.answers pair).atEnd]
      split
      · exact .ok () pair
      · exact .error _ pair
  | succ limit induction =>
      rw [Session.rounds.eq_def]
      simp only [← (lockstep.answers pair).atEnd]
      split
      · exact .ok () pair
      · obtain ⟨_, _, _, here, there, after⟩ | ⟨error, _, _, here, there, after⟩ :=
          (lockstep.round pair).outcomes
        · have same := lockstep.answers after
          simp only [here, there, ← same.maxStall, ← same.position]
          split
          · exact induction _ after
          · exact lockstep.stall after
        · simp only [here, there]
          exact .error error after

theorem enter (lockstep : Lockstep grammar related) (pair : related left right) :
    Action.Related related (Session.enter left) (Session.enter right) := by
  simp only [Session.enter, ← (lockstep.answers pair).start]
  split
  · exact .ok () pair
  · exact lockstep.openScope pair _

theorem leave (lockstep : Lockstep grammar related) (pair : related left right) :
    Action.Related related (Session.leave left) (Session.leave right) := by
  have same := lockstep.answers pair
  simp only [Session.leave, ← same.stop, ← same.scopeName]
  split
  · exact .ok () pair
  · split
    · exact .ok () pair
    · exact lockstep.abandon _ pair

/-- Whole parses end the same way, in related sessions. The trees are those of
the sessions, about which the relation may say less than that they are equal. -/
theorem parse (lockstep : Lockstep grammar related) (limit : Nat) (pair : related left right) :
    (∃ ended ended', Session.parse grammar limit left = .ok ended.context.tree ended ∧
      Session.parse grammar limit right = .ok ended'.context.tree ended' ∧ related ended ended') ∨
    ∃ error ended ended', Session.parse grammar limit left = .error error ended ∧
      Session.parse grammar limit right = .error error ended' ∧ related ended ended' := by
  rw [parse_eq, parse_eq]
  obtain ⟨_, entered, entered', here, there, inside⟩ | ⟨error, _, _, here, there, after⟩ :=
    (lockstep.enter pair).outcomes
  · simp only [here, there, ← (lockstep.answers inside).position]
    obtain ⟨_, _, _, here, there, ended⟩ | ⟨error, _, _, here, there, after⟩ :=
      (lockstep.rounds limit ⟨entered.cursor.position, 0⟩ inside).outcomes
    · simp only [here, there]
      obtain ⟨_, _, _, here, there, final⟩ | ⟨error, _, _, here, there, after⟩ :=
        (lockstep.leave ended).outcomes
      · simp only [here, there]
        exact .inl ⟨_, _, rfl, rfl, lockstep.notes final _ _⟩
      · simp only [here, there]
        exact .inr ⟨error, _, _, rfl, rfl, after⟩
    · simp only [here, there]
      exact .inr ⟨error, _, _, rfl, rfl, after⟩
  · simp only [here, there]
    exact .inr ⟨error, _, _, rfl, rfl, after⟩

end Lockstep

end Session

end LineGrammar
