import LineGrammar.Proofs.Text.Boundary
import LineGrammar.Regex.Basic

/-!
Where matches of a pattern lie. Whatever way a program takes through a text, it
only consumes characters from the front of what is left, and its offset keeps
count of their bytes. So a match begins at the column it was asked for and ends
at a character boundary of the line.
-/

namespace LineGrammar.Regex

/-- Whether a state is ahead of another in the same text. -/
def State.Precedes (early late : State) : Prop :=
  ∃ consumed, early.rest = consumed ++ late.rest ∧
    late.offset = early.offset + Text.byteLength consumed

theorem State.precedes_of_same {early late : State} (rest : late.rest = early.rest)
    (offset : late.offset = early.offset) : early.Precedes late :=
  ⟨[], by simp [rest], by simp [offset]⟩

theorem State.Precedes.trans {early middle late : State} (first : early.Precedes middle)
    (second : middle.Precedes late) : early.Precedes late := by
  rcases first with ⟨consumed, rest, offset⟩
  rcases second with ⟨further, restLater, offsetLater⟩
  refine ⟨consumed ++ further, ?_, ?_⟩
  · rw [rest, restLater, List.append_assoc]
  · rw [offsetLater, offset, Text.byteLength_append, Nat.add_assoc]

theorem State.precedes_consume {state : State} {char : Char} {rest : List Char}
    (split : state.rest = char :: rest) : state.Precedes (state.consume char rest) :=
  ⟨[char], split, by simp [State.consume]⟩

/-- A way of matching that accepts nothing by itself: an accepted result is one
that `next` gave at a state further on. -/
def Conservative {Result : Type} (way : State → (State → Verdict Result) → Verdict Result) : Prop :=
  ∀ state next result, way state next = .accepted result →
    ∃ final, state.Precedes final ∧ next final = .accepted result

/-- What is accepted after trying one way and then another was accepted by one
of them. The choices made on the first way do not move the second. -/
theorem Verdict.accepted_of_orTry {Result : Type} {verdict : Verdict Result} {state : State}
    {other : State → Verdict Result} {result : Result}
    (accepted : verdict.orTry state other = .accepted result) :
    verdict = .accepted result ∨
      ∃ again : State, state.Precedes again ∧ other again = .accepted result := by
  cases verdict with
  | accepted first => exact .inl accepted
  | refused marks =>
      exact .inr ⟨{ state with marks := marks }, State.precedes_of_same rfl rfl, accepted⟩

theorem State.precedes_make (state : State) (choice : Nat) : state.Precedes (state.make choice) :=
  State.precedes_of_same rfl rfl

namespace Program

theorem rounds_conservative {Result : Type}
    {round : State → (State → Verdict Result) → Verdict Result} (lawful : Conservative round)
    (choice : Nat) (greedy : Bool) (visits : Nat) :
    Conservative fun state next => rounds round choice greedy next visits state := by
  intro state next result accepted
  induction visits generalizing state with
  | zero => simp [rounds] at accepted
  | succ visits induction =>
      have oneRound : ∀ begun : State, state.Precedes begun →
          round begun (rounds round choice greedy next visits) = .accepted result →
          ∃ final, state.Precedes final ∧ next final = .accepted result := by
        intro begun started taken
        rcases lawful begun _ result taken with ⟨middle, moved, later⟩
        rcases induction middle later with ⟨final, arrived, given⟩
        exact ⟨final, started.trans (moved.trans arrived), given⟩
      have made := state.precedes_make choice
      simp only [rounds] at accepted
      split at accepted
      · cases accepted
      · cases greedy with
        | true =>
            rw [if_pos rfl] at accepted
            rcases Verdict.accepted_of_orTry accepted with taken | ⟨again, moved, given⟩
            · exact oneRound _ made taken
            · exact ⟨again, made.trans moved, given⟩
        | false =>
            rw [if_neg Bool.false_ne_true] at accepted
            rcases Verdict.accepted_of_orTry accepted with given | ⟨again, moved, taken⟩
            · exact ⟨_, made, given⟩
            · exact oneRound again (made.trans moved) taken

theorem run_conservative {Result : Type} (program : Program) :
    Conservative (@run Result program) := by
  induction program with
  | empty =>
      intro state next result accepted
      exact ⟨state, State.precedes_of_same rfl rfl, accepted⟩
  | chars members =>
      intro state next result accepted
      simp only [run] at accepted
      split at accepted
      · cases accepted
      · rename_i char rest split
        split at accepted
        · exact ⟨_, State.precedes_consume split, accepted⟩
        · cases accepted
  | look assertion =>
      intro state next result accepted
      simp only [run] at accepted
      split at accepted
      · exact ⟨state, State.precedes_of_same rfl rfl, accepted⟩
      · cases accepted
  | group index body induction =>
      intro state next result accepted
      rcases induction state _ result accepted with ⟨inner, moved, given⟩
      have closed : inner.Precedes (inner.closeGroup index state.offset) :=
        State.precedes_of_same rfl rfl
      exact ⟨_, moved.trans closed, given⟩
  | seq first second inductionFirst inductionSecond =>
      intro state next result accepted
      rcases inductionFirst state _ result accepted with ⟨middle, moved, later⟩
      rcases inductionSecond middle next result later with ⟨final, arrived, given⟩
      exact ⟨final, moved.trans arrived, given⟩
  | branch choice first second inductionFirst inductionSecond =>
      intro state next result accepted
      have made := state.precedes_make choice
      simp only [run] at accepted
      split at accepted
      · cases accepted
      · rcases Verdict.accepted_of_orTry accepted with taken | ⟨again, moved, taken⟩
        · rcases inductionFirst _ next result taken with ⟨final, arrived, given⟩
          exact ⟨final, made.trans arrived, given⟩
        · rcases inductionSecond again next result taken with ⟨final, arrived, given⟩
          exact ⟨final, made.trans (moved.trans arrived), given⟩
  | star choice greedy body induction =>
      intro state next result accepted
      exact rounds_conservative induction choice greedy _ state next result accepted

end Program

def Captures.ofState (groups offset : Nat) (final : State) : Captures where
  start := offset
  stop := final.offset
  groups := (List.range groups).map fun index =>
    (final.group? (index + 1)).map fun span => (span.start, span.stop)

theorem matchFrom_eq (regex : Regex) (previous : Option Char) (offset : Nat) (rest : List Char) :
    regex.matchFrom previous offset rest =
      (regex.program.run ⟨previous, rest, offset, [], []⟩ fun final =>
        .accepted (.ofState regex.groups offset final)).result? := rfl

/-- A match consumes characters from the front of the rest it was given. -/
theorem matchFrom_span {regex : Regex} {previous : Option Char} {offset : Nat}
    {rest : List Char} {captures : Captures}
    (found : regex.matchFrom previous offset rest = some captures) :
    captures.start = offset ∧ ∃ consumed later, rest = consumed ++ later ∧
      captures.stop = offset + Text.byteLength consumed := by
  unfold matchFrom at found
  simp only [Verdict.result?] at found
  split at found
  · rename_i accepted
    rcases Program.run_conservative _ _ _ _ accepted with ⟨final, ⟨consumed, split, moved⟩, given⟩
    cases given
    cases found
    exact ⟨rfl, consumed, final.rest, split, moved⟩
  · cases found

theorem matchAt_span {regex : Regex} {text : List Char} {column : Nat} {captures : Captures}
    (boundary : Text.AtBoundary text column)
    (found : regex.matchAt text column = some captures) :
    captures.start = column ∧ ∃ consumed later,
      Text.dropBytes column text = consumed ++ later ∧
        captures.stop = column + Text.byteLength consumed := by
  unfold matchAt at found
  simp only [boundary.byteLength_takeBytes] at found
  exact matchFrom_span found

end LineGrammar.Regex
