import LineGrammar.Proofs.Regex.Span

/-!
How much of a text matching takes. A program in which every way leads through a
class of characters takes at least one character. A loop over a class takes all
of a text whose characters belong to the class. And a group at the very end of a
program takes what its part before has left of the match.
-/

namespace LineGrammar.Regex

theorem State.Precedes.length_le {early late : State} (precedes : early.Precedes late) :
    late.rest.length ≤ early.rest.length := by
  obtain ⟨consumed, split, _⟩ := precedes
  rw [split, List.length_append]
  omega

namespace Program

/-- Whether a program cannot match without consuming a character. -/
def consumes : Program → Bool
  | .chars _ => true
  | .group _ body => body.consumes
  | .seq first second => first.consumes || second.consumes
  | .branch _ first second => first.consumes && second.consumes
  | .empty | .look _ | .star .. => false

theorem run_consumes {Result : Type} {program : Program} (consuming : program.consumes = true)
    {state : State} {next : State → Verdict Result} {result : Result}
    (accepted : run program state next = .accepted result) :
    ∃ final, state.Precedes final ∧ final.rest.length < state.rest.length ∧
      next final = .accepted result := by
  induction program generalizing state next with
  | empty => cases consuming
  | look assertion => cases consuming
  | star choice greedy body => cases consuming
  | chars members =>
      simp only [run] at accepted
      split at accepted
      · cases accepted
      · rename_i char rest split
        split at accepted
        · refine ⟨_, State.precedes_consume split, ?_, accepted⟩
          rw [split]
          exact Nat.lt_succ_self rest.length
        · cases accepted
  | group index body induction =>
      obtain ⟨inner, moved, less, given⟩ := induction consuming accepted
      have closed : inner.Precedes (inner.closeGroup index state.offset) :=
        State.precedes_of_same rfl rfl
      exact ⟨_, moved.trans closed, less, given⟩
  | seq first second inductionFirst inductionSecond =>
      rcases (Bool.or_eq_true _ _).mp consuming with early | late
      · obtain ⟨middle, moved, less, later⟩ := inductionFirst early accepted
        obtain ⟨final, arrived, given⟩ := run_conservative second middle next result later
        have most := arrived.length_le
        exact ⟨final, moved.trans arrived, by omega, given⟩
      · obtain ⟨middle, moved, later⟩ := run_conservative first state _ result accepted
        obtain ⟨final, arrived, less, given⟩ := inductionSecond late later
        have most := moved.length_le
        exact ⟨final, moved.trans arrived, by omega, given⟩
  | branch choice first second inductionFirst inductionSecond =>
      obtain ⟨early, late⟩ := (Bool.and_eq_true _ _).mp consuming
      have made := state.precedes_make choice
      simp only [run] at accepted
      split at accepted
      · cases accepted
      · rcases Verdict.accepted_of_orTry accepted with taken | ⟨again, moved, taken⟩
        · obtain ⟨final, arrived, less, given⟩ := inductionFirst early taken
          exact ⟨final, made.trans arrived, less, given⟩
        · obtain ⟨final, arrived, less, given⟩ := inductionSecond late taken
          have most := moved.length_le
          refine ⟨final, made.trans (moved.trans arrived), ?_, given⟩
          exact Nat.lt_of_lt_of_le less most

theorem run_chars {Result : Type} {members : CharClass} {state : State} {char : Char}
    {rest : List Char} (ahead : state.rest = char :: rest)
    (taken : members.contains char = true) (next : State → Verdict Result) :
    run (.chars members) state next = next (state.consume char rest) := by
  simp only [run, ahead, taken, if_true]

/-- A greedy loop over a class goes to the end of a text all of whose characters
belong to the class, if that is accepted. It was entered further behind, if at all,
so it is never cut off. -/
theorem rounds_take_all {Result : Type} {members : CharClass} {choice visits : Nat} {state : State}
    {next : State → Verdict Result} (all : ∀ char ∈ state.rest, members.contains char = true)
    (fresh : ∀ mark ∈ state.marks, mark.choice = choice → mark.offset < state.offset)
    (enough : state.rest.length < visits)
    (accepts : ∀ final, final.rest = [] → ∃ result, next final = .accepted result) :
    ∃ final, state.Precedes final ∧ final.rest = [] ∧
      rounds (run (.chars members)) choice true next visits state = next final := by
  induction visits generalizing state with
  | zero => omega
  | succ visits induction =>
      have unmade : state.hasMade choice = false := by
        unfold State.hasMade
        rw [List.contains_eq_mem, decide_eq_false_iff_not]
        intro marked
        exact Nat.lt_irrefl _ (fresh _ marked rfl)
      cases ahead : state.rest with
      | nil =>
          refine ⟨{ state.make choice with marks := (state.make choice).marks },
            state.precedes_make choice, ahead, ?_⟩
          simp [rounds, unmade, run, State.make, ahead, Verdict.orTry]
      | cons char rest =>
          have taken : members.contains char = true := all char (by simp [ahead])
          have front : (state.make choice).rest = char :: rest := ahead
          have wide := char.utf8Size_pos
          rw [ahead, List.length_cons] at enough
          have later : ∃ final, ((state.make choice).consume char rest).Precedes final ∧
              final.rest = [] ∧ rounds (run (.chars members)) choice true next visits
                ((state.make choice).consume char rest) = next final := by
            apply induction
            · intro other member
              exact all other (ahead ▸ List.mem_cons_of_mem char member)
            · intro mark member mine
              change mark.offset < state.offset + char.utf8Size
              rcases List.mem_cons.mp member with rfl | old
              · exact Nat.lt_add_of_pos_right wide
              · exact Nat.lt_add_right _ (fresh mark old mine)
            · change rest.length < visits
              omega
          obtain ⟨final, moved, ended, given⟩ := later
          obtain ⟨result, accepted⟩ := accepts final ended
          have round := (run_chars front taken _).trans (given.trans accepted)
          have first : state.Precedes ((state.make choice).consume char rest) :=
            (state.precedes_make choice).trans (State.precedes_consume front)
          refine ⟨final, first.trans moved, ended, ?_⟩
          simp only [rounds, unmade, Bool.false_eq_true, if_false, if_true, round, accepted,
            Verdict.orTry]

theorem run_group_last {Result : Type} {lead body : Program} {index : Nat} {state : State}
    {next : State → Verdict Result} {result : Result} (consuming : lead.consumes = true)
    (accepted : run (.seq lead (.group index body)) state next = .accepted result) :
    ∃ middle final, state.Precedes middle ∧ middle.rest.length < state.rest.length ∧
      middle.Precedes final ∧ next (final.closeGroup index middle.offset) = .accepted result := by
  obtain ⟨middle, moved, less, later⟩ := run_consumes consuming accepted
  obtain ⟨final, arrived, given⟩ := run_conservative body middle _ result later
  exact ⟨middle, final, moved, less, arrived, given⟩

end Program

variable {regex : Regex} {previous : Option Char} {offset : Nat} {rest : List Char}
  {captures : Captures}

theorem matchFrom_consumes (consuming : regex.program.consumes = true)
    (found : regex.matchFrom previous offset rest = some captures) :
    ∃ consumed later, consumed ≠ [] ∧ rest = consumed ++ later ∧
      captures.stop = offset + Text.byteLength consumed := by
  unfold matchFrom at found
  simp only [Verdict.result?] at found
  split at found
  · rename_i accepted
    obtain ⟨final, ⟨consumed, split, moved⟩, less, given⟩ :=
      Program.run_consumes consuming accepted
    cases given
    cases found
    refine ⟨consumed, final.rest, ?_, split, moved⟩
    rintro rfl
    rw [split] at less
    exact Nat.lt_irrefl _ less
  · cases found

theorem matchFrom_of_all {final : State}
    (given : regex.program.run ⟨previous, rest, offset, [], []⟩
      (fun final => .accepted (Captures.ofState regex.groups offset final)) =
        .accepted (Captures.ofState regex.groups offset final))
    (moved : State.Precedes ⟨previous, rest, offset, [], []⟩ final) (ended : final.rest = []) :
    ∃ captures, regex.matchFrom previous offset rest = some captures ∧
      captures.stop = offset + Text.byteLength rest := by
  obtain ⟨consumed, split, count⟩ := moved
  rw [ended, List.append_nil] at split
  change rest = consumed at split
  refine ⟨_, congrArg Verdict.result? given, ?_⟩
  rw [split]
  exact count

theorem matchFrom_take_all {members : CharClass} {choice : Nat}
    (loop : regex.program = .star choice true (.chars members))
    (all : ∀ char ∈ rest, members.contains char = true) :
    ∃ captures, regex.matchFrom previous offset rest = some captures ∧
      captures.stop = offset + Text.byteLength rest := by
  obtain ⟨final, moved, ended, given⟩ :=
    @Program.rounds_take_all Captures members choice (rest.length + 1)
      ⟨previous, rest, offset, [], []⟩ _ all (by simp) (Nat.lt_succ_self _)
      (fun final _ => ⟨_, rfl⟩)
  exact matchFrom_of_all (loop ▸ given) moved ended

theorem matchFrom_take_first {first members : CharClass} {choice : Nat} {char : Char}
    {more : List Char}
    (program : regex.program = .seq (.chars first) (.star choice true (.chars members)))
    (ahead : rest = char :: more) (begins : first.contains char = true)
    (all : ∀ other ∈ more, members.contains other = true) :
    ∃ captures, regex.matchFrom previous offset rest = some captures ∧
      captures.stop = offset + Text.byteLength rest := by
  subst ahead
  obtain ⟨final, moved, ended, given⟩ :=
    @Program.rounds_take_all Captures members choice (more.length + 1)
      (State.consume ⟨previous, char :: more, offset, [], []⟩ char more) _ all
      (by simp [State.consume]) (Nat.lt_succ_self _) (fun final _ => ⟨_, rfl⟩)
  refine matchFrom_of_all ?_ ((State.precedes_consume rfl).trans moved) ended
  have ahead : (State.mk previous (char :: more) offset [] []).rest = char :: more := rfl
  rw [program, ← given]
  exact Program.run_chars ahead begins _

/-- If the last part of a pattern is its only group, the group ends where the
match ends, and begins behind the first character if the part before takes one. -/
theorem matchFrom_group_last {lead body : Program} (consuming : lead.consumes = true)
    (only : regex.groups = 1)
    (ending : @Program.run Captures regex.program = Program.run (.seq lead (.group 1 body)))
    (found : regex.matchFrom previous offset rest = some captures) :
    ∃ first last later, first ≠ [] ∧ rest = first ++ last ++ later ∧
      captures.stop = offset + Text.byteLength (first ++ last) ∧
      captures.groups = [some (offset + Text.byteLength first, captures.stop)] := by
  unfold matchFrom at found
  simp only [Verdict.result?, ending] at found
  split at found
  · rename_i accepted
    obtain ⟨middle, final, ⟨first, split, moved⟩, less, ⟨last, split', moved'⟩, given⟩ :=
      Program.run_group_last consuming accepted
    cases given
    cases found
    change rest = first ++ middle.rest at split
    change middle.offset = offset + Text.byteLength first at moved
    refine ⟨first, last, final.rest, ?_, ?_, ?_, ?_⟩
    · rintro rfl
      change middle.rest.length < rest.length at less
      rw [split] at less
      exact Nat.lt_irrefl _ less
    · rw [split, split', List.append_assoc]
    · change final.offset = _
      rw [moved', moved, Text.byteLength_append, Nat.add_assoc]
    · simp [only, State.group?, State.closeGroup, ← moved]
  · cases found

end LineGrammar.Regex
