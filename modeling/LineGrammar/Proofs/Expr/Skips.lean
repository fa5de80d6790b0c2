import LineGrammar.Proofs.Expr.Placement
import Mathlib.Data.Finset.Card

/-!
Sequences whose items may be left out. The items are tried in turn, each where
the last one that matched has ended, and it does not matter for that which of
them may fail. A sequence matches exactly if all that fail are allowed to and
are not too many; its children are then the matches of the others, in order.
-/

namespace LineGrammar

/-- The default budget counts the indices below the length that may fail, each
once, but is always less than the length of a sequence that is not empty. -/
theorem SkipPolicy.budget_eq (skips : SkipPolicy) (count : Nat) :
    skips.budget count =
      skips.limit.getD (min (skips.indices.toFinset.filter (· < count)).card (count - 1)) := by
  have nodup : ((List.range count).filter skips.allows).Nodup := List.nodup_range.filter _
  have same : ((List.range count).filter skips.allows).toFinset =
      skips.indices.toFinset.filter (· < count) := by
    ext index
    simp [allows, and_comm]
  rw [budget, List.countP_eq_length_filter, ← List.toFinset_card_of_nodup nodup, same]

namespace Attempt

/-- The outcomes of trying items in turn, each where the last one that matched
has ended, and the cursor to which this leads. -/
def inTurn : List Attempt → Cursor → List (Option Match) × Cursor
  | [], cursor => ([], cursor)
  | item :: later, cursor =>
      match (item cursor).result with
      | .ok found =>
          let rest := inTurn later (item cursor).cursor
          (some found :: rest.1, rest.2)
      | .error _ =>
          let rest := inTurn later cursor
          (none :: rest.1, rest.2)

def failures (outcomes : List (Option Match)) : Nat := outcomes.countP Option.isNone

theorem length_inTurn (attempts : List Attempt) (cursor : Cursor) :
    (inTurn attempts cursor).1.length = attempts.length := by
  induction attempts generalizing cursor with
  | nil => rfl
  | cons item later induction =>
      rw [inTurn]
      split <;> simp only [List.length_cons, induction]

theorem length_matches_add_failures (outcomes : List (Option Match)) :
    (outcomes.filterMap id).length + failures outcomes = outcomes.length := by
  induction outcomes with
  | nil => rfl
  | cons outcome later induction =>
      unfold failures at *
      cases outcome with
      | none =>
          rw [List.filterMap_cons_none rfl, List.countP_cons_of_pos rfl, List.length_cons]
          omega
      | some found =>
          have kept : (some found :: later).filterMap id = found :: later.filterMap id := rfl
          rw [kept, List.countP_cons_of_neg (by simp), List.length_cons, List.length_cons]
          omega

/-- Whether the failures among the outcomes of items from `index` on are all
allowed, and not too many after `skipped` others. -/
def Tolerated (skips : SkipPolicy) (budget index skipped : Nat)
    (outcomes : List (Option Match)) : Prop :=
  (∀ place, outcomes[place]? = some none → skips.allows (index + place) = true) ∧
    skipped + failures outcomes ≤ budget

variable {skips : SkipPolicy} {budget index skipped : Nat} {outcomes : List (Option Match)}

theorem tolerated_some (found : Match) :
    Tolerated skips budget index skipped (some found :: outcomes) ↔
      Tolerated skips budget (index + 1) skipped outcomes := by
  unfold Tolerated failures
  refine and_congr ⟨?_, ?_⟩ (by simp)
  · intro allowed place failed
    rw [Nat.add_right_comm]
    exact allowed (place + 1) failed
  · intro allowed place failed
    cases place with
    | zero => simp at failed
    | succ place =>
        rw [← Nat.add_assoc, Nat.add_right_comm]
        exact allowed place failed

theorem tolerated_none :
    Tolerated skips budget index skipped (none :: outcomes) ↔
      skips.allows index = true ∧ Tolerated skips budget (index + 1) (skipped + 1) outcomes := by
  unfold Tolerated failures
  have count : skipped + (none :: outcomes).countP Option.isNone =
      skipped + 1 + outcomes.countP Option.isNone := by
    simp
    omega
  rw [count, ← and_assoc]
  refine and_congr_left fun _ => ⟨?_, ?_⟩
  · intro allowed
    refine ⟨allowed 0 rfl, ?_⟩
    intro place failed
    rw [Nat.add_right_comm]
    exact allowed (place + 1) failed
  · rintro ⟨first, allowed⟩ place failed
    cases place with
    | zero => exact first
    | succ place =>
        rw [← Nat.add_assoc, Nat.add_right_comm]
        exact allowed place failed

/-- The loop of a sequence stops early where a failure is not tolerated, and
then all the outcomes are not; otherwise it comes to the end of the items. -/
theorem items_inTurn {attempts : List Attempt} (sound : ∀ attempt ∈ attempts, attempt.Sound)
    (start : Position) (skips : SkipPolicy) {budget skipped : Nat} (index : Nat) {cursor : Cursor}
    (valid : cursor.Valid) (within : skipped ≤ budget) :
    (items start skips budget index skipped attempts cursor).Ends
      (fun children after =>
        Tolerated skips budget index skipped (inTurn attempts cursor).1 ∧
          children = (inTurn attempts cursor).1.filterMap id ∧ after = (inTurn attempts cursor).2)
      (fun _ _ => ¬Tolerated skips budget index skipped (inTurn attempts cursor).1) := by
  induction attempts generalizing index skipped cursor with
  | nil =>
      refine ⟨⟨?_, within⟩, rfl, rfl⟩
      intro place failed
      simp [inTurn] at failed
  | cons item later induction =>
      have soundItem := sound item (by simp)
      have soundLater : ∀ attempt ∈ later, attempt.Sound := by
        intro attempt member
        exact sound attempt (by simp [member])
      cases outcome : (item cursor).result with
      | ok found =>
          have rest := induction soundLater (index + 1)
            (soundItem.covers valid outcome).leads.valid within
          simp only [items, inTurn, outcome, tolerated_some]
          refine ((rest.imp ?_ ?_).map).after _
          · rintro children after ⟨tolerated, rfl, moved⟩
            exact ⟨tolerated, rfl, moved⟩
          · intro error after refused
            exact refused
      | error error =>
          obtain ⟨recoverable, back⟩ := soundItem.refuses valid outcome
          simp only [items, inTurn, outcome, tolerated_none, recoverable, Bool.true_and, back]
          split
          · rename_i mayFail
            rw [Bool.and_eq_true, decide_eq_true_iff] at mayFail
            obtain ⟨budgetLeft, allowed⟩ := mayFail
            have rest := induction soundLater (index + 1) valid budgetLeft
            refine (rest.imp ?_ ?_).after _
            · rintro children after ⟨tolerated, same, moved⟩
              exact ⟨⟨allowed, tolerated⟩, same, moved⟩
            · rintro error after refused ⟨_, tolerated⟩
              exact refused tolerated
          · rename_i mayNotFail
            rw [Bool.and_eq_true, decide_eq_true_iff, not_and] at mayNotFail
            rintro ⟨allowed, _, few⟩
            exact mayNotFail (by omega) allowed

theorem sequence_inTurn {attempts : List Attempt} (sound : ∀ attempt ∈ attempts, attempt.Sound)
    (skips : SkipPolicy) {cursor : Cursor} (valid : cursor.Valid) :
    (sequence skips attempts cursor).Ends
      (fun found after =>
        Tolerated skips (skips.budget attempts.length) 0 0 (inTurn attempts cursor).1 ∧
          found.children = (inTurn attempts cursor).1.filterMap id ∧
          after = (inTurn attempts cursor).2)
      (fun _ _ =>
        ¬Tolerated skips (skips.budget attempts.length) 0 0 (inTurn attempts cursor).1) := by
  have loop := items_inTurn sound cursor.position skips 0 valid
    (Nat.zero_le (skips.budget attempts.length))
  exact (compose_ends loop).after _

end Attempt

namespace Expr

/-- A sequence tries its items in turn, each where the last one that matched has
ended. It matches exactly if every item that fails may be left out and no more
fail than the budget says, which is the given limit, or else the number of
indices of items that may fail, but less than the number of items. The children
are the matches of the items that have not failed, in order; if no limit was
given there is at least one, unless there are no items. -/
theorem sequence_is_run_with_budget (name : Option String) (items : List Expr)
    (skips : SkipPolicy) (cursor : Cursor) (valid : cursor.Valid) :
    let run := Attempt.inTurn (attempts items) cursor
    let failed := Attempt.failures run.1
    let budget := skips.limit.getD
      (min (skips.indices.toFinset.filter (· < items.length)).card (items.length - 1))
    let trial := (Expr.sequence name items skips).attempt cursor
    ((∃ found, trial.result = .ok found) ↔
      (∀ index, run.1[index]? = some none → index ∈ skips.indices) ∧ failed ≤ budget) ∧
    ∀ found, trial.result = .ok found →
      found.children = run.1.filterMap id ∧ trial.cursor = run.2 ∧
      found.children.length + failed = items.length ∧
      (skips.limit = none → items ≠ [] → found.children ≠ []) := by
  intro run failed budget trial
  have ends : trial.Ends
      (fun found after => Attempt.Tolerated skips budget 0 0 run.1 ∧
        found.children = run.1.filterMap id ∧ after = run.2)
      (fun _ _ => ¬Attempt.Tolerated skips budget 0 0 run.1) := by
    have loop := Attempt.sequence_inTurn (attempts_sound items) skips valid
    rw [attempts_length, SkipPolicy.budget_eq] at loop
    simp only [trial, attempt]
    refine Trial.Ends.map (loop.imp ?_ ?_)
    · intro found after matched
      rwa [Match.children_withTag]
    · intro error after refused
      exact refused
  have tolerated : Attempt.Tolerated skips budget 0 0 run.1 ↔
      (∀ index, run.1[index]? = some none → index ∈ skips.indices) ∧ failed ≤ budget := by
    simp only [Attempt.Tolerated, SkipPolicy.allows, Nat.zero_add, List.contains_iff_mem]
    rfl
  refine ⟨?_, ?_⟩
  · rw [← tolerated]
    constructor
    · rintro ⟨found, matched⟩
      exact (ends.of_ok matched).1
    · intro few
      cases outcome : trial.result with
      | ok found => exact ⟨found, rfl⟩
      | error error => exact absurd few (ends.of_error outcome)
  · intro found matched
    obtain ⟨few, children, moved⟩ := ends.of_ok matched
    have count : found.children.length + failed = items.length := by
      rw [children, ← attempts_length, ← Attempt.length_inTurn (attempts items) cursor]
      exact Attempt.length_matches_add_failures run.1
    refine ⟨children, moved, count, ?_⟩
    intro unlimited nonempty none
    have most := (tolerated.mp few).2
    have some : 0 < items.length := List.length_pos_iff.mpr nonempty
    simp only [budget, unlimited, Option.getD_none] at most
    rw [none, List.length_nil] at count
    omega

/-- Two of three items fail, which is all that may, and an index past the items
makes no difference. -/
theorem last_item_matches_alone :
    let cursor : Cursor := ⟨.ofLines ["éc"], ⟨0, 2⟩⟩
    let items := [Expr.leaf none "a" (Regex.compile? "a" false),
      .leaf none "b" (Regex.compile? "b" false), .leaf none "c" (Regex.compile? "c" false)]
    let skips : SkipPolicy := { indices := [1, 0, 7, 1] }
    let found := Match.composite ⟨⟨0, 2⟩, ⟨0, 3⟩, some "abc", "c"⟩ .sequence
      [.leaf ⟨⟨0, 2⟩, ⟨0, 3⟩, none, "c"⟩ "c" []]
    cursor.Valid ∧
      ((Expr.sequence (some "abc") items skips).attempt cursor).result = .ok found ∧
      found.children.length +
        Attempt.failures (Attempt.inTurn (attempts items) cursor).1 = 3 := by
  intro cursor items skips found
  have valid : cursor.Valid := by decide
  have outcome : ((Expr.sequence (some "abc") items skips).attempt cursor).result = .ok found := by
    decide +kernel
  have law := sequence_is_run_with_budget (some "abc") items skips cursor valid
  exact ⟨valid, outcome, (law.2 found outcome).2.2.1⟩

end Expr

end LineGrammar
