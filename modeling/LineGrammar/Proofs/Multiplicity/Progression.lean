import LineGrammar.Proofs.Multiplicity.Ranges

/-!
Arithmetic progressions of counts. A member is yielded only if there is room for
the step to the next one, so the last member that is a count is never yielded. It
is the only one that is missing.
-/

namespace LineGrammar

namespace Counts

variable {start step : Nat}

def stepsLeft (start step : Nat) : Nat := (Text.maxCount - start) / step

theorem stepsLeft_of_room (moving : 1 ≤ step) (room : start + step ≤ Text.maxCount) :
    stepsLeft start step = stepsLeft (start + step) step + 1 := by
  have split : Text.maxCount - start = Text.maxCount - (start + step) + step := by omega
  rw [stepsLeft, split, Nat.add_div_right _ moving]
  rfl

theorem stepsLeft_of_full (moving : 1 ≤ step) (full : ¬start + step ≤ Text.maxCount) :
    stepsLeft start step = 0 := by
  apply Nat.div_eq_of_lt
  omega

theorem member_iff (moving : 1 ≤ step) (fits : start ≤ Text.maxCount) (count : Nat) :
    count ≤ Text.maxCount ∧ start ≤ count ∧ step ∣ count - start ↔
      ∃ index ≤ stepsLeft start step, count = start + index * step := by
  simp only [stepsLeft, Nat.le_div_iff_mul_le moving]
  constructor
  · rintro ⟨most, least, index, apart⟩
    rw [Nat.mul_comm] at apart
    exact ⟨index, by omega, by omega⟩
  · rintro ⟨index, steps, rfl⟩
    refine ⟨by omega, Nat.le_add_right _ _, ?_⟩
    rw [Nat.add_sub_cancel_left]
    exact Nat.dvd_mul_left step index

theorem take_every (moving : 1 ≤ step) (start limit : Nat) :
    (Counts.every start step).take limit =
      (List.range (min limit (stepsLeft start step))).map
        fun index => .exactly (start + index * step) := by
  induction limit generalizing start with
  | zero => simp [take]
  | succ limit induction =>
      rw [take, next?]
      by_cases room : start + step ≤ Text.maxCount
      · rw [if_pos room, stepsLeft_of_room moving room, Nat.add_min_add_right,
          List.range_succ_eq_map, List.map_cons, List.map_map]
        simp only [induction, Nat.zero_mul, Nat.add_zero]
        congr 2
        funext index
        simp only [Function.comp_apply, Nat.succ_mul]
        congr 1
        omega
      · rw [if_neg room, stepsLeft_of_full moving room]
        rfl

theorem ascending_every (positive : 1 ≤ start) (moving : 1 ≤ step) :
    (Counts.every start step).Ascending := by
  constructor
  · intro limit range taken
    rw [take_every moving, List.mem_map] at taken
    rcases taken with ⟨index, _, rfl⟩
    exact Nat.le_trans positive (Nat.le_add_right _ _)
  · intro limit
    rw [take_every moving, List.pairwise_map]
    apply List.pairwise_lt_range.imp
    intro index later before
    have less := Nat.mul_lt_mul_of_pos_right before moving
    exact Nat.add_lt_add_left less start

end Counts

namespace Multiplicity

variable {start step : Nat}

theorem accepts_every_iff (positive : 1 ≤ start) (moving : 1 ≤ step) (count : Nat) :
    (⟨.every start step, false⟩ : Multiplicity).accepts count = true ↔
      ∃ index < Counts.stepsLeft start step, count = start + index * step := by
  rw [accepts_iff_mem_ranges (Counts.ascending_every positive moving) rfl]
  simp only [Multiplicity.ranges, Counts.take_every moving, List.mem_map, List.mem_range,
    Nat.lt_min]
  constructor
  · rintro ⟨limit, range, ⟨index, before, rfl⟩, inside⟩
    exact ⟨index, before.2, Nat.le_antisymm (inside.2 _ rfl) inside.1⟩
  · rintro ⟨index, before, rfl⟩
    refine ⟨index + 1, _, ⟨index, ⟨Nat.lt_succ_self index, before⟩, rfl⟩, Nat.le_refl _, ?_⟩
    rintro _ ⟨rfl⟩
    exact Nat.le_refl _

theorem lowerBound_every (moving : 1 ≤ step) :
    (⟨.every start step, false⟩ : Multiplicity).lowerBound =
      if Counts.stepsLeft start step = 0 then 0 else start := by
  by_cases room : start + step ≤ Text.maxCount
  · have left := Counts.stepsLeft_of_room moving room
    rw [if_neg (by omega)]
    simp only [lowerBound, Counts.next?, if_pos room]
    rfl
  · rw [if_pos (Counts.stepsLeft_of_full moving room)]
    simp only [lowerBound, Counts.next?, if_neg room]
    rfl

/-- Of the members of a progression that are counts, the last one is neither
yielded nor accepted, and all the others are. If the last one is the first, there
is no least count. -/
theorem progression_lacks_its_last_count (start step : Nat) (positive : 1 ≤ start)
    (moving : 1 ≤ step) (fits : start ≤ Text.maxCount) :
    let steps := (Text.maxCount - start) / step
    let last := start + steps * step
    ∃ multiplicity, every start step = .ok multiplicity ∧
      IsGreatest {count | count ≤ Text.maxCount ∧ start ≤ count ∧ step ∣ count - start} last ∧
      (∀ count ≤ Text.maxCount, multiplicity.accepts count = true ↔
        start ≤ count ∧ step ∣ count - start ∧ count ≠ last) ∧
      multiplicity.lowerBound = (if last = start then 0 else start) ∧
      ∀ limit, multiplicity.ranges limit =
        (List.range (min limit steps)).map fun index => .exactly (start + index * step) := by
  intro steps last
  have member := Counts.member_iff moving fits
  refine ⟨⟨.every start step, false⟩, ?_, ⟨?_, ?_⟩, ?_, ?_, Counts.take_every moving start⟩
  · rw [every, if_neg (by omega)]
  · exact (member last).mpr ⟨steps, Nat.le_refl _, rfl⟩
  · intro count isMember
    rcases (member count).mp isMember with ⟨index, before, rfl⟩
    exact Nat.add_le_add_left (Nat.mul_le_mul_right step before) start
  · intro count most
    rw [accepts_every_iff positive moving]
    constructor
    · rintro ⟨index, before, rfl⟩
      have less := Nat.mul_lt_mul_of_pos_right before moving
      have isMember := (member _).mpr ⟨index, Nat.le_of_lt before, rfl⟩
      exact ⟨isMember.2.1, isMember.2.2, Nat.ne_of_lt (Nat.add_lt_add_left less start)⟩
    · rintro ⟨least, divides, notLast⟩
      rcases (member count).mp ⟨most, least, divides⟩ with ⟨index, before, rfl⟩
      refine ⟨index, Nat.lt_of_le_of_ne before ?_, rfl⟩
      rintro rfl
      exact notLast rfl
  · have same : last = start ↔ Counts.stepsLeft start step = 0 := by
      rw [Nat.add_eq_left, Nat.mul_eq_zero]
      exact or_iff_left (by omega)
    simp only [lowerBound_every moving, same]

theorem second_of_two_members_is_missing :
    ∃ multiplicity, every (Text.maxCount - 4) 3 = .ok multiplicity ∧
      multiplicity.accepts (Text.maxCount - 4) = true ∧
      ¬multiplicity.accepts (Text.maxCount - 1) = true := by
  rcases progression_lacks_its_last_count (Text.maxCount - 4) 3 (by decide) (by decide)
    (by decide) with ⟨multiplicity, made, _, accepted, _⟩
  refine ⟨multiplicity, made, ?_, ?_⟩
  · rw [accepted _ (by decide)]
    decide
  · rw [accepted _ (by decide)]
    decide

/-- The largest count by itself is a progression that yields nothing. -/
theorem progression_from_largest_count_is_empty :
    ∃ multiplicity, every Text.maxCount 1 = .ok multiplicity ∧
      multiplicity.accepts Text.maxCount = false ∧ multiplicity.lowerBound = 0 ∧
      multiplicity.ranges 1 = [] := by
  refine ⟨⟨.every Text.maxCount 1, false⟩, rfl, ?_, rfl, rfl⟩
  decide +kernel

end Multiplicity

end LineGrammar
