import LineGrammar.Multiplicity
import LineGrammar.Proofs.Except
import Mathlib.Order.Bounds.Basic

/-!
Multiplicities that list their ranges. The ranges may be given in any order; they
make a multiplicity if there are any, each of them is proper and no count lies in
two of them. Sorted by their lower ends they then lie one behind the other, which
is why the search for a count may end at the first range that begins behind it,
and why the first and the last range tell the least and the largest count.
-/

namespace LineGrammar

namespace CountRange

instance : Membership Nat CountRange where
  mem range count := range.min ≤ count ∧ ∀ max, range.max = some max → count ≤ max

/-- From at least 1, and not inverted. -/
structure Proper (range : CountRange) : Prop where
  positive : 1 ≤ range.min
  upright : ∀ max, range.max = some max → range.min ≤ max

def Apart (left right : CountRange) : Prop := ∀ count ∈ left, count ∉ right

def Before (left right : CountRange) : Prop := ∃ max, left.max = some max ∧ max < right.min

variable {range left right : CountRange}

theorem mem_iff {count : Nat} :
    count ∈ range ↔ range.min ≤ count ∧ ∀ max, range.max = some max → count ≤ max := Iff.rfl

theorem proper_iff (range : CountRange) :
    range.Proper ↔ 1 ≤ range.min ∧ ∀ max, range.max = some max → range.min ≤ max :=
  ⟨fun proper => ⟨proper.positive, proper.upright⟩, fun given => ⟨given.1, given.2⟩⟩

theorem contains_iff (range : CountRange) (count : Nat) :
    range.contains count = true ↔ count ∈ range := by
  rw [mem_iff, contains]
  cases range.max <;> simp

theorem reaches_iff (left right : CountRange) :
    left.reaches right = true ↔ ∀ max, left.max = some max → right.min ≤ max := by
  rw [reaches]
  cases left.max <;> simp

theorem Proper.min_mem (proper : range.Proper) : range.min ∈ range :=
  ⟨Nat.le_refl _, proper.upright⟩

theorem Apart.symm (apart : left.Apart right) : right.Apart left := by
  intro count inRight inLeft
  exact apart count inLeft inRight

/-- Ranges that overlap share the larger of their lower ends. -/
theorem overlaps_eq_false_iff (proper : left.Proper) (proper' : right.Proper) :
    left.overlaps right = false ↔ left.Apart right := by
  rw [← Bool.not_eq_true, overlaps, Bool.and_eq_true, reaches_iff, reaches_iff]
  constructor
  · intro short count inLeft inRight
    apply short
    constructor
    · intro max ends
      exact Nat.le_trans inRight.1 (inLeft.2 max ends)
    · intro max ends
      exact Nat.le_trans inLeft.1 (inRight.2 max ends)
  · rintro apart ⟨reaches, reached⟩
    rcases Nat.le_total left.min right.min with first | second
    · exact apart right.min ⟨first, reaches⟩ proper'.min_mem
    · exact apart left.min proper.min_mem ⟨second, reached⟩

theorem Apart.before (apart : left.Apart right) (proper : right.Proper)
    (ordered : left.min ≤ right.min) : left.Before right := by
  have outside : right.min ∉ left := fun inside => apart _ inside proper.min_mem
  cases ends : left.max with
  | none =>
      apply absurd _ outside
      exact ⟨ordered, fun max given => nomatch ends.symm.trans given⟩
  | some max =>
      refine ⟨max, ends, Nat.lt_of_not_le fun reaches => outside ⟨ordered, ?_⟩⟩
      intro max' given
      cases ends.symm.trans given
      exact reaches

theorem Before.apart (before : left.Before right) : left.Apart right := by
  rcases before with ⟨max, ends, below⟩
  intro count inLeft inRight
  have most := inLeft.2 max ends
  have least := inRight.1
  omega

theorem Before.min_lt (before : left.Before right) (proper : left.Proper) :
    left.min < right.min := by
  rcases before with ⟨max, ends, below⟩
  exact Nat.lt_of_le_of_lt (proper.upright max ends) below

theorem Proper.validate_eq (proper : range.Proper) : range.validate = .ok range := by
  have positive := proper.positive
  rw [validate, if_neg (by omega)]
  split
  · rename_i max ends
    rw [if_neg (Nat.not_lt.mpr (proper.upright max ends))]
  · rfl

theorem proper_of_validate {result : CountRange} (given : range.validate = .ok result) :
    range.Proper ∧ result = range := by
  unfold validate at given
  by_cases zero : range.min = 0
  · rw [if_pos zero] at given
    cases given
  · rw [if_neg zero] at given
    have positive := Nat.one_le_iff_ne_zero.mpr zero
    cases ends : range.max with
    | none =>
        rw [ends] at given
        cases given
        exact ⟨⟨positive, fun max bounded => nomatch ends.symm.trans bounded⟩, rfl⟩
    | some max =>
        simp only [ends] at given
        by_cases inverted : max < range.min
        · rw [if_pos inverted] at given
          cases given
        · rw [if_neg inverted] at given
          cases given
          refine ⟨⟨positive, ?_⟩, rfl⟩
          intro max' bounded
          cases ends.symm.trans bounded
          exact Nat.le_of_not_lt inverted

end CountRange

namespace Counts

variable {counts : Counts} {limit index count : Nat} {range : CountRange}

/-- Whether the ranges begin at 1 or later, and each behind the one before. -/
structure Ascending (counts : Counts) : Prop where
  positive : ∀ limit, ∀ range ∈ counts.take limit, 1 ≤ range.min
  sorted : ∀ limit, (counts.take limit).Pairwise fun left right => left.min < right.min

theorem take_listed (ranges : List CountRange) (limit : Nat) :
    (Counts.listed ranges).take limit = ranges.take limit := by
  induction limit generalizing ranges with
  | zero => rfl
  | succ limit induction =>
      cases ranges with
      | nil => rfl
      | cons range later => exact congrArg (range :: ·) (induction later)

theorem take_take (counts : Counts) (limit more : Nat) :
    (counts.take (limit + more)).take limit = counts.take limit := by
  induction limit generalizing counts with
  | zero => rfl
  | succ limit induction =>
      rw [Nat.add_right_comm, take, take]
      cases counts.next? with
      | none => rfl
      | some pair => exact congrArg (pair.1 :: ·) (induction pair.2)

theorem Ascending.lt_min (ascending : counts.Ascending)
    (found : (counts.take limit)[index]? = some range) : index < range.min := by
  induction index generalizing range with
  | zero => exact ascending.positive limit range (List.mem_of_getElem? found)
  | succ index induction =>
      rcases List.getElem?_eq_some_iff.mp found with ⟨bound, rfl⟩
      have before := induction (List.getElem?_eq_getElem (Nat.lt_of_succ_lt bound))
      have behind := List.pairwise_iff_getElem.mp (ascending.sorted limit) index (index + 1)
        (Nat.lt_of_succ_lt bound) bound (Nat.lt_succ_self index)
      omega

theorem Ascending.mem_take (ascending : counts.Ascending) (taken : range ∈ counts.take limit)
    (inside : count ∈ range) : range ∈ counts.take count := by
  rcases List.getElem?_of_mem taken with ⟨index, found⟩
  have early : index < count := Nat.lt_of_lt_of_le (ascending.lt_min found) inside.1
  -- Both lists are beginnings of the first `limit + count` ranges.
  rw [← take_take counts limit count, List.getElem?_take] at found
  rw [← take_take counts count limit, Nat.add_comm]
  apply List.mem_of_getElem?
  rw [List.getElem?_take_of_lt early]
  split at found
  · exact found
  · cases found

/-- A search that ends at the first range behind `count` misses nothing. -/
theorem holds_iff
    (sorted : (counts.take limit).Pairwise fun left right => left.min < right.min) :
    counts.holds count limit = true ↔ ∃ range ∈ counts.take limit, count ∈ range := by
  induction limit generalizing counts with
  | zero => simp [holds, take]
  | succ limit induction =>
      rw [take] at sorted ⊢
      rw [holds]
      cases next : counts.next? with
      | none => simp
      | some pair =>
          rcases pair with ⟨range, later⟩
          simp only [next, List.pairwise_cons] at sorted
          simp only [Bool.and_eq_true, Bool.or_eq_true, decide_eq_true_eq,
            CountRange.contains_iff, induction sorted.2, List.exists_mem_cons_iff]
          constructor
          · exact And.right
          · intro found
            refine ⟨?_, found⟩
            rcases found with here | ⟨other, isLater, inside⟩
            · exact here.1
            -- A later range contains `count`, so this one begins before it too.
            · exact Nat.le_of_lt (Nat.lt_of_lt_of_le (sorted.1 other isLater) inside.1)

end Counts

namespace Multiplicity

theorem accepts_iff_mem_ranges {multiplicity : Multiplicity}
    (ascending : multiplicity.counts.Ascending) (nonzero : multiplicity.zero = false)
    (count : Nat) :
    multiplicity.accepts count = true ↔
      ∃ limit, ∃ range ∈ multiplicity.ranges limit, count ∈ range := by
  unfold accepts ranges
  by_cases none : count = 0
  · rw [if_pos none, nonzero]
    constructor
    · exact nofun
    · rintro ⟨limit, range, taken, inside⟩
      have positive := ascending.positive limit range taken
      have least := inside.1
      omega
  · rw [if_neg none, Counts.holds_iff (ascending.sorted count)]
    constructor
    · exact fun found => ⟨count, found⟩
    · rintro ⟨limit, range, taken, inside⟩
      exact ⟨range, ascending.mem_take taken inside, inside⟩

structure Laid (ranges : List CountRange) : Prop where
  proper : ∀ range ∈ ranges, range.Proper
  sorted : ranges.Pairwise CountRange.Before

variable {ranges sorted sorted' : List CountRange}

theorem Laid.ascending (laid : Laid sorted) :
    sorted.Pairwise fun left right => left.min < right.min := by
  apply laid.sorted.imp_of_mem
  intro left right isLeft _ before
  exact before.min_lt (laid.proper left isLeft)

/-- There is one way to lay ranges one behind the other. -/
theorem Laid.eq_of_perm (laid : Laid sorted) (laid' : Laid sorted') (same : sorted.Perm sorted') :
    sorted = sorted' := by
  apply List.Perm.eq_of_pairwise _ laid.ascending laid'.ascending same
  intro left right _ _ before behind
  omega

theorem pairwise_mergeSort_min (ranges : List CountRange) :
    (ranges.mergeSort fun left right => left.min ≤ right.min).Pairwise
      fun left right => left.min ≤ right.min := by
  have sorted := @List.pairwise_mergeSort CountRange (fun left right => left.min ≤ right.min)
    (by intro first second third; simp only [decide_eq_true_eq]; omega)
    (by intro first second; simp only [Bool.or_eq_true, decide_eq_true_eq]; omega) ranges
  simpa only [decide_eq_true_eq] using sorted

theorem laid_mergeSort (proper : ∀ range ∈ ranges, range.Proper)
    (apart : ranges.Pairwise CountRange.Apart) :
    Laid (ranges.mergeSort fun left right => left.min ≤ right.min) := by
  have same := List.mergeSort_perm ranges fun left right => left.min ≤ right.min
  have ordered := pairwise_mergeSort_min ranges
  have apart' := (same.pairwise_iff CountRange.Apart.symm).mpr apart
  constructor
  · intro range member
    exact proper range (same.mem_iff.mp member)
  · apply (ordered.and apart').imp_of_mem
    intro left right _ isRight both
    exact both.2.before (proper right (same.mem_iff.mp isRight)) both.1

theorem exists_laid_iff (ranges : List CountRange) :
    (∃ sorted, sorted.Perm ranges ∧ Laid sorted) ↔
      (∀ range ∈ ranges, range.Proper) ∧ ranges.Pairwise CountRange.Apart := by
  constructor
  · rintro ⟨sorted, same, laid⟩
    constructor
    · intro range member
      exact laid.proper range (same.mem_iff.mpr member)
    · rw [← same.pairwise_iff CountRange.Apart.symm]
      exact laid.sorted.imp CountRange.Before.apart
  · intro given
    exact ⟨_, List.mergeSort_perm ranges _, laid_mergeSort given.1 given.2⟩

theorem overlap?_eq_none_iff (ranges : List CountRange) :
    overlap? ranges = none ↔ ranges.Pairwise fun left right => left.overlaps right = false := by
  induction ranges with
  | nil => simp [overlap?]
  | cons first rest induction =>
      rw [overlap?, List.pairwise_cons, ← induction]
      cases found : rest.find? first.overlaps with
      | none =>
          rw [List.find?_eq_none] at found
          simp only [Bool.not_eq_true] at found
          exact ⟨fun none => ⟨found, none⟩, And.right⟩
      | some second =>
          constructor
          · exact nofun
          · intro apart
            have overlaps := List.find?_some found
            rw [apart.1 second (List.mem_of_find?_eq_some found)] at overlaps
            cases overlaps

theorem overlap?_arranged_iff (proper : ∀ range ∈ ranges, range.Proper) :
    overlap? (ranges.mergeSort fun left right => left.min ≤ right.min) = none ↔
      ranges.Pairwise CountRange.Apart := by
  have same := List.mergeSort_perm ranges fun left right => left.min ≤ right.min
  rw [overlap?_eq_none_iff, ← same.pairwise_iff CountRange.Apart.symm]
  apply List.Pairwise.iff_of_mem
  intro left right isLeft isRight
  exact CountRange.overlaps_eq_false_iff (proper left (same.mem_iff.mp isLeft))
    (proper right (same.mem_iff.mp isRight))

theorem mapM_validate_eq (proper : ∀ range ∈ ranges, range.Proper) :
    ranges.mapM CountRange.validate = .ok ranges := by
  rw [mapM_eq_ok_iff, List.forall₂_same]
  intro range member
  exact (proper range member).validate_eq

theorem proper_of_mapM {result : List CountRange}
    (given : ranges.mapM CountRange.validate = .ok result) :
    result = ranges ∧ ∀ range ∈ ranges, range.Proper := by
  rw [mapM_eq_ok_iff] at given
  induction given with
  | nil => simp
  | cons first _ induction =>
      have valid := CountRange.proper_of_validate first
      rw [List.forall_mem_cons, valid.2, induction.1]
      exact ⟨rfl, valid.1, induction.2⟩

theorem ofRanges_of_laid (some : ranges ≠ []) (same : sorted.Perm ranges) (laid : Laid sorted) :
    ofRanges ranges = .ok ⟨.listed sorted, false⟩ := by
  have given := (exists_laid_iff ranges).mp ⟨sorted, same, laid⟩
  have arranged := List.mergeSort_perm ranges fun left right => left.min ≤ right.min
  have unique := (laid_mergeSort given.1 given.2).eq_of_perm laid (arranged.trans same.symm)
  have nonempty : ranges.isEmpty = false := List.isEmpty_eq_false_iff.mpr some
  have clear := (overlap?_arranged_iff given.1).mpr given.2
  rw [unique] at clear
  rw [ofRanges, mapM_validate_eq given.1]
  simp only [bind, Except.bind, nonempty, Bool.false_eq_true, if_false, pure, Except.pure, clear,
    unique]

theorem laid_of_ofRanges {multiplicity : Multiplicity} (made : ofRanges ranges = .ok multiplicity) :
    ranges ≠ [] ∧ ∃ sorted, sorted.Perm ranges ∧ Laid sorted ∧
      multiplicity = ⟨.listed sorted, false⟩ := by
  cases validated : ranges.mapM CountRange.validate with
  | error fault =>
      rw [ofRanges, validated] at made
      cases made
  | ok result =>
      rcases proper_of_mapM validated with ⟨rfl, proper⟩
      rw [ofRanges, validated] at made
      simp only [bind, Except.bind] at made
      cases empty : result.isEmpty with
      | true =>
          rw [empty, if_pos rfl] at made
          cases made
      | false =>
          have some : result ≠ [] := List.isEmpty_eq_false_iff.mp empty
          rw [empty, if_neg Bool.false_ne_true] at made
          cases overlap : overlap? (result.mergeSort fun left right => left.min ≤ right.min) with
          | some pair =>
              simp only [overlap] at made
              cases made
          | none =>
              simp only [pure, Except.pure, overlap] at made
              cases made
              have apart := (overlap?_arranged_iff proper).mp overlap
              exact ⟨some, _, List.mergeSort_perm result _, laid_mergeSort proper apart, rfl⟩

theorem exists_ofRanges_iff (ranges : List CountRange) :
    (∃ multiplicity, ofRanges ranges = .ok multiplicity) ↔
      ranges ≠ [] ∧ (∀ range ∈ ranges, range.Proper) ∧ ranges.Pairwise CountRange.Apart := by
  rw [← exists_laid_iff]
  constructor
  · rintro ⟨multiplicity, made⟩
    rcases laid_of_ofRanges made with ⟨some, sorted, same, laid, _⟩
    exact ⟨some, sorted, same, laid⟩
  · rintro ⟨some, sorted, same, laid⟩
    exact ⟨_, ofRanges_of_laid some same laid⟩

theorem ofRanges_perm {ranges' : List CountRange} {multiplicity : Multiplicity}
    (made : ofRanges ranges = .ok multiplicity) (same : ranges.Perm ranges') :
    ofRanges ranges' = .ok multiplicity := by
  rcases laid_of_ofRanges made with ⟨some, sorted, perm, laid, rfl⟩
  apply ofRanges_of_laid _ (perm.trans same) laid
  rintro rfl
  exact some same.eq_nil

theorem Laid.counts_ascending (laid : Laid sorted) : (Counts.listed sorted).Ascending := by
  constructor
  · intro limit range taken
    rw [Counts.take_listed] at taken
    exact (laid.proper range (List.mem_of_mem_take taken)).positive
  · intro limit
    rw [Counts.take_listed]
    exact laid.ascending.sublist (List.take_sublist limit sorted)

theorem Laid.accepts_iff (laid : Laid sorted) (count : Nat) :
    (⟨.listed sorted, false⟩ : Multiplicity).accepts count = true ↔
      ∃ range ∈ sorted, count ∈ range := by
  rw [accepts_iff_mem_ranges laid.counts_ascending rfl]
  simp only [Multiplicity.ranges, Counts.take_listed]
  constructor
  · rintro ⟨limit, range, taken, inside⟩
    exact ⟨range, List.mem_of_mem_take taken, inside⟩
  · intro found
    exact ⟨sorted.length, by rwa [List.take_length]⟩

theorem Laid.isLeast_lowerBound (laid : Laid sorted) (some : sorted ≠ []) :
    IsLeast {count | (⟨.listed sorted, false⟩ : Multiplicity).accepts count = true}
      (⟨.listed sorted, false⟩ : Multiplicity).lowerBound := by
  cases sorted with
  | nil => exact absurd rfl some
  | cons first rest =>
      have ascending := (List.pairwise_cons.mp laid.ascending).1
      constructor
      · exact (laid.accepts_iff _).mpr
          ⟨first, List.mem_cons_self, (laid.proper first List.mem_cons_self).min_mem⟩
      · intro count accepted
        rcases (laid.accepts_iff count).mp accepted with ⟨range, member, inside⟩
        rcases List.mem_cons.mp member with rfl | isLater
        · exact inside.1
        · exact Nat.le_trans (Nat.le_of_lt (ascending range isLater)) inside.1

theorem Laid.upperBound_spec (laid : Laid sorted) (some : sorted ≠ []) :
    (∀ most, (⟨.listed sorted, false⟩ : Multiplicity).upperBound = .some most →
      IsGreatest {count | (⟨.listed sorted, false⟩ : Multiplicity).accepts count = true} most) ∧
    ((⟨.listed sorted, false⟩ : Multiplicity).upperBound = none ↔
      ∃ range ∈ sorted, range.max = none) := by
  rcases List.eq_nil_or_concat' sorted with rfl | ⟨front, last, rfl⟩
  · exact absurd rfl some
  · have upper : (⟨.listed (front ++ [last]), false⟩ : Multiplicity).upperBound = last.max := by
      simp [upperBound]
    have before : ∀ range ∈ front, range.Before last := by
      intro range member
      exact (List.pairwise_append.mp laid.sorted).2.2 range member last List.mem_cons_self
    have isLast : last ∈ front ++ [last] := List.mem_append_right _ List.mem_cons_self
    have proper := laid.proper last isLast
    rw [upper]
    constructor
    · intro most ends
      constructor
      · apply (laid.accepts_iff most).mpr
        refine ⟨last, isLast, proper.upright most ends, ?_⟩
        intro max given
        exact Nat.le_of_eq (Option.some.inj (ends.symm.trans given))
      · intro count accepted
        rcases (laid.accepts_iff count).mp accepted with ⟨range, member, inside⟩
        rcases List.mem_append.mp member with isBefore | isLast
        · rcases before range isBefore with ⟨max, given, below⟩
          have least := inside.2 max given
          have least' := proper.upright most ends
          omega
        · cases List.mem_singleton.mp isLast
          exact inside.2 most ends
    · constructor
      · intro endless
        exact ⟨last, isLast, endless⟩
      · rintro ⟨range, member, endless⟩
        rcases List.mem_append.mp member with isBefore | isLast
        · rcases before range isBefore with ⟨max, given, _⟩
          exact nomatch endless.symm.trans given
        · cases List.mem_singleton.mp isLast
          exact endless

/-- Ranges make a multiplicity exactly if there are any, each of them is proper
and no count lies in two of them. They are then stored one behind the other, so
that all but the last have an end; the accepted counts are those in the ranges,
and the bounds tell the least and the largest of them. The order in which the
ranges are given makes no difference. -/
theorem disjoint_ranges_make_multiplicity (ranges : List CountRange) :
    ((∃ multiplicity, ofRanges ranges = .ok multiplicity) ↔
      ranges ≠ [] ∧
      (∀ range ∈ ranges, 1 ≤ range.min ∧ ∀ max, range.max = some max → range.min ≤ max) ∧
      ranges.Pairwise fun left right => ∀ count ∈ left, count ∉ right) ∧
    (∀ multiplicity, ofRanges ranges = .ok multiplicity →
      (∃ sorted, multiplicity = ⟨.listed sorted, false⟩ ∧ sorted.Perm ranges ∧
        sorted.Pairwise fun left right => ∃ max, left.max = some max ∧ max < right.min) ∧
      (∀ count, multiplicity.accepts count = true ↔ ∃ range ∈ ranges, count ∈ range) ∧
      IsLeast {count | multiplicity.accepts count = true} multiplicity.lowerBound ∧
      (∀ most, multiplicity.upperBound = some most →
        IsGreatest {count | multiplicity.accepts count = true} most) ∧
      (multiplicity.upperBound = none ↔ ∃ range ∈ ranges, range.max = none)) ∧
    ∀ ranges', ranges.Perm ranges' →
      (∃ multiplicity, ofRanges ranges = .ok multiplicity ∧ ofRanges ranges' = .ok multiplicity) ∨
      ∃ fault fault', ofRanges ranges = .error fault ∧ ofRanges ranges' = .error fault' := by
  refine ⟨?_, ?_, ?_⟩
  · simp only [← CountRange.proper_iff]
    exact exists_ofRanges_iff ranges
  · intro multiplicity made
    rcases laid_of_ofRanges made with ⟨some, sorted, same, laid, rfl⟩
    have some' : sorted ≠ [] := by
      rintro rfl
      exact some same.symm.eq_nil
    have upper := laid.upperBound_spec some'
    simp only [same.mem_iff] at upper
    refine ⟨⟨sorted, rfl, same, laid.sorted⟩, ?_, laid.isLeast_lowerBound some', upper.1, upper.2⟩
    intro count
    simp only [laid.accepts_iff, same.mem_iff]
  · intro ranges' same
    cases made : ofRanges ranges with
    | ok multiplicity => exact .inl ⟨multiplicity, rfl, ofRanges_perm made same⟩
    | error fault =>
        cases made' : ofRanges ranges' with
        | error fault' => exact .inr ⟨fault, fault', rfl, rfl⟩
        | ok multiplicity => exact nomatch made.symm.trans (ofRanges_perm made' same.symm)

theorem touching_ranges_are_put_in_order :
    let ranges : List CountRange := [⟨7, none⟩, ⟨1, some 1⟩, ⟨2, some 4⟩]
    let multiplicity : Multiplicity := ⟨.listed [⟨1, some 1⟩, ⟨2, some 4⟩, ⟨7, none⟩], false⟩
    ofRanges ranges = .ok multiplicity ∧
      ∀ count, multiplicity.accepts count = true ↔ ∃ range ∈ ranges, count ∈ range := by
  intro ranges multiplicity
  have laid : Laid [⟨1, some 1⟩, ⟨2, some 4⟩, ⟨7, none⟩] := by
    constructor <;> simp [CountRange.proper_iff, CountRange.Before]
  have made : ofRanges ranges = .ok multiplicity :=
    ofRanges_of_laid (List.cons_ne_nil _ _) (by decide) laid
  exact ⟨made, ((disjoint_ranges_make_multiplicity ranges).2.1 multiplicity made).2.1⟩

end Multiplicity

end LineGrammar
