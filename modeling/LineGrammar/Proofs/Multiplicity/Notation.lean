import LineGrammar.Proofs.Multiplicity.Ranges
import LineGrammar.Proofs.Text.Numeral

/-!
The notation of multiplicities. The plus sign stands before a count or behind it,
and the hyphen behind a count or between two of them. No text can be read in two
ways all the same, because a count ends in a digit. What is written for a
multiplicity has another form than what it was read from, but it is read as the
same multiplicity.
-/

namespace LineGrammar

namespace CountRange

inductive Denotes : List Char → CountRange → Prop
  | exactly {text : List Char} {count : Nat} (written : Text.Written text count) :
      Denotes text ⟨count, some count⟩
  | atLeast {text : List Char} {min : Nat} (written : Text.Written text min) :
      Denotes (text ++ ['+']) ⟨min, none⟩
  | atMost {text : List Char} {max : Nat} (written : Text.Written text max) :
      Denotes (text ++ ['-']) ⟨1, some max⟩
  | between {left right : List Char} {min max : Nat} (lower : Text.Written left min)
      (upper : Text.Written right max) : Denotes (left ++ '-' :: right) ⟨min, some max⟩

structure Fits (range : CountRange) : Prop where
  min : range.min ≤ Text.maxCount
  max : ∀ max, range.max = some max → max ≤ Text.maxCount

variable {text : List Char} {range : CountRange} {count : Nat}

theorem dropLast?_eq_some_iff (mark : Char) (text front : List Char) :
    dropLast? mark text = some front ↔ text = front ++ [mark] := by
  unfold dropLast?
  split
  · rename_i ends
    rcases List.getLast?_eq_some_iff.mp ends with ⟨front', rfl⟩
    simp
  · rename_i other
    constructor
    · exact nofun
    · rintro rfl
      exact absurd List.getLast?_concat other

theorem bne_hyphen (absent : '-' ∉ text) : ∀ char ∈ text, (char != '-') = true := by
  intro char member
  exact bne_iff_ne.mpr fun same => absent (same ▸ member)

theorem splitHyphen?_of_not_mem (absent : '-' ∉ text) : splitHyphen? text = none := by
  rw [splitHyphen?, List.dropWhile_eq_nil_iff.mpr (bne_hyphen absent)]

theorem splitHyphen?_append {left : List Char} (absent : '-' ∉ left) (right : List Char) :
    splitHyphen? (left ++ '-' :: right) = some (left, right) := by
  have all := bne_hyphen absent
  rw [splitHyphen?, List.dropWhile_append_of_pos all, List.takeWhile_append_of_pos all]
  simp

theorem eq_of_splitHyphen? {left right : List Char}
    (split : splitHyphen? text = some (left, right)) : text = left ++ '-' :: right := by
  unfold splitHyphen? at split
  have whole := @List.takeWhile_append_dropWhile _ (· != '-') text
  cases rest : text.dropWhile (· != '-') with
  | nil =>
      rw [rest] at split
      cases split
  | cons char later =>
      have hyphen := List.head?_dropWhile_not (· != '-') text
      rw [rest] at split whole hyphen
      cases split
      simp only [List.head?_cons, bne_eq_false_iff_eq] at hyphen
      rw [hyphen] at whole
      exact whole.symm

theorem readCount_eq_ok_iff (whole text : List Char) (count : Nat) :
    readCount whole text = .ok count ↔ Text.Written text count := by
  rw [← Text.count?_trim_eq_some_iff, readCount]
  cases Text.count? (Text.trim text) <;> simp

theorem not_mem_of_written (written : Text.Written text count) : '-' ∉ text := by
  intro member
  exact absurd (written.mem '-' member) (by decide)

theorem dropLast?_of_written (written : Text.Written text count) (front : List Char) {mark : Char}
    (isMark : mark = '+' ∨ mark = '-') : dropLast? mark (front ++ text) = none := by
  rcases written.getLast? with ⟨last, ends, isLast⟩
  rw [dropLast?, if_neg]
  rw [List.getLast?_append, ends]
  rintro ⟨rfl⟩
  rcases isMark with rfl | rfl
  · exact absurd isLast (by decide)
  · exact absurd isLast (by decide)

theorem denotes_of_read (given : read text = .ok range) : Denotes text range := by
  unfold read at given
  split at given
  · rename_i front drops
    simp only [bind_eq_ok_iff, readCount_eq_ok_iff] at given
    rcases given with ⟨min, written, ⟨⟩⟩
    rw [(dropLast?_eq_some_iff _ _ _).mp drops]
    exact .atLeast written
  · split at given
    · rename_i front drops
      simp only [bind_eq_ok_iff, readCount_eq_ok_iff] at given
      rcases given with ⟨max, written, ⟨⟩⟩
      rw [(dropLast?_eq_some_iff _ _ _).mp drops]
      exact .atMost written
    · split at given
      · rename_i left right splits
        simp only [bind_eq_ok_iff, readCount_eq_ok_iff] at given
        rcases given with ⟨min, lower, max, upper, ⟨⟩⟩
        rw [eq_of_splitHyphen? splits]
        exact .between lower upper
      · simp only [bind_eq_ok_iff, readCount_eq_ok_iff] at given
        rcases given with ⟨count, written, ⟨⟩⟩
        exact .exactly written

/-- The marks are looked for in an order in which none is taken for another. -/
theorem Denotes.read_eq (denotes : Denotes text range) : read text = .ok range := by
  cases denotes with
  | exactly written =>
      have noPlus := dropLast?_of_written written [] (.inl rfl)
      have noHyphen := dropLast?_of_written written [] (.inr rfl)
      have number := (readCount_eq_ok_iff text text _).mpr written
      have whole := splitHyphen?_of_not_mem (not_mem_of_written written)
      rw [List.nil_append] at noPlus noHyphen
      simp only [read, noPlus, noHyphen, whole, number]
      rfl
  | @atLeast front min written =>
      have plus := (dropLast?_eq_some_iff '+' (front ++ ['+']) front).mpr rfl
      have number := (readCount_eq_ok_iff (front ++ ['+']) front min).mpr written
      simp only [read, plus, number]
      rfl
  | @atMost front max written =>
      have hyphen := (dropLast?_eq_some_iff '-' (front ++ ['-']) front).mpr rfl
      have number := (readCount_eq_ok_iff (front ++ ['-']) front max).mpr written
      have noPlus : dropLast? '+' (front ++ ['-']) = none := by simp [dropLast?]
      simp only [read, noPlus, hyphen, number]
      rfl
  | @between left right min max lower upper =>
      -- The second count ends the text, and the first has no hyphen of its own.
      have noPlus := dropLast?_of_written upper (left ++ ['-']) (.inl rfl)
      have noHyphen := dropLast?_of_written upper (left ++ ['-']) (.inr rfl)
      have splits := splitHyphen?_append (not_mem_of_written lower) right
      have lower' := (readCount_eq_ok_iff (left ++ '-' :: right) left min).mpr lower
      have upper' := (readCount_eq_ok_iff (left ++ '-' :: right) right max).mpr upper
      rw [List.append_assoc, List.singleton_append] at noPlus noHyphen
      simp only [read, noPlus, noHyphen, splits, lower', upper']
      rfl

theorem parse_eq_ok_iff (text : List Char) (range : CountRange) :
    parse text = .ok range ↔ Denotes (Text.trim text) range ∧ range.Proper := by
  rw [parse, bind_eq_ok_iff]
  constructor
  · rintro ⟨middle, read, valid⟩
    rcases proper_of_validate valid with ⟨proper, rfl⟩
    exact ⟨denotes_of_read read, proper⟩
  · rintro ⟨denotes, proper⟩
    exact ⟨range, denotes.read_eq, proper.validate_eq⟩

theorem Denotes.unique {range' : CountRange} (denotes : Denotes text range)
    (denotes' : Denotes text range') : range = range' :=
  Except.ok.inj (denotes.read_eq.symm.trans denotes'.read_eq)

theorem Denotes.fits (denotes : Denotes text range) : range.Fits := by
  cases denotes with
  | exactly written =>
      refine ⟨written.le, ?_⟩
      rintro _ ⟨rfl⟩
      exact written.le
  | atLeast written => exact ⟨written.le, nofun⟩
  | atMost written =>
      refine ⟨Nat.le_add_left 1 _, ?_⟩
      rintro _ ⟨rfl⟩
      exact written.le
  | between lower upper =>
      refine ⟨lower.le, ?_⟩
      rintro _ ⟨rfl⟩
      exact upper.le

theorem Fits.denotes (fits : range.Fits) : Denotes range.render.toList range := by
  rcases range with ⟨min, max⟩
  have lower := (Text.numeral_toString fits.min).written
  unfold render
  cases max with
  | none =>
      rw [String.toList_append]
      exact .atLeast lower
  | some max =>
      have upper := (Text.numeral_toString (fits.max max rfl)).written
      by_cases single : max = min
      · subst single
        simp only [if_true]
        exact .exactly lower
      · simp only [single, if_false, String.toList_append, List.append_assoc]
        exact .between lower upper

theorem Fits.render_mem (fits : range.Fits) :
    ∀ char ∈ range.render.toList, char = '+' ∨ char.isDigit = true ∨ char = '-' := by
  rcases range with ⟨min, max⟩
  have lower := (Text.numeral_toString fits.min).mem
  intro char member
  unfold render at member
  cases max with
  | none =>
      simp only [String.toList_append, List.mem_append] at member
      rcases member with inMin | isMark
      · exact (lower char inMin).imp_right .inl
      · exact .inl (List.mem_singleton.mp isMark)
  | some max =>
      have upper := (Text.numeral_toString (fits.max max rfl)).mem
      simp only at member
      by_cases single : max = min
      · rw [if_pos single] at member
        exact (lower char member).imp_right .inl
      · simp only [single, if_false, String.toList_append, List.mem_append] at member
        rcases member with (inMin | isMark) | inMax
        · exact (lower char inMin).imp_right .inl
        · exact .inr (.inr (List.mem_singleton.mp isMark))
        · exact (upper char inMax).imp_right .inl

theorem Fits.isWhite_eq_false (fits : range.Fits) :
    ∀ char ∈ range.render.toList, Text.isWhite char = false := by
  intro char member
  rcases fits.render_mem char member with rfl | digit | rfl
  · decide
  · exact Text.isWhite_of_isDigit digit
  · decide

theorem Fits.comma_not_mem (fits : range.Fits) : ',' ∉ range.render.toList := by
  intro member
  exact absurd (fits.render_mem ',' member) (by decide)

end CountRange

namespace Multiplicity

variable {text : List Char} {ranges sorted : List CountRange} {multiplicity : Multiplicity}

def Denotes (text : List Char) (ranges : List CountRange) : Prop :=
  List.Forall₂ (fun piece range => CountRange.Denotes (Text.trim piece) range) (text.splitOn ',')
    ranges

theorem splitCommas_eq (text : List Char) : splitCommas text = text.splitOn ',' := by
  induction text with
  | nil => simp [splitCommas]
  | cons char rest induction =>
      rw [splitCommas, induction, List.splitOn_eq_splitOnP, List.splitOn_eq_splitOnP,
        List.splitOnP_cons_eq_if_modifyHead]
      by_cases comma : char = ','
      · simp [comma]
      · simp only [comma, if_false, beq_iff_eq]
        cases pieces : List.splitOnP (· == ',') rest with
        | nil => exact absurd pieces (List.splitOnP_ne_nil _ _)
        | cons first later => rfl

theorem Denotes.unique {ranges' : List CountRange} (denotes : Denotes text ranges)
    (denotes' : Denotes text ranges') : ranges = ranges' := by
  apply Relator.RightUnique.forall₂ _ denotes denotes'
  intro piece range range' denoted denoted'
  exact denoted.unique denoted'

theorem Denotes.fits (denotes : Denotes text ranges) : ∀ range ∈ ranges, range.Fits := by
  unfold Denotes at denotes
  generalize text.splitOn ',' = pieces at denotes
  induction denotes with
  | nil => exact nofun
  | cons denoted _ induction => exact List.forall_mem_cons.mpr ⟨denoted.fits, induction⟩

theorem Denotes.ne_nil (denotes : Denotes text ranges) : ranges ≠ [] := by
  rintro rfl
  exact List.splitOn_ne_nil _ _ (List.forall₂_nil_right_iff.mp denotes)

theorem parse_eq_ok_iff (text : String) (multiplicity : Multiplicity) :
    parse text = .ok multiplicity ↔
      ∃ ranges, Denotes text.toList ranges ∧ ofRanges ranges = .ok multiplicity := by
  simp only [parse, bind_eq_ok_iff, mapM_eq_ok_iff, splitCommas_eq, CountRange.parse_eq_ok_iff]
  constructor
  · rintro ⟨ranges, read, made⟩
    exact ⟨ranges, read.imp fun _ _ => And.left, made⟩
  · rintro ⟨ranges, denotes, made⟩
    refine ⟨ranges, ?_, made⟩
    have given := (exists_ofRanges_iff ranges).mp ⟨multiplicity, made⟩
    have both := (List.forall₂_and_left ranges _).mpr ⟨given.2.1, denotes.flip⟩
    exact both.flip.imp fun _ _ => And.symm

theorem render_toList (sorted : List CountRange) :
    (⟨.listed sorted, false⟩ : Multiplicity).render.toList =
      [','].intercalate (sorted.map fun range => range.render.toList) := by
  simp only [render, Bool.false_eq_true, if_false, String.empty_append, String.toList_intercalate,
    List.map_map]
  rfl

theorem denotes_render (some : sorted ≠ []) (fits : ∀ range ∈ sorted, range.Fits) :
    Denotes (⟨.listed sorted, false⟩ : Multiplicity).render.toList sorted := by
  have pieces : ∀ piece ∈ sorted.map fun range => range.render.toList, ',' ∉ piece := by
    intro piece member
    rcases List.mem_map.mp member with ⟨range, isRange, rfl⟩
    exact (fits range isRange).comma_not_mem
  rw [Denotes, render_toList, List.splitOn_intercalate ',' pieces (by simpa using some),
    List.forall₂_map_left_iff, List.forall₂_same]
  intro range member
  rw [Text.trim_of_plain (fits range member).isWhite_eq_false]
  exact (fits range member).denotes

theorem parse_render (fits : ∀ range ∈ ranges, range.Fits)
    (made : ofRanges ranges = .ok multiplicity) :
    parse multiplicity.render = .ok multiplicity := by
  rcases laid_of_ofRanges made with ⟨_, sorted, same, _, rfl⟩
  have again := ofRanges_perm made same.symm
  have some := ((exists_ofRanges_iff sorted).mp ⟨_, again⟩).1
  rw [parse_eq_ok_iff]
  refine ⟨sorted, denotes_render some ?_, again⟩
  intro range member
  exact fits range (same.mem_iff.mp member)

/-- A text is read exactly if its pieces between commas denote ranges that are
proper and apart from each other. It is read as those ranges, one behind the
other. A multiplicity that was read from a text or made from ranges is read again
from what is written for it. -/
theorem ranges_are_read_as_written :
    (∀ text : String, (∃ multiplicity, parse text = .ok multiplicity) ↔
      ∃ ranges, Denotes text.toList ranges ∧
        (∀ range ∈ ranges, 1 ≤ range.min ∧ ∀ max, range.max = some max → range.min ≤ max) ∧
        ranges.Pairwise fun left right => ∀ count ∈ left, count ∉ right) ∧
    (∀ text multiplicity ranges, parse text = .ok multiplicity → Denotes text.toList ranges →
      ∃ sorted, multiplicity = ⟨.listed sorted, false⟩ ∧ sorted.Perm ranges ∧
        sorted.Pairwise fun left right => ∃ max, left.max = some max ∧ max < right.min) ∧
    (∀ text multiplicity, parse text = .ok multiplicity →
      parse multiplicity.render = .ok multiplicity) ∧
    ∀ ranges multiplicity,
      (∀ range ∈ ranges, range.min ≤ Text.maxCount ∧
        ∀ max, range.max = some max → max ≤ Text.maxCount) →
      ofRanges ranges = .ok multiplicity → parse multiplicity.render = .ok multiplicity := by
  refine ⟨?_, ?_, ?_, ?_⟩
  · intro text
    simp only [← CountRange.proper_iff]
    constructor
    · rintro ⟨multiplicity, parsed⟩
      rcases (parse_eq_ok_iff text multiplicity).mp parsed with ⟨ranges, denotes, made⟩
      exact ⟨ranges, denotes, ((exists_ofRanges_iff ranges).mp ⟨multiplicity, made⟩).2⟩
    · rintro ⟨ranges, denotes, given⟩
      rcases (exists_ofRanges_iff ranges).mpr ⟨denotes.ne_nil, given⟩ with ⟨multiplicity, made⟩
      exact ⟨multiplicity, (parse_eq_ok_iff text multiplicity).mpr ⟨ranges, denotes, made⟩⟩
  · intro text multiplicity ranges parsed denotes
    rcases (parse_eq_ok_iff text multiplicity).mp parsed with ⟨ranges', denotes', made⟩
    cases denotes.unique denotes'
    rcases laid_of_ofRanges made with ⟨_, sorted, same, laid, rfl⟩
    exact ⟨sorted, rfl, same, laid.sorted⟩
  · intro text multiplicity parsed
    rcases (parse_eq_ok_iff text multiplicity).mp parsed with ⟨ranges, denotes, made⟩
    exact parse_render denotes.fits made
  · intro ranges multiplicity fits made
    apply parse_render _ made
    intro range member
    exact ⟨(fits range member).1, (fits range member).2⟩

/-- The plus sign before a count is not written back, and the ranges are put in
order. -/
theorem sign_is_not_written_back :
    let sorted : List CountRange := [⟨1, some 2⟩, ⟨3, some 4⟩, ⟨7, none⟩]
    parse " +7 + ,2-,3 - 4 " = .ok ⟨.listed sorted, false⟩ ∧
      (∃ ranges, Denotes " +7 + ,2-,3 - 4 ".toList ranges ∧ sorted.Perm ranges) ∧
      (⟨.listed sorted, false⟩ : Multiplicity).render = "1-2,3-4,7+" ∧
      parse "1-2,3-4,7+" = .ok ⟨.listed sorted, false⟩ := by
  intro sorted
  have read : (splitCommas " +7 + ,2-,3 - 4 ".toList).mapM CountRange.parse =
      .ok [⟨7, none⟩, ⟨1, some 2⟩, ⟨3, some 4⟩] := rfl
  have laid : Laid sorted := by
    constructor <;> simp [sorted, CountRange.proper_iff, CountRange.Before]
  have made : ofRanges [⟨7, none⟩, ⟨1, some 2⟩, ⟨3, some 4⟩] = .ok ⟨.listed sorted, false⟩ :=
    ofRanges_of_laid (List.cons_ne_nil _ _) (by decide) laid
  have parsed : parse " +7 + ,2-,3 - 4 " = .ok ⟨.listed sorted, false⟩ := by
    rw [parse, read]
    exact made
  have rendered : (⟨.listed sorted, false⟩ : Multiplicity).render = "1-2,3-4,7+" := by
    decide +kernel
  have back := ranges_are_read_as_written.2.2.1 _ _ parsed
  rw [rendered] at back
  rcases (ranges_are_read_as_written.1 _).mp ⟨_, parsed⟩ with ⟨ranges, denotes, _⟩
  rcases ranges_are_read_as_written.2.1 _ _ _ parsed denotes with ⟨_, ⟨⟩, same, _⟩
  exact ⟨parsed, ⟨ranges, denotes, same⟩, rendered, back⟩

end Multiplicity

end LineGrammar
