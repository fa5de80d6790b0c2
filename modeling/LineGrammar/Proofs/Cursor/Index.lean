import LineGrammar.Proofs.Cursor.Within
import Mathlib.Data.Set.Function
import Mathlib.Order.Interval.Set.Defs

/-!
The places of a buffer in a row. The index of a place is the number of
characters before it, each line break counting as one; what is before a place
and what is left from it on make up the buffer. No two places have the same
index, and there is one for every number up to that of the end of the buffer.
Advancing adds to the index and retreating subtracts from it, as far as the
buffer goes.
-/

namespace LineGrammar

theorem Line.charCount_append (front back : List Line) :
    charCount (front ++ back) = charCount front + charCount back := by
  induction front with
  | nil => simp [charCount]
  | cons line later induction =>
      simp only [charCount, List.cons_append, List.foldr_cons] at induction ⊢
      omega

namespace Cursor

/-- The number of characters before a cursor, each line break counting as one. -/
def index (cursor : Cursor) : Nat :=
  Line.charCount (cursor.buffer.lines.toList.take cursor.position.line) + cursor.before.length

variable {cursor first second : Cursor}

theorem index_add_remaining (cursor : Cursor) :
    cursor.index + cursor.remaining = cursor.buffer.charCount := by
  have whole := Line.charCount_append
    (cursor.buffer.lines.toList.take cursor.position.line)
    (cursor.buffer.lines.toList.drop cursor.position.line)
  rw [List.take_append_drop] at whole
  have total : cursor.buffer.charCount = Line.charCount cursor.buffer.lines.toList := rfl
  rw [total, whole, index, before, remaining]
  cases found : cursor.line? with
  | none => simp [lines_of_none found, text_of_none found, remainingFrom, Text.takeBytes,
      Line.charCount]
  | some line =>
      have parts := congrArg List.length
        (Text.takeBytes_append_dropBytes cursor.position.column line.text)
      rw [List.length_append] at parts
      rw [lines_of_line found, text_of_line found, remainingFrom]
      simp only [Line.charCount, List.foldr_cons]
      omega

theorem index_le_charCount (cursor : Cursor) : cursor.index ≤ cursor.buffer.charCount := by
  have whole := index_add_remaining cursor
  omega

theorem index_bufferEnd (buffer : Buffer) :
    (⟨buffer, bufferEnd buffer⟩ : Cursor).index = buffer.charCount := by
  have none : (⟨buffer, bufferEnd buffer⟩ : Cursor).line? = .none := by
    simp [line?, Buffer.line?, bufferEnd, Buffer.size]
  have whole := index_add_remaining ⟨buffer, bufferEnd buffer⟩
  rwa [remaining_of_none none, Nat.add_zero] at whole

theorem index_origin (buffer : Buffer) : (⟨buffer, .origin⟩ : Cursor).index = 0 := by
  have nothing : Text.takeBytes 0 (buffer.textAt 0) = [] := by
    simpa using Text.takeBytes_byteLength_append [] (buffer.textAt 0)
  simp [index, before, Cursor.text, Position.origin, nothing, Line.charCount]

theorem Valid.index_advance (valid : cursor.Valid) (count : Nat) :
    (cursor.advance count).index = min (cursor.index + count) cursor.buffer.charCount := by
  have left := valid.remaining_advance count
  have here := index_add_remaining cursor
  have there := index_add_remaining (cursor.advance count)
  have same : (cursor.advance count).buffer = cursor.buffer := rfl
  rw [left, same] at there
  omega

theorem index_taken (buffer : Buffer) (line column count : Nat) :
    (⟨buffer, ⟨line, Text.byteLength
      ((Text.takeBytes column (buffer.textAt line)).take count)⟩⟩ : Cursor).index =
      Line.charCount (buffer.lines.toList.take line) +
        ((Text.takeBytes column (buffer.textAt line)).take count).length := by
  have cut := Text.takeBytes_byteLength_append
    ((Text.takeBytes column (buffer.textAt line)).take count)
    ((Text.takeBytes column (buffer.textAt line)).drop count ++
      Text.dropBytes column (buffer.textAt line))
  rw [← List.append_assoc, List.take_append_drop, Text.takeBytes_append_dropBytes] at cut
  simp only [index, before, Cursor.text, cut]

theorem index_lineEnd {buffer : Buffer} {line : Nat} (bound : line < buffer.size) :
    (⟨buffer, ⟨line, Text.byteLength (buffer.textAt line)⟩⟩ : Cursor).index + 1 =
      Line.charCount (buffer.lines.toList.take (line + 1)) := by
  have found : buffer.line? line = some buffer.lines[line] := Array.getElem?_eq_getElem bound
  have text : buffer.textAt line = buffer.lines[line].text := by rw [Buffer.textAt, found]
  have cut := Text.takeBytes_byteLength_append buffer.lines[line].text []
  rw [List.append_nil] at cut
  have upTo : buffer.lines.toList.take (line + 1) =
      buffer.lines.toList.take line ++ [buffer.lines[line]] := by
    rw [List.take_add_one, Array.getElem?_toList, Array.getElem?_eq_getElem bound]
    rfl
  rw [upTo, Line.charCount_append]
  simp only [index, before, Cursor.text, text, cut, Line.charCount, List.foldr_cons, List.foldr_nil]
  omega

theorem index_backward {buffer : Buffer} {line : Nat} (bound : line < buffer.size)
    (count column : Nat) :
    (⟨buffer, backward buffer count line column⟩ : Cursor).index =
      (⟨buffer, ⟨line, column⟩⟩ : Cursor).index - count := by
  have here : (⟨buffer, ⟨line, column⟩⟩ : Cursor).index =
      Line.charCount (buffer.lines.toList.take line) +
        (Text.takeBytes column (buffer.textAt line)).length := rfl
  -- The recursion goes up the lines, each time from the end of the line above.
  induction line generalizing count column with
  | zero =>
      rw [backward, here]
      split
      · rw [index_taken, List.length_take]
        omega
      · rw [index_origin]
        simp only [List.take_zero, Line.charCount, List.foldr_nil]
        omega
  | succ line induction =>
      have above : line < buffer.size := Nat.lt_of_succ_lt bound
      rw [backward, here, Nat.succ_eq_add_one]
      split
      · rw [index_taken, List.length_take]
        omega
      · rw [induction above _ _ rfl, ← index_lineEnd above]
        omega

theorem Valid.index_retreat (valid : cursor.Valid) (count : Nat) :
    (cursor.retreat count).index = cursor.index - count := by
  unfold retreat
  split
  · rename_i nothing
    rw [nothing, Nat.sub_zero]
  · rename_i some
    cases ended : cursor.atEnd with
    | false =>
        simp only [Bool.false_eq_true, if_false]
        exact index_backward (lt_size_of_atEnd ended) _ _
    | true =>
        have place : cursor = ⟨cursor.buffer, bufferEnd cursor.buffer⟩ := by
          rw [← valid.atEnd_eq ended]
        have all : cursor.index = cursor.buffer.charCount := by
          rw [place]
          exact index_bufferEnd cursor.buffer
        simp only [if_true]
        cases empty : cursor.buffer.isEmpty with
        | true =>
            have none : cursor.buffer.lines = #[] := by
              simpa [Buffer.isEmpty] using empty
            have zero : cursor.buffer.charCount = 0 := by
              rw [Buffer.charCount, none]
              rfl
            simp only [if_true]
            omega
        | false =>
            obtain ⟨line, found, last⟩ := Buffer.lastPosition_of_isEmpty empty
            have bound : cursor.buffer.size - 1 < cursor.buffer.size :=
              (Array.getElem?_eq_some_iff.mp found).1
            have text : cursor.buffer.textAt (cursor.buffer.size - 1) = line.text := by
              rw [Buffer.textAt, found]
            have step := index_lineEnd bound
            rw [text, List.take_of_length_le (by simp [Buffer.size]; omega)] at step
            have whole : Line.charCount cursor.buffer.lines.toList = cursor.buffer.charCount := rfl
            simp only [Bool.false_eq_true, if_false, last]
            rw [index_backward bound, Line.length]
            omega

theorem Valid.eq_of_index_eq (valid : first.Valid) (valid' : second.Valid)
    (buffer : second.buffer = first.buffer) (same : second.index = first.index) :
    second = first := by
  have here := index_add_remaining first
  have there := index_add_remaining second
  rw [buffer] at there
  have place : second.position = first.position := by
    by_cases back : second.position < first.position
    · have forth : ¬first.position < second.position := by
        rintro (line | ⟨line, column⟩)
        all_goals rcases back with line' | ⟨line', column'⟩ <;> omega
      have within : second.Within first := ⟨buffer.symm, valid⟩
      rcases (within.onward valid' forth).onward with stays | less
      · exact stays.symm
      · omega
    · have within : first.Within second := ⟨buffer, valid'⟩
      rcases (within.onward valid back).onward with stays | less
      · exact stays
      · omega
  obtain ⟨lines, position⟩ := first
  obtain ⟨lines', position'⟩ := second
  subst buffer place
  rfl

/-- The index numbers the places of a buffer from 0 on without a gap. -/
theorem index_bijOn (buffer : Buffer) :
    Set.BijOn (fun position => (⟨buffer, position⟩ : Cursor).index)
      {position | (⟨buffer, position⟩ : Cursor).Valid} (Set.Iic buffer.charCount) := by
  refine ⟨?_, ?_, ?_⟩
  · intro position _
    exact index_le_charCount ⟨buffer, position⟩
  · intro position valid position' valid' same
    exact congrArg Cursor.position (Valid.eq_of_index_eq valid' valid rfl same)
  · intro count bound
    have begin := origin_valid buffer
    have reached := begin.index_advance count
    rw [index_origin, Nat.zero_add, Nat.min_eq_left bound] at reached
    exact ⟨_, (begin.onward_advance count).valid, reached⟩

/-- Moving by characters is arithmetic on the index. Every number up to that of
the end of the buffer is the index of exactly one place; advancing adds to the
index and stops at the end, retreating subtracts from it and stops at 0. So
two advances are one by the sum, and retreating undoes an advance that was not
stopped. -/
theorem moves_add_to_index (buffer : Buffer) :
    Set.BijOn (fun position => (⟨buffer, position⟩ : Cursor).index)
      {position | (⟨buffer, position⟩ : Cursor).Valid} (Set.Iic buffer.charCount) ∧
    (⟨buffer, bufferEnd buffer⟩ : Cursor).Valid ∧
    (⟨buffer, bufferEnd buffer⟩ : Cursor).index = buffer.charCount ∧
    ∀ cursor : Cursor, cursor.buffer = buffer → cursor.Valid →
      (∀ count, cursor.Within (cursor.advance count) ∧
        (cursor.advance count).index = min (cursor.index + count) buffer.charCount) ∧
      (∀ count, cursor.Within (cursor.retreat count) ∧
        (cursor.retreat count).index = cursor.index - count) ∧
      (∀ count count', (cursor.advance count).advance count' = cursor.advance (count + count')) ∧
      ∀ count, cursor.index + count ≤ buffer.charCount →
        (cursor.advance count).retreat count = cursor := by
  refine ⟨index_bijOn buffer, lineStart_valid (Nat.le_refl _), index_bufferEnd buffer, ?_⟩
  rintro cursor rfl valid
  have ahead : ∀ count, cursor.Within (cursor.advance count) := by
    intro count
    exact (valid.onward_advance count).within
  refine ⟨?_, ?_, ?_, ?_⟩
  · intro count
    exact ⟨ahead count, valid.index_advance count⟩
  · intro count
    exact ⟨valid.within_retreat count, valid.index_retreat count⟩
  · intro count count'
    have twice := (ahead count).valid.index_advance count'
    have once := valid.index_advance (count + count')
    have same : (cursor.advance count).buffer = cursor.buffer := rfl
    rw [valid.index_advance count, same] at twice
    apply (ahead (count + count')).valid.eq_of_index_eq
    · exact ((ahead count).valid.onward_advance count').valid
    · rfl
    · omega
  · intro count fits
    have there := valid.index_advance count
    have back := (ahead count).valid.index_retreat count
    have within := (ahead count).valid.within_retreat count
    apply valid.eq_of_index_eq within.valid within.buffer
    omega

/-- Over a character of two bytes and an empty line and back again; an advance
far past the end stops there. -/
theorem advance_over_empty_line_is_undone :
    let cursor : Cursor := ⟨.ofLines ["aé", "", "b"], ⟨0, 1⟩⟩
    cursor.Valid ∧ cursor.index + 3 ≤ cursor.buffer.charCount ∧
      (cursor.advance 3).position = ⟨2, 0⟩ ∧ (cursor.advance 3).retreat 3 = cursor ∧
      (cursor.advance 18446744073709551615).index = 6 := by
  intro cursor
  have valid : cursor.Valid := by decide
  have fits : cursor.index + 3 ≤ cursor.buffer.charCount := by decide
  have laws := (moves_add_to_index cursor.buffer).2.2.2 cursor rfl valid
  refine ⟨valid, fits, by decide, laws.2.2.2 3 fits, ?_⟩
  rw [(laws.1 18446744073709551615).2]
  decide

end Cursor

end LineGrammar
