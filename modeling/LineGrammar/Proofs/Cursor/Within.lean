import LineGrammar.Proofs.Cursor.Remaining

/-!
Movements in any direction. Each of them leads from a place where a cursor may
stand to such a place of the same buffer. Of two places of a buffer one is the
earlier, so a movement goes back, stays, or leaves less of the buffer.
-/

namespace LineGrammar

namespace Cursor

variable {cursor before after : Cursor}

/-- Whether a cursor stands in the same buffer, where a cursor may stand. -/
structure Within (before after : Cursor) : Prop where
  buffer : after.buffer = before.buffer
  valid : after.Valid

theorem Within.trans {first second third : Cursor} (early : first.Within second)
    (late : second.Within third) : first.Within third :=
  ⟨late.buffer.trans early.buffer, late.valid⟩

theorem Onward.within (onward : before.Onward after) : before.Within after :=
  ⟨onward.buffer, onward.valid⟩

theorem taken_valid {buffer : Buffer} {index : Nat} (bound : index < buffer.size)
    (column count : Nat) :
    (⟨buffer, ⟨index, Text.byteLength
      ((Text.takeBytes column (buffer.textAt index)).take count)⟩⟩ : Cursor).Valid := by
  have found : buffer.line? index = some buffer.lines[index] := Array.getElem?_eq_getElem bound
  have text : buffer.textAt index = buffer.lines[index].text := by rw [Buffer.textAt, found]
  have boundary := Text.at_boundary_append
    ((Text.takeBytes column (buffer.textAt index)).take count)
    ((Text.takeBytes column (buffer.textAt index)).drop count ++
      Text.dropBytes column (buffer.textAt index))
  rw [← List.append_assoc, List.take_append_drop, Text.takeBytes_append_dropBytes] at boundary
  exact valid_of_boundary found (text ▸ boundary)

theorem backward_valid {buffer : Buffer} {index : Nat} (bound : index < buffer.size)
    (count column : Nat) : (⟨buffer, backward buffer count index column⟩ : Cursor).Valid := by
  induction index generalizing count column with
  | zero =>
      rw [backward]
      split
      · exact taken_valid bound column _
      · exact origin_valid buffer
  | succ index induction =>
      rw [backward]
      split
      · exact taken_valid bound column _
      · exact induction (Nat.lt_of_succ_lt bound) _ _

theorem Valid.within_retreat (valid : cursor.Valid) (count : Nat) :
    cursor.Within (cursor.retreat count) := by
  unfold retreat
  split
  · exact ⟨rfl, valid⟩
  · cases ended : cursor.atEnd with
    | true =>
        simp only [if_true]
        cases empty : cursor.buffer.isEmpty with
        | true => exact ⟨rfl, valid⟩
        | false =>
            obtain ⟨line, found, last⟩ := Buffer.lastPosition_of_isEmpty empty
            have bound : cursor.buffer.size - 1 < cursor.buffer.size :=
              (Array.getElem?_eq_some_iff.mp found).1
            simp only [Bool.false_eq_true, if_false, last]
            exact ⟨rfl, backward_valid bound _ _⟩
    | false =>
        simp only [Bool.false_eq_true, if_false]
        exact ⟨rfl, backward_valid (lt_size_of_atEnd ended) _ _⟩

theorem Valid.within_toLineStart (valid : cursor.Valid) : cursor.Within cursor.toLineStart := by
  unfold toLineStart
  cases ended : cursor.atEnd with
  | true => exact ⟨rfl, valid⟩
  | false => exact ⟨rfl, lineStart_valid (Nat.le_of_lt (lt_size_of_atEnd ended))⟩

theorem remaining_lt_of_line_lt (same : after.buffer = before.buffer)
    (notEnd : before.atEnd = false) (later : before.position.line < after.position.line) :
    after.remaining < before.remaining := by
  obtain ⟨line, found⟩ := line_of_atEnd notEnd
  obtain ⟨skipped, apart⟩ := Nat.exists_eq_add_of_lt later
  have most := remainingFrom_le_charCount after.position.column
    (after.buffer.lines.toList.drop after.position.line)
  have fewer := charCount_drop_le
    (before.buffer.lines.toList.drop (before.position.line + 1)) skipped
  rw [same, apart] at most
  rw [List.drop_drop, Nat.add_right_comm] at fewer
  rw [remaining_of_line found, remaining, same, apart]
  omega

theorem Within.onward (within : before.Within after) (valid : before.Valid)
    (notBack : ¬after.position < before.position) : before.Onward after := by
  rcases Nat.lt_trichotomy before.position.line after.position.line with later | same | earlier
  · have notEnd : before.atEnd = false := by
      cases ended : before.atEnd with
      | false => rfl
      | true =>
          have line : before.position.line = before.buffer.size :=
            congrArg Position.line (valid.atEnd_eq ended)
          have ended' : after.atEnd = true := by
            rw [atEnd, within.buffer, decide_eq_true_iff]
            omega
          have line' : after.position.line = after.buffer.size :=
            congrArg Position.line (within.valid.atEnd_eq ended')
          rw [within.buffer] at line'
          omega
    exact ⟨within.buffer, within.valid, .inr (remaining_lt_of_line_lt within.buffer notEnd later)⟩
  · have column : before.position.column ≤ after.position.column := by
      apply Nat.le_of_not_lt
      intro back
      exact notBack (.inr ⟨same.symm, back⟩)
    have leads : before.LeadsTo after := ⟨within.buffer, same.symm, column, within.valid⟩
    exact leads.to_onward valid
  · exact absurd (.inl earlier) notBack

theorem Onward.not_back (onward : before.Onward after) (valid : before.Valid) :
    ¬after.position < before.position := by
  intro back
  have within : after.Within before := ⟨onward.buffer.symm, valid⟩
  have notBefore : ¬before.position < after.position := by
    rintro (line | ⟨line, column⟩)
    all_goals rcases back with line' | ⟨line', column'⟩ <;> omega
  rcases onward.onward with stays | less
  · rw [stays] at back
    exact Position.not_lt_self _ back
  · rcases (within.onward onward.valid notBefore).onward with stays | less'
    · rw [stays] at back
      exact Position.not_lt_self _ back
    · exact Nat.lt_asymm less less'

end Cursor

theorem Movement.within (movement : Movement) {cursor : Cursor} (valid : cursor.Valid) :
    cursor.Within (movement.apply cursor) := by
  cases movement with
  | advance count => exact (valid.onward_advance count).within
  | retreat count => exact valid.within_retreat count
  | lineStart => exact valid.within_toLineStart
  | lineEnd => exact valid.onward_toLineEnd.within
  | bufferEnd => exact valid.onward_toBufferEnd.within
  | nextLine => exact valid.onward_nextLine.within
  | «to» position => exact ⟨rfl, Cursor.near_valid cursor.buffer position⟩

end LineGrammar
