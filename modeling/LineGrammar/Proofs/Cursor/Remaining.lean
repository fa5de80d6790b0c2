import LineGrammar.Proofs.Cursor.Place

/-!
How much of a buffer is left from a cursor on: the characters after it, each
line break counting as one. Every movement forward either stays where it is or
leaves less; advancing by a number of characters leaves exactly so many less,
down to none at the end of the buffer.
-/

namespace LineGrammar

def Line.charCount (lines : List Line) : Nat :=
  lines.foldr (fun line count => line.text.length + 1 + count) 0

namespace Cursor

def remainingFrom (column : Nat) : List Line → Nat
  | [] => 0
  | line :: later => (Text.dropBytes column line.text).length + 1 + Line.charCount later

/-- The characters from the cursor on, each line break counting as one. -/
def remaining (cursor : Cursor) : Nat :=
  remainingFrom cursor.position.column (cursor.buffer.lines.toList.drop cursor.position.line)

theorem remainingFrom_zero (lines : List Line) : remainingFrom 0 lines = Line.charCount lines := by
  cases lines with
  | nil => rfl
  | cons line later => simp [remainingFrom, Line.charCount]

variable {cursor before after : Cursor}

theorem lines_of_line {line : Line} (found : cursor.line? = some line) :
    cursor.buffer.lines.toList.drop cursor.position.line =
      line :: cursor.buffer.lines.toList.drop (cursor.position.line + 1) := by
  have lookup : cursor.buffer.lines[cursor.position.line]? = some line := found
  rcases Array.getElem?_eq_some_iff.mp lookup with ⟨bound, same⟩
  rw [List.drop_eq_getElem_cons (by simpa using bound)]
  simp [same]

theorem lines_of_none (none : cursor.line? = none) :
    cursor.buffer.lines.toList.drop cursor.position.line = [] := by
  have lookup : cursor.buffer.lines[cursor.position.line]? = .none := none
  simpa using lookup

theorem atEnd_iff : cursor.atEnd = true ↔ cursor.line? = none := by
  rw [atEnd, decide_eq_true_iff]
  simp [line?, Buffer.line?, Buffer.size]

theorem line_of_atEnd (before : cursor.atEnd = false) : ∃ line, cursor.line? = some line := by
  cases found : cursor.line? with
  | some line => exact ⟨line, rfl⟩
  | none =>
      rw [atEnd_iff.mpr found] at before
      cases before

theorem remaining_of_line {line : Line} (found : cursor.line? = some line) :
    cursor.remaining = cursor.rest.length + 1 +
      Line.charCount (cursor.buffer.lines.toList.drop (cursor.position.line + 1)) := by
  rw [remaining, lines_of_line found, remainingFrom, rest, text_of_line found]

theorem remaining_of_none (none : cursor.line? = none) : cursor.remaining = 0 := by
  rw [remaining, lines_of_none none, remainingFrom]

theorem remaining_pos (before : cursor.atEnd = false) : 0 < cursor.remaining := by
  rcases line_of_atEnd before with ⟨line, found⟩
  rw [remaining_of_line found]
  omega

theorem charCount_drop_le (lines : List Line) (index : Nat) :
    Line.charCount (lines.drop index) ≤ Line.charCount lines := by
  induction lines generalizing index with
  | nil => simp [Line.charCount]
  | cons line later induction =>
      cases index with
      | zero => simp
      | succ index =>
          have shorter := induction index
          simp only [List.drop_succ_cons, Line.charCount, List.foldr_cons] at shorter ⊢
          omega

theorem remainingFrom_le_charCount (column : Nat) (lines : List Line) :
    remainingFrom column lines ≤ Line.charCount lines := by
  cases lines with
  | nil => exact Nat.le_refl 0
  | cons line later =>
      have parts := congrArg List.length (Text.takeBytes_append_dropBytes column line.text)
      rw [List.length_append] at parts
      simp only [remainingFrom, Line.charCount, List.foldr_cons]
      omega

theorem remaining_le_charCount (cursor : Cursor) : cursor.remaining ≤ cursor.buffer.charCount := by
  have whole : cursor.buffer.charCount = Line.charCount cursor.buffer.lines.toList := rfl
  rw [whole, remaining]
  exact Nat.le_trans (remainingFrom_le_charCount _ _) (charCount_drop_le _ _)

/-- Whether a valid cursor stands further on in the buffer, or at the same
place. -/
structure Onward (before after : Cursor) : Prop where
  buffer : after.buffer = before.buffer
  valid : after.Valid
  onward : after.position = before.position ∨ after.remaining < before.remaining

theorem Valid.onward_self (valid : cursor.Valid) : cursor.Onward cursor := ⟨rfl, valid, .inl rfl⟩

theorem Onward.trans {first second third : Cursor} (early : first.Onward second)
    (late : second.Onward third) : first.Onward third := by
  refine ⟨late.buffer.trans early.buffer, late.valid, ?_⟩
  rcases early.onward with stays | moves <;> rcases late.onward with stays' | moves'
  · exact .inl (stays'.trans stays)
  · have same : second.remaining = first.remaining := by
      simp only [remaining, early.buffer, stays]
    exact .inr (same ▸ moves')
  · have same : third.remaining = second.remaining := by
      simp only [remaining, late.buffer, stays']
    exact .inr (same ▸ moves)
  · exact .inr (Nat.lt_trans moves' moves)

theorem Onward.remaining_le (onward : before.Onward after) :
    after.remaining ≤ before.remaining := by
  rcases onward.onward with stays | moves
  · exact Nat.le_of_eq (by simp only [remaining, onward.buffer, stays])
  · exact Nat.le_of_lt moves

theorem LeadsTo.to_onward (leads : before.LeadsTo after) (valid : before.Valid) :
    before.Onward after := by
  refine ⟨leads.buffer, leads.valid, ?_⟩
  rcases Nat.eq_or_lt_of_le leads.column with same | further
  · refine .inl ?_
    have line := leads.line
    cases place : after.position
    cases place' : before.position
    simp_all
  · refine .inr ?_
    have boundary := leads.valid.boundary
    rw [leads.text] at boundary
    have fewer := valid.boundary.length_dropBytes_lt boundary further
    cases found : before.line? with
    | none =>
        have atZero := congrArg Position.column (valid.eq_bufferEnd found)
        have most := boundary.le_byteLength
        rw [text_of_none found, Text.byteLength_nil] at most
        omega
    | some line =>
        have found' : after.line? = some line := by
          rw [line?, leads.buffer, leads.line]
          exact found
        rw [remaining_of_line found, remaining_of_line found', rest, rest, leads.text, leads.buffer,
          leads.line]
        omega

theorem remaining_lineStart (buffer : Buffer) (index : Nat) :
    (⟨buffer, ⟨index, 0⟩⟩ : Cursor).remaining =
      Line.charCount (buffer.lines.toList.drop index) := remainingFrom_zero _

/-- Where `forward` leads: to a place where a cursor may stand, with exactly so
many characters less ahead. -/
theorem forward_spec {buffer : Buffer} (lines : List Line) (count index column : Nat)
    (same : buffer.lines.toList.drop index = lines)
    (valid : (⟨buffer, ⟨index, column⟩⟩ : Cursor).Valid) :
    (⟨buffer, forward count index column lines⟩ : Cursor).Valid ∧
      (⟨buffer, forward count index column lines⟩ : Cursor).remaining =
        (⟨buffer, ⟨index, column⟩⟩ : Cursor).remaining - count := by
  induction lines generalizing count index column with
  | nil =>
      have none : (⟨buffer, ⟨index, column⟩⟩ : Cursor).line? = .none := by
        simpa [line?, Buffer.line?] using same
      have atEnd : (⟨index, column⟩ : Position) = ⟨buffer.size, 0⟩ := valid.eq_bufferEnd none
      have atZero : column = 0 := congrArg Position.column atEnd
      subst atZero
      rw [forward]
      refine ⟨valid, ?_⟩
      rw [remaining_of_none none]
      omega
  | cons line later induction =>
      have found : (⟨buffer, ⟨index, column⟩⟩ : Cursor).line? = some line := by
        have first := congrArg List.head? same
        simpa [line?, Buffer.line?] using first
      have follows : buffer.lines.toList.drop (index + 1) = later := by
        have tail := congrArg List.tail same
        simpa using tail
      have left : ∀ column', (⟨buffer, ⟨index, column'⟩⟩ : Cursor).remaining =
          (Text.dropBytes column' line.text).length + 1 + Line.charCount later := by
        intro column'
        rw [remaining, same, remainingFrom]
      have boundary := valid.boundary
      rw [text_of_line found] at boundary
      rw [left, forward]
      split
      · have parts := (List.take_append_drop count (Text.dropBytes column line.text)).symm
        have ahead := boundary.dropBytes_add parts
        refine ⟨valid_of_boundary found (boundary.add parts), ?_⟩
        rw [left, ahead, List.length_drop]
        omega
      · have bound : index < buffer.size := (Array.getElem?_eq_some_iff.mp found).1
        -- The line break counts as one character.
        rcases induction (count - (Text.dropBytes column line.text).length - 1) (index + 1) 0
          follows (lineStart_valid bound) with ⟨valid', left'⟩
        refine ⟨valid', ?_⟩
        rw [left', remaining_lineStart, follows]
        omega

theorem Valid.remaining_advance (valid : cursor.Valid) (count : Nat) :
    (cursor.advance count).remaining = cursor.remaining - count :=
  (forward_spec _ count cursor.position.line cursor.position.column rfl valid).2

theorem advance_zero {line : Line} (found : cursor.line? = some line) :
    cursor.advance 0 = cursor := by
  rw [advance, lines_of_line found, forward, if_pos (Nat.zero_le _)]
  rfl

theorem Valid.advance_of_none (valid : cursor.Valid) (none : cursor.line? = none) (count : Nat) :
    cursor.advance count = cursor := by
  have atZero : cursor.position.column = 0 := congrArg Position.column (valid.eq_bufferEnd none)
  rw [advance, lines_of_none none, forward, ← atZero]

theorem Valid.onward_advance (valid : cursor.Valid) (count : Nat) :
    cursor.Onward (cursor.advance count) := by
  have valid' : (cursor.advance count).Valid :=
    (forward_spec _ count cursor.position.line cursor.position.column rfl valid).1
  refine ⟨rfl, valid', ?_⟩
  cases found : cursor.line? with
  | none => exact .inl (congrArg position (valid.advance_of_none found count))
  | some line =>
      rcases Nat.eq_zero_or_pos count with rfl | positive
      · exact .inl (congrArg position (advance_zero found))
      · have some : 0 < cursor.remaining := by
          rw [remaining_of_line found]
          omega
        have less := valid.remaining_advance count
        exact .inr (by omega)

theorem Valid.advance_one {char : Char} {later : List Char} (valid : cursor.Valid)
    (ahead : cursor.rest = char :: later) :
    cursor.LeadsTo (cursor.advance 1) ∧
      (cursor.advance 1).position =
        ⟨cursor.position.line, cursor.position.column + char.utf8Size⟩ := by
  cases found : cursor.line? with
  | none =>
      rw [rest, text_of_none found] at ahead
      cases ahead
  | some line =>
      have split : cursor.rest = [char] ++ later := ahead
      have leads := valid.leadsTo_skipBytes split
      have skipped := valid.skipBytes_eq split
      have same : cursor.advance 1 = cursor.skipBytes (Text.byteLength [char]) := by
        rw [rest, text_of_line found] at ahead
        rw [skipped, advance, lines_of_line found, forward, ahead, if_pos (by simp)]
        rfl
      rw [same]
      refine ⟨leads, ?_⟩
      rw [skipped]
      rfl

theorem Valid.char_ahead (valid : cursor.Valid) (before : cursor.atEnd = false)
    (inside : cursor.atLineEnd = false) : ∃ char later, cursor.rest = char :: later := by
  obtain ⟨line, found⟩ := line_of_atEnd before
  cases ahead : cursor.rest with
  | cons char later => exact ⟨char, later, rfl⟩
  | nil =>
      have parts := valid.boundary.byteLength_dropBytes
      have short : ¬line.length ≤ cursor.position.column := by
        simpa [atLineEnd, found] using inside
      rw [show Text.dropBytes cursor.position.column cursor.text = [] from ahead,
        text_of_line found, Text.byteLength_nil] at parts
      unfold Line.length at short
      omega

theorem Valid.column_of_atLineEnd (valid : cursor.Valid) (ended : cursor.atLineEnd = true) :
    cursor.position.column = Text.byteLength cursor.text ∧ cursor.atEnd = false := by
  unfold atLineEnd at ended
  split at ended
  · rename_i line found
    have most := valid.boundary.le_byteLength
    have least : line.length ≤ cursor.position.column := by simpa using ended
    rw [text_of_line found] at most ⊢
    constructor
    · exact Nat.le_antisymm most least
    · cases atEnd : cursor.atEnd with
      | false => rfl
      | true =>
          rw [atEnd_iff.mp atEnd] at found
          cases found
  · cases ended

theorem lt_size_of_atEnd (before : cursor.atEnd = false) :
    cursor.position.line < cursor.buffer.size := by
  rw [atEnd, decide_eq_false_iff_not] at before
  omega

theorem nextLine_position (before : cursor.atEnd = false) :
    cursor.nextLine.position = ⟨cursor.position.line + 1, 0⟩ := by
  have bound := lt_size_of_atEnd before
  rw [nextLine]
  split
  · rfl
  · rw [bufferEnd, show cursor.buffer.size = cursor.position.line + 1 by omega]

theorem Valid.atEnd_eq (valid : cursor.Valid) (ended : cursor.atEnd = true) :
    cursor.position = Cursor.bufferEnd cursor.buffer :=
  valid.eq_bufferEnd (atEnd_iff.mp ended)

theorem Valid.onward_nextLine (valid : cursor.Valid) : cursor.Onward cursor.nextLine := by
  cases ended : cursor.atEnd with
  | true =>
      have atEnd := valid.atEnd_eq ended
      have line : cursor.position.line = cursor.buffer.size := congrArg Position.line atEnd
      have same : cursor.nextLine = cursor := by
        rw [nextLine, if_neg (by omega), ← atEnd]
      rw [same]
      exact valid.onward_self
  | false =>
      rcases line_of_atEnd ended with ⟨line, found⟩
      have next : cursor.nextLine = ⟨cursor.buffer, ⟨cursor.position.line + 1, 0⟩⟩ := by
        rw [← nextLine_position ended]
        rfl
      rw [next]
      refine ⟨rfl, lineStart_valid (lt_size_of_atEnd ended), .inr ?_⟩
      rw [remaining_lineStart, remaining_of_line found]
      omega

theorem Valid.onward_toLineEnd (valid : cursor.Valid) : cursor.Onward cursor.toLineEnd := by
  cases found : cursor.line? with
  | none =>
      simp only [toLineEnd, found]
      exact valid.onward_self
  | some line =>
      simp only [toLineEnd, found]
      have most := valid.boundary.le_byteLength
      rw [text_of_line found] at most
      have leads : cursor.LeadsTo ⟨cursor.buffer, ⟨cursor.position.line, line.length⟩⟩ :=
        ⟨rfl, rfl, most, valid_of_boundary found (Text.at_boundary_byteLength line.text)⟩
      exact leads.to_onward valid

theorem Valid.onward_toBufferEnd (valid : cursor.Valid) : cursor.Onward cursor.toBufferEnd := by
  refine ⟨rfl, lineStart_valid (Nat.le_refl _), ?_⟩
  cases ended : cursor.atEnd with
  | true => exact .inl (valid.atEnd_eq ended).symm
  | false =>
      have none : cursor.toBufferEnd.remaining = 0 := by
        rw [toBufferEnd, bufferEnd, remaining_lineStart, List.drop_eq_nil_of_le (by simp [Buffer.size])]
        rfl
      rw [none]
      exact .inr (remaining_pos ended)

end Cursor

def Movement.Forward : Movement → Prop
  | .advance _ => True
  | .lineEnd => True
  | .bufferEnd => True
  | .nextLine => True
  | .retreat _ => False
  | .lineStart => False
  | .to _ => False

theorem Movement.Forward.onward {movement : Movement} (forward : movement.Forward) {cursor : Cursor}
    (valid : cursor.Valid) : cursor.Onward (movement.apply cursor) := by
  cases movement with
  | advance count => exact valid.onward_advance count
  | lineEnd => exact valid.onward_toLineEnd
  | bufferEnd => exact valid.onward_toBufferEnd
  | nextLine => exact valid.onward_nextLine
  | retreat count => exact forward.elim
  | lineStart => exact forward.elim
  | «to» position => exact forward.elim

end LineGrammar
