import LineGrammar.Cursor
import LineGrammar.Proofs.Buffer.Bare

/-!
Cursors of bare buffers. Whatever is read at a cursor is read at the same place
of the bare buffer, and every movement leads there to the same place.
-/

namespace LineGrammar

namespace Cursor

def bare (cursor : Cursor) : Cursor := { cursor with buffer := cursor.buffer.bare }

variable (cursor : Cursor)

@[simp]
theorem bare_buffer : cursor.bare.buffer = cursor.buffer.bare := rfl

@[simp]
theorem bare_position : cursor.bare.position = cursor.position := rfl

@[simp]
theorem bare_line? : cursor.bare.line? = cursor.line?.map Line.bare :=
  cursor.buffer.bare_line? cursor.position.line

@[simp]
theorem bare_text : cursor.bare.text = cursor.text := cursor.buffer.bare_textAt cursor.position.line

@[simp]
theorem bare_rest : cursor.bare.rest = cursor.rest := by simp [rest]

@[simp]
theorem bare_atEnd : cursor.bare.atEnd = cursor.atEnd := by simp [atEnd]

@[simp]
theorem bare_atLineEnd : cursor.bare.atLineEnd = cursor.atLineEnd := by
  unfold atLineEnd
  rw [bare_line?]
  cases cursor.line? with
  | none => rfl
  | some line => rfl

@[simp]
theorem bare_excerpt (width : Nat) : cursor.bare.excerpt width = cursor.excerpt width :=
  cursor.buffer.bare_excerptAt cursor.position width

@[simp]
theorem bare_textFrom (start : Position) : cursor.bare.textFrom start = cursor.textFrom start :=
  cursor.buffer.bare_between start cursor.position

@[simp]
theorem bare_matchRegex (regex : Regex) : cursor.bare.matchRegex regex = cursor.matchRegex regex := by
  unfold matchRegex
  rw [bare_line?]
  cases cursor.line? with
  | none => rfl
  | some line => rfl

theorem settle_bare (buffer : Buffer) (position : Position) :
    settle buffer.bare position = settle buffer position := by
  unfold settle bufferEnd
  rw [Buffer.bare_line?, Buffer.bare_size]
  cases buffer.line? position.line with
  | none => rfl
  | some line => rfl

@[simp]
theorem bare_moveTo (position : Position) :
    cursor.bare.moveTo position = (cursor.moveTo position).bare := by
  simp [moveTo, near, bare, settle_bare]

@[simp]
theorem bare_skipBytes (count : Nat) :
    cursor.bare.skipBytes count = (cursor.skipBytes count).bare := by
  unfold skipBytes
  rw [bare_line?]
  cases cursor.line? with
  | none => rfl
  | some line => rfl

theorem forward_bare (count index column : Nat) (lines : List Line) :
    forward count index column (lines.map Line.bare) = forward count index column lines := by
  induction lines generalizing count index column with
  | nil => rfl
  | cons line later induction => simp only [List.map_cons, forward, Line.bare_text, induction]

theorem bare_advance (count : Nat) : cursor.bare.advance count = (cursor.advance count).bare := by
  simp [advance, bare, Buffer.bare, ← List.map_drop, forward_bare]

theorem backward_bare (buffer : Buffer) (count index column : Nat) :
    backward buffer.bare count index column = backward buffer count index column := by
  induction index generalizing count column with
  | zero =>
      unfold backward
      simp only [Buffer.bare_textAt]
  | succ index induction =>
      unfold backward
      simp only [Buffer.bare_textAt, induction]

theorem bare_retreat (count : Nat) : cursor.bare.retreat count = (cursor.retreat count).bare := by
  unfold retreat
  simp only [bare_atEnd, bare_buffer, Buffer.bare_isEmpty, Buffer.bare_lastPosition, backward_bare,
    bare_position]
  split
  · rfl
  · split
    · split
      · rfl
      · rfl
    · rfl

theorem bare_nextLine : cursor.bare.nextLine = cursor.nextLine.bare := by
  simp [nextLine, bare, bufferEnd]

theorem bare_toLineStart : cursor.bare.toLineStart = cursor.toLineStart.bare := by
  unfold toLineStart
  rw [bare_atEnd]
  split
  · rfl
  · rfl

theorem bare_toLineEnd : cursor.bare.toLineEnd = cursor.toLineEnd.bare := by
  unfold toLineEnd
  rw [bare_line?]
  cases cursor.line? with
  | none => rfl
  | some line => rfl

theorem bare_toBufferEnd : cursor.bare.toBufferEnd = cursor.toBufferEnd.bare := by
  simp [toBufferEnd, bare, bufferEnd]

end Cursor

theorem Movement.apply_bare (movement : Movement) (cursor : Cursor) :
    movement.apply cursor.bare = (movement.apply cursor).bare := by
  cases movement with
  | advance count => exact cursor.bare_advance count
  | retreat count => exact cursor.bare_retreat count
  | lineStart => exact cursor.bare_toLineStart
  | lineEnd => exact cursor.bare_toLineEnd
  | bufferEnd => exact cursor.bare_toBufferEnd
  | nextLine => exact cursor.bare_nextLine
  | «to» position => exact cursor.bare_moveTo position

end LineGrammar
