import LineGrammar.Proofs.Cursor.Remaining

/-!
What a cursor has ahead of it: the rest of its line and the lines that follow.
Passing over text moves it from ahead to behind, and at the end of a line the next
one is ahead.
-/

namespace LineGrammar.Cursor

/-- Whether a cursor stands behind some text of a line, with the rest of the line
ahead, and then further lines; or at the end of the buffer, with nothing ahead. -/
def Faces (cursor : Cursor) (behind : List Char) : List (List Char) → Prop
  | [] => cursor.atEnd = true
  | rest :: later => cursor.position.column = Text.byteLength behind ∧
      (cursor.buffer.lines.toList.drop cursor.position.line).map Line.text =
        (behind ++ rest) :: later

variable {cursor : Cursor} {behind rest taken : List Char} {later : List (List Char)}

theorem faces_lineStart (buffer : Buffer) (index : Nat) :
    (⟨buffer, ⟨index, 0⟩⟩ : Cursor).Faces []
      ((buffer.lines.toList.drop index).map Line.text) := by
  cases lines : buffer.lines.toList.drop index with
  | nil =>
      have past : buffer.lines.size ≤ index := by simpa using lines
      exact decide_eq_true past
  | cons line later => exact ⟨rfl, congrArg (List.map Line.text) lines⟩

namespace Faces

theorem line (faces : cursor.Faces behind (rest :: later)) :
    ∃ line, cursor.line? = some line ∧ line.text = behind ++ rest := by
  obtain ⟨_, texts⟩ := faces
  cases found : cursor.line? with
  | none =>
      rw [lines_of_none found] at texts
      cases texts
  | some line =>
      rw [lines_of_line found] at texts
      exact ⟨line, rfl, (List.cons.inj texts).1⟩

theorem before_end (faces : cursor.Faces behind (rest :: later)) : cursor.atEnd = false := by
  obtain ⟨line, found, _⟩ := faces.line
  rw [Bool.eq_false_iff]
  intro ended
  rw [atEnd_iff.mp ended] at found
  cases found

theorem text_eq (faces : cursor.Faces behind (rest :: later)) : cursor.text = behind ++ rest := by
  obtain ⟨line, found, text⟩ := faces.line
  rw [text_of_line found, text]

theorem rest_eq (faces : cursor.Faces behind (rest :: later)) : cursor.rest = rest := by
  rw [Cursor.rest, faces.text_eq, faces.1, Text.dropBytes_byteLength_append]

theorem valid (faces : cursor.Faces behind (rest :: later)) : cursor.Valid := by
  obtain ⟨line, found, text⟩ := faces.line
  rw [valid_iff_boundary found, text, faces.1]
  exact Text.at_boundary_append behind rest

theorem atLineEnd_eq (faces : cursor.Faces behind (rest :: later)) :
    cursor.atLineEnd = rest.isEmpty := by
  obtain ⟨line, found, text⟩ := faces.line
  rw [atLineEnd, found]
  simp only [Line.length, text, Text.byteLength_append, faces.1]
  cases rest with
  | nil => simp
  | cons char more =>
      have wide := char.utf8Size_pos
      rw [Text.byteLength_cons]
      simp only [List.isEmpty_cons, decide_eq_false_iff_not]
      omega

theorem skipBytes (faces : cursor.Faces behind ((taken ++ rest) :: later)) :
    (cursor.skipBytes (Text.byteLength taken)).Faces (behind ++ taken) (rest :: later) := by
  rw [faces.valid.skipBytes_eq faces.rest_eq]
  constructor
  · rw [Text.byteLength_append]
    exact congrArg (· + Text.byteLength taken) faces.1
  · rw [List.append_assoc]
    exact faces.2

theorem nextLine (faces : cursor.Faces behind (rest :: later)) :
    cursor.nextLine.Faces [] later := by
  obtain ⟨line, found, _⟩ := faces.line
  have place := nextLine_position faces.before_end
  have texts := faces.2
  rw [lines_of_line found] at texts
  have start := faces_lineStart cursor.buffer (cursor.position.line + 1)
  rw [(List.cons.inj texts).2, ← place] at start
  exact start

end Faces

end LineGrammar.Cursor
