import LineGrammar.Proofs.Buffer.Bare
import LineGrammar.Proofs.Cursor.Remaining

/-!
Lines without line feeds. The lines of a text hold none, since a text is cut after
each of them, and neither do the lines made of raw lines without. A line is never
longer than the raw line it was made of.
-/

namespace LineGrammar

/-- A line feed can only stand at the end of a raw line; what is left without the
ending then holds none. -/
theorem splitEnding_plain {raw : List Char} (single : '\n' ∉ raw.dropLast) :
    '\n' ∉ (splitEnding raw).1 ∧ (splitEnding raw).1.length ≤ raw.length := by
  -- Endings are read from the back.
  obtain ⟨back, rfl⟩ : ∃ back, raw = back.reverse := ⟨raw.reverse, by simp⟩
  rw [List.dropLast_reverse, List.mem_reverse] at single
  unfold splitEnding
  rw [List.reverse_reverse]
  split
  · constructor
    · intro member
      exact single (List.mem_cons_of_mem _ (List.mem_reverse.mp member))
    · simp
  · constructor
    · intro member
      exact single (List.mem_reverse.mp member)
    · simp
  · constructor
    · intro member
      exact single (List.mem_reverse.mp member)
    · simp
  · rename_i noFeed _
    constructor
    · intro member
      cases back with
      | nil => cases member
      | cons last rest =>
          rcases List.mem_cons.mp (List.mem_reverse.mp member) with rfl | earlier
          · exact noFeed rest rfl
          · exact single earlier
    · exact Nat.le_refl _

namespace Buffer

/-- Whether no line holds a line feed. -/
def Plain (buffer : Buffer) : Prop := ∀ line ∈ buffer.lines, '\n' ∉ line.text

theorem splitLines_single (text : List Char) : ∀ raw ∈ splitLines text, '\n' ∉ raw.dropLast := by
  induction text with
  | nil => simp [splitLines]
  | cons char rest induction =>
      unfold splitLines
      split
      · intro raw member
        rcases List.mem_cons.mp member with rfl | later
        · simp
        · exact induction raw later
      · rename_i other
        split
        · simp
        · rename_i first later cut
          rw [cut] at induction
          intro raw member
          rcases List.mem_cons.mp member with rfl | isLater
          · cases first with
            | nil => simp
            | cons next first =>
                rw [List.dropLast_cons_cons, List.mem_cons, not_or]
                exact ⟨fun same => other same.symm, induction _ (by simp)⟩
          · exact induction raw (List.mem_cons_of_mem first isLater)

theorem texts_linesFrom (index offset : Nat) (raws : List (List Char)) :
    (linesFrom false index offset raws).map Line.text =
      raws.map fun raw => (splitEnding raw).1 := by
  induction raws generalizing index offset with
  | nil => rfl
  | cons raw later induction =>
      simp only [linesFrom, List.map_cons, induction, Bool.false_eq_true, if_false]

theorem texts_ofLines {lines : List String} (unbroken : ∀ line ∈ lines, Text.Unbroken line.toList) :
    (ofLines lines).lines.toList.map Line.text = lines.map String.toList := by
  change (linesFrom false 0 0 (lines.map String.toList)).map Line.text = _
  rw [texts_linesFrom, List.map_map]
  apply List.map_congr_left
  intro line member
  exact congrArg Prod.fst (unbroken line member).splitEnding_eq

theorem plain_linesFrom {raws : List (List Char)} (single : ∀ raw ∈ raws, '\n' ∉ raw.dropLast) :
    Plain ⟨(linesFrom false 0 0 raws).toArray, false⟩ := by
  intro line member
  have text : line.text ∈ raws.map fun raw => (splitEnding raw).1 := by
    rw [← texts_linesFrom 0 0 raws]
    exact List.mem_map_of_mem (List.mem_toArray.mp member)
  obtain ⟨raw, given, same⟩ := List.mem_map.mp text
  rw [← same]
  exact (splitEnding_plain (single raw given)).1

theorem plain_ofText (text : String) : (ofText text).Plain :=
  plain_linesFrom (splitLines_single text.toList)

theorem single_of_plain {lines : List String} (plain : ∀ line ∈ lines, '\n' ∉ line.toList) :
    ∀ raw ∈ lines.map String.toList, '\n' ∉ raw.dropLast := by
  intro raw member
  obtain ⟨line, given, rfl⟩ := List.mem_map.mp member
  intro inside
  exact plain line given (List.dropLast_subset _ inside)

theorem plain_ofLines {lines : List String} (plain : ∀ line ∈ lines, '\n' ∉ line.toList) :
    (ofLines lines).Plain :=
  plain_linesFrom (single_of_plain plain)

def rawCount : List String → Nat
  | [] => 0
  | line :: later => line.length + 1 + rawCount later

theorem rawCount_append (lines more : List String) :
    rawCount (lines ++ more) = rawCount lines + rawCount more := by
  induction lines with
  | nil => simp [rawCount]
  | cons line later induction =>
      simp only [List.cons_append, rawCount, induction]
      omega

theorem charCount_linesFrom_le (index offset : Nat) {lines : List String}
    (plain : ∀ line ∈ lines, '\n' ∉ line.toList) :
    Line.charCount (linesFrom false index offset (lines.map String.toList)) ≤ rawCount lines := by
  induction lines generalizing index offset with
  | nil => exact Nat.le_refl 0
  | cons line later induction =>
      have single := single_of_plain plain line.toList (by simp)
      have shorter := (splitEnding_plain single).2
      have rest := induction (index + 1) (offset + Text.byteLength line.toList)
        fun other member => plain other (by simp [member])
      rw [String.length_toList] at shorter
      change (splitEnding line.toList).1.length + 1 + Line.charCount (linesFrom false (index + 1)
        (offset + Text.byteLength line.toList) (later.map String.toList)) ≤ _
      rw [rawCount]
      omega

theorem charCount_ofLines_le {lines : List String} (plain : ∀ line ∈ lines, '\n' ∉ line.toList) :
    (ofLines lines).charCount ≤ rawCount lines :=
  charCount_linesFrom_le 0 0 plain

end Buffer

theorem Cursor.plain_rest {cursor : Cursor} (plain : cursor.buffer.Plain) :
    '\n' ∉ cursor.rest := by
  cases found : cursor.line? with
  | none =>
      rw [rest, text_of_none found]
      simp [Text.dropBytes]
  | some line =>
      have member : line ∈ cursor.buffer.lines := Array.mem_of_getElem? found
      have parts := Text.takeBytes_append_dropBytes cursor.position.column line.text
      intro inside
      rw [rest, text_of_line found] at inside
      apply plain line member
      rw [← parts]
      exact List.mem_append_right _ inside

end LineGrammar
