import LineGrammar.Cursor
import LineGrammar.Proofs.Regex.Span

/-!
Places at which a cursor may stand, and the way forward within a line. A cursor
is valid if settling its position changes nothing; bringing any cursor of the
buffer back to the position of a valid one gives the valid one again. Between
two valid places of a line lies the piece of the line between their columns.
-/

namespace LineGrammar

namespace Position

theorem le_rfl {position : Position} : position ≤ position := .inr ⟨rfl, Nat.le_refl _⟩

theorem le_trans {first second third : Position} (earlier : first ≤ second)
    (later : second ≤ third) : first ≤ third := by
  rcases earlier with line | ⟨line, column⟩ <;> rcases later with line' | ⟨line', column'⟩
  · exact .inl (Nat.lt_trans line line')
  · exact .inl (line' ▸ line)
  · exact .inl (line ▸ line')
  · exact .inr ⟨line.trans line', Nat.le_trans column column'⟩

theorem le_antisymm {first second : Position} (earlier : first ≤ second)
    (later : second ≤ first) : first = second := by
  obtain ⟨line, column⟩ := first
  obtain ⟨line', column'⟩ := second
  rcases earlier with before | ⟨same, before⟩ <;> rcases later with after | ⟨same', after⟩
  all_goals
    simp only at *
    try omega
  subst same
  rw [Nat.le_antisymm before after]

theorem not_lt_self (position : Position) : ¬position < position := by
  rintro (line | ⟨_, column⟩)
  · exact Nat.lt_irrefl _ line
  · exact Nat.lt_irrefl _ column

theorem le_of_not_lt {first second : Position} (notBack : ¬second < first) : first ≤ second := by
  rcases Nat.lt_trichotomy first.line second.line with before | same | behind
  · exact .inl before
  · refine .inr ⟨same, Nat.le_of_not_lt ?_⟩
    intro back
    exact notBack (.inr ⟨same.symm, back⟩)
  · exact absurd (.inl behind) notBack

theorem not_lt_of_le {first second : Position} (ordered : first ≤ second) : ¬second < first := by
  rintro (line | ⟨line, column⟩)
  all_goals rcases ordered with line' | ⟨line', column'⟩ <;> omega

theorem le_of_lt {first second : Position} (before : first < second) : first ≤ second := by
  rcases before with line | ⟨line, column⟩
  · exact .inl line
  · exact .inr ⟨line, Nat.le_of_lt column⟩

theorem lt_of_le_of_ne {first second : Position} (ordered : first ≤ second)
    (different : first ≠ second) : first < second := by
  by_cases before : first < second
  · exact before
  · exact absurd (le_antisymm ordered (le_of_not_lt before)) different

theorem lt_of_lt_of_le {first second third : Position} (before : first < second)
    (ordered : second ≤ third) : first < third := by
  apply lt_of_le_of_ne (le_trans (le_of_lt before) ordered)
  rintro rfl
  exact not_lt_of_le ordered before

end Position

namespace Cursor

/-- Whether a cursor stands where a cursor may stand. -/
def Valid (cursor : Cursor) : Prop := settle cursor.buffer cursor.position = cursor.position

instance (cursor : Cursor) : Decidable cursor.Valid := inferInstanceAs (Decidable (_ = _))

theorem valid_iff_boundary {cursor : Cursor} {line : Line} (found : cursor.line? = some line) :
    cursor.Valid ↔ Text.AtBoundary line.text cursor.position.column := by
  have lookup : cursor.buffer.line? cursor.position.line = some line := found
  simp only [Valid, settle, lookup, Text.AtBoundary]
  constructor
  · intro settled
    exact congrArg Position.column settled
  · intro boundary
    rw [boundary]

theorem valid_of_boundary {buffer : Buffer} {index column : Nat} {line : Line}
    (found : buffer.line? index = some line) (boundary : Text.AtBoundary line.text column) :
    (⟨buffer, ⟨index, column⟩⟩ : Cursor).Valid := by
  have lookup : (⟨buffer, ⟨index, column⟩⟩ : Cursor).line? = some line := found
  exact (valid_iff_boundary lookup).mpr boundary

theorem Valid.eq_bufferEnd {cursor : Cursor} (valid : cursor.Valid) (none : cursor.line? = none) :
    cursor.position = bufferEnd cursor.buffer := by
  have lookup : cursor.buffer.line? cursor.position.line = .none := none
  have settled : settle cursor.buffer cursor.position = cursor.position := valid
  rw [settle, lookup] at settled
  exact settled.symm

theorem text_of_line {cursor : Cursor} {line : Line} (found : cursor.line? = some line) :
    cursor.text = line.text := by
  have lookup : cursor.buffer.line? cursor.position.line = some line := found
  simp only [text, Buffer.textAt, lookup]

theorem text_of_none {cursor : Cursor} (none : cursor.line? = none) : cursor.text = [] := by
  have lookup : cursor.buffer.line? cursor.position.line = .none := none
  simp only [text, Buffer.textAt, lookup]

/-- A valid cursor stands at a boundary of its line; at the end of the buffer
that is the empty line after the last one. -/
theorem Valid.boundary {cursor : Cursor} (valid : cursor.Valid) :
    Text.AtBoundary cursor.text cursor.position.column := by
  cases found : cursor.line? with
  | some line =>
      rw [text_of_line found]
      exact (valid_iff_boundary found).mp valid
  | none =>
      rw [text_of_none found, valid.eq_bufferEnd found]
      exact Text.at_boundary_zero []

theorem settle_settle (buffer : Buffer) (position : Position) :
    settle buffer (settle buffer position) = settle buffer position := by
  cases found : buffer.line? position.line with
  | some line =>
      have boundary := Text.at_boundary_floorBoundary line.text position.column
      simp only [settle, found]
      rw [show Text.floorBoundary line.text _ = _ from boundary]
  | none =>
      have outside : buffer.line? buffer.size = none := by simp [Buffer.line?, Buffer.size]
      simp only [settle, found, bufferEnd, outside]

theorem near_valid (buffer : Buffer) (position : Position) : (near buffer position).Valid :=
  settle_settle buffer position

theorem Valid.moveTo_eq {cursor other : Cursor} (valid : cursor.Valid)
    (buffer : other.buffer = cursor.buffer) : other.moveTo cursor.position = cursor := by
  have settled : settle cursor.buffer cursor.position = cursor.position := valid
  unfold moveTo near
  rw [buffer, settled]

theorem lineStart_valid {buffer : Buffer} {index : Nat} (bound : index ≤ buffer.size) :
    (⟨buffer, ⟨index, 0⟩⟩ : Cursor).Valid := by
  cases found : buffer.line? index with
  | some line => exact valid_of_boundary found (Text.at_boundary_zero line.text)
  | none =>
      have past : buffer.size ≤ index := by simpa [Buffer.line?, Buffer.size] using found
      have last : buffer.size = index := Nat.le_antisymm past bound
      simp only [Valid, settle, found, bufferEnd, last]

theorem origin_valid (buffer : Buffer) : (⟨buffer, .origin⟩ : Cursor).Valid :=
  lineStart_valid (Nat.zero_le _)

/-- Whether a valid cursor stands further on in the same line, or at the same
place. -/
structure LeadsTo (before after : Cursor) : Prop where
  buffer : after.buffer = before.buffer
  line : after.position.line = before.position.line
  column : before.position.column ≤ after.position.column
  valid : after.Valid

theorem Valid.leadsTo_self {cursor : Cursor} (valid : cursor.Valid) : cursor.LeadsTo cursor :=
  ⟨rfl, rfl, Nat.le_refl _, valid⟩

theorem LeadsTo.trans {first second third : Cursor} (early : first.LeadsTo second)
    (late : second.LeadsTo third) : first.LeadsTo third :=
  ⟨late.buffer.trans early.buffer, late.line.trans early.line,
    Nat.le_trans early.column late.column, late.valid⟩

theorem LeadsTo.position_le {before after : Cursor} (leads : before.LeadsTo after) :
    before.position ≤ after.position := .inr ⟨leads.line.symm, leads.column⟩

theorem LeadsTo.text {before after : Cursor} (leads : before.LeadsTo after) :
    after.text = before.text := by
  unfold Cursor.text
  rw [leads.buffer, leads.line]

theorem Valid.skipBytes_eq {cursor : Cursor} {consumed later : List Char} (valid : cursor.Valid)
    (split : cursor.rest = consumed ++ later) :
    cursor.skipBytes (Text.byteLength consumed) =
      { cursor with
        position :=
          ⟨cursor.position.line, cursor.position.column + Text.byteLength consumed⟩ } := by
  cases found : cursor.line? with
  | some line =>
      have boundary := valid.boundary
      have fits := (boundary.add split).le_byteLength
      rw [text_of_line found] at fits
      simp only [skipBytes, found, Line.length]
      rw [Nat.min_eq_left fits]
  | none =>
      have empty : consumed ++ later = [] := by
        rw [← split, rest, text_of_none found]
        rfl
      have nothing : consumed = [] := (List.append_eq_nil_iff.mp empty).1
      simp only [skipBytes, found, nothing, Text.byteLength_nil, Nat.add_zero]

theorem Valid.leadsTo_skipBytes {cursor : Cursor} {consumed later : List Char}
    (valid : cursor.Valid) (split : cursor.rest = consumed ++ later) :
    cursor.LeadsTo (cursor.skipBytes (Text.byteLength consumed)) := by
  rw [valid.skipBytes_eq split]
  refine ⟨rfl, rfl, Nat.le_add_right _ _, ?_⟩
  cases found : cursor.line? with
  | some line =>
      have boundary := valid.boundary.add split
      rw [text_of_line found] at boundary
      exact valid_of_boundary found boundary
  | none =>
      have empty : consumed ++ later = [] := by
        rw [← split, rest, text_of_none found]
        rfl
      have nothing : consumed = [] := (List.append_eq_nil_iff.mp empty).1
      simpa only [nothing, Text.byteLength_nil, Nat.add_zero] using valid

/-- A match of a pattern at a valid cursor begins there and takes characters
from the rest of the line. -/
theorem Valid.matchRegex_span {cursor : Cursor} {regex : Regex} {captures : Regex.Captures}
    (valid : cursor.Valid) (found : cursor.matchRegex regex = some captures) :
    captures.start = cursor.position.column ∧ ∃ consumed later,
      cursor.rest = consumed ++ later ∧
        captures.stop = cursor.position.column + Text.byteLength consumed := by
  rcases Option.bind_eq_some_iff.mp found with ⟨line, lookup, taken⟩
  have boundary := valid.boundary
  rw [text_of_line lookup] at boundary
  have span := Regex.matchAt_span boundary taken
  rwa [rest, text_of_line lookup]

end Cursor

namespace Buffer

theorem lastPosition_of_isEmpty {buffer : Buffer} (nonempty : buffer.isEmpty = false) :
    ∃ line, buffer.line? (buffer.size - 1) = some line ∧
      buffer.lastPosition = ⟨buffer.size - 1, line.length⟩ := by
  cases found : buffer.lines.back? with
  | none =>
      have empty : buffer.lines = #[] := Array.back?_eq_none_iff.mp found
      rw [isEmpty, empty] at nonempty
      cases nonempty
  | some line =>
      refine ⟨line, ?_, ?_⟩
      · rwa [Array.back?_eq_getElem?] at found
      · simp only [lastPosition, found]

theorem clamp_of_valid {buffer : Buffer} {position : Position} {line : Line}
    (valid : (⟨buffer, position⟩ : Cursor).Valid) (found : buffer.line? position.line = some line) :
    buffer.clamp position = position := by
  have settled : Cursor.settle buffer position = position := valid
  rw [Cursor.settle, found] at settled
  rw [clamp, found]
  exact settled

end Buffer

/-- Between two valid places of a line lies the piece between their columns.
Past the last line both are taken for the end of that line, and nothing lies
between them. -/
theorem Cursor.LeadsTo.between_eq {before after : Cursor} (leads : before.LeadsTo after)
    (valid : before.Valid) :
    before.buffer.between before.position after.position =
      String.ofList
        (Text.sliceBytes before.position.column after.position.column before.text) := by
  unfold Buffer.between Buffer.betweenWith
  apply congrArg String.ofList
  have sameLine : before.buffer.line? after.position.line = before.line? := by
    rw [leads.line]
    rfl
  have validAfter : (⟨before.buffer, after.position⟩ : Cursor).Valid := by
    rw [← leads.buffer]
    exact leads.valid
  cases found : before.line? with
  | some line =>
      have lookup : before.buffer.line? before.position.line = some line := found
      have nonempty : before.buffer.isEmpty = false := by
        have some := Array.getElem?_eq_some_iff.mp lookup
        rcases some with ⟨bound, _⟩
        simp only [Buffer.isEmpty, Array.isEmpty_eq_false_iff]
        intro empty
        simp [empty] at bound
      have ordered : ¬after.position < before.position := by
        rintro (earlier | ⟨_, earlier⟩)
        · have line := leads.line
          omega
        · have column := leads.column
          omega
      have clampBefore := Buffer.clamp_of_valid valid lookup
      have clampAfter := Buffer.clamp_of_valid validAfter (sameLine.trans found)
      have decided :
          (before.buffer.isEmpty || decide (after.position < before.position)) = false := by
        simp [nonempty, ordered]
      simp only [Buffer.linesBetween, clampBefore, clampAfter, decided, Bool.false_eq_true,
        if_false, leads.line, if_true, Cursor.text]
      simp [List.intercalate]
  | none =>
      -- Both places are the end of the buffer, which is no place of a line: `clamp`
      -- takes them to the end of the last line, if there is one.
      have lookup : before.buffer.line? before.position.line = none := found
      have lookupAfter : before.buffer.line? after.position.line = none := sameLine.trans found
      have clampBefore : before.buffer.clamp before.position = before.buffer.lastPosition := by
        rw [Buffer.clamp, lookup]
      have clampAfter : before.buffer.clamp after.position = before.buffer.lastPosition := by
        rw [Buffer.clamp, lookupAfter]
      have noText :
          Text.sliceBytes before.position.column after.position.column before.text = [] := by
        rw [Cursor.text_of_none found]
        rfl
      rw [noText, Buffer.linesBetween, clampBefore, clampAfter]
      cases empty : before.buffer.isEmpty with
      | true => rfl
      | false =>
          rcases Buffer.lastPosition_of_isEmpty empty with ⟨line, last, position⟩
          have boundary := (Text.at_boundary_byteLength line.text).sliceBytes_self
          have text : before.buffer.textAt (before.buffer.size - 1) = line.text := by
            simp only [Buffer.textAt, last]
          have ordered := Position.not_lt_self before.buffer.lastPosition
          simp only [ordered, decide_false, Bool.or_self, Bool.false_eq_true, if_false, if_true]
          rw [position]
          simp only [text, Line.length, boundary]
          rfl

end LineGrammar
