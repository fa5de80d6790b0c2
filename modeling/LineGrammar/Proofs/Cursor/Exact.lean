import LineGrammar.Proofs.Cursor.Within
import LineGrammar.Proofs.Expr.Placement

/-!
Cutting lines exactly. Everything that is cut out of a line is rounded to whole
characters, but nothing is ever rounded away: each operation has a twin that
refuses to cut inside a character, past the end of a line or backwards, and to
read a line that does not exist. Wherever a cursor can come to, the twins refuse
nothing, and they answer what the operations themselves answer.
-/

namespace LineGrammar

namespace Text

/-- The characters between two offsets, if these are boundaries and in order. -/
def cut? (start stop : Nat) (text : List Char) : Option (List Char) :=
  if start ≤ stop ∧ AtBoundary text start ∧ AtBoundary text stop then
    some (sliceBytes start stop text)
  else none

theorem AtBoundary.cut?_eq {text : List Char} {start stop : Nat} (first : AtBoundary text start)
    (second : AtBoundary text stop) (ordered : start ≤ stop) :
    cut? start stop text = some (sliceBytes start stop text) :=
  if_pos ⟨ordered, first, second⟩

theorem AtBoundary.cut?_before {text : List Char} {offset : Nat}
    (boundary : AtBoundary text offset) : cut? 0 offset text = some (takeBytes offset text) := by
  rw [(at_boundary_zero text).cut?_eq boundary (Nat.zero_le offset), sliceBytes_zero]

theorem AtBoundary.cut?_after {text : List Char} {offset : Nat}
    (boundary : AtBoundary text offset) :
    cut? offset (byteLength text) text = some (dropBytes offset text) := by
  rw [boundary.cut?_eq (at_boundary_byteLength text) boundary.le_byteLength,
    boundary.sliceBytes_byteLength]

theorem at_boundary_take (text : List Char) (count : Nat) :
    AtBoundary text (byteLength (text.take count)) := by
  have parts := at_boundary_append (text.take count) (text.drop count)
  rwa [List.take_append_drop] at parts

end Text

namespace Buffer

variable (buffer : Buffer)

/-- The pieces from a column of a line to a position so many lines below. -/
def piecesTo? (stop : Nat) : Nat → Nat → Nat → Option (List (List Char))
  | 0, index, column => do
      let line ← buffer.line? index
      let piece ← Text.cut? column stop line.text
      return [piece]
  | below + 1, index, column => do
      let line ← buffer.line? index
      let piece ← Text.cut? column line.length line.text
      let later ← piecesTo? stop below (index + 1) 0
      return piece :: later

/-- What lies between two positions, line by line, if every cut is exact. -/
def linesBetween? (start stop : Position) : Option (List (List Char)) :=
  let start := buffer.clamp start
  let stop := buffer.clamp stop
  if buffer.isEmpty || decide (stop < start) then some []
  else buffer.piecesTo? stop.column (stop.line - start.line) start.line start.column

def excerpt? (start stop : Position) (width : Nat) : Option String :=
  let start := buffer.clamp start
  match buffer.line? start.line with
  | none => some ""
  | some line => do
      let text := line.text
      -- The end of the span is brought between the other two, which have to be in order.
      if line.length < start.column then none
      let stopColumn :=
        if stop.line = start.line then
          Text.floorBoundary text (max start.column (min stop.column line.length))
        else line.length
      let first := if width = 0 then 0 else Text.floorBoundary text (start.column - width)
      let last :=
        if width = 0 then line.length
        else Text.ceilBoundary text (min (stopColumn + width) line.length)
      let shown ← Text.cut? first last text
      let lead ← Text.cut? first start.column text
      let span ← Text.cut? start.column stopColumn text
      return String.ofList (shown ++ '\n' :: marker lead.length span.length)

variable {buffer}

theorem clamp_spec (nonempty : buffer.isEmpty = false) (position : Position) :
    ∃ line, buffer.line? (buffer.clamp position).line = some line ∧
      Text.AtBoundary line.text (buffer.clamp position).column := by
  unfold clamp
  cases found : buffer.line? position.line with
  | some line => exact ⟨line, found, Text.at_boundary_floorBoundary line.text position.column⟩
  | none =>
      obtain ⟨line, last, place⟩ := lastPosition_of_isEmpty nonempty
      simp only [place]
      exact ⟨line, last, Text.at_boundary_byteLength line.text⟩

theorem textAt_of_line {index : Nat} {line : Line} (found : buffer.line? index = some line) :
    buffer.textAt index = line.text := by rw [textAt, found]

theorem drop_of_line {index : Nat} {line : Line} (found : buffer.line? index = some line) :
    buffer.lines.toList.drop index = line :: buffer.lines.toList.drop (index + 1) :=
  @Cursor.lines_of_line ⟨buffer, ⟨index, 0⟩⟩ line found

theorem piecesTo?_eq {below index column stop : Nat} {line last : Line}
    (found : buffer.line? index = some line) (ends : buffer.line? (index + (below + 1)) = some last)
    (first : Text.AtBoundary line.text column) (second : Text.AtBoundary last.text stop) :
    buffer.piecesTo? stop (below + 1) index column =
      some (Text.dropBytes column line.text ::
        ((buffer.lines.toList.drop (index + 1)).take below).map Line.text ++
          [Text.takeBytes stop last.text]) := by
  induction below generalizing index column line with
  | zero =>
      simp only [piecesTo?, found, Line.length, first.cut?_after, ends, second.cut?_before,
        Option.bind_eq_bind, Option.bind_some, Option.pure_def, List.take_zero, List.map_nil,
        List.cons_append, List.nil_append]
  | succ below induction =>
      have inside : index + 1 < buffer.lines.size := by
        have bound := (Array.getElem?_eq_some_iff.mp ends).1
        omega
      have next : buffer.line? (index + 1) = some buffer.lines[index + 1] :=
        Array.getElem?_eq_getElem inside
      have ends' : buffer.line? (index + 1 + (below + 1)) = some last := by
        rwa [Nat.add_assoc, Nat.add_comm 1]
      have later := induction next ends' (Text.at_boundary_zero _)
      rw [piecesTo?]
      simp only [found, Line.length, first.cut?_after, later, drop_of_line next,
        Option.bind_eq_bind, Option.bind_some, Option.pure_def, List.take_succ_cons, List.map_cons,
        Text.dropBytes_zero, List.cons_append]

theorem linesBetween?_eq (start stop : Position) :
    buffer.linesBetween? start stop = some (buffer.linesBetween start stop) := by
  unfold linesBetween? linesBetween
  simp only
  split
  · rfl
  · rename_i ordered
    rw [Bool.or_eq_true, not_or, Bool.not_eq_true, decide_eq_true_iff] at ordered
    obtain ⟨nonempty, forward⟩ := ordered
    obtain ⟨line, found, first⟩ := clamp_spec nonempty start
    obtain ⟨last, ends, second⟩ := clamp_spec nonempty stop
    generalize buffer.clamp start = here at *
    generalize buffer.clamp stop = there at *
    rw [textAt_of_line found, textAt_of_line ends]
    split
    · rename_i same
      rw [same] at found
      obtain rfl : line = last := Option.some.inj (found.symm.trans ends)
      have columns : here.column ≤ there.column := by
        apply Nat.le_of_not_lt
        intro back
        exact forward (.inr ⟨same.symm, back⟩)
      rw [same, Nat.sub_self, piecesTo?]
      simp only [found, first.cut?_eq second columns, Option.bind_eq_bind, Option.bind_some,
        Option.pure_def]
    · rename_i different
      have lines : here.line < there.line := by
        apply Nat.lt_of_le_of_ne _ different
        apply Nat.le_of_not_lt
        intro back
        exact forward (.inl back)
      obtain ⟨below, apart⟩ := Nat.exists_eq_add_of_lt lines
      have count : there.line - here.line = below + 1 := by omega
      rw [count, Nat.add_sub_cancel]
      apply piecesTo?_eq found _ first second
      rwa [apart] at ends

theorem excerpt?_eq (start stop : Position) (width : Nat) :
    buffer.excerpt? start stop width = some (buffer.excerpt start stop width) := by
  unfold excerpt? excerpt
  simp only
  cases found : buffer.line? (buffer.clamp start).line with
  | none => rfl
  | some line =>
      have nonempty : buffer.isEmpty = false := by
        have bound := (Array.getElem?_eq_some_iff.mp found).1
        rw [isEmpty, Array.isEmpty_eq_false_iff]
        intro none
        rw [none] at bound
        simp at bound
      obtain ⟨line', found', here⟩ := clamp_spec nonempty start
      obtain rfl : line = line' := Option.some.inj (found.symm.trans found')
      generalize buffer.clamp start = start at *
      have inside : start.column ≤ line.length := here.le_byteLength
      have whole := Text.at_boundary_byteLength line.text
      simp only [if_neg (Nat.not_lt.mpr inside)]
      generalize stops : (if stop.line = start.line then
          Text.floorBoundary line.text (max start.column (min stop.column line.length))
        else line.length) = stopColumn
      generalize begins : (if width = 0 then 0
        else Text.floorBoundary line.text (start.column - width)) = first
      generalize ends : (if width = 0 then line.length
        else Text.ceilBoundary line.text (min (stopColumn + width) line.length)) = last
      have stopBoundary : Text.AtBoundary line.text stopColumn ∧ start.column ≤ stopColumn := by
        rw [← stops]
        split
        · exact ⟨Text.at_boundary_floorBoundary _ _, here.le_floorBoundary (Nat.le_max_left _ _)⟩
        · exact ⟨whole, inside⟩
      have firstBoundary : Text.AtBoundary line.text first ∧ first ≤ start.column := by
        rw [← begins]
        split
        · exact ⟨Text.at_boundary_zero _, Nat.zero_le _⟩
        · have rounded := Text.floorBoundary_le line.text (start.column - width)
          exact ⟨Text.at_boundary_floorBoundary _ _, by omega⟩
      have lastBoundary : Text.AtBoundary line.text last ∧ stopColumn ≤ last := by
        have within := stopBoundary.1.le_byteLength
        rw [← ends]
        split
        · exact ⟨whole, within⟩
        · have rounded : min (stopColumn + width) line.length ≤
              Text.ceilBoundary line.text (min (stopColumn + width) line.length) :=
            Text.le_ceilBoundary (Nat.min_le_right _ _)
          have fits : stopColumn ≤ line.length := within
          exact ⟨Text.at_boundary_ceilBoundary _ _, by omega⟩
      have ordered : first ≤ last := by omega
      simp only [firstBoundary.1.cut?_eq lastBoundary.1 ordered,
        firstBoundary.1.cut?_eq here firstBoundary.2, here.cut?_eq stopBoundary.1 stopBoundary.2,
        Option.bind_eq_bind, Option.bind_some, Option.pure_def]

end Buffer

namespace Cursor

variable (cursor : Cursor)

def rest? : Option (List Char) :=
  match cursor.line? with
  | some line => Text.cut? cursor.position.column line.length line.text
  | none => some []

def before? : Option (List Char) :=
  match cursor.line? with
  | some line => Text.cut? 0 cursor.position.column line.text
  | none => some []

def ahead? (count : Nat) : Option (List Char) := do
  let rest ← cursor.rest?
  Text.cut? 0 (Text.byteLength (rest.take count)) rest

def behind? (count : Nat) : Option (List Char) := do
  let before ← cursor.before?
  let start := Text.byteLength (before.take (before.length - count))
  Text.cut? start (Text.byteLength before) before

def forward? : Nat → Nat → Nat → List Line → Option Position
  | _, index, _, [] => some ⟨index, 0⟩
  | count, index, column, line :: later => do
      let rest ← Text.cut? column line.length line.text
      if count ≤ rest.length then return ⟨index, column + Text.byteLength (rest.take count)⟩
      else forward? (count - rest.length - 1) (index + 1) 0 later

def advance? (count : Nat) : Option Cursor := do
  let lines := cursor.buffer.lines.toList.drop cursor.position.line
  let position ← forward? count cursor.position.line cursor.position.column lines
  return { cursor with position := position }

def backward? (buffer : Buffer) (count : Nat) (index column : Nat) : Option Position := do
  let line ← buffer.line? index
  let before ← Text.cut? 0 column line.text
  if count ≤ before.length then
    return ⟨index, Text.byteLength (before.take (before.length - count))⟩
  else
    match index with
    | 0 => return .origin
    | index + 1 => do
        let above ← buffer.line? index
        backward? buffer (count - before.length - 1) index above.length

def retreat? (count : Nat) : Option Cursor :=
  if count = 0 then some cursor
  else if cursor.atEnd then
    if cursor.buffer.isEmpty then some cursor
    else do
      let last := cursor.buffer.lastPosition
      let position ← backward? cursor.buffer (count - 1) last.line last.column
      return { cursor with position := position }
  else do
    let position ← backward? cursor.buffer count cursor.position.line cursor.position.column
    return { cursor with position := position }

variable {cursor}

theorem Valid.rest?_eq (valid : cursor.Valid) : cursor.rest? = some cursor.rest := by
  have boundary := valid.boundary
  unfold rest? rest
  cases found : cursor.line? with
  | none => rw [text_of_none found]; rfl
  | some line =>
      rw [text_of_line found] at boundary ⊢
      exact boundary.cut?_after

theorem Valid.before?_eq (valid : cursor.Valid) : cursor.before? = some cursor.before := by
  have boundary := valid.boundary
  unfold before? before
  cases found : cursor.line? with
  | none => rw [text_of_none found]; rfl
  | some line =>
      rw [text_of_line found] at boundary ⊢
      exact boundary.cut?_before

theorem Valid.ahead?_eq (valid : cursor.Valid) (count : Nat) :
    cursor.ahead? count = some (cursor.ahead count) := by
  have parts := Text.takeBytes_byteLength_append (cursor.rest.take count) (cursor.rest.drop count)
  rw [List.take_append_drop] at parts
  unfold ahead? ahead
  rw [valid.rest?_eq, Option.bind_eq_bind, Option.bind_some,
    (Text.at_boundary_take cursor.rest count).cut?_before, parts]

theorem Valid.behind?_eq (valid : cursor.Valid) (count : Nat) :
    cursor.behind? count = some (cursor.behind count) := by
  have parts := Text.dropBytes_byteLength_append
    (cursor.before.take (cursor.before.length - count))
    (cursor.before.drop (cursor.before.length - count))
  rw [List.take_append_drop] at parts
  unfold behind? behind
  rw [valid.before?_eq, Option.bind_eq_bind, Option.bind_some]
  simp only
  rw [(Text.at_boundary_take cursor.before _).cut?_after, parts]

theorem forward?_eq {lines : List Line} {count index column : Nat}
    (boundary : ∀ line ∈ lines.head?, Text.AtBoundary line.text column) :
    forward? count index column lines = some (forward count index column lines) := by
  induction lines generalizing count index column with
  | nil => rw [forward?, forward]
  | cons line later induction =>
      rw [forward?, forward, Line.length, (boundary line rfl).cut?_after, Option.bind_eq_bind,
        Option.bind_some]
      split
      · rfl
      · apply induction
        intro next _
        exact Text.at_boundary_zero next.text

theorem Valid.advance?_eq (valid : cursor.Valid) (count : Nat) :
    cursor.advance? count = some (cursor.advance count) := by
  have boundary : ∀ line ∈ (cursor.buffer.lines.toList.drop cursor.position.line).head?,
      Text.AtBoundary line.text cursor.position.column := by
    intro line first
    apply (valid_iff_boundary _).mp valid
    rw [List.head?_drop, Array.getElem?_toList] at first
    exact first
  unfold advance? advance
  simp only
  rw [forward?_eq boundary, Option.bind_eq_bind, Option.bind_some, Option.pure_def]

theorem backward?_eq {buffer : Buffer} {count index column : Nat} {line : Line}
    (found : buffer.line? index = some line) (boundary : Text.AtBoundary line.text column) :
    backward? buffer count index column = some (backward buffer count index column) := by
  induction index generalizing count column line with
  | zero =>
      rw [backward?, backward, found, Buffer.textAt_of_line found]
      simp only [Option.bind_eq_bind, Option.bind_some, boundary.cut?_before]
      split <;> rfl
  | succ index induction =>
      have bound : index < buffer.lines.size :=
        Nat.lt_of_succ_lt (Array.getElem?_eq_some_iff.mp found).1
      have above : buffer.line? index = some buffer.lines[index] :=
        Array.getElem?_eq_getElem bound
      rw [backward?, backward, found, Buffer.textAt_of_line found]
      simp only [Option.bind_eq_bind, Option.bind_some, boundary.cut?_before, above]
      split
      · rfl
      · rw [Buffer.textAt_of_line above]
        exact induction above (Text.at_boundary_byteLength _)

theorem Valid.retreat?_eq (valid : cursor.Valid) (count : Nat) :
    cursor.retreat? count = some (cursor.retreat count) := by
  unfold retreat? retreat
  split
  · rfl
  · cases ended : cursor.atEnd with
    | true =>
        cases empty : cursor.buffer.isEmpty with
        | true => rfl
        | false =>
            obtain ⟨line, found, place⟩ := Buffer.lastPosition_of_isEmpty empty
            have boundary : Text.AtBoundary line.text line.length :=
              Text.at_boundary_byteLength line.text
            simp only [if_true, Bool.false_eq_true, if_false, place]
            rw [backward?_eq found boundary]
            rfl
    | false =>
        obtain ⟨line, found⟩ := line_of_atEnd ended
        simp only [Bool.false_eq_true, if_false]
        rw [backward?_eq found ((valid_iff_boundary found).mp valid)]
        rfl

/-- What may be done with a cursor. -/
inductive Deed where
  | move (movement : Movement)
  | attempt (expr : Expr)

def follow (cursor : Cursor) : Deed → Cursor
  | .move movement => movement.apply cursor
  | .attempt expr => (expr.attempt cursor).cursor

def followAll (cursor : Cursor) (deeds : List Deed) : Cursor := deeds.foldl follow cursor

theorem Valid.within_follow (valid : cursor.Valid) (deed : Deed) :
    cursor.Within (cursor.follow deed) := by
  cases deed with
  | move movement => exact movement.within valid
  | attempt expr =>
      cases outcome : (expr.attempt cursor).result with
      | ok found =>
          have leads := (Expr.covers_of_attempt valid outcome).leads
          exact ⟨leads.buffer, leads.valid⟩
      | error error =>
          have back := ((Expr.attempt_sound expr).refuses valid outcome).2
          rw [follow, back]
          exact ⟨rfl, valid⟩

theorem Valid.within_followAll (valid : cursor.Valid) (deeds : List Deed) :
    cursor.Within (cursor.followAll deeds) := by
  induction deeds generalizing cursor with
  | nil => exact ⟨rfl, valid⟩
  | cons deed later induction =>
      have first := valid.within_follow deed
      exact first.trans (induction first.valid)

/-- A cursor stands at the end of the buffer or between two characters of a line. -/
theorem Valid.place (valid : cursor.Valid) :
    cursor.position = ⟨cursor.buffer.size, 0⟩ ∨
      ∃ line front back, cursor.buffer.line? cursor.position.line = some line ∧
        line.text = front ++ back ∧ cursor.position.column = Text.byteLength front := by
  cases found : cursor.line? with
  | none => exact .inl (valid.eq_bufferEnd found)
  | some line =>
      have boundary := (valid_iff_boundary found).mp valid
      exact .inr ⟨line, Text.takeBytes cursor.position.column line.text,
        Text.dropBytes cursor.position.column line.text, found,
        (Text.takeBytes_append_dropBytes _ _).symm, boundary.byteLength_takeBytes.symm⟩

/-- Whatever is done with a cursor, wherever it was put first, it stands at the
end of the buffer or between two characters of a line, and whatever is cut out
there is cut exactly. -/
theorem reached_places_are_cut_exactly (buffer : Buffer) (position : Position)
    (deeds : List Deed) :
    let cursor := (near buffer position).followAll deeds
    cursor.buffer = buffer ∧
    (cursor.position = ⟨buffer.size, 0⟩ ∨
      cursor.position.line < buffer.size ∧
      ∃ line front back, buffer.line? cursor.position.line = some line ∧
        cursor.position.column ≤ line.length ∧
        line.text = front ++ back ∧ cursor.position.column = Text.byteLength front) ∧
    cursor.rest? = some cursor.rest ∧
    (∀ count, cursor.ahead? count = some (cursor.ahead count)) ∧
    (∀ count, cursor.behind? count = some (cursor.behind count)) ∧
    (∀ count, cursor.advance? count = some (cursor.advance count)) ∧
    (∀ count, cursor.retreat? count = some (cursor.retreat count)) ∧
    (∀ start stop, buffer.linesBetween? start stop = some (buffer.linesBetween start stop)) ∧
    ∀ start stop width,
      buffer.excerpt? start stop width = some (buffer.excerpt start stop width) := by
  intro cursor
  obtain ⟨same, valid⟩ := (near_valid buffer position).within_followAll deeds
  have same : cursor.buffer = buffer := same
  have valid : cursor.Valid := valid
  refine ⟨same, ?_, valid.rest?_eq, valid.ahead?_eq, valid.behind?_eq, valid.advance?_eq,
    valid.retreat?_eq, Buffer.linesBetween?_eq, Buffer.excerpt?_eq⟩
  have place := valid.place
  rw [same] at place
  rcases place with ended | ⟨line, front, back, found, parts, column⟩
  · exact .inl ended
  · have bound : cursor.position.line < buffer.size := (Array.getElem?_eq_some_iff.mp found).1
    have inside : cursor.position.column ≤ line.length := by
      rw [column, Line.length, parts, Text.byteLength_append]
      omega
    exact .inr ⟨bound, line, front, back, found, inside, parts, column⟩

end Cursor

end LineGrammar
