import LineGrammar.Proofs.Cursor.Exact
import Mathlib.Data.Nat.PSub

/-!
The lines of a buffer as one text. If the lines are joined with a separator,
every place of a line has an offset in the joined text, and what lies between
two places is the substring between their offsets. So what lies between a first
and a third place is made up of what lies between them and any second place.
-/

namespace LineGrammar

namespace Text

theorem intercalate_append_cons (separator last : List Char) (front back : List (List Char)) :
    separator.intercalate (front ++ last :: back) =
      front.flatMap (· ++ separator) ++ separator.intercalate (last :: back) := by
  induction front with
  | nil => rfl
  | cons first later induction =>
      rw [List.cons_append, List.intercalate_cons_of_ne_nil (by simp), induction,
        List.flatMap_cons, List.append_assoc (first ++ separator)]

theorem intercalate_cons_eq_append (separator first : List Char) (later : List (List Char)) :
    ∃ rest, separator.intercalate (first :: later) = first ++ rest := by
  cases later with
  | nil => exact ⟨[], by simp⟩
  | cons second others =>
      rw [List.intercalate_cons_cons, List.append_assoc]
      exact ⟨_, rfl⟩

theorem cut?_append (front piece back : List Char) :
    cut? (byteLength front) (byteLength (front ++ piece)) (front ++ piece ++ back) =
      some piece := by
  have begins : AtBoundary (front ++ piece ++ back) (byteLength front) := by
    rw [List.append_assoc]
    exact at_boundary_append front (piece ++ back)
  have follows : dropBytes (byteLength front) (front ++ piece ++ back) = piece ++ back := by
    rw [List.append_assoc]
    exact dropBytes_byteLength_append front (piece ++ back)
  have ordered : byteLength front ≤ byteLength (front ++ piece) := by
    rw [byteLength_append]
    omega
  have slice := begins.sliceBytes_add follows
  rw [← byteLength_append] at slice
  rw [begins.cut?_eq (at_boundary_append (front ++ piece) back) ordered, slice]

end Text

namespace Buffer

variable (buffer : Buffer)

def joined (separator : String) : List Char :=
  separator.toList.intercalate (buffer.lines.toList.map Line.text)

/-- How many bytes of the joined lines stand before a position, after clamping. -/
def offsetIn (separator : String) (position : Position) : Nat :=
  let place := buffer.clamp position
  (buffer.lines.toList.take place.line).foldr (fun line count =>
    line.length + Text.byteLength separator.toList + count) 0 + place.column

def upTo (separator : List Char) (place : Position) : List Char :=
  (buffer.lines.toList.take place.line).flatMap (fun line => line.text ++ separator) ++
    Text.takeBytes place.column (buffer.textAt place.line)

/-- The end of the last line, if no difference is below zero. -/
def lastPosition? : Option Position :=
  match buffer.lines.back? with
  | some line => (Nat.psub buffer.size 1).map fun index => ⟨index, line.length⟩
  | none => some .origin

def clamp? (position : Position) : Option Position :=
  match buffer.line? position.line with
  | some line => some ⟨position.line, Text.floorBoundary line.text position.column⟩
  | none => buffer.lastPosition?

def piecesBetween? (start stop : Position) : Option (List (List Char)) := do
  let start ← buffer.clamp? start
  let stop ← buffer.clamp? stop
  if buffer.isEmpty || decide (stop < start) then return []
  else
    let below ← Nat.psub stop.line start.line
    buffer.piecesTo? stop.column below start.line start.column

variable {buffer}

theorem clamp?_eq (position : Position) : buffer.clamp? position = some (buffer.clamp position) := by
  unfold clamp? clamp
  cases found : buffer.line? position.line with
  | some line => rfl
  | none =>
      unfold lastPosition? lastPosition
      cases last : buffer.lines.back? with
      | none => rfl
      | some line =>
          have nonempty : 1 ≤ buffer.size := by
            rw [Array.back?_eq_getElem?] at last
            have bound := (Array.getElem?_eq_some_iff.mp last).1
            unfold size
            omega
          simp only [Nat.psub_eq_sub nonempty, Option.map_some]

theorem piecesBetween?_eq (start stop : Position) :
    buffer.piecesBetween? start stop = some (buffer.linesBetween start stop) := by
  rw [← linesBetween?_eq]
  simp only [piecesBetween?, linesBetween?, clamp?_eq, Option.bind_eq_bind, Option.bind_some]
  split
  · rfl
  · rename_i ordered
    have lines : (buffer.clamp start).line ≤ (buffer.clamp stop).line := by
      rw [Bool.or_eq_true, not_or, decide_eq_true_iff] at ordered
      rcases Position.le_of_not_lt ordered.2 with before | ⟨same, _⟩
      · exact Nat.le_of_lt before
      · exact Nat.le_of_eq same
    rw [Nat.psub_eq_sub lines, Option.bind_some]

theorem clamp_of_isEmpty (empty : buffer.isEmpty = true) (position : Position) :
    buffer.clamp position = .origin := by
  have none : buffer.lines = #[] := by simpa [isEmpty] using empty
  simp [clamp, line?, lastPosition, none]

theorem byteLength_upTo (separator : String) (position : Position) :
    Text.byteLength (buffer.upTo separator.toList (buffer.clamp position)) =
      buffer.offsetIn separator position := by
  have column : Text.byteLength (Text.takeBytes (buffer.clamp position).column
      (buffer.textAt (buffer.clamp position).line)) = (buffer.clamp position).column := by
    cases empty : buffer.isEmpty with
    | true =>
        rw [clamp_of_isEmpty empty]
        exact Text.at_boundary_zero _
    | false =>
        obtain ⟨line, found, boundary⟩ := clamp_spec empty position
        rw [textAt_of_line found]
        exact boundary
  have lines : ∀ lines : List Line,
      Text.byteLength (lines.flatMap fun line => line.text ++ separator.toList) =
        lines.foldr (fun line count =>
          line.length + Text.byteLength separator.toList + count) 0 := by
    intro lines
    induction lines with
    | nil => rfl
    | cons line later induction =>
        rw [List.flatMap_cons, Text.byteLength_append, induction, Text.byteLength_append,
          List.foldr_cons]
        rfl
  rw [upTo, Text.byteLength_append, lines, column]
  rfl

theorem joined_eq_append (separator : String) (position : Position) :
    ∃ rest, buffer.joined separator =
      buffer.upTo separator.toList (buffer.clamp position) ++ rest := by
  cases empty : buffer.isEmpty with
  | true =>
      have none : buffer.lines = #[] := by simpa [isEmpty] using empty
      exact ⟨[], by simp [joined, upTo, textAt, line?, none, Text.takeBytes]⟩
  | false =>
      obtain ⟨line, found, _⟩ := clamp_spec empty position
      generalize buffer.clamp position = place at *
      have parts : buffer.lines.toList = buffer.lines.toList.take place.line ++
          line :: buffer.lines.toList.drop (place.line + 1) := by
        rw [← drop_of_line found, List.take_append_drop]
      obtain ⟨rest, begins⟩ := Text.intercalate_cons_eq_append separator.toList line.text
        ((buffer.lines.toList.drop (place.line + 1)).map Line.text)
      refine ⟨Text.dropBytes place.column line.text ++ rest, ?_⟩
      rw [joined, parts, List.map_append, List.map_cons, Text.intercalate_append_cons, begins,
        List.flatMap_map, upTo, textAt_of_line found, List.append_assoc, ← List.append_assoc
        (Text.takeBytes place.column line.text), Text.takeBytes_append_dropBytes]

theorem upTo_append (separator : List Char) {start stop : Position}
    (ordered : buffer.clamp start ≤ buffer.clamp stop) :
    buffer.upTo separator (buffer.clamp stop) =
      buffer.upTo separator (buffer.clamp start) ++
        separator.intercalate (buffer.linesBetween start stop) := by
  cases empty : buffer.isEmpty with
  | true =>
      rw [clamp_of_isEmpty empty, clamp_of_isEmpty empty]
      simp [linesBetween, empty]
  | false =>
      obtain ⟨line, found, first⟩ := clamp_spec empty start
      obtain ⟨last, ends, second⟩ := clamp_spec empty stop
      have forward := Position.not_lt_of_le ordered
      simp only [linesBetween, empty, forward, decide_false, Bool.or_self, Bool.false_eq_true,
        if_false]
      generalize buffer.clamp start = here at *
      generalize buffer.clamp stop = there at *
      unfold upTo
      rw [textAt_of_line found, textAt_of_line ends]
      split
      · rename_i same
        have columns : here.column ≤ there.column := by
          rcases ordered with before | ⟨_, columns⟩
          · omega
          · exact columns
        rw [same] at found ⊢
        obtain rfl : line = last := Option.some.inj (found.symm.trans ends)
        rw [first.takeBytes_eq_append columns, List.intercalate_singleton, List.append_assoc]
      · rename_i different
        have lines : here.line < there.line := by
          rcases ordered with before | ⟨same, _⟩
          · exact before
          · exact absurd same different
        -- The lines before the second place are those before the first, its own line,
        -- and those between the two.
        have parts : buffer.lines.toList.take there.line =
            buffer.lines.toList.take here.line ++ line ::
              (buffer.lines.toList.drop (here.line + 1)).take (there.line - here.line - 1) := by
          obtain ⟨below, apart⟩ := Nat.exists_eq_add_of_lt lines
          have count : there.line - here.line - 1 = below := by omega
          rw [count, apart, Nat.add_assoc, List.take_add, drop_of_line found, List.take_succ_cons]
        have cut := Text.takeBytes_append_dropBytes here.column line.text
        rw [Text.intercalate_append_cons, List.intercalate_singleton, parts, List.flatMap_append,
          List.flatMap_cons, List.flatMap_cons, List.flatMap_map]
        nth_rewrite 1 [← cut]
        simp only [List.append_assoc]

theorem betweenWith_toList (separator : String) (start stop : Position) :
    (buffer.betweenWith separator start stop).toList =
      separator.toList.intercalate (buffer.linesBetween start stop) := by
  rw [betweenWith, String.toList_ofList]

theorem betweenWith_eq_intercalate (separator : String) (start stop : Position) :
    buffer.betweenWith separator start stop =
      separator.intercalate ((buffer.linesBetween start stop).map String.ofList) := by
  rw [← String.toList_inj, betweenWith_toList, String.toList_intercalate, List.map_map]
  simp [Function.comp_def]

theorem cut?_betweenWith (separator : String) {start stop : Position}
    (ordered : buffer.clamp start ≤ buffer.clamp stop) :
    Text.cut? (buffer.offsetIn separator start) (buffer.offsetIn separator stop)
      (buffer.joined separator) = some (buffer.betweenWith separator start stop).toList := by
  obtain ⟨rest, whole⟩ := @joined_eq_append buffer separator stop
  rw [← byteLength_upTo, ← byteLength_upTo, whole, upTo_append separator.toList ordered,
    betweenWith_toList]
  exact Text.cut?_append _ _ rest

theorem betweenWith_of_lt (separator : String) {start stop : Position}
    (back : buffer.clamp stop < buffer.clamp start) :
    buffer.betweenWith separator start stop = "" := by
  rw [← String.toList_inj, betweenWith_toList]
  simp [linesBetween, back]

theorem betweenWith_append (separator : String) {first second third : Position}
    (early : buffer.clamp first ≤ buffer.clamp second)
    (late : buffer.clamp second ≤ buffer.clamp third) :
    buffer.betweenWith separator first second ++ buffer.betweenWith separator second third =
      buffer.betweenWith separator first third := by
  have once := upTo_append separator.toList (Position.le_trans early late)
  have twice := upTo_append separator.toList late
  rw [upTo_append separator.toList early, List.append_assoc, once] at twice
  rw [← String.toList_inj, String.toList_append, betweenWith_toList, betweenWith_toList,
    betweenWith_toList]
  exact (List.append_cancel_left twice).symm

/-- What lies between two positions, wherever they are, is a substring of the
lines joined with line feeds: from the offset of the first position to that of
the second, after clamping, and nothing if the second is then before the first.
On the way no difference is below zero and no character is cut. Two adjoining
substrings make up the one over both. For any other separator it is the same:
the pieces of the lines are joined with it, which gives a substring of the lines
joined with it. -/
theorem between_is_substring_of_joined_lines (buffer : Buffer) :
    (∀ start stop, buffer.clamp start ≤ buffer.clamp stop →
      Text.cut? (buffer.offsetIn "\n" start) (buffer.offsetIn "\n" stop) (buffer.joined "\n") =
        some (buffer.between start stop).toList) ∧
    (∀ start stop, ¬buffer.clamp start ≤ buffer.clamp stop → buffer.between start stop = "") ∧
    (∀ start stop, buffer.piecesBetween? start stop = some (buffer.linesBetween start stop)) ∧
    (∀ first second third, buffer.clamp first ≤ buffer.clamp second →
      buffer.clamp second ≤ buffer.clamp third →
      buffer.between first second ++ buffer.between second third = buffer.between first third) ∧
    ∀ separator start stop,
      buffer.betweenWith separator start stop =
        separator.intercalate ((buffer.linesBetween start stop).map String.ofList) ∧
      (buffer.clamp start ≤ buffer.clamp stop →
        Text.cut? (buffer.offsetIn separator start) (buffer.offsetIn separator stop)
          (buffer.joined separator) = some (buffer.betweenWith separator start stop).toList) ∧
      (¬buffer.clamp start ≤ buffer.clamp stop →
        buffer.betweenWith separator start stop = "") := by
  have nothing : ∀ separator start stop, ¬buffer.clamp start ≤ buffer.clamp stop →
      buffer.betweenWith separator start stop = "" := by
    intro separator start stop back
    apply betweenWith_of_lt
    by_contra notBack
    exact back (Position.le_of_not_lt notBack)
  refine ⟨?_, nothing "\n", piecesBetween?_eq, ?_, ?_⟩
  · intro start stop ordered
    exact cut?_betweenWith "\n" ordered
  · intro first second third early late
    exact betweenWith_append "\n" early late
  · intro separator start stop
    exact ⟨betweenWith_eq_intercalate separator start stop, cut?_betweenWith separator,
      nothing separator start stop⟩

/-- From inside a character of two bytes, over an empty line, to a line far past
the last one. -/
theorem substring_over_empty_line :
    let buffer : Buffer := .ofLines ["aéb", "", "cd"]
    let start : Position := ⟨0, 2⟩
    let stop : Position := ⟨18446744073709551615, 7⟩
    buffer.clamp start = ⟨0, 1⟩ ∧ buffer.clamp stop = ⟨2, 2⟩ ∧
      buffer.clamp start ≤ buffer.clamp stop ∧
      Text.cut? 1 8 "aéb\n\ncd".toList = some (buffer.between start stop).toList ∧
      buffer.between start stop = "éb\n\ncd" ∧ buffer.between stop start = "" := by
  intro buffer start stop
  have ordered : buffer.clamp start ≤ buffer.clamp stop := by decide +kernel
  obtain ⟨substring, nothing, _⟩ := between_is_substring_of_joined_lines buffer
  refine ⟨by decide +kernel, by decide +kernel, ordered, substring start stop ordered, ?_, ?_⟩
  · decide +kernel
  · exact nothing stop start (by decide +kernel)

end Buffer

end LineGrammar
