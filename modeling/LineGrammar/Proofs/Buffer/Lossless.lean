import LineGrammar.Proofs.Buffer.Plain
import Mathlib.Algebra.GroupWithZero.Nat

/-!
Buffers keep all of their source. Each raw line is parted into a text and the
longest ending that stands at its end, and lines follow one another without gap:
the offset of a line is what the full lines before it take up. So the full lines
put together are the source, byte for byte. A text is cut into lines so that only
the last of them may lack a line feed.
-/

namespace LineGrammar

namespace Text

theorem byteLength_toList (text : String) : byteLength text.toList = text.utf8ByteSize := by
  obtain ⟨chars, rfl⟩ : ∃ chars, text = String.ofList chars := ⟨text.toList, by simp⟩
  rw [String.toList_ofList]
  induction chars with
  | nil => rfl
  | cons char rest induction =>
      have parts : String.ofList (char :: rest) = String.singleton char ++ String.ofList rest := by
        rw [← String.toList_inj]
        simp
      rw [parts, String.utf8ByteSize_append, String.utf8ByteSize_singleton, byteLength_cons,
        induction]

@[simp]
theorem byteLength_reverse (text : List Char) : byteLength text.reverse = byteLength text := by
  induction text with
  | nil => rfl
  | cons char rest induction =>
      rw [List.reverse_cons, byteLength_append, induction, byteLength_cons, byteLength_cons,
        byteLength_nil]
      omega

theorem byteLength_flatten (texts : List (List Char)) :
    byteLength texts.flatten = (texts.map byteLength).sum := by
  induction texts with
  | nil => rfl
  | cons text later induction =>
      rw [List.flatten_cons, byteLength_append, induction, List.map_cons, List.sum_cons]

end Text

/-- Whether an ending is that of a raw line: of all endings that stand at the end
of it, the longest. -/
structure LineEnding.Ends (ending : LineEnding) (raw : List Char) : Prop where
  suffix : ending.chars <:+ raw
  longest : ∀ other : LineEnding, other.chars <:+ raw → other.chars.length ≤ ending.chars.length

theorem splitEnding_append (raw : List Char) :
    (splitEnding raw).1 ++ (splitEnding raw).2.chars = raw := by
  -- Endings are read from the back.
  obtain ⟨back, rfl⟩ : ∃ back, raw = back.reverse := ⟨raw.reverse, by simp⟩
  unfold splitEnding
  rw [List.reverse_reverse]
  split <;> simp [LineEnding.chars]

theorem byteLength_splitEnding (raw : List Char) :
    Text.byteLength (splitEnding raw).1 + Text.byteLength (splitEnding raw).2.chars =
      Text.byteLength raw := by
  rw [← Text.byteLength_append, splitEnding_append]

theorem splitEnding_ends (raw : List Char) : (splitEnding raw).2.Ends raw := by
  refine ⟨⟨_, splitEnding_append raw⟩, ?_⟩
  intro other suffix
  obtain ⟨back, rfl⟩ : ∃ back, raw = back.reverse := ⟨raw.reverse, by simp⟩
  have start : other.chars.reverse <+: back := by
    rw [← List.reverse_prefix, List.reverse_reverse] at suffix
    exact suffix
  unfold splitEnding
  rw [List.reverse_reverse]
  split
  · cases other <;> simp [LineEnding.chars]
  · rename_i noReturn
    cases other with
    | crlf =>
        obtain ⟨rest, same⟩ := start
        exact absurd same.symm (by simpa [LineEnding.chars] using noReturn rest)
    | _ => simp [LineEnding.chars]
  · cases other with
    | crlf => simp [LineEnding.chars] at start
    | _ => simp [LineEnding.chars]
  · rename_i noFeed noReturn
    obtain ⟨rest, same⟩ := start
    cases other with
    | none => simp [LineEnding.chars]
    | lf => exact absurd same.symm (noFeed rest)
    | crlf => exact absurd same.symm (noFeed ('\r' :: rest))
    | cr => exact absurd same.symm (noReturn rest)

theorem splitEnding_of_feed {raw : List Char} (fed : raw.getLast? = some '\n') :
    (splitEnding raw).2 = .lf ∨ (splitEnding raw).2 = .crlf := by
  obtain ⟨front, rfl⟩ := List.getLast?_eq_some_iff.mp fed
  unfold splitEnding
  rw [List.reverse_append, List.reverse_singleton, List.singleton_append]
  split
  · exact .inr rfl
  · exact .inl rfl
  · rename_i same
    cases same
  · rename_i noFeed _
    exact absurd rfl (noFeed _)

namespace Line

def fullLength (line : Line) : Nat := Text.byteLength line.full

end Line

namespace Buffer

/-- Whether the lines of a buffer follow one another from the start of the source
to its end: each is numbered by its place and begins where the full lines before
it end, and only the last is marked as such. -/
structure EndToEnd (buffer : Buffer) : Prop where
  numbered : ∀ index line, buffer.line? index = some line → line.index = index
  offset : ∀ index line, buffer.line? index = some line →
    line.offset = ((buffer.lines.toList.take index).map Line.fullLength).sum
  last : ∀ index line, buffer.line? index = some line →
    (line.last = true ↔ index + 1 = buffer.size)
  byteSize : buffer.byteSize = (buffer.lines.toList.map Line.fullLength).sum

section LinesFrom

variable (reversed : Bool) (index offset : Nat) (raws : List (List Char))

theorem getElem?_linesFrom (place : Nat) :
    (linesFrom reversed index offset raws)[place]? = raws[place]?.map fun raw =>
      { text := if reversed then (splitEnding raw).1.reverse else (splitEnding raw).1
        index := index + place
        offset := offset + ((raws.take place).map Text.byteLength).sum
        ending := (splitEnding raw).2
        last := decide (place + 1 = raws.length) } := by
  induction raws generalizing index offset place with
  | nil => rfl
  | cons raw later induction =>
      cases place with
      | zero => cases later <;> simp [linesFrom]
      | succ place =>
          simp only [linesFrom, List.getElem?_cons_succ, induction, List.take_succ_cons,
            List.map_cons, List.sum_cons, List.length_cons, Nat.add_right_cancel_iff]
          congr 1
          funext raw
          congr 1 <;> omega

theorem length_linesFrom : (linesFrom reversed index offset raws).length = raws.length := by
  induction raws generalizing index offset with
  | nil => rfl
  | cons raw later induction => simp only [linesFrom, List.length_cons, induction]

theorem full_linesFrom : (linesFrom false index offset raws).map Line.full = raws := by
  induction raws generalizing index offset with
  | nil => rfl
  | cons raw later induction =>
      simp only [linesFrom, List.map_cons, induction, Line.full, Bool.false_eq_true, if_false,
        splitEnding_append]

variable {reversed index offset raws} in
theorem ends_of_mem_linesFrom {line : Line} (member : line ∈ linesFrom false index offset raws) :
    line.full ∈ raws ∧ line.ending.Ends line.full := by
  induction raws generalizing index offset with
  | nil => cases member
  | cons raw later induction =>
      rcases List.mem_cons.mp member with first | isLater
      · have whole : line.full = raw := by
          rw [first]
          exact splitEnding_append raw
        rw [whole, first]
        exact ⟨List.mem_cons_self, splitEnding_ends raw⟩
      · obtain ⟨given, ends⟩ := induction isLater
        exact ⟨List.mem_cons_of_mem raw given, ends⟩

/-- A line takes up as many bytes as the raw line it was made of, in whatever
order its characters are kept. -/
theorem fullLength_linesFrom :
    (linesFrom reversed index offset raws).map Line.fullLength = raws.map Text.byteLength := by
  induction raws generalizing index offset with
  | nil => rfl
  | cons raw later induction =>
      have whole := byteLength_splitEnding raw
      simp only [linesFrom, List.map_cons, induction, Line.fullLength, Line.full,
        Text.byteLength_append]
      congr 1
      cases reversed with
      | false => exact whole
      | true => rw [if_pos rfl, Text.byteLength_reverse, whole]

theorem byteSize_linesFrom :
    byteSize ⟨(linesFrom reversed 0 0 raws).toArray, reversed⟩ =
      (raws.map Text.byteLength).sum := by
  rcases List.eq_nil_or_concat raws with rfl | ⟨front, raw, rfl⟩
  · rfl
  · have last : (linesFrom reversed 0 0 (front.concat raw)).toArray.back? =
        (linesFrom reversed 0 0 (front.concat raw))[front.length]? := by
      rw [List.back?_toArray, List.getLast?_eq_getElem?, length_linesFrom, List.length_concat,
        Nat.add_sub_cancel]
    have whole := byteLength_splitEnding raw
    unfold byteSize
    rw [last, getElem?_linesFrom]
    cases reversed <;> simp [Line.length, Nat.add_assoc, whole]

theorem endToEnd_linesFrom : EndToEnd ⟨(linesFrom reversed 0 0 raws).toArray, reversed⟩ := by
  have lengths := fullLength_linesFrom reversed 0 0 raws
  have lines : ∀ place line,
      line? ⟨(linesFrom reversed 0 0 raws).toArray, reversed⟩ place = some line →
      line.index = place ∧ line.offset = ((raws.take place).map Text.byteLength).sum ∧
        (line.last = true ↔ place + 1 = raws.length) := by
    intro place line found
    rw [line?, List.getElem?_toArray, getElem?_linesFrom] at found
    obtain ⟨raw, _, rfl⟩ := Option.map_eq_some_iff.mp found
    simp
  refine ⟨fun place line found => (lines place line found).1, ?_, ?_, ?_⟩
  · intro place line found
    rw [(lines place line found).2.1, List.map_take, List.map_take, lengths]
  · intro place line found
    rw [(lines place line found).2.2, size, List.size_toArray, length_linesFrom]
  · rw [byteSize_linesFrom, lengths]

end LinesFrom

theorem splitLines_flatten (text : List Char) : (splitLines text).flatten = text := by
  induction text with
  | nil => rfl
  | cons char rest induction =>
      unfold splitLines
      split
      · rw [List.flatten_cons, induction, List.singleton_append]
      · split
        · rename_i none
          rw [none] at induction
          rw [← induction]
          rfl
        · rename_i first later cut
          rw [cut, List.flatten_cons] at induction
          rw [List.flatten_cons, List.cons_append, induction]

theorem splitLines_fed (text : List Char) :
    (∀ raw ∈ splitLines text, raw ≠ []) ∧
      ∀ raw ∈ (splitLines text).dropLast, raw.getLast? = some '\n' := by
  induction text with
  | nil => simp [splitLines]
  | cons char rest induction =>
      obtain ⟨filled, fed⟩ := induction
      unfold splitLines
      split
      · rename_i feed
        subst feed
        constructor
        · simpa using filled
        · cases later : splitLines rest with
          | nil => simp
          | cons second others =>
              rw [later] at fed
              simpa using fed
      · split
        · simp
        · rename_i first later cut
          rw [cut] at filled fed
          constructor
          · simpa using fun raw member => filled raw (List.mem_cons_of_mem first member)
          · cases later with
            | nil => simp
            | cons second others =>
                have ends : first.getLast? = some '\n' := fed first (by simp)
                simpa [List.getLast?_cons, ends] using fed

theorem line?_ofLines {raws : List String} {index : Nat} {raw : String}
    (given : raws[index]? = some raw) :
    ∃ line, (ofLines raws).line? index = some line ∧ line.full = raw.toList ∧
      line.ending.Ends raw.toList ∧
      (ofLinesReversed raws).line? index = some { line with text := line.text.reverse } := by
  have given' : (raws.map String.toList)[index]? = some raw.toList := by
    rw [List.getElem?_map, given, Option.map_some]
  have forward := getElem?_linesFrom false 0 0 (raws.map String.toList) index
  have backward := getElem?_linesFrom true 0 0 (raws.map String.toList) index
  rw [given', Option.map_some] at forward backward
  refine ⟨_, List.getElem?_toArray.trans forward, ?_, splitEnding_ends raw.toList,
    List.getElem?_toArray.trans backward⟩
  exact splitEnding_append raw.toList

theorem byteSize_ofText (text : String) : (ofText text).byteSize = text.utf8ByteSize := by
  rw [ofText, byteSize_linesFrom, ← Text.byteLength_flatten, splitLines_flatten,
    Text.byteLength_toList]

theorem byteLength_raws (raws : List String) :
    (raws.map String.toList).map Text.byteLength = raws.map String.utf8ByteSize := by
  rw [List.map_map]
  exact List.map_congr_left fun raw _ => Text.byteLength_toList raw

theorem ending_ofText {text : String} {index : Nat} {line : Line}
    (found : (ofText text).line? index = some line) (inner : index + 1 < (ofText text).size) :
    line.ending = .lf ∨ line.ending = .crlf := by
  rw [line?, ofText, List.getElem?_toArray, getElem?_linesFrom] at found
  rw [size, ofText, List.size_toArray, length_linesFrom] at inner
  obtain ⟨raw, given, rfl⟩ := Option.map_eq_some_iff.mp found
  apply splitEnding_of_feed
  apply (splitLines_fed text.toList).2 raw
  rw [List.mem_iff_getElem?]
  refine ⟨index, ?_⟩
  rw [List.getElem?_dropLast, if_pos (by omega), given]

/-- The full lines of a text put together are the text, byte for byte, and those
of raw lines are the raw lines. Lines are numbered in order, begin where the ones
before them end, and only the last is marked as such. In a text no line holds a
line feed before its ending, no full line is empty, and every line but the last
ends in a line feed. The ending of a line is the longest that stands at its end.
Lines that are kept in reverse differ from the others in nothing but the order of
the characters of their texts. -/
theorem buffers_keep_all_of_source :
    (∀ text : String,
      (ofText text).lines.toList.flatMap Line.full = text.toList ∧
      (ofText text).EndToEnd ∧
      (ofText text).byteSize = text.utf8ByteSize ∧
      (∀ line ∈ (ofText text).lines,
        '\n' ∉ line.text ∧ line.full ≠ [] ∧ line.ending.Ends line.full) ∧
      ∀ index line, (ofText text).line? index = some line → index + 1 < (ofText text).size →
        line.ending = .lf ∨ line.ending = .crlf) ∧
    ∀ raws : List String,
      (ofLines raws).lines.toList.flatMap Line.full = raws.flatMap String.toList ∧
      (ofLines raws).EndToEnd ∧ (ofLinesReversed raws).EndToEnd ∧
      (ofLines raws).byteSize = (raws.map String.utf8ByteSize).sum ∧
      (ofLinesReversed raws).byteSize = (raws.map String.utf8ByteSize).sum ∧
      (ofLines raws).size = raws.length ∧ (ofLinesReversed raws).size = raws.length ∧
      ∀ index raw, raws[index]? = some raw →
        ∃ line, (ofLines raws).line? index = some line ∧ line.full = raw.toList ∧
          line.ending.Ends raw.toList ∧
          (ofLinesReversed raws).line? index = some { line with text := line.text.reverse } := by
  constructor
  · intro text
    refine ⟨?_, endToEnd_linesFrom false _, byteSize_ofText text, ?_, ?_⟩
    · rw [List.flatMap_def, ofText, full_linesFrom, splitLines_flatten]
    · intro line member
      obtain ⟨raw, ends⟩ := ends_of_mem_linesFrom (List.mem_toArray.mp member)
      exact ⟨plain_ofText text line member, (splitLines_fed text.toList).1 _ raw, ends⟩
    · intro index line
      exact ending_ofText
  · intro raws
    refine ⟨?_, endToEnd_linesFrom false _, endToEnd_linesFrom true _, ?_, ?_, ?_, ?_, ?_⟩
    · rw [List.flatMap_def, List.flatMap_def, ofLines, full_linesFrom]
    · rw [ofLines, byteSize_linesFrom, byteLength_raws]
    · rw [ofLinesReversed, byteSize_linesFrom, byteLength_raws]
    · rw [size, ofLines, List.size_toArray, length_linesFrom, List.length_map]
    · rw [size, ofLinesReversed, List.size_toArray, length_linesFrom, List.length_map]
    · intro index raw
      exact line?_ofLines

/-- A text with three kinds of endings, and raw lines, the second with a line feed
inside and the last without an ending, that are kept in reverse. -/
theorem mixed_endings_are_kept :
    let text := "é\r\n\n\rb\r"
    let raws := ["aé\r", "x\ny\r\n", ""]
    (ofText text).lines.toList =
      [⟨['é'], 0, 0, .crlf, false⟩, ⟨[], 1, 4, .lf, false⟩, ⟨['\r', 'b'], 2, 5, .cr, true⟩] ∧
    (ofText text).lines.toList.flatMap Line.full = text.toList ∧ (ofText text).byteSize = 8 ∧
    (∀ line, (ofText text).line? 1 = some line → line.ending = .lf ∨ line.ending = .crlf) ∧
    (ofLinesReversed raws).lines.toList =
      [⟨['é', 'a'], 0, 0, .cr, false⟩, ⟨['y', '\n', 'x'], 1, 4, .crlf, false⟩,
        ⟨[], 2, 9, .none, true⟩] ∧
    (ofLinesReversed raws).byteSize = 9 ∧
    ∃ line, (ofLines raws).line? 1 = some line ∧ line.full = "x\ny\r\n".toList ∧
      (ofLinesReversed raws).line? 1 = some { line with text := line.text.reverse } := by
  intro text raws
  obtain ⟨kept, _, size, _, fed⟩ := buffers_keep_all_of_source.1 text
  obtain ⟨_, _, _, _, size', _, _, same⟩ := buffers_keep_all_of_source.2 raws
  obtain ⟨line, found, full, _, turned⟩ := same 1 "x\ny\r\n" rfl
  have inner : 1 + 1 < (ofText text).size := by decide +kernel
  refine ⟨by decide +kernel, kept, size, fun line found => fed 1 line found inner,
    by decide +kernel, size', line, found, full, turned⟩

end Buffer

end LineGrammar
