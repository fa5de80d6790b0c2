import LineGrammar.Buffer.Excerpt
import LineGrammar.Buffer.Source

/-!
Buffers without their line endings. A bare line has forgotten how it was ended
and how many bytes stand before it; all that a buffer is asked for on the way of
a parse can be told from its bare lines. Lines that are given one by one make the
same bare buffer as the text in which each of them is ended by a line feed, with
or without a carriage return before it.
-/

namespace LineGrammar

/-- The line without its ending, as if nothing stood before it. -/
def Line.bare (line : Line) : Line := { line with offset := 0, ending := .none }

@[simp]
theorem Line.bare_text (line : Line) : line.bare.text = line.text := rfl

/-- Whether a text is one line, and nothing of it would be taken for its ending. -/
def Text.Unbroken (text : List Char) : Prop := '\n' ∉ text ∧ text.getLast? ≠ some '\r'

instance (text : List Char) : Decidable (Text.Unbroken text) := inferInstanceAs (Decidable (_ ∧ _))

theorem Text.unbroken_of_not_mem {text : List Char} (noFeed : '\n' ∉ text)
    (noReturn : '\r' ∉ text) : Text.Unbroken text :=
  ⟨noFeed, fun last => noReturn (List.mem_of_getLast? last)⟩

theorem Text.Unbroken.splitEnding_append {text : List Char} (unbroken : Text.Unbroken text)
    (ending : LineEnding) : splitEnding (text ++ ending.chars) = (text, ending) := by
  -- Endings are read from the back.
  obtain ⟨back, rfl⟩ : ∃ back, text = back.reverse := ⟨text.reverse, by simp⟩
  have noFeed : '\n' ∉ back := by simpa using unbroken.1
  have noReturn : back.head? ≠ some '\r' := by simpa using unbroken.2
  unfold splitEnding
  cases ending with
  | none =>
      simp only [LineEnding.chars, List.append_nil, List.reverse_reverse]
      split
      · exact absurd (by simp) noFeed
      · exact absurd (by simp) noFeed
      · exact absurd rfl noReturn
      · rfl
  | lf =>
      simp only [LineEnding.chars, List.reverse_append, List.reverse_reverse,
        List.reverse_singleton, List.singleton_append]
      split
      · rename_i same
        cases same
        exact absurd rfl noReturn
      · rename_i same
        cases same
        rfl
      · rename_i same
        cases same
      · rename_i never _
        exact absurd rfl (never back)
  | crlf => simp [LineEnding.chars]
  | cr => simp [LineEnding.chars]

theorem Text.Unbroken.splitEnding_eq {text : List Char} (unbroken : Text.Unbroken text) :
    splitEnding text = (text, .none) := by
  have same := unbroken.splitEnding_append .none
  rwa [LineEnding.chars, List.append_nil] at same

namespace Buffer

def bare (buffer : Buffer) : Buffer := { buffer with lines := buffer.lines.map Line.bare }

theorem splitLines_append {head : List Char} (noFeed : '\n' ∉ head) (tail : List Char) :
    splitLines (head ++ '\n' :: tail) = (head ++ ['\n']) :: splitLines tail := by
  induction head with
  | nil => simp [splitLines]
  | cons char rest induction =>
      have other : char ≠ '\n' := by
        intro same
        exact noFeed (by simp [same])
      have later : '\n' ∉ rest := by
        intro member
        exact noFeed (by simp [member])
      simp [splitLines, other, induction later]

theorem splitLines_flatMap {ending : LineEnding} (feeds : '\n' ∈ ending.chars)
    {texts : List (List Char)} (unbroken : ∀ text ∈ texts, Text.Unbroken text) :
    splitLines (texts.flatMap (· ++ ending.chars)) = texts.map (· ++ ending.chars) := by
  obtain ⟨before, noFeed, chars⟩ : ∃ before, '\n' ∉ before ∧ ending.chars = before ++ ['\n'] := by
    cases ending with
    | none => cases feeds
    | lf => exact ⟨[], by simp, rfl⟩
    | crlf => exact ⟨['\r'], by decide, rfl⟩
    | cr => exact absurd feeds (by decide)
  induction texts with
  | nil => rfl
  | cons text later induction =>
      have rest := induction fun other member => unbroken other (by simp [member])
      have noFeed : '\n' ∉ text ++ before := by simp [noFeed, (unbroken text (by simp)).1]
      have first := splitLines_append noFeed (later.flatMap (· ++ ending.chars))
      rw [rest] at first
      simpa [chars] using first

theorem linesFrom_bare {texts : List (List Char)} (unbroken : ∀ text ∈ texts, Text.Unbroken text)
    (reversed : Bool) (ending other : LineEnding) (index offset offset' : Nat) :
    (linesFrom reversed index offset (texts.map (· ++ ending.chars))).map Line.bare =
      (linesFrom reversed index offset' (texts.map (· ++ other.chars))).map Line.bare := by
  induction texts generalizing index offset offset' with
  | nil => rfl
  | cons text later induction =>
      have first := (unbroken text (by simp)).splitEnding_append
      have rest := induction fun other member => unbroken other (by simp [member])
      simp only [List.map_cons, linesFrom, first, List.isEmpty_map]
      rw [rest]
      rfl

/-- A text that is made of ended lines has the same bare lines as these lines. -/
theorem ofText_bare {ending : LineEnding} (feeds : '\n' ∈ ending.chars) {lines : List String}
    (unbroken : ∀ line ∈ lines, Text.Unbroken line.toList) :
    (ofText (String.join (lines.map (· ++ String.ofList ending.chars)))).bare =
      (ofLines lines).bare := by
  have unbroken : ∀ text ∈ lines.map String.toList, Text.Unbroken text := by simpa using unbroken
  have chars : (String.join (lines.map (· ++ String.ofList ending.chars))).toList =
      (lines.map String.toList).flatMap (· ++ ending.chars) := by
    simp [String.toList_join, List.flatMap_map]
  have same := linesFrom_bare unbroken false ending .none 0 0 0
  have nothing : LineEnding.none.chars = [] := rfl
  simp only [nothing, List.append_nil, List.map_id'] at same
  unfold bare ofText ofLines
  simp only [chars, splitLines_flatMap feeds unbroken, List.map_toArray, same]

variable (buffer : Buffer)

@[simp]
theorem bare_size : buffer.bare.size = buffer.size := by simp [size, bare]

@[simp]
theorem bare_isEmpty : buffer.bare.isEmpty = buffer.isEmpty := by
  simp [isEmpty, bare, Array.isEmpty]

@[simp]
theorem bare_line? (index : Nat) : buffer.bare.line? index = (buffer.line? index).map Line.bare := by
  simp [line?, bare]

@[simp]
theorem bare_textAt (index : Nat) : buffer.bare.textAt index = buffer.textAt index := by
  unfold textAt
  rw [bare_line?]
  cases buffer.line? index with
  | none => rfl
  | some line => rfl

@[simp]
theorem bare_charCount : buffer.bare.charCount = buffer.charCount := by
  simp [charCount, bare, List.foldr_map]

@[simp]
theorem bare_lastPosition : buffer.bare.lastPosition = buffer.lastPosition := by
  have last : buffer.bare.lines.back? = buffer.lines.back?.map Line.bare := by
    simp [bare, Array.back?_map]
  unfold lastPosition
  rw [last, bare_size]
  cases buffer.lines.back? with
  | none => rfl
  | some line => rfl

@[simp]
theorem bare_clamp (position : Position) : buffer.bare.clamp position = buffer.clamp position := by
  unfold clamp
  rw [bare_line?, bare_lastPosition]
  cases buffer.line? position.line with
  | none => rfl
  | some line => rfl

@[simp]
theorem bare_between (start stop : Position) :
    buffer.bare.between start stop = buffer.between start stop := by
  have texts : (buffer.bare.lines.toList.map Line.text) = buffer.lines.toList.map Line.text := by
    simp [bare, Function.comp_def]
  have lines : buffer.bare.linesBetween start stop = buffer.linesBetween start stop := by
    simp only [linesBetween, bare_clamp, bare_isEmpty, bare_textAt, List.map_take, List.map_drop,
      texts]
  unfold between betweenWith
  rw [lines]

@[simp]
theorem bare_excerptAt (position : Position) (width : Nat) :
    buffer.bare.excerptAt position width = buffer.excerptAt position width := by
  unfold excerptAt excerpt
  simp only [bare_clamp, bare_line?]
  cases buffer.line? (buffer.clamp position).line with
  | none => rfl
  | some line => rfl

end Buffer

end LineGrammar
