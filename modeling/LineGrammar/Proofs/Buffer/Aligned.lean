import LineGrammar.Proofs.Buffer.Extract

/-!
Excerpts and their markers. An excerpt is cut out of a line at character
boundaries: it holds the marked span and on either side of it the fewest
characters that take up the width asked for, or all there are. The marker is laid
out by characters, so it stands exactly below the span. None of the cuts can fail,
and neither can bringing the end of the span between the other bounds, even if
sums cannot exceed some largest number.
-/

namespace LineGrammar

namespace Text

theorem AtBoundary.of_cons {char : Char} {rest : List Char} {offset : Nat}
    (boundary : AtBoundary (char :: rest) offset) (positive : 0 < offset) :
    char.utf8Size ≤ offset ∧ AtBoundary rest (offset - char.utf8Size) := by
  have taken := boundary.byteLength_takeBytes
  unfold takeBytes at taken
  split at taken
  · rename_i fits
    rw [byteLength_cons] at taken
    refine ⟨fits, ?_⟩
    unfold AtBoundary floorBoundary
    omega
  · rw [byteLength_nil] at taken
    omega

theorem AtBoundary.ceilBoundary_le {text : List Char} {offset stop : Nat}
    (boundary : AtBoundary text stop) (ordered : offset ≤ stop) :
    ceilBoundary text offset ≤ stop := by
  induction text generalizing offset stop with
  | nil => exact Nat.zero_le stop
  | cons char rest induction =>
      rw [ceilBoundary]
      split
      · exact Nat.zero_le stop
      · obtain ⟨fits, inner⟩ := boundary.of_cons (by omega)
        have later : ceilBoundary rest (offset - char.utf8Size) ≤ stop - char.utf8Size := by
          apply induction inner
          omega
        omega

theorem AtBoundary.byteLength_sliceBytes {text : List Char} {start stop : Nat}
    (first : AtBoundary text start) (second : AtBoundary text stop) (ordered : start ≤ stop) :
    start + byteLength (sliceBytes start stop text) = stop := by
  have parts := congrArg byteLength (first.takeBytes_eq_append ordered)
  rw [byteLength_append, first.byteLength_takeBytes, second.byteLength_takeBytes] at parts
  exact parts.symm

theorem AtBoundary.sliceBytes_append {text : List Char} {start middle stop : Nat}
    (first : AtBoundary text start) (second : AtBoundary text middle) (early : start ≤ middle)
    (late : middle ≤ stop) :
    sliceBytes start middle text ++ sliceBytes middle stop text = sliceBytes start stop text := by
  have once := first.takeBytes_eq_append (Nat.le_trans early late)
  have twice := second.takeBytes_eq_append late
  rw [first.takeBytes_eq_append early, List.append_assoc, once] at twice
  exact (List.append_cancel_left twice).symm

theorem AtBoundary.dropBytes_eq_append {text : List Char} {start stop : Nat}
    (first : AtBoundary text start) (ordered : start ≤ stop) :
    dropBytes start text = sliceBytes start stop text ++ dropBytes stop text := by
  have whole := (takeBytes_append_dropBytes start text).trans
    (takeBytes_append_dropBytes stop text).symm
  rw [first.takeBytes_eq_append ordered, List.append_assoc] at whole
  exact List.append_cancel_left whole

theorem eq_nil_of_byteLength {text : List Char} (none : byteLength text = 0) : text = [] := by
  cases text with
  | nil => rfl
  | cons char rest =>
      have size := char.utf8Size_pos
      rw [byteLength_cons] at none
      omega

theorem floorBoundary_min (text : List Char) (offset : Nat) :
    floorBoundary text (min offset (byteLength text)) = floorBoundary text offset := by
  have whole := at_boundary_byteLength text
  rcases Nat.le_total offset (byteLength text) with inside | outside
  · rw [Nat.min_eq_left inside]
  · have atLeast := whole.le_floorBoundary outside
    have atMost := (at_boundary_floorBoundary text offset).le_byteLength
    rw [Nat.min_eq_right outside, show floorBoundary text (byteLength text) = _ from whole]
    omega

/-- Where an excerpt begins that shows `width` bytes before an offset. -/
def windowStart (text : List Char) (start width : Nat) : Nat :=
  if width = 0 then 0 else floorBoundary text (start - width)

def windowEnd (text : List Char) (stop width : Nat) : Nat :=
  if width = 0 then byteLength text
  else ceilBoundary text (min (stop + width) (byteLength text))

theorem windowStart_spec (text : List Char) (start width : Nat) :
    AtBoundary text (windowStart text start width) ∧ windowStart text start width ≤ start := by
  unfold windowStart
  split
  · exact ⟨at_boundary_zero text, Nat.zero_le start⟩
  · have rounded := floorBoundary_le text (start - width)
    exact ⟨at_boundary_floorBoundary text _, by omega⟩

theorem AtBoundary.windowEnd_spec {text : List Char} {stop : Nat} (there : AtBoundary text stop)
    (width : Nat) :
    AtBoundary text (windowEnd text stop width) ∧ stop ≤ windowEnd text stop width := by
  have inside := there.le_byteLength
  unfold windowEnd
  split
  · exact ⟨at_boundary_byteLength text, inside⟩
  · have rounded := @le_ceilBoundary text _ (Nat.min_le_right (stop + width) (byteLength text))
    exact ⟨at_boundary_ceilBoundary text _, by omega⟩

/-- Rounding down shows at least so many bytes before a boundary, or all there are,
and one character fewer would not do. -/
theorem AtBoundary.shown_before {text : List Char} {start width : Nat}
    (here : AtBoundary text start) (positive : 0 < width) :
    let first := windowStart text start width
    (takeBytes first text = [] ∨ width ≤ byteLength (sliceBytes first start text)) ∧
      ∀ char inner, sliceBytes first start text = char :: inner → byteLength inner < width := by
  intro first
  obtain ⟨boundary, ordered⟩ : AtBoundary text first ∧ first ≤ start :=
    windowStart_spec text start width
  have rounds : first = floorBoundary text (start - width) := if_neg (Nat.ne_of_gt positive)
  have rounded := floorBoundary_le text (start - width)
  have length := boundary.byteLength_sliceBytes here ordered
  constructor
  · rcases Nat.lt_or_ge start width with short | long
    · have atStart : first = 0 := by omega
      rw [atStart, ← sliceBytes_zero]
      exact .inl (at_boundary_zero text).sliceBytes_self
    · exact .inr (by omega)
  · intro char inner shown
    rw [shown, byteLength_cons] at length
    have size := char.utf8Size_pos
    have follows : dropBytes first text = [char] ++ (inner ++ dropBytes start text) := by
      rw [boundary.dropBytes_eq_append ordered, shown]
      rfl
    have next : AtBoundary text (first + char.utf8Size) := boundary.add follows
    by_contra enough
    have reached := next.le_floorBoundary (show first + char.utf8Size ≤ start - width by omega)
    omega

theorem AtBoundary.shown_after {text : List Char} {stop width : Nat}
    (there : AtBoundary text stop) (positive : 0 < width) :
    let last := windowEnd text stop width
    (dropBytes last text = [] ∨ width ≤ byteLength (sliceBytes stop last text)) ∧
      ∀ inner char, sliceBytes stop last text = inner ++ [char] → byteLength inner < width := by
  intro last
  obtain ⟨boundary, ordered⟩ : AtBoundary text last ∧ stop ≤ last := there.windowEnd_spec width
  have rounds : last = ceilBoundary text (min (stop + width) (byteLength text)) :=
    if_neg (Nat.ne_of_gt positive)
  have rounded := @le_ceilBoundary text _ (Nat.min_le_right (stop + width) (byteLength text))
  have length := there.byteLength_sliceBytes boundary ordered
  constructor
  · rcases Nat.lt_or_ge (stop + width) (byteLength text) with inside | outside
    · exact .inr (by omega)
    · have left := boundary.byteLength_dropBytes
      exact .inl (eq_nil_of_byteLength (by omega))
  · intro inner char shown
    rw [shown, byteLength_append, byteLength_cons, byteLength_nil] at length
    have size := char.utf8Size_pos
    have follows : dropBytes stop text = inner ++ ([char] ++ dropBytes last text) := by
      rw [there.dropBytes_eq_append ordered, shown, List.append_assoc]
    have previous : AtBoundary text (stop + byteLength inner) := there.add follows
    by_contra enough
    have reached := @AtBoundary.ceilBoundary_le text (min (stop + width) (byteLength text)) _
      previous (by omega)
    omega

end Text

namespace Buffer

/-- A line in pieces: an excerpt, which is made up of a span and what is shown on
either side of it, and what is left out. -/
structure Excerpt where
  before : List Char
  lead : List Char
  span : List Char
  trail : List Char
  after : List Char
  deriving DecidableEq, Repr

namespace Excerpt

/-- The excerpt and below it a marker: a dash for every character of the span, or
a caret if it has none, after a blank for every character before it. -/
def render (pieces : Excerpt) : String :=
  String.ofList (pieces.lead ++ pieces.span ++ pieces.trail) ++ "\n" ++
    String.ofList (pieces.lead.map (fun _ => ' ') ++
      if pieces.span = [] then ['^'] else pieces.span.map fun _ => '-')

/-- Whether the pieces are those of a line around the span between two columns:
on either side the fewest characters that take up `width` bytes, or all that there
are; all for width 0. -/
structure Shows (pieces : Excerpt) (text : List Char) (start stop width : Nat) : Prop where
  whole : pieces.before ++ pieces.lead ++ pieces.span ++ pieces.trail ++ pieces.after = text
  start : Text.byteLength (pieces.before ++ pieces.lead) = start
  stop : Text.byteLength (pieces.before ++ pieces.lead ++ pieces.span) = stop
  all : width = 0 → pieces.before = [] ∧ pieces.after = []
  enough_before : 0 < width → pieces.before = [] ∨ width ≤ Text.byteLength pieces.lead
  enough_after : 0 < width → pieces.after = [] ∨ width ≤ Text.byteLength pieces.trail
  fewest_before : 0 < width → ∀ char inner, pieces.lead = char :: inner →
    Text.byteLength inner < width
  fewest_after : 0 < width → ∀ inner char, pieces.trail = inner ++ [char] →
    Text.byteLength inner < width

end Excerpt

/-- Where a span that begins at a place of a line ends in the line: at the end of
the line if it goes on in another one, and not before it begins. -/
def spanEnd (line : Line) (place stop : Position) : Nat :=
  if stop.line = place.line then max place.column (Text.floorBoundary line.text stop.column)
  else line.length

variable (buffer : Buffer)

/-- The line around a span with its marker, if no difference is below zero, every
cut is exact and bounds are in order; sums that would exceed `limit` stay there. -/
def excerptUpTo? (limit : Nat) (start stop : Position) (width : Nat) : Option String := do
  let start ← buffer.clamp? start
  match buffer.line? start.line with
  | none => some ""
  | some line => do
      let text := line.text
      if line.length < start.column then none
      let stopColumn :=
        if stop.line = start.line then
          Text.floorBoundary text (max start.column (min stop.column line.length))
        else line.length
      let first := if width = 0 then 0 else Text.floorBoundary text (start.column - width)
      let last :=
        if width = 0 then line.length
        else Text.ceilBoundary text (min (min (stopColumn + width) limit) line.length)
      let shown ← Text.cut? first last text
      let lead ← Text.cut? first start.column text
      let span ← Text.cut? start.column stopColumn text
      return String.ofList (shown ++ '\n' :: marker lead.length span.length)

variable {buffer}

theorem excerptUpTo?_eq {limit : Nat} (fits : ∀ line ∈ buffer.lines, line.length ≤ limit)
    (start stop : Position) (width : Nat) :
    buffer.excerptUpTo? limit start stop width = some (buffer.excerpt start stop width) := by
  rw [← excerpt?_eq]
  simp only [excerptUpTo?, excerpt?, clamp?_eq, Option.bind_eq_bind, Option.bind_some]
  cases found : buffer.line? (buffer.clamp start).line with
  | none => rfl
  | some line =>
      have small : line.length ≤ limit := fits line (Array.mem_of_getElem? found)
      have bounded : ∀ sum, min (min sum limit) line.length = min sum line.length := by
        intro sum
        omega
      simp only [bounded]

namespace Excerpt

def cut (text : List Char) (start stop width : Nat) : Excerpt :=
  let first := Text.windowStart text start width
  let last := Text.windowEnd text stop width
  { before := Text.takeBytes first text
    lead := Text.sliceBytes first start text
    span := Text.sliceBytes start stop text
    trail := Text.sliceBytes stop last text
    after := Text.dropBytes last text }

variable {text : List Char} {start stop : Nat}

theorem shows_cut (here : Text.AtBoundary text start) (there : Text.AtBoundary text stop)
    (ordered : start ≤ stop) (width : Nat) :
    (cut text start stop width).Shows text start stop width := by
  obtain ⟨begins, early⟩ := Text.windowStart_spec text start width
  obtain ⟨_, late⟩ := there.windowEnd_spec width
  have upToStart := begins.takeBytes_eq_append early
  have upToStop := here.takeBytes_eq_append ordered
  have upToLast := there.takeBytes_eq_append late
  refine ⟨?_, ?_, ?_, ?_, ?_, ?_, ?_, ?_⟩
  · simp only [cut, ← upToStart, ← upToStop, ← upToLast, Text.takeBytes_append_dropBytes]
  · simp only [cut, ← upToStart, here.byteLength_takeBytes]
  · simp only [cut, ← upToStart, ← upToStop, there.byteLength_takeBytes]
  · intro none
    have first : Text.windowStart text start width = 0 := if_pos none
    have last : Text.windowEnd text stop width = Text.byteLength text := if_pos none
    simp only [cut, first, last]
    constructor
    · rw [← Text.sliceBytes_zero, (Text.at_boundary_zero text).sliceBytes_self]
    · exact Text.eq_nil_of_byteLength
        (Nat.add_eq_left.mp (Text.at_boundary_byteLength text).byteLength_dropBytes)
  · exact fun positive => (here.shown_before positive).1
  · exact fun positive => (there.shown_after positive).1
  · exact fun positive => (here.shown_before positive).2
  · exact fun positive => (there.shown_after positive).2

theorem shown_cut (here : Text.AtBoundary text start) (there : Text.AtBoundary text stop)
    (ordered : start ≤ stop) (width : Nat) :
    (cut text start stop width).lead ++ (cut text start stop width).span ++
        (cut text start stop width).trail =
      Text.sliceBytes (Text.windowStart text start width) (Text.windowEnd text stop width)
        text := by
  obtain ⟨begins, early⟩ := Text.windowStart_spec text start width
  obtain ⟨_, late⟩ := there.windowEnd_spec width
  simp only [cut]
  rw [begins.sliceBytes_append here early ordered,
    begins.sliceBytes_append there (Nat.le_trans early ordered) late]

theorem render_eq (pieces : Excerpt) :
    pieces.render = String.ofList (pieces.lead ++ pieces.span ++ pieces.trail ++
      '\n' :: marker pieces.lead.length pieces.span.length) := by
  rw [← String.toList_inj]
  simp [render, marker]

end Excerpt

theorem spanEnd_eq {line : Line} {place stop : Position}
    (here : Text.AtBoundary line.text place.column) :
    (if stop.line = place.line then
        Text.floorBoundary line.text (max place.column (min stop.column line.length))
      else line.length) = spanEnd line place stop := by
  unfold spanEnd
  split
  · have inside : place.column ≤ line.length := here.le_byteLength
    have rounded := Text.floorBoundary_le line.text stop.column
    rcases Nat.le_total stop.column place.column with back | onward
    · rw [Nat.max_eq_left (by omega), Nat.max_eq_left (by omega)]
      exact here
    · have atLeast := here.le_floorBoundary onward
      rw [Nat.max_eq_right (by omega), Nat.max_eq_right atLeast]
      exact Text.floorBoundary_min line.text stop.column
  · rfl

theorem spanEnd_spec {line : Line} {place stop : Position}
    (here : Text.AtBoundary line.text place.column) :
    Text.AtBoundary line.text (spanEnd line place stop) ∧
      place.column ≤ spanEnd line place stop := by
  have whole := Text.at_boundary_byteLength line.text
  rw [← spanEnd_eq here]
  split
  · exact ⟨Text.at_boundary_floorBoundary _ _, here.le_floorBoundary (Nat.le_max_left _ _)⟩
  · exact ⟨whole, here.le_byteLength⟩

/-- An excerpt is made of the pieces of the line to which the start of the span is
clamped. -/
theorem excerpt_eq_render {line : Line} {start stop : Position} {width : Nat}
    (found : buffer.line? (buffer.clamp start).line = some line)
    (here : Text.AtBoundary line.text (buffer.clamp start).column) :
    buffer.excerpt start stop width = (Excerpt.cut line.text (buffer.clamp start).column
      (spanEnd line (buffer.clamp start) stop) width).render := by
  obtain ⟨there, ordered⟩ := @spanEnd_spec line (buffer.clamp start) stop here
  rw [Excerpt.render_eq, Excerpt.shown_cut here there ordered]
  simp only [excerpt, found, spanEnd_eq here]
  rfl

/-- In a buffer with lines, the excerpt around a span shows the line in which the
span begins, after clamping, cut at character boundaries: the span, up to its end
in that line, and on either side of it at least `width` bytes or all there are,
with no character more than that takes; the whole line for width 0. The marker has
a blank for every character shown before the span, and then a dash for every
character of the span or a single caret if it has none. No cut fails and no bounds
cross, and as long as lines are no longer than some largest number it does not
matter that sums stop there. -/
theorem excerpts_are_aligned (buffer : Buffer) (filled : buffer.isEmpty = false)
    (start stop : Position) (width : Nat) :
    let place := buffer.clamp start
    (∃ line pieces, buffer.line? place.line = some line ∧
      Excerpt.Shows pieces line.text place.column (spanEnd line place stop) width ∧
      buffer.excerpt start stop width = pieces.render) ∧
    ∀ limit, (∀ line ∈ buffer.lines, line.length ≤ limit) →
      buffer.excerptUpTo? limit start stop width = some (buffer.excerpt start stop width) := by
  intro place
  obtain ⟨line, found, here⟩ := clamp_spec filled start
  obtain ⟨there, ordered⟩ := @spanEnd_spec line place stop here
  refine ⟨⟨line, _, found, Excerpt.shows_cut here there ordered width, ?_⟩, ?_⟩
  · exact excerpt_eq_render found here
  · intro limit fits
    exact excerptUpTo?_eq fits start stop width

/-- A span from inside one character of two bytes to inside another, with one byte
around it and with as many as there can be. -/
theorem marker_stands_below_span :
    let buffer : Buffer := .ofLines ["héllo wörld"]
    let start : Position := ⟨0, 2⟩
    let stop : Position := ⟨0, 9⟩
    let largest := 18446744073709551615
    buffer.isEmpty = false ∧ buffer.clamp start = ⟨0, 1⟩ ∧
      buffer.excerpt start stop 1 = "héllo wö\n ------" ∧
      (∃ line pieces, buffer.line? 0 = some line ∧
        Excerpt.Shows pieces line.text 1 (spanEnd line (buffer.clamp start) stop) 1 ∧
        buffer.excerpt start stop 1 = pieces.render) ∧
      (∀ line ∈ buffer.lines, line.length ≤ largest) ∧
      buffer.excerptUpTo? largest start stop largest = some "héllo wörld\n ------" := by
  intro buffer start stop largest
  have filled : buffer.isEmpty = false := by decide +kernel
  have fits : ∀ line ∈ buffer.lines, line.length ≤ largest := by decide +kernel
  have shown := (excerpts_are_aligned buffer filled start stop 1).1
  have uncut := (excerpts_are_aligned buffer filled start stop largest).2 largest fits
  have whole : buffer.excerpt start stop largest = "héllo wörld\n ------" := by decide +kernel
  rw [whole] at uncut
  exact ⟨filled, by decide +kernel, by decide +kernel, shown, fits, uncut⟩

end Buffer

end LineGrammar
