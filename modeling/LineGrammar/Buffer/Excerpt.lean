import LineGrammar.Buffer.Basic

/-!
Excerpts of a line with a marker line below: dashes under a span, a caret at a
single position. Columns count bytes and the marker is laid out by characters,
so every column is first brought to a character boundary.
-/

namespace LineGrammar.Buffer

variable (buffer : Buffer)

/-- The marker of a span of `length` characters after `lead` others. -/
def marker (lead length : Nat) : List Char :=
  List.replicate lead ' ' ++ if length = 0 then ['^'] else List.replicate length '-'

/-- The line around a span, at least `width` bytes on both sides or all of it
for width 0, and the marker of the span. A span over several lines is shown up
to the end of its first line. -/
def excerpt (start stop : Position) (width : Nat) : String :=
  let start := buffer.clamp start
  match buffer.line? start.line with
  | none => ""
  | some line =>
      let text := line.text
      let stopColumn :=
        if stop.line = start.line then
          Text.floorBoundary text (max start.column (min stop.column line.length))
        else line.length
      let first := if width = 0 then 0 else Text.floorBoundary text (start.column - width)
      let last :=
        if width = 0 then line.length
        else Text.ceilBoundary text (min (stopColumn + width) line.length)
      let lead := (Text.sliceBytes first start.column text).length
      let length := (Text.sliceBytes start.column stopColumn text).length
      String.ofList (Text.sliceBytes first last text ++ '\n' :: marker lead length)

def excerptAt (position : Position) (width : Nat) : String :=
  buffer.excerpt position position width

end LineGrammar.Buffer
