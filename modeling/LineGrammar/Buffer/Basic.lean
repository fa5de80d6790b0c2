import LineGrammar.Buffer.Line
import LineGrammar.Buffer.Position

/-!
Line-indexed text. A buffer is built once, from raw lines or from one text, and
then only read. Positions that do not point into the buffer are first clamped:
a column to a character boundary within its line, a line past the last one to
the end of the buffer.
-/

namespace LineGrammar

structure Buffer where
  lines : Array Line
  /-- whether the characters of every line are stored in reverse -/
  reversed : Bool
  deriving DecidableEq, Repr

namespace Buffer

/-- Cuts a text after every line feed. -/
def splitLines : List Char → List (List Char)
  | [] => []
  | char :: rest =>
      if char = '\n' then [char] :: splitLines rest
      else
        match splitLines rest with
        | [] => [[char]]
        | first :: later => (char :: first) :: later

/-- The lines made of raw lines, the first of which has the given index and
byte offset. -/
def linesFrom (reversed : Bool) : Nat → Nat → List (List Char) → List Line
  | _, _, [] => []
  | index, offset, raw :: later =>
      let (text, ending) := splitEnding raw
      { text := if reversed then text.reverse else text
        index := index
        offset := offset
        ending := ending
        last := later.isEmpty } ::
        linesFrom reversed (index + 1) (offset + Text.byteLength raw) later

def ofLines (raws : List String) : Buffer :=
  ⟨(linesFrom false 0 0 (raws.map String.toList)).toArray, false⟩

def ofLinesReversed (raws : List String) : Buffer :=
  ⟨(linesFrom true 0 0 (raws.map String.toList)).toArray, true⟩

def ofText (text : String) : Buffer :=
  ⟨(linesFrom false 0 0 (splitLines text.toList)).toArray, false⟩

variable (buffer : Buffer)

def size : Nat := buffer.lines.size

def isEmpty : Bool := buffer.lines.isEmpty

def line? (index : Nat) : Option Line := buffer.lines[index]?

/-- The text of a line, empty for a line that does not exist. -/
def textAt (index : Nat) : List Char :=
  match buffer.line? index with
  | some line => line.text
  | none => []

/-- Number of source bytes, line endings included. -/
def byteSize : Nat :=
  match buffer.lines.back? with
  | some line => line.offset + line.length + Text.byteLength line.ending.chars
  | none => 0

/-- Number of characters, each line break counting as one. -/
def charCount : Nat :=
  buffer.lines.toList.foldr (fun line count => line.text.length + 1 + count) 0

def lastPosition : Position :=
  match buffer.lines.back? with
  | some line => ⟨buffer.size - 1, line.length⟩
  | none => .origin

def clamp (position : Position) : Position :=
  match buffer.line? position.line with
  | some line => ⟨position.line, Text.floorBoundary line.text position.column⟩
  | none => buffer.lastPosition

def before (position : Position) : String :=
  let position := buffer.clamp position
  String.ofList (Text.takeBytes position.column (buffer.textAt position.line))

def after (position : Position) : String :=
  let position := buffer.clamp position
  String.ofList (Text.dropBytes position.column (buffer.textAt position.line))

def linesBetween (start stop : Position) : List (List Char) :=
  let start := buffer.clamp start
  let stop := buffer.clamp stop
  if buffer.isEmpty || decide (stop < start) then []
  else if start.line = stop.line then
    [Text.sliceBytes start.column stop.column (buffer.textAt start.line)]
  else
    Text.dropBytes start.column (buffer.textAt start.line) ::
      ((buffer.lines.toList.drop (start.line + 1)).take (stop.line - start.line - 1)).map Line.text
      ++ [Text.takeBytes stop.column (buffer.textAt stop.line)]

/-- What lies between two positions, with `separator` for every line break. -/
def betweenWith (separator : String) (start stop : Position) : String :=
  String.ofList (List.intercalate separator.toList (buffer.linesBetween start stop))

def between (start stop : Position) : String := buffer.betweenWith "\n" start stop

end Buffer

end LineGrammar
