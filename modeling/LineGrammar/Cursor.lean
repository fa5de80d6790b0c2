import LineGrammar.Buffer.Excerpt
import LineGrammar.Regex.Basic
import LineGrammar.Text.Quoted

/-!
A place in a buffer and the movements from it. A cursor stands on a character
boundary of a line, the end of the line included, or at the end of the buffer,
which is column 0 of the line after the last one. Moving by characters crosses
line breaks, each of which counts as one character.
-/

namespace LineGrammar

structure Cursor where
  buffer : Buffer
  position : Position
  deriving DecidableEq, Repr

namespace Cursor

def bufferEnd (buffer : Buffer) : Position := ⟨buffer.size, 0⟩

/-- The place nearest to a position at which a cursor may stand: a column past
the line end is the line end, one inside a character its start, and a line past
the last one the end of the buffer. -/
def settle (buffer : Buffer) (position : Position) : Position :=
  match buffer.line? position.line with
  | some line => ⟨position.line, Text.floorBoundary line.text position.column⟩
  | none => bufferEnd buffer

def near (buffer : Buffer) (position : Position) : Cursor :=
  ⟨buffer, settle buffer position⟩

variable (cursor : Cursor)

def moveTo (position : Position) : Cursor := .near cursor.buffer position

def line? : Option Line := cursor.buffer.line? cursor.position.line

def text : List Char := cursor.buffer.textAt cursor.position.line

def before : List Char := Text.takeBytes cursor.position.column cursor.text

def rest : List Char := Text.dropBytes cursor.position.column cursor.text

def atEnd : Bool := cursor.buffer.size ≤ cursor.position.line

def atLineStart : Bool := !cursor.atEnd && cursor.position.column == 0

def atLineEnd : Bool :=
  match cursor.line? with
  | some line => line.length ≤ cursor.position.column
  | none => false

def ahead (count : Nat) : List Char := cursor.rest.take count

def behind (count : Nat) : List Char := cursor.before.drop (cursor.before.length - count)

def skipBytes (count : Nat) : Cursor :=
  match cursor.line? with
  | some line =>
      { cursor with
        position := ⟨cursor.position.line, min (cursor.position.column + count) line.length⟩ }
  | none => cursor

/-- The position `count` characters after a column of the first of `lines`,
which has the given index. -/
def forward : Nat → Nat → Nat → List Line → Position
  | _, index, _, [] => ⟨index, 0⟩
  | count, index, column, line :: later =>
      let rest := Text.dropBytes column line.text
      if count ≤ rest.length then ⟨index, column + Text.byteLength (rest.take count)⟩
      else forward (count - rest.length - 1) (index + 1) 0 later

def advance (count : Nat) : Cursor :=
  let lines := cursor.buffer.lines.toList.drop cursor.position.line
  { cursor with position := forward count cursor.position.line cursor.position.column lines }

/-- The position `count` characters before a column of a line. -/
def backward (buffer : Buffer) (count : Nat) (index column : Nat) : Position :=
  let before := Text.takeBytes column (buffer.textAt index)
  if count ≤ before.length then
    ⟨index, Text.byteLength (before.take (before.length - count))⟩
  else
    match index with
    | 0 => .origin
    | index + 1 =>
        backward buffer (count - before.length - 1) index (Text.byteLength (buffer.textAt index))

def retreat (count : Nat) : Cursor :=
  if count = 0 then cursor
  else if cursor.atEnd then
    if cursor.buffer.isEmpty then cursor
    else
      let last := cursor.buffer.lastPosition
      { cursor with position := backward cursor.buffer (count - 1) last.line last.column }
  else
    { cursor with
      position := backward cursor.buffer count cursor.position.line cursor.position.column }

def nextLine : Cursor :=
  { cursor with
    position :=
      if cursor.position.line + 1 < cursor.buffer.size then ⟨cursor.position.line + 1, 0⟩
      else bufferEnd cursor.buffer }

def toLineStart : Cursor :=
  if cursor.atEnd then cursor else { cursor with position := ⟨cursor.position.line, 0⟩ }

def toLineEnd : Cursor :=
  match cursor.line? with
  | some line => { cursor with position := ⟨cursor.position.line, line.length⟩ }
  | none => cursor

def toBufferEnd : Cursor := { cursor with position := bufferEnd cursor.buffer }

def textFrom (start : Position) : String := cursor.buffer.between start cursor.position

def excerpt (width : Nat) : String := cursor.buffer.excerptAt cursor.position width

def matchRegex (regex : Regex) : Option Regex.Captures :=
  cursor.line?.bind fun line => regex.matchAt line.text cursor.position.column

/-- The first match of a pattern at or after the cursor on its line. -/
def search (regex : Regex) : Option Regex.Captures :=
  cursor.line?.bind fun line => regex.search line.text cursor.position.column

def previewWidth : Nat := 33

def preview : String := Text.preview previewWidth cursor.rest

def render : String := cursor.position.render ++ " " ++ cursor.preview

end Cursor

inductive Movement where
  | advance (count : Nat)
  | retreat (count : Nat)
  | lineStart
  | lineEnd
  | bufferEnd
  | nextLine
  | to (position : Position)
  deriving DecidableEq, Repr

def Movement.apply : Movement → Cursor → Cursor
  | .advance count, cursor => cursor.advance count
  | .retreat count, cursor => cursor.retreat count
  | .lineStart, cursor => cursor.toLineStart
  | .lineEnd, cursor => cursor.toLineEnd
  | .bufferEnd, cursor => cursor.toBufferEnd
  | .nextLine, cursor => cursor.nextLine
  | .to position, cursor => cursor.moveTo position

end LineGrammar
