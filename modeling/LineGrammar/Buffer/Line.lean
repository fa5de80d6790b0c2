import LineGrammar.Text.Utf8
import LineGrammar.Text.Blank

/-!
One line of source text. Its ending is stored apart from its text, so that
nothing that reads the text can tell how the line was ended.
-/

namespace LineGrammar

inductive LineEnding where
  | none
  | lf
  | crlf
  | cr
  deriving DecidableEq, Repr

def LineEnding.chars : LineEnding → List Char
  | .none => []
  | .lf => ['\n']
  | .crlf => ['\r', '\n']
  | .cr => ['\r']

/-- Separates a line from its ending. A line feed takes a carriage return
before it along. -/
def splitEnding (raw : List Char) : List Char × LineEnding :=
  match raw.reverse with
  | '\n' :: '\r' :: rest => (rest.reverse, .crlf)
  | '\n' :: rest => (rest.reverse, .lf)
  | '\r' :: rest => (rest.reverse, .cr)
  | _ => (raw, .none)

structure Line where
  /-- the characters of the line, without its ending -/
  text : List Char
  index : Nat
  /-- number of source bytes before the line -/
  offset : Nat
  ending : LineEnding
  /-- whether no line follows -/
  last : Bool
  deriving DecidableEq, Repr

namespace Line

def length (line : Line) : Nat := Text.byteLength line.text

def isEmpty (line : Line) : Bool := line.text.isEmpty

def isWhite (line : Line) : Bool := (Text.trim line.text).isEmpty

def indent (line : Line) : List Char := Text.indentOf line.text

def trailing (line : Line) : List Char := Text.trailingOf line.text

def full (line : Line) : List Char := line.text ++ line.ending.chars

end Line

end LineGrammar
