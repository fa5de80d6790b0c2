import LineGrammar.Buffer.Basic
import LineGrammar.Error

/-!
Where the text of a buffer comes from.
-/

namespace LineGrammar

inductive Source where
  | lines (raws : List String)
  | reversed (raws : List String)
  | text (content : String)
  /-- the bytes of a file, absent if there is no such file -/
  | file (content : Option ByteArray)

/-- Reads a source. A file has to exist and to hold valid UTF-8. -/
def Source.load : Source → Except Error Buffer
  | .lines raws => .ok (.ofLines raws)
  | .reversed raws => .ok (.ofLinesReversed raws)
  | .text content => .ok (.ofText content)
  | .file none => .error (.source .missing)
  | .file (some bytes) =>
      match String.fromUTF8? bytes with
      | some content => .ok (.ofText content)
      | none => .error (.source .notUtf8)

end LineGrammar
