import LineGrammar.Regex.Parser
import LineGrammar.Regex.Program
import LineGrammar.Text.Utf8

/-!
Patterns ready to match against lines of text. A match is anchored at a column
but sees the whole line, so that line anchors and word boundaries mean the same
wherever matching begins.
-/

namespace LineGrammar

structure Regex where
  source : String
  program : Regex.Program
  groups : Nat
  deriving DecidableEq, Repr

namespace Regex

def compile? (source : String) (ignoreCase : Bool) : Option Regex :=
  (Pattern.parse? ignoreCase source.toList).map fun pattern =>
    { source := source
      program := (pattern.unroll 0).1
      groups := pattern.groupCount }

/-- The outcome of a match, in bytes from the start of the line: the whole span
and the span of each group that took part. -/
structure Captures where
  start : Nat
  stop : Nat
  groups : List (Option (Nat × Nat))
  deriving DecidableEq, Repr

/-- The match of a pattern whose first character is the first of `rest`. -/
def matchFrom (regex : Regex) (previous : Option Char) (offset : Nat) (rest : List Char) :
    Option Captures :=
  let start : State :=
    { previous := previous, rest := rest, offset := offset, groups := [], marks := [] }
  let verdict := regex.program.run start fun final =>
    .accepted
      { start := offset
        stop := final.offset
        groups := (List.range regex.groups).map fun index =>
          (final.group? (index + 1)).map fun span => (span.start, span.stop) : Captures }
  verdict.result?

def matchAt (regex : Regex) (text : List Char) (column : Nat) : Option Captures :=
  let before := Text.takeBytes column text
  regex.matchFrom before.getLast? (Text.byteLength before) (Text.dropBytes column text)

def searchFrom (regex : Regex) (previous : Option Char) (offset : Nat) :
    List Char → Option Captures
  | [] => regex.matchFrom previous offset []
  | char :: rest =>
      regex.matchFrom previous offset (char :: rest) <|>
        regex.searchFrom (some char) (offset + char.utf8Size) rest

def search (regex : Regex) (text : List Char) (column : Nat) : Option Captures :=
  let before := Text.takeBytes column text
  regex.searchFrom before.getLast? (Text.byteLength before) (Text.dropBytes column text)

end Regex

end LineGrammar
