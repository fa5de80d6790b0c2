import LineGrammar.Config
import LineGrammar.Cursor
import LineGrammar.Error
import LineGrammar.Match

/-!
Notes on what happens while texts are read, grammars are built and parses run.
A note is kept as what it reports; its line is written only when asked for.
-/

namespace LineGrammar

inductive Level where
  | error
  | warn
  | info
  | debug
  | trace
  deriving DecidableEq, Repr

namespace Level

def name : Level → String
  | .error => "ERROR"
  | .warn => "WARN"
  | .info => "INFO"
  | .debug => "DEBUG"
  | .trace => "TRACE"

def rank : Level → Nat
  | .error => 0
  | .warn => 1
  | .info => 2
  | .debug => 3
  | .trace => 4

end Level

/-- What is tried at a cursor. -/
inductive Probe where
  | leaf (pattern : String)
  /-- a sequence of so many items, or its item of that index -/
  | sequence (number : Nat)
  | set (min : Nat) (max : Option Nat)
  /-- a set of which so many members were found -/
  | members (count : Nat)
  | repetition (multiplicity : Multiplicity)
  /-- a repetition that ended after so many rounds -/
  | rounds (count : Nat)
  | rule (tag : Option String)
  deriving DecidableEq, Repr

def Probe.render : Probe → String
  | .leaf pattern => "leaf(" ++ Text.quote pattern ++ ")"
  | .sequence number => "sequence(" ++ toString number ++ ")"
  | .set min max =>
      "set((" ++ toString min ++ ", " ++ Text.optional (max.map toString) ++ "))"
  | .members count => "set(" ++ toString count ++ ")"
  | .repetition multiplicity => "repetition(" ++ Text.quote multiplicity.render ++ ")"
  | .rounds count => "repetition(" ++ toString count ++ ")"
  | .rule tag => "rule(" ++ Text.optional (tag.map Text.quote) ++ ")"

inductive Progress where
  | begun
  | succeeded
  | failed (error : Error)
  deriving DecidableEq, Repr

def Progress.render : Progress → String
  | .begun => ""
  | .succeeded => " -> ok"
  | .failed error => " -> " ++ error.describe

inductive Note where
  | bufferRead (lines : Nat)
  | grammarBuilt (scopes : Nat)
  | parserConfigured (config : Config)
  | parseBegun (position : Position) (lines : Nat)
  | parseDone (scopes : Nat)
  | probed (cursor : Cursor) (probe : Probe) (progress : Progress)
  | matched (scope : String) (rule : Nat) (start stop : Position)
  | saved (found : Match) (scope : String)
  | opened (scope : String) (depth : Nat)
  | closed (scope : String) (depth : Nat)
  | swapped (old new : String)
  | abandoned (diagnostic : Diagnostic)

namespace Note

def level : Note → Level
  | .bufferRead .. | .parseBegun .. | .parseDone .. => .info
  | .grammarBuilt .. | .parserConfigured .. | .matched .. | .saved .. | .opened .. | .closed .. |
      .swapped .. => .debug
  | .probed .. => .trace
  | .abandoned .. => .error

def positionWidth : Nat := 15

def text : Note → String
  | .bufferRead lines => "buffer initialized (" ++ toString lines ++ " lines)"
  | .grammarBuilt scopes => "grammar built (" ++ toString scopes ++ " scopes)"
  | .parserConfigured config => "parser configured: " ++ config.render
  | .parseBegun position lines =>
      "parse from " ++ position.render ++ " (" ++ toString lines ++ " lines)"
  | .parseDone scopes => "parse done (" ++ toString scopes ++ " scopes)"
  | .probed cursor probe progress =>
      cursor.preview ++ " " ++ Text.padRight positionWidth cursor.position.render ++ " : " ++
        probe.render ++ progress.render
  | .matched scope rule start stop =>
      "match in scope \"" ++ scope ++ "\" (rule " ++ toString rule ++ ") " ++ start.render ++
        " - " ++ stop.render
  | .saved found scope => "save " ++ found.render ++ " in scope \"" ++ scope ++ "\""
  | .opened scope depth => "open scope \"" ++ scope ++ "\" at depth " ++ toString depth
  | .closed scope depth => "close scope \"" ++ scope ++ "\" at depth " ++ toString depth
  | .swapped old new => "swap scope \"" ++ old ++ "\" for \"" ++ new ++ "\""
  | .abandoned diagnostic => diagnostic.render

def render (note : Note) : String := note.level.name ++ " " ++ note.text

/-- The lines of the notes that matter at least as much as `level`. -/
def report (level : Level) (notes : List Note) : List String :=
  (notes.filter fun note => note.level.rank ≤ level.rank).map render

end Note

end LineGrammar
