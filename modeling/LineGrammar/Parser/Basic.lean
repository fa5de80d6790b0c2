import LineGrammar.Buffer.Source
import LineGrammar.Grammar.Builder
import LineGrammar.Parser.Drive

/-!
Parsers: a grammar with a configuration, ready to run on buffers and texts.
-/

namespace LineGrammar

structure Parser where
  grammar : Grammar
  config : Config

/-- A budget that only a parse without end or nearly so can use up. Every level
of parses inside parses may take a character of the text it is given. -/
def Budget.ample (buffer : Buffer) : Budget :=
  { depth := buffer.charCount + 0x10000, extra := 0x10000000000 }

namespace Parser

def new (grammar : Grammar) : Parser := ⟨grammar, {}⟩

/-- A parser with a given configuration, whose scopes have to exist. -/
def withConfig (grammar : Grammar) (config : Config) : Except Error Parser :=
  match (config.start :: config.stop.toList).find? fun name => !grammar.contains name with
  | some unknown => .error (.grammar (.unknownScope unknown))
  | none => .ok ⟨grammar, config⟩

variable (parser : Parser)

def session (cursor : Cursor) : Session :=
  let budget := Budget.ample cursor.buffer
  let nested := parser.grammar.drive parser.config budget.extra budget.depth
  .begin (parser.grammar.setting parser.config nested) cursor

def parse (cursor : Cursor) : Outcome :=
  let budget := Budget.ample cursor.buffer
  parser.grammar.drive parser.config budget.extra budget.depth cursor

def parseBuffer (buffer : Buffer) : Outcome := parser.parse ⟨buffer, .origin⟩

def parseSource (source : Source) : Except Error Outcome := do
  let buffer ← source.load
  let outcome := parser.parseBuffer buffer
  return { outcome with notes := #[.bufferRead buffer.size] ++ outcome.notes }

end Parser

end LineGrammar
