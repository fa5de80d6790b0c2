import LineGrammar.Text.Quoted

/-!
The settings of a parser.
-/

namespace LineGrammar

structure Config where
  /-- scope opened under the root, unless it is the root's own -/
  start : String := "main"
  /-- scope in which the parse must end -/
  stop : Option String := none
  /-- rounds allowed at an unchanged position -/
  maxStall : Nat := 1000
  /-- whether every winning match with a width is saved -/
  recordAll : Bool := true
  deriving DecidableEq, Repr

def Config.render (config : Config) : String :=
  "ParserConfig \x7b start: " ++ Text.quote config.start ++ ", end: " ++
    Text.optional (config.stop.map Text.quote) ++ ", max_stall: " ++ toString config.maxStall ++
    ", record_all: " ++ toString config.recordAll ++ " \x7d"

end LineGrammar
