import LineGrammar.Grammar.Builder

/-!
A grammar for the blocks of a light markup language: headings, rules, fenced
code, nested lists, paragraphs, and quotes whose contents are parsed again with
the same grammar.
-/

namespace LineGrammar.Markup.Blocks

def groupText (found : Match) (index : Nat) : String := (found.group? index).getD ""

/-- Whether a line starts another block or is blank. -/
def startsBlock (rest : List Char) : Bool :=
  let body := Text.trimStart rest
  body.isEmpty || ["#", ">", "```", "- ", "* "].any fun mark => mark.toList.isPrefixOf body

def indentOf (context : Context) : Int := ((context.valueOf? "indent" 0).bind Value.int?).getD 0

def markerIndent (found : Match) : Int := (groupText found 1).utf8ByteSize

def openList (indent : Int) : Script :=
  .actAll [.openScope "list", .define "indent" (.int indent) 0] .done

/-- Closes lists that are indented more than `indent`, but not the outermost. -/
def unwindLists (indent : Int) : Nat → Script
  | 0 => .done
  | limit + 1 =>
      .look fun _ context =>
        if indent < indentOf context && context.scopeName == "list" && decide (1 < context.depth)
        then .act (.closeScopes 1) (unwindLists indent limit)
        else .done

/-- A marker with a larger indent opens a nested list, one with a smaller
indent closes lists until the indent fits. -/
def listMarker (found : Match) : Script :=
  .look fun _ context =>
    let indent := markerIndent found
    if indentOf context < indent then openList indent else unwindLists indent context.depth

def closeListsWithin : Nat → Script
  | 0 => .done
  | limit + 1 =>
      .look fun _ context =>
        if context.scopeName == "list" then .act (.closeScopes 1) (closeListsWithin limit)
        else .done

def closeLists : Script := .look fun _ context => closeListsWithin (context.depth + 1)

def quoteLine (found : Match) : Script :=
  .act (.append "lines" (.text (groupText found 1)) 0) .done

def quotedLines (context : Context) : List String :=
  (((context.valueOf? "lines" 0).bind Value.list?).getD []).filterMap Value.text?

/-- Parses the contents of a quote, keeps the tree as text and leaves the quote. -/
def endQuote : Script :=
  .look fun _ context =>
    .parseThen (quotedLines context) fun tree =>
      .actAll [.define "nested" (.text tree.render) 0, .closeScopes 1] .done

def codeLanguage (found : Match) : Script :=
  .act (.define "lang" (.text (groupText found 1)) 0) .done

def mainRules : List RuleSpec :=
  [ (RuleSpec.regex "^(#\x7b1,6\x7d)\\s+(.*)").instruct "tag" [.text "heading"],
    (RuleSpec.regex "^(-\x7b3,\x7d|\\*\x7b3,\x7d)\\s*$").instruct "tag" [.text "hr"],
    ((RuleSpec.regex "^```(\\w*)").instruct "open" [.text "code"]).instruct "call"
      [.call codeLanguage],
    ((RuleSpec.regex "^>\\s?(.*)").instruct "open" [.text "quote"]).instruct "call"
      [.call quoteLine],
    (RuleSpec.regex "^(\\s*)[-*]\\s+").instruct "call"
      [.call fun found => openList (markerIndent found)],
    ((RuleSpec.regex "\\S.*").instruct "open" [.text "para"]).instruct "tag" [.text "text"] ]

def paragraphEnd : Rule :=
  { Rule.always with
    pre := [fun cursor _ => cursor.atLineStart && startsBlock cursor.rest]
    callbacks := [.host fun _ => .act (.closeScopes 1) .done] }

def paragraphRules : List RuleSpec :=
  [ ((RuleSpec.regex "\\S.*").instruct "tag" [.text "text"]).instruct "proc" [.text "collapse"],
    RuleSpec.always.instruct "close" [] ]

def codeRules : List RuleSpec :=
  [ (RuleSpec.regex "^```\\s*$").instruct "close" [],
    (RuleSpec.regex ".*").instruct "tag" [.text "code"] ]

def quoteRules : Except Error (List Rule) := do
  return [ { expr := ← Expr.regex "^>\\s?(.*)", callbacks := [.host quoteLine] },
    { Rule.always with callbacks := [.host fun _ => endQuote] } ]

def listRules : Except Error (List Rule) := do
  return [ { expr := ← Expr.regex "^(\\s*)[-*]\\s+", callbacks := [.host listMarker] },
    { expr := ← Expr.regex "\\S.*", tag := some "item" },
    { Rule.always with callbacks := [.host fun _ => closeLists] } ]

def grammar : Except Error Grammar := do
  let builder : Builder := {}
  let builder := builder.scope "main" mainRules
  let builder := builder.scopeRules "para" [paragraphEnd]
  let builder := builder.scope "para" paragraphRules
  let builder := (builder.scope "code" codeRules).markStrict "code"
  let builder := builder.scopeRules "quote" (← quoteRules)
  let builder := builder.scopeRules "list" (← listRules)
  builder.build

end LineGrammar.Markup.Blocks
