import LineGrammar.Parser.Basic

/-!
A grammar for documents of sections, each with a heading, text, a quote, a list
and fenced code, and documents of this kind of any length.
-/

namespace LineGrammar.Markup.Sections

def mainRules : List RuleSpec :=
  [ (RuleSpec.regex "^(#\x7b1,6\x7d)\\s+(.*)").instruct "tag" [.text "heading"],
    (RuleSpec.regex "^```").instruct "open" [.text "code"],
    (RuleSpec.regex "^>\\s?").instruct "open" [.text "quote"],
    (RuleSpec.regex "^\\s*[-*]\\s+").instruct "open" [.text "list"],
    (RuleSpec.regex "\\S.*").instruct "tag" [.text "text"] ]

def codeRules : List RuleSpec :=
  [ (RuleSpec.regex "^```").instruct "close" [],
    (RuleSpec.regex ".+").instruct "tag" [.text "code"] ]

def quoteRules : List RuleSpec :=
  [ RuleSpec.regex "^>\\s?",
    (RuleSpec.regex "\\S.*").instruct "tag" [.text "text"],
    RuleSpec.always.instruct "close" [] ]

def listRules : List RuleSpec :=
  [ RuleSpec.regex "^\\s*[-*]\\s+",
    ((RuleSpec.regex "\\S.*").instruct "tag" [.text "item"]).instruct "inc"
      [.text "items", .int 1],
    RuleSpec.always.instruct "close" [] ]

def grammar : Except Error Grammar :=
  let builder : Builder := {}
  let builder := builder.scope "main" mainRules
  let builder := builder.scope "code" codeRules
  let builder := builder.scope "quote" quoteRules
  let builder := builder.scope "list" listRules
  (builder.markStrict "code").build

def sectionLines (index : Nat) : List String :=
  [ "## Section " ++ toString index,
    "Some introductory text for this section.",
    "",
    "> a quoted remark",
    "> spanning two lines",
    "",
    "- first item",
    "- second item",
    "",
    "```",
    "let x = " ++ toString index ++ ";",
    "```" ]

def document (sections : Nat) : List String := (List.range sections).flatMap sectionLines

/-- The words of a text: its runs of ASCII letters, found one after the other. -/
def findWords (buffer : Buffer) : Except Error (Expr.Search (List Match)) := do
  let letters ← Expr.regex "[A-Za-z]+"
  return letters.oneOrMore.findAll (buffer.charCount + 1) ⟨buffer, .origin⟩

end LineGrammar.Markup.Sections
