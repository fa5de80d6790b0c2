import LineGrammar.Expr.Basic

/-!
Ready-made expressions for common tokens.
-/

namespace LineGrammar.Expr.Patterns

def word : Except Error Expr := regex "\\w+"

def int : Except Error Expr := regex "-?\\d+"

def float : Except Error Expr := regex "-?\\d*\\.\\d+([eE][-+]?\\d+)?"

def hex : Except Error Expr := regex "0[xX][0-9a-fA-F]+"

/-- A hexadecimal, fractional or whole number, tried in this order. -/
def number : Except Error Expr := do
  return oneOf [← hex, ← float, ← int]

def boolean : Except Error Expr := do
  return oneOf [← literal "true", ← literal "false"]

/-- One or more characters of a class, given by the text between its brackets. -/
def chars (members : String) : Except Error Expr := regex ("[" ++ members ++ "]+")

def white : Except Error Expr := chars " \\t"

def link : Except Error Expr :=
  regex "(http|ftp)s?://([a-z0-9.-]+\\.)+[a-z]\x7b2,\x7d(/\\S*)?"

def email : Except Error Expr :=
  regexNocase "[a-z0-9][a-z0-9._%+-]*@([a-z0-9-]+\\.)+[a-z]\x7b2,\x7d"

/-- The pattern of a text between `left` and `right`, the inside as group 1. If
`escaped`, a backslash before `right` keeps it from ending the text; if `empty`,
the inside may be empty. -/
def fencedSource (left : String) (right : Char) (escaped empty : Bool) : String :=
  let opening := String.ofList (Regex.escape left.toList)
  let closing := String.ofList (Regex.escape [right])
  let many := if empty then "*" else "+"
  if escaped then opening ++ "((\\\\" ++ closing ++ "|[^" ++ closing ++ "])" ++ many ++ ")" ++ closing
  else opening ++ "([^" ++ closing ++ "]" ++ many ++ ")" ++ closing

def fenced (left : String) (right : Char) (escaped empty : Bool) : Except Error Expr :=
  regex (fencedSource left right escaped empty)

def singleQuoted : Except Error Expr := fenced "'" '\'' true true

def doubleQuoted : Except Error Expr := fenced "\"" '"' true true

def string : Except Error Expr := do
  return oneOf [← singleQuoted, ← doubleQuoted]

end LineGrammar.Expr.Patterns
