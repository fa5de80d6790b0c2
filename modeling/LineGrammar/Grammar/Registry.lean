import LineGrammar.Grammar.Rule
import LineGrammar.Text.Case

/-!
Named checks and edits of text for use in grammar descriptions.
-/

namespace LineGrammar

structure Registry where
  validators : Table Validator
  processors : Table Processor

namespace Registry

def countArgument? (arguments : List Value) (index : Nat) : Option Nat :=
  match arguments[index]? with
  | some (.int number) => if 0 ≤ number then some number.toNat else none
  | _ => none

def standardValidators : Table Validator :=
  [ ("nonempty", fun text _ => !(Text.trim text.toList).isEmpty),
    ("int", fun text _ => (Text.integer? (Text.trim text.toList)).isSome),
    ("float", fun text _ => Text.isFloat (Text.trim text.toList)),
    ("word", fun text _ =>
      !text.isEmpty && text.toList.all fun char => Text.isAlphanumeric char || char == '_'),
    ("upper", fun text _ =>
      text.toList.any Text.isAlphabetic && !text.toList.any Text.isLowercase),
    ("lower", fun text _ =>
      text.toList.any Text.isAlphabetic && !text.toList.any Text.isUppercase),
    ("len", fun text arguments => (countArgument? arguments 0).any (text.length == ·)),
    ("min_len", fun text arguments => (countArgument? arguments 0).any (· ≤ text.length)),
    ("max_len", fun text arguments => (countArgument? arguments 0).any (text.length ≤ ·)),
    ("one_of", fun text arguments => arguments.any fun value => value.text? == some text) ]

/-- Replaces escapes: line feed, tab and carriage return by their letters, any
other character by itself. A backslash at the end stays. -/
def unescape : List Char → List Char
  | '\\' :: 'n' :: rest => '\n' :: unescape rest
  | '\\' :: 't' :: rest => '\t' :: unescape rest
  | '\\' :: 'r' :: rest => '\r' :: unescape rest
  | '\\' :: char :: rest => char :: unescape rest
  | char :: rest => char :: unescape rest
  | [] => []

/-- The characters from a start to before an end, which are the ends of the
text if not given. -/
def slice (text : List Char) (start stop : Option Nat) : List Char :=
  let start := start.getD 0
  let rest := text.drop start
  match stop with
  | some stop => rest.take (stop - start)
  | none => rest

def standardProcessors : Table Processor :=
  [ ("strip", fun text _ => String.ofList (Text.trim text.toList)),
    ("lower", fun text _ => String.ofList (Text.lowerText text.toList)),
    ("upper", fun text _ => String.ofList (Text.upperText text.toList)),
    ("unescape", fun text _ => String.ofList (unescape text.toList)),
    ("collapse", fun text _ =>
      String.ofList (List.intercalate [' '] (Text.words text.toList))),
    ("slice", fun text arguments =>
      String.ofList
        (slice text.toList (countArgument? arguments 0) (countArgument? arguments 1))) ]

def standard : Registry := ⟨standardValidators, standardProcessors⟩

def addValidator (registry : Registry) (name : String) (validator : Validator) : Registry :=
  { registry with validators := registry.validators.set name validator }

def addProcessor (registry : Registry) (name : String) (processor : Processor) : Registry :=
  { registry with processors := registry.processors.set name processor }

def validator? (registry : Registry) (name : String) : Option Validator :=
  registry.validators.get? name

def processor? (registry : Registry) (name : String) : Option Processor :=
  registry.processors.get? name

def renderNames (names : List String) : String :=
  let sorted := names.mergeSort fun left right => left ≤ right
  Text.bracketed (sorted.map Text.quote)

def render (registry : Registry) : String :=
  "Registry \x7b validators: " ++ renderNames registry.validators.names ++ ", processors: " ++
    renderNames registry.processors.names ++ " \x7d"

end Registry

end LineGrammar
