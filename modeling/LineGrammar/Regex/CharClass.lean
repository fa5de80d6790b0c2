import LineGrammar.Text.Case

/-!
Character classes of patterns, kept as expressions over ranges and properties.
A class is read through `contains` alone. Properties have the names listed in
`categoryNames` and `propertyNames`. Scripts, blocks and the finer kinds of
punctuation, symbols and separators have none, so a pattern that names one is not
well formed.
-/

namespace LineGrammar.Regex

open Text (Category)

inductive Property where
  | any
  | white
  | digit
  | word
  | alphabetic
  | uppercase
  | lowercase
  | category (members : List Category)
  deriving DecidableEq, Repr

def Property.holds : Property → Char → Bool
  | .any, _ => true
  | .white, char => Text.isWhite char
  | .digit, char => Text.isDecimalDigit char
  | .word, char => Text.isWordChar char
  | .alphabetic, char => Text.isAlphabetic char
  | .uppercase, char => Text.isUppercase char
  | .lowercase, char => Text.isLowercase char
  | .category members, char => members.contains (Text.category char)

inductive CharClass where
  | nothing
  | range (first last : Char)
  | named (property : Property)
  | union (left right : CharClass)
  | intersection (left right : CharClass)
  | difference (left right : CharClass)
  | symmetricDifference (left right : CharClass)
  | complement (body : CharClass)
  /-- every character equal up to case to one of `body` -/
  | folded (body : CharClass)
  deriving DecidableEq, Repr

namespace CharClass

def contains : CharClass → Char → Bool
  | .nothing, _ => false
  | .range first last, char => first ≤ char && char ≤ last
  | .named property, char => property.holds char
  | .union left right, char => left.contains char || right.contains char
  | .intersection left right, char => left.contains char && right.contains char
  | .difference left right, char => left.contains char && !right.contains char
  | .symmetricDifference left right, char => left.contains char != right.contains char
  | .complement body, char => !body.contains char
  | .folded body, char => (Text.foldOrbit char).any body.contains

def single (char : Char) : CharClass := .range char char

def ofRanges : List (Char × Char) → CharClass
  | [] => .nothing
  | (first, last) :: rest => .union (.range first last) (ofRanges rest)

def foldIf (ignoreCase : Bool) (body : CharClass) : CharClass :=
  if ignoreCase then .folded body else body

def negateIf (negated : Bool) (body : CharClass) : CharClass :=
  if negated then .complement body else body

/-- The bracketed class names, which stand for ASCII characters only. -/
def asciiClasses : List (String × CharClass) :=
  [ ("alnum", ofRanges [('0', '9'), ('A', 'Z'), ('a', 'z')]),
    ("alpha", ofRanges [('A', 'Z'), ('a', 'z')]),
    ("ascii", ofRanges [('\x00', '\x7f')]),
    ("blank", ofRanges [('\t', '\t'), (' ', ' ')]),
    ("cntrl", ofRanges [('\x00', '\x1f'), ('\x7f', '\x7f')]),
    ("digit", ofRanges [('0', '9')]),
    ("graph", ofRanges [('!', '~')]),
    ("lower", ofRanges [('a', 'z')]),
    ("print", ofRanges [(' ', '~')]),
    ("punct", ofRanges [('!', '/'), (':', '@'), ('[', '\x60'), ('\x7b', '~')]),
    ("space", ofRanges [('\t', '\r'), (' ', ' ')]),
    ("upper", ofRanges [('A', 'Z')]),
    ("word", ofRanges [('0', '9'), ('A', 'Z'), ('_', '_'), ('a', 'z')]),
    ("xdigit", ofRanges [('0', '9'), ('A', 'F'), ('a', 'f')]) ]

def ofLetter? (letter : Char) : Option CharClass :=
  match letter with
  | 'd' => some (.named .digit)
  | 'D' => some (.complement (.named .digit))
  | 's' => some (.named .white)
  | 'S' => some (.complement (.named .white))
  | 'w' => some (.named .word)
  | 'W' => some (.complement (.named .word))
  | _ => none

/-- A property name without the differences that do not count: case, blanks,
hyphens, underscores and a leading "is". -/
def normalizeName (name : List Char) : List Char :=
  let bare := (name.filter fun char => !(char == ' ' || char == '-' || char == '_')).map
    Char.toLower
  match bare with
  | 'i' :: 's' :: rest => if rest.isEmpty then bare else rest
  | _ => bare

def categoryNames : List (List String × List Category) :=
  [ (["l", "letter"],
      [.uppercaseLetter, .lowercaseLetter, .titlecaseLetter, .modifierLetter, .otherLetter]),
    (["lc", "casedletter"], [.uppercaseLetter, .lowercaseLetter, .titlecaseLetter]),
    (["lu", "uppercaseletter"], [.uppercaseLetter]),
    (["ll", "lowercaseletter"], [.lowercaseLetter]),
    (["lt", "titlecaseletter"], [.titlecaseLetter]),
    (["lm", "modifierletter"], [.modifierLetter]),
    (["lo", "otherletter"], [.otherLetter]),
    (["m", "mark", "combiningmark"], [.nonspacingMark, .spacingMark]),
    (["mn", "nonspacingmark"], [.nonspacingMark]),
    (["mc", "spacingmark"], [.spacingMark]),
    (["n", "number"], [.decimalNumber, .letterNumber, .otherNumber]),
    (["nd", "decimalnumber", "digit"], [.decimalNumber]),
    (["nl", "letternumber"], [.letterNumber]),
    (["no", "othernumber"], [.otherNumber]),
    (["p", "punctuation", "punct"], [.connector, .punctuation]),
    (["pc", "connectorpunctuation"], [.connector]),
    (["s", "symbol"], [.modifierSymbol, .symbol]),
    (["sk", "modifiersymbol"], [.modifierSymbol]),
    (["z", "separator"], [.separator]),
    (["c", "other"], [.control, .format, .unassigned]),
    (["cc", "control", "cntrl"], [.control]),
    (["cf", "format"], [.format]),
    (["cn", "unassigned"], [.unassigned]) ]

def propertyNames : List (List String × Property) :=
  [ (["any"], .any),
    (["alphabetic", "alpha"], .alphabetic),
    (["uppercase", "upper"], .uppercase),
    (["lowercase", "lower"], .lowercase),
    (["whitespace", "space"], .white) ]

def property? (name : List Char) : Option Property :=
  let name := String.ofList (normalizeName name)
  let listed := propertyNames.find? fun entry => entry.1.contains name
  let category := categoryNames.find? fun entry => entry.1.contains name
  listed.map Prod.snd <|> category.map fun entry => .category entry.2

end CharClass

end LineGrammar.Regex
