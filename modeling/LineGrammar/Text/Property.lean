import LineGrammar.Text.Category

/-!
Character properties used by the matcher, by the named checks on matched text
and by quoting. White space is the complete Unicode set; the other properties
rest on the general category and so on its repertoire.
-/

namespace LineGrammar.Text

def isWhite (char : Char) : Bool :=
  let code := char.toNat
  (0x9 ≤ code && code ≤ 0xD) || code == 0x20 || code == 0x85 || code == 0xA0 || code == 0x1680 ||
    (0x2000 ≤ code && code ≤ 0x200A) || code == 0x2028 || code == 0x2029 || code == 0x202F ||
    code == 0x205F || code == 0x3000

def isLetter (char : Char) : Bool :=
  match category char with
  | .uppercaseLetter | .lowercaseLetter | .titlecaseLetter | .modifierLetter | .otherLetter => true
  | _ => false

def isMark (char : Char) : Bool :=
  match category char with
  | .nonspacingMark | .spacingMark => true
  | _ => false

/-- Letters, letter-like numerals and the combining iota. -/
def isAlphabetic (char : Char) : Bool :=
  isLetter char || category char == .letterNumber || char.toNat == 0x345

def isNumeric (char : Char) : Bool :=
  match category char with
  | .decimalNumber | .letterNumber | .otherNumber => true
  | _ => false

def isDecimalDigit (char : Char) : Bool :=
  category char == .decimalNumber

def isAlphanumeric (char : Char) : Bool :=
  isAlphabetic char || isNumeric char

def isUppercase (char : Char) : Bool :=
  category char == .uppercaseLetter || (0x2160 ≤ char.toNat && char.toNat ≤ 0x216F)

/-- Lower-case letters, ordinal indicators, combining and isolated iota, and
lower-case Roman numerals. -/
def isLowercase (char : Char) : Bool :=
  let code := char.toNat
  category char == .lowercaseLetter || code == 0xAA || code == 0xBA || code == 0x345 ||
    code == 0x37A || (0x2170 ≤ code && code ≤ 0x217F)

def isCased (char : Char) : Bool :=
  isUppercase char || isLowercase char || category char == .titlecaseLetter

/-- Characters that are passed over when the end of a cased word is sought. -/
def isCaseIgnorable (char : Char) : Bool :=
  match category char with
  | .nonspacingMark | .format | .modifierLetter | .modifierSymbol => true
  | _ => [0x27, 0x2E, 0x3A, 0xB7, 0x387, 0x2018, 0x2019, 0x2024, 0x2027, 0xFF07, 0xFF0E,
      0xFF1A].contains char.toNat

def isJoinControl (char : Char) : Bool :=
  char.toNat == 0x200C || char.toNat == 0x200D

def isWordChar (char : Char) : Bool :=
  isAlphabetic char || isMark char || isDecimalDigit char || category char == .connector ||
    isJoinControl char

def isGraphemeExtend (char : Char) : Bool :=
  category char == .nonspacingMark || [0x200C, 0x302E, 0x302F].contains char.toNat

/-- Characters with a visible form of their own; of the separators only the
plain space. -/
def isPrintable (char : Char) : Bool :=
  match category char with
  | .control | .format | .unassigned => false
  | .separator => char == ' '
  | _ => true

end LineGrammar.Text
