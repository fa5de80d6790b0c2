import LineGrammar.Regex.Flags
import LineGrammar.Regex.Pattern

/-!
Escapes of the pattern language, both ways: reading what follows a backslash,
and writing a text as the pattern that matches exactly it.
-/

namespace LineGrammar.Regex

def metaCharacters : List Char :=
  ['\\', '.', '+', '*', '?', '(', ')', '|', '[', ']', '\x7b', '\x7d', '^', '$', '#', '&', '-', '~']

def isMeta (char : Char) : Bool := metaCharacters.contains char

def escape (text : List Char) : List Char :=
  text.flatMap fun char => if isMeta char then ['\\', char] else [char]

/-- Whether a backslash before the character just stands for the character:
any ASCII character but letters, digits and angle brackets. -/
def isEscapable (char : Char) : Bool :=
  isMeta char || (char.toNat < 128 && !char.isAlphanum && char != '<' && char != '>')

inductive Primitive where
  | literal (char : Char)
  | members (members : CharClass)
  | look (assertion : Assertion)
  deriving DecidableEq, Repr

def isHexDigit (char : Char) : Bool :=
  char.isDigit || ('a' ≤ char && char ≤ 'f') || ('A' ≤ char && char ≤ 'F')

def hexDigitValue (char : Char) : Nat :=
  if char.isDigit then char.toNat - '0'.toNat
  else if char.isLower then char.toNat - 'a'.toNat + 10
  else char.toNat - 'A'.toNat + 10

def charOfHex? (digits : List Char) : Option Char :=
  let code := digits.foldl (fun value digit => value * 16 + hexDigitValue digit) 0
  if !digits.isEmpty && decide code.isValidChar then some (Char.ofNat code) else none

/-- A code point: between braces, or a fixed number of digits. -/
def readHex? (flags : Flags) (digitCount : Nat) (text : List Char) :
    Option (Primitive × List Char) :=
  match flags.skip text with
  | '\x7b' :: rest =>
      match flags.span isHexDigit rest.length rest with
      | (digits, '\x7d' :: rest) => (charOfHex? digits).map fun char => (.literal char, rest)
      | _ => none
  | rest =>
      let (digits, rest) := flags.span isHexDigit digitCount rest
      if digits.length = digitCount then
        (charOfHex? digits).map fun char => (.literal char, rest)
      else none

/-- A named property: one letter, or a name between braces. -/
def readProperty? (flags : Flags) (negated : Bool) (text : List Char) :
    Option (Primitive × List Char) :=
  let named (name : List Char) (rest : List Char) : Option (Primitive × List Char) :=
    (CharClass.property? name).map fun property =>
      let body := (CharClass.named property).foldIf flags.ignoreCase
      (.members (body.negateIf negated), rest)
  match flags.skip text with
  | [] => none
  | '\x7b' :: rest =>
      match flags.span (· != '\x7d') rest.length rest with
      | (name, '\x7d' :: rest) => named name rest
      | _ => none
  | char :: rest => if char == '\\' then none else named [char] rest

/-- A word boundary, possibly of a special kind named between braces. What
cannot be such a name is left for a repetition to read. -/
def readBoundary? (flags : Flags) : List Char → Option (Primitive × List Char)
  | '\x7b' :: rest =>
      let isNameChar (char : Char) : Bool := char.isAlpha || char == '-'
      match flags.span isNameChar rest.length rest with
      | ([], []) => none
      | ([], _ :: _) => some (.look .wordBoundary, '\x7b' :: rest)
      | (name, '\x7d' :: rest) =>
          let kinds : List (String × Assertion) :=
            [("start", .wordStart), ("end", .wordEnd), ("start-half", .wordStartHalf),
              ("end-half", .wordEndHalf)]
          (kinds.lookup (String.ofList name)).map fun kind => (.look kind, rest)
      | _ => none
  | rest => some (.look .wordBoundary, rest)

def readEscape? (flags : Flags) : List Char → Option (Primitive × List Char)
  | [] => none
  | char :: rest =>
      if isEscapable char then some (.literal char, rest)
      else
        match CharClass.ofLetter? char with
        | some members => some (.members members, rest)
        | none =>
            match char with
            | 'x' => readHex? flags 2 rest
            | 'u' => readHex? flags 4 rest
            | 'U' => readHex? flags 8 rest
            | 'p' => readProperty? flags false rest
            | 'P' => readProperty? flags true rest
            | 'a' => some (.literal '\x07', rest)
            | 'f' => some (.literal '\x0c', rest)
            | 't' => some (.literal '\t', rest)
            | 'n' => some (.literal '\n', rest)
            | 'r' => some (.literal '\r', rest)
            | 'v' => some (.literal '\x0b', rest)
            | 'A' => some (.look .textStart, rest)
            | 'z' => some (.look .textEnd, rest)
            | 'b' => readBoundary? flags rest
            | 'B' => some (.look .notWordBoundary, rest)
            | '<' => some (.look .wordStart, rest)
            | '>' => some (.look .wordEnd, rest)
            | _ => none

end LineGrammar.Regex
