import LineGrammar.Text.Property

/-!
Flags that change how the following part of a pattern is read.
-/

namespace LineGrammar.Regex

structure Flags where
  ignoreCase : Bool := false
  /-- line anchors also hold at line breaks inside the text -/
  multiLine : Bool := false
  dotAll : Bool := false
  /-- repetitions are lazy unless marked -/
  swapGreed : Bool := false
  /-- line breaks are carriage returns, line feeds or both together -/
  crlf : Bool := false
  extended : Bool := false
  deriving DecidableEq, Repr

namespace Flags

/-- Sets a flag by its letter. Matching is always by characters, so the letter
for that cannot be turned off. -/
def set? (flags : Flags) (letter : Char) (value : Bool) : Option Flags :=
  match letter with
  | 'i' => some { flags with ignoreCase := value }
  | 'm' => some { flags with multiLine := value }
  | 's' => some { flags with dotAll := value }
  | 'U' => some { flags with swapGreed := value }
  | 'R' => some { flags with crlf := value }
  | 'x' => some { flags with extended := value }
  | 'u' => if value then some flags else none
  | _ => none

def skipBlanks (inComment : Bool) : List Char → List Char
  | [] => []
  | char :: rest =>
      if inComment then skipBlanks (char != '\n') rest
      else if Text.isWhite char then skipBlanks false rest
      else if char == '#' then skipBlanks true rest
      else char :: rest

def skip (flags : Flags) (text : List Char) : List Char :=
  if flags.extended then skipBlanks false text else text

/-- Reads at most `limit` characters while they are accepted, skipping what
does not count before each. -/
def span (flags : Flags) (accepts : Char → Bool) : Nat → List Char → List Char × List Char
  | 0, text => ([], text)
  | limit + 1, text =>
      match flags.skip text with
      | [] => ([], [])
      | char :: rest =>
          if accepts char then
            let (taken, rest) := flags.span accepts limit rest
            (char :: taken, rest)
          else ([], char :: rest)

/-- The flags, from after the question mark of a group to its colon or closing
parenthesis: the flags in force, whether any letter was given, the character
that ends them and what follows. No letter and no minus sign is given twice,
and a minus sign is followed by a letter. -/
def read (negated dangling : Bool) (seen : List Char) (flags : Flags) :
    List Char → Option (Flags × Bool × Char × List Char)
  | [] => none
  | char :: rest =>
      if char == ':' || char == ')' then
        if dangling then none else some (flags, negated || !seen.isEmpty, char, rest)
      else if char == '-' then
        if negated then none else read true true seen flags rest
      else if seen.contains char then none
      else
        match flags.set? char (!negated) with
        | some flags => read negated false (char :: seen) flags rest
        | none => none

end Flags

end LineGrammar.Regex
