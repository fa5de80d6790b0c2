import LineGrammar.Regex.Escape

/-!
Bracketed character classes: single characters, ranges, escapes, named ASCII
classes and nested classes, joined by union and by the operators for
intersection, difference and symmetric difference, which take the whole union
on either side and group to the left.
-/

namespace LineGrammar.Regex

namespace Bracket

inductive Operator where
  | intersection
  | difference
  | symmetricDifference
  deriving DecidableEq, Repr

def Operator.apply : Operator → CharClass → CharClass → CharClass
  | .intersection, left, right => .intersection left right
  | .difference, left, right => .difference left right
  | .symmetricDifference, left, right => .symmetricDifference left right

/-- What is still open while a class is read. -/
inductive Frame where
  /-- a bracket, with what its enclosing class holds so far -/
  | opened (parent : CharClass) (negated : Bool)
  /-- an operator that waits for its right side -/
  | operand (operator : Operator) (left : CharClass)
  deriving DecidableEq, Repr

def add : CharClass → CharClass → CharClass
  | .nothing, item => item
  | union, item => .union union item

def complete (ignoreCase : Bool) (right : CharClass) : List Frame → CharClass × List Frame
  | .operand operator left :: frames =>
      (operator.apply (left.foldIf ignoreCase) (right.foldIf ignoreCase), frames)
  | frames => (right, frames)

def readHyphens (flags : Flags) : Nat → CharClass → List Char → CharClass × List Char
  | 0, union, text => (union, text)
  | limit + 1, union, text =>
      match text with
      | '-' :: rest => readHyphens flags limit (add union (.single '-')) (flags.skip rest)
      | _ => (union, text)

/-- The start of a class, from after its bracket: whether it is negated, and
the characters that are literal only here, hyphens and a closing bracket. -/
def readStart (flags : Flags) (text : List Char) : Bool × CharClass × List Char :=
  let text := flags.skip text
  let (negated, text) := match text with
    | '^' :: rest => (true, flags.skip rest)
    | _ => (false, text)
  let (union, text) := readHyphens flags text.length .nothing text
  match union, text with
  | .nothing, ']' :: rest => (negated, .single ']', rest)
  | _, _ => (negated, union, text)

def readAscii? (ignoreCase : Bool) : List Char → Option (CharClass × List Char)
  | ':' :: rest =>
      let (negated, rest) := match rest with
        | '^' :: rest => (true, rest)
        | _ => (false, rest)
      let name := rest.takeWhile (· != ':')
      match rest.dropWhile (· != ':') with
      | ':' :: ']' :: rest =>
          (CharClass.asciiClasses.lookup (String.ofList name)).map fun body =>
            ((body.foldIf ignoreCase).negateIf negated, rest)
      | _ => none
  | _ => none

def readPrimitive? (flags : Flags) : List Char → Option (Primitive × List Char)
  | [] => none
  | '\\' :: rest => readEscape? flags rest
  | char :: rest => some (.literal char, rest)

/-- A single item or a range. A hyphen before the closing bracket or before
another hyphen makes no range. -/
def readItem? (flags : Flags) (text : List Char) : Option (CharClass × List Char) := do
  let (first, rest) ← readPrimitive? flags text
  let single : Option CharClass := match first with
    | .literal char => some (.single char)
    | .members members => some members
    | .look _ => none
  match flags.skip rest with
  | [] => none
  | '-' :: rest =>
      match flags.skip rest with
      | [] => none
      | next :: later =>
          if next == ']' || next == '-' then single.map fun item => (item, '-' :: rest)
          else do
            let (last, rest) ← readPrimitive? flags (next :: later)
            match first, last with
            | .literal first, .literal last =>
                if first ≤ last then some (.range first last, rest) else none
            | _, _ => none
  | rest => single.map fun item => (item, rest)

def readOperator? : List Char → Option (Operator × List Char)
  | '&' :: '&' :: rest => some (.intersection, rest)
  | '-' :: '-' :: rest => some (.difference, rest)
  | '~' :: '~' :: rest => some (.symmetricDifference, rest)
  | _ => none

/-- Reads the rest of a class; `union` is what the innermost open bracket holds
since its last operator. Every round reads at least one character. -/
def readRest? (flags : Flags) : Nat → List Frame → CharClass → List Char →
    Option (CharClass × List Char)
  | 0, _, _, _ => none
  | limit + 1, frames, union, text =>
      match flags.skip text with
      | [] => none
      | char :: rest =>
          if char = '[' then
            match readAscii? flags.ignoreCase rest with
            | some (item, rest) => readRest? flags limit frames (add union item) rest
            | none =>
                let (negated, inner, rest) := readStart flags rest
                readRest? flags limit (.opened union negated :: frames) inner rest
          else if char = ']' then
            match complete flags.ignoreCase union frames with
            | (whole, .opened parent negated :: frames) =>
                let item := (whole.foldIf flags.ignoreCase).negateIf negated
                readRest? flags limit frames (add parent item) rest
            | (whole, _) => some (whole, rest)
          else
            match readOperator? (char :: rest) with
            | some (operator, rest) =>
                let (left, frames) := complete flags.ignoreCase union frames
                readRest? flags limit (.operand operator left :: frames) .nothing rest
            | none =>
                match readItem? flags (char :: rest) with
                | some (item, rest) => readRest? flags limit frames (add union item) rest
                | none => none

end Bracket

def readBracket? (flags : Flags) (text : List Char) : Option (CharClass × List Char) :=
  let (negated, union, rest) := Bracket.readStart flags text
  (Bracket.readRest? flags (rest.length + 1) [] union rest).map fun (whole, rest) =>
    ((whole.foldIf flags.ignoreCase).negateIf negated, rest)

end LineGrammar.Regex
