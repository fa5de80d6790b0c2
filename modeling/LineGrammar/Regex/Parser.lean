import LineGrammar.Regex.Bracket

/-!
Reading patterns. The reader goes over the pattern once, from left to right; it
keeps the open groups on a stack and in each the alternatives and pieces read
so far. A pattern that is not well formed gives no result; one that is may be of
any size.
-/

namespace LineGrammar.Regex

namespace Reader

/-- A piece of a concatenation. A change of flags leaves a piece that matches
nothing and cannot be repeated. -/
inductive Piece where
  | flags
  | part (pattern : Pattern)

/-- A level of grouping: the flags in force, the finished alternatives and the
pieces of the current one, both the latest first. -/
structure Level where
  flags : Flags
  choices : List Pattern
  pieces : List Piece

structure State where
  level : Level
  /-- enclosing levels, each with the index of the group opened in it -/
  outer : List (Option Nat × Level)
  groups : Nat
  names : List (List Char)

def State.start (ignoreCase : Bool) : State :=
  { level := { flags := { ignoreCase := ignoreCase }, choices := [], pieces := [] }
    outer := []
    groups := 0
    names := [] }

def concatPieces (pieces : List Piece) : Pattern :=
  Pattern.concat <| pieces.reverse.filterMap fun
    | .flags => none
    | .part pattern => some pattern

def Level.finish (level : Level) : Pattern :=
  Pattern.choice (concatPieces level.pieces :: level.choices).reverse

def State.push (state : State) (pattern : Pattern) : State :=
  { state with level := { state.level with pieces := .part pattern :: state.level.pieces } }

def State.flags (state : State) : Flags := state.level.flags

def literal (flags : Flags) (char : Char) : Pattern :=
  .chars ((CharClass.single char).foldIf flags.ignoreCase)

def ofPrimitive (flags : Flags) : Primitive → Pattern
  | .literal char => literal flags char
  | .members members => .chars members
  | .look assertion => .look assertion

def dot (flags : Flags) : Pattern :=
  .chars <|
    if flags.dotAll then .named .any
    else if flags.crlf then .complement (.union (.single '\r') (.single '\n'))
    else .complement (.single '\n')

def lineStart (flags : Flags) : Assertion :=
  if !flags.multiLine then .textStart else if flags.crlf then .crlfStart else .lineStart

def lineEnd (flags : Flags) : Assertion :=
  if !flags.multiLine then .textEnd else if flags.crlf then .crlfEnd else .lineEnd

def State.iterate? (state : State) (min : Nat) (max : Option Nat) (lazy : Bool) : Option State :=
  match state.level.pieces with
  | .part body :: earlier =>
      let greedy := lazy == state.flags.swapGreed
      let level := { state.level with pieces := .part (body.times min max greedy) :: earlier }
      some { state with level := level }
  | _ => none

def readLazy : List Char → Bool × List Char
  | '?' :: rest => (true, rest)
  | rest => (false, rest)

def roundsBound : Nat := 0x100000000

def readRounds? (flags : Flags) (text : List Char) : Option (Nat × List Char) :=
  let text := text.dropWhile Text.isWhite
  let (digits, rest) := flags.span Char.isDigit text.length text
  let count := digits.foldl (fun value digit => value * 10 + (digit.toNat - '0'.toNat)) 0
  if digits.isEmpty || roundsBound ≤ count then none
  else some (count, flags.skip (rest.dropWhile Text.isWhite))

def readRange? (flags : Flags) (text : List Char) : Option (Nat × Option Nat × List Char) := do
  let (min, rest) ← readRounds? flags (flags.skip text)
  match rest with
  | '\x7d' :: rest => some (min, some min, rest)
  | ',' :: rest =>
      match flags.skip rest with
      | '\x7d' :: rest => some (min, none, rest)
      | rest =>
          let (max, rest) ← readRounds? flags rest
          match rest with
          | '\x7d' :: rest => if min ≤ max then some (min, some max, rest) else none
          | _ => none
  | _ => none

def readName? (text : List Char) : Option (List Char × List Char) :=
  let name := text.takeWhile (· != '>')
  let isNameChar (char : Char) : Bool :=
    ['_', '.', '[', ']'].contains char || Text.isAlphanumeric char
  match name, text.dropWhile (· != '>') with
  | first :: later, _ :: rest =>
      if (first == '_' || Text.isAlphabetic first) && later.all isNameChar then some (name, rest)
      else none
  | _, _ => none

def State.openGroup (state : State) (capture : Option Nat) (flags : Flags) : State :=
  { state with
    level := { flags := flags, choices := [], pieces := [] }
    outer := (capture, state.level) :: state.outer }

def State.openCapture (state : State) : State :=
  { state.openGroup (some (state.groups + 1)) state.flags with groups := state.groups + 1 }

def State.openNamed? (state : State) (text : List Char) : Option (State × List Char) := do
  let (name, rest) ← readName? text
  if state.names.contains name then none
  else some ({ state.openCapture with names := name :: state.names }, rest)

/-- The start of a group, from after its parenthesis: a group of one of several
kinds, or a change of flags for the rest of the enclosing group. Conditions on
what precedes or follows are not part of the language. -/
def readGroup? (state : State) (text : List Char) : Option (State × List Char) :=
  match state.flags.skip text with
  | '?' :: 'P' :: '<' :: rest => state.openNamed? rest
  | '?' :: '<' :: '=' :: _ => none
  | '?' :: '<' :: '!' :: _ => none
  | '?' :: '<' :: rest => state.openNamed? rest
  | '?' :: rest =>
      match Flags.read false false [] state.flags rest with
      | none => none
      | some (flags, _, ':', rest) => some (state.openGroup none flags, rest)
      | some (flags, given, _, rest) =>
          let level := { state.level with flags := flags, pieces := .flags :: state.level.pieces }
          if given then some ({ state with level := level }, rest) else none
  | rest => some (state.openCapture, rest)

def State.close? (state : State) : Option State :=
  match state.outer with
  | [] => none
  | (capture, level) :: outer =>
      let body := state.level.finish
      let pattern := match capture with
        | some index => .group index body
        | none => body
      some ({ state with level := level, outer := outer }.push pattern)

def State.alternate (state : State) : State :=
  let choices := concatPieces state.level.pieces :: state.level.choices
  { state with level := { state.level with choices := choices, pieces := [] } }

def step? (state : State) (char : Char) (rest : List Char) : Option (State × List Char) :=
  match char with
  | '(' => readGroup? state rest
  | ')' => state.close?.map fun state => (state, rest)
  | '|' => some (state.alternate, rest)
  | '[' => (readBracket? state.flags rest).map fun (members, rest) =>
      (state.push (.chars members), rest)
  | '?' =>
      let (lazy, rest) := readLazy rest
      (state.iterate? 0 (some 1) lazy).map fun state => (state, rest)
  | '*' =>
      let (lazy, rest) := readLazy rest
      (state.iterate? 0 none lazy).map fun state => (state, rest)
  | '+' =>
      let (lazy, rest) := readLazy rest
      (state.iterate? 1 none lazy).map fun state => (state, rest)
  | '\x7b' => do
      let (min, max, rest) ← readRange? state.flags rest
      let (lazy, rest) := readLazy (state.flags.skip rest)
      let state ← state.iterate? min max lazy
      some (state, rest)
  | '\\' => (readEscape? state.flags rest).map fun (primitive, rest) =>
      (state.push (ofPrimitive state.flags primitive), rest)
  | '.' => some (state.push (dot state.flags), rest)
  | '^' => some (state.push (.look (lineStart state.flags)), rest)
  | '$' => some (state.push (.look (lineEnd state.flags)), rest)
  | _ => some (state.push (literal state.flags char), rest)

/-- Reads to the end. Every step reads at least one character, so a pattern
takes at most as many steps as it has characters. -/
def readAll? : Nat → State → List Char → Option Pattern
  | limit, state, text =>
      match state.flags.skip text, limit with
      | [], _ => if state.outer.isEmpty then some state.level.finish else none
      | _ :: _, 0 => none
      | char :: rest, limit + 1 =>
          match step? state char rest with
          | some (state, rest) => readAll? limit state rest
          | none => none

end Reader

def Pattern.parse? (ignoreCase : Bool) (text : List Char) : Option Pattern :=
  Reader.readAll? text.length (Reader.State.start ignoreCase) text

end LineGrammar.Regex
