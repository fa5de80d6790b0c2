import LineGrammar.Text.Blank
import LineGrammar.Text.Numeral

/-!
How often something may be repeated: a sorted list of disjoint ranges of
counts, or an arithmetic progression. Counts have 64 bits and start at 1; that
no repetition at all is accepted is said apart.
-/

namespace LineGrammar

/-- A range of counts, without upper end if `max` is absent. -/
structure CountRange where
  min : Nat
  max : Option Nat
  deriving DecidableEq, Repr

inductive CountFault where
  | fromZero (range : CountRange)
  | inverted (range : CountRange)
  | notACount (text : String)
  | noRanges
  | overlapping (first second : CountRange)
  | progression (start step : Nat)
  | other (message : String)
  deriving DecidableEq, Repr

namespace CountRange

def exactly (count : Nat) : CountRange := ⟨count, some count⟩

def contains (range : CountRange) (count : Nat) : Bool :=
  range.min ≤ count && match range.max with
    | some max => count ≤ max
    | none => true

def reaches (range other : CountRange) : Bool :=
  match range.max with
  | some max => other.min ≤ max
  | none => true

def overlaps (range other : CountRange) : Bool := range.reaches other && other.reaches range

def render (range : CountRange) : String :=
  match range.max with
  | some max =>
      if max = range.min then toString range.min
      else toString range.min ++ "-" ++ toString max
  | none => toString range.min ++ "+"

/-- A range as it may be used: from at least 1, and not inverted. -/
def validate (range : CountRange) : Except CountFault CountRange :=
  if range.min = 0 then .error (.fromZero range)
  else
    match range.max with
    | some max => if max < range.min then .error (.inverted range) else .ok range
    | none => .ok range

def splitHyphen? (text : List Char) : Option (List Char × List Char) :=
  match text.dropWhile (· != '-') with
  | [] => none
  | _ :: rest => some (text.takeWhile (· != '-'), rest)

def dropLast? (char : Char) (text : List Char) : Option (List Char) :=
  if text.getLast? = some char then some text.dropLast else none

def readCount (whole text : List Char) : Except CountFault Nat :=
  match Text.count? (Text.trim text) with
  | some count => .ok count
  | none => .error (.notACount (String.ofList whole))

/-- A range as written: a count, a count with a plus sign for that and more, a
count with a hyphen for at most that, or two counts with a hyphen between. -/
def read (text : List Char) : Except CountFault CountRange :=
  match dropLast? '+' text with
  | some min => do pure ⟨← readCount text min, none⟩
  | none =>
      match dropLast? '-' text with
      | some max => do pure ⟨1, some (← readCount text max)⟩
      | none =>
          match splitHyphen? text with
          | some (min, max) => do pure ⟨← readCount text min, some (← readCount text max)⟩
          | none => do pure (exactly (← readCount text text))

def parse (text : List Char) : Except CountFault CountRange := do
  (← read (Text.trim text)).validate

end CountRange

def CountFault.message : CountFault → String
  | .fromZero range => range.render ++ ": counts start at 1"
  | .inverted range => range.render ++ ": min > max"
  | .notACount text => "'" ++ text ++ "' is not a count"
  | .noRanges => "no count ranges given"
  | .overlapping first second =>
      "overlapping multiplicities " ++ first.render ++ " and " ++ second.render
  | .progression start step =>
      "progression " ++ toString start ++ "+" ++ toString step ++
        "n: start and step must be positive"
  | .other message => message

inductive Counts where
  | listed (ranges : List CountRange)
  /-- `start`, `start + step`, `start + 2 * step`, … -/
  | every (start step : Nat)
  deriving DecidableEq, Repr

namespace Counts

/-- The first range and the counts behind it. A member of a progression is
yielded as long as the one after it is still a count. -/
def next? : Counts → Option (CountRange × Counts)
  | .listed [] => none
  | .listed (range :: later) => some (range, .listed later)
  | .every start step =>
      if start + step ≤ Text.maxCount then some (.exactly start, .every (start + step) step)
      else none

def take : Nat → Counts → List CountRange
  | 0, _ => []
  | limit + 1, counts =>
      match counts.next? with
      | some (range, later) => range :: take limit later
      | none => []

/-- Whether one of the first `limit` ranges contains `count`. The search ends at
the first range that begins behind it. -/
def holds (count : Nat) : Nat → Counts → Bool
  | 0, _ => false
  | limit + 1, counts =>
      match counts.next? with
      | some (range, later) =>
          range.min ≤ count && (range.contains count || holds count limit later)
      | none => false

end Counts

structure Multiplicity where
  counts : Counts
  /-- whether no repetition at all is accepted -/
  zero : Bool
  deriving DecidableEq, Repr

namespace Multiplicity

def overlap? : List CountRange → Option (CountRange × CountRange)
  | [] => none
  | first :: rest =>
      match rest.find? first.overlaps with
      | some second => some (first, second)
      | none => overlap? rest

def ofRanges (ranges : List CountRange) : Except CountFault Multiplicity := do
  let ranges ← ranges.mapM CountRange.validate
  if ranges.isEmpty then throw .noRanges
  let sorted := ranges.mergeSort fun left right => left.min ≤ right.min
  match overlap? sorted with
  | some (first, second) => throw (.overlapping first second)
  | none => pure ⟨.listed sorted, false⟩

def exactly (count : Nat) : Except CountFault Multiplicity := ofRanges [.exactly count]

def between (min max : Nat) : Except CountFault Multiplicity := ofRanges [⟨min, some max⟩]

def atLeast (min : Nat) : Except CountFault Multiplicity := ofRanges [⟨min, none⟩]

def atMost (max : Nat) : Except CountFault Multiplicity := ofRanges [⟨1, some max⟩]

def every (start step : Nat) : Except CountFault Multiplicity :=
  if start = 0 ∨ step = 0 then .error (.progression start step)
  else .ok ⟨.every start step, false⟩

def optional : Multiplicity := ⟨.listed [.exactly 1], true⟩

def zeroOrMore : Multiplicity := ⟨.listed [⟨1, none⟩], true⟩

def oneOrMore : Multiplicity := ⟨.listed [⟨1, none⟩], false⟩

def twoOrMore : Multiplicity := ⟨.listed [⟨2, none⟩], false⟩

def splitCommas : List Char → List (List Char)
  | [] => [[]]
  | char :: rest =>
      if char = ',' then [] :: splitCommas rest
      else
        match splitCommas rest with
        | [] => [[char]]
        | first :: later => (char :: first) :: later

def parse (text : String) : Except CountFault Multiplicity := do
  ofRanges (← (splitCommas text.toList).mapM CountRange.parse)

def ranges (multiplicity : Multiplicity) (limit : Nat) : List CountRange :=
  multiplicity.counts.take limit

/-- Ranges begin at 1 or later and each behind the one before, so there are no
more than `count` to look at. -/
def accepts (multiplicity : Multiplicity) (count : Nat) : Bool :=
  if count = 0 then multiplicity.zero else multiplicity.counts.holds count count

/-- The least accepted count, 0 if there is none. -/
def lowerBound (multiplicity : Multiplicity) : Nat :=
  if multiplicity.zero then 0
  else
    match multiplicity.counts.next? with
    | some (range, _) => range.min
    | none => 0

def upperBound (multiplicity : Multiplicity) : Option Nat :=
  match multiplicity.counts with
  | .listed ranges => ranges.getLast?.bind CountRange.max
  | .every _ _ => none

def render (multiplicity : Multiplicity) : String :=
  (if multiplicity.zero then "0," else "") ++
    match multiplicity.counts with
    | .listed ranges => ",".intercalate (ranges.map CountRange.render)
    | .every start step => toString start ++ "+" ++ toString step ++ "n"

end Multiplicity

end LineGrammar
