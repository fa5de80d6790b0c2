import LineGrammar.Regex.CharClass

/-!
Patterns as parsed: what a pattern is made of, before any matching. `Pattern`
has one constructor per construct of the pattern language; `Pattern.times`
builds repetitions and drops those that can make no difference.
-/

namespace LineGrammar.Regex

inductive Assertion where
  | textStart
  | textEnd
  | lineStart
  | lineEnd
  /-- line ends of either convention, the two characters of one end kept together -/
  | crlfStart
  | crlfEnd
  | wordBoundary
  | notWordBoundary
  | wordStart
  | wordEnd
  | wordStartHalf
  | wordEndHalf
  deriving DecidableEq, Repr

def isWord (char : Option Char) : Bool :=
  match char with
  | some char => Text.isWordChar char
  | none => false

/-- Whether an assertion holds between `previous` and `next`, which are absent
at the ends of the text. -/
def Assertion.holds (previous next : Option Char) : Assertion → Bool
  | .textStart => previous.isNone
  | .textEnd => next.isNone
  | .lineStart => previous.isNone || previous == some '\n'
  | .lineEnd => next.isNone || next == some '\n'
  | .crlfStart =>
      previous.isNone || previous == some '\n' || (previous == some '\r' && next != some '\n')
  | .crlfEnd => next.isNone || next == some '\r' || (next == some '\n' && previous != some '\r')
  | .wordBoundary => isWord previous != isWord next
  | .notWordBoundary => isWord previous == isWord next
  | .wordStart => !isWord previous && isWord next
  | .wordEnd => isWord previous && !isWord next
  | .wordStartHalf => !isWord previous
  | .wordEndHalf => !isWord next

inductive Pattern where
  | empty
  | chars (members : CharClass)
  | look (assertion : Assertion)
  | group (index : Nat) (body : Pattern)
  | seq (first second : Pattern)
  | alt (first second : Pattern)
  /-- at least `min` and at most `max` times, preferring more if `greedy` -/
  | iterate (body : Pattern) (min : Nat) (max : Option Nat) (greedy : Bool)
  deriving DecidableEq, Repr

namespace Pattern

def canBeEmpty : Pattern → Bool
  | .empty => true
  | .chars _ => false
  | .look _ => true
  | .group _ body => body.canBeEmpty
  | .seq first second => first.canBeEmpty && second.canBeEmpty
  | .alt first second => first.canBeEmpty || second.canBeEmpty
  | .iterate body min _ _ => min == 0 || body.canBeEmpty

def isWidthless : Pattern → Bool
  | .empty => true
  | .chars _ => false
  | .look _ => true
  | .group _ body => body.isWidthless
  | .seq first second => first.isWidthless && second.isWidthless
  | .alt first second => first.isWidthless && second.isWidthless
  | .iterate body _ max _ => max == some 0 || body.isWidthless

/-- A repetition. More than one round of a widthless pattern adds nothing, one
round is the pattern itself and no round is empty, its groups included. -/
def times (body : Pattern) (min : Nat) (max : Option Nat) (greedy : Bool) : Pattern :=
  let widthless := body.isWidthless
  let min := if widthless then Nat.min min 1 else min
  let max := if widthless then some ((max.getD 1).min 1) else max
  if max = some 0 then .empty
  else if min = 1 ∧ max = some 1 then body
  else .iterate body min max greedy

def concat : List Pattern → Pattern
  | [] => .empty
  | [last] => last
  | first :: rest => .seq first (concat rest)

def choice : List Pattern → Pattern
  | [] => .empty
  | [last] => last
  | first :: rest => .alt first (choice rest)

/-- The largest index of a group, 0 if there is none. -/
def groupCount : Pattern → Nat
  | .empty | .chars _ | .look _ => 0
  | .group index body => max index body.groupCount
  | .seq first second | .alt first second => max first.groupCount second.groupCount
  | .iterate body _ _ _ => body.groupCount

end Pattern

end LineGrammar.Regex
