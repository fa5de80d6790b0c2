import LineGrammar.Regex.Pattern

/-!
Matching. A pattern is unrolled into a program in which every choice has a
number of its own, and the program runs over a text by trying its choices in
order of preference; the first way through that leads to success is the match.

What follows a choice depends only on its number and on the place in the text.
So every choice is made at most once at a place: a way that comes to a choice
which has been made there before is cut off, because whatever it could lead to
has been tried, or is being tried, from there. This bounds the loops, it keeps
the number of steps proportional to the length of the text, and it decides
between the ways in which a repeated part may match nothing.
-/

namespace LineGrammar.Regex

/-- A pattern whose repetitions are unrolled down to optional parts and loops. -/
inductive Program where
  | empty
  | chars (members : CharClass)
  | look (assertion : Assertion)
  | group (index : Nat) (body : Program)
  | seq (first second : Program)
  /-- `first` if possible, else `second` -/
  | branch (choice : Nat) (first second : Program)
  /-- any number of rounds of `body`, as many as possible if `greedy` -/
  | star (choice : Nat) (greedy : Bool) (body : Program)
  deriving DecidableEq, Repr

namespace Program

def optional (choice : Nat) (greedy : Bool) (body : Program) : Program :=
  if greedy then .branch choice body .empty else .branch choice .empty body

/-- `count` copies, each numbered afresh from `next` on, followed by `tail`. -/
def copies (unroll : Nat → Program × Nat) : Nat → Nat → (Nat → Program × Nat) → Program × Nat
  | 0, next, tail => tail next
  | count + 1, next, tail =>
      let (body, next) := unroll next
      let (rest, next) := copies unroll count next tail
      (.seq body rest, next)

def optionals (unroll : Nat → Program × Nat) (greedy : Bool) : Nat → Nat → Program × Nat
  | 0, next => (.empty, next)
  | count + 1, next =>
      let choice := next
      let (body, next) := unroll (next + 1)
      let (rest, next) := optionals unroll greedy count next
      (optional choice greedy (.seq body rest), next)

def plus (unroll : Nat → Program × Nat) (greedy : Bool) (next : Nat) : Program × Nat :=
  let (body, next) := unroll next
  (.seq body (.star next greedy body), next + 1)

end Program

/-- The program of a pattern, its choices numbered from `next` on, and the next
free number. -/
def Pattern.unroll : Pattern → Nat → Program × Nat
  | .empty, next => (.empty, next)
  | .chars members, next => (.chars members, next)
  | .look assertion, next => (.look assertion, next)
  | .group index body, next =>
      let (body, next) := body.unroll next
      (.group index body, next)
  | .seq first second, next =>
      let (first, next) := first.unroll next
      let (second, next) := second.unroll next
      (.seq first second, next)
  | .alt first second, next =>
      let choice := next
      let (first, next) := first.unroll (next + 1)
      let (second, next) := second.unroll next
      (.branch choice first second, next)
  | .iterate body min (some max) greedy, next =>
      Program.copies body.unroll min next (Program.optionals body.unroll greedy (max - min))
  | .iterate body 0 none greedy, next =>
      if body.canBeEmpty then
        let (rounds, after) := Program.plus body.unroll greedy (next + 1)
        (Program.optional next greedy rounds, after)
      else
        let (round, after) := body.unroll (next + 1)
        (.star next greedy round, after)
  | .iterate body (min + 1) none greedy, next =>
      Program.copies body.unroll min next (Program.plus body.unroll greedy)

structure GroupSpan where
  index : Nat
  start : Nat
  stop : Nat
  deriving DecidableEq, Repr

/-- A choice with the place, in bytes from the start of the text, where it was
made. -/
structure Mark where
  choice : Nat
  offset : Nat
  deriving DecidableEq, Repr

/-- A place in the text, the way that led to it and the choices made so far,
those on other ways included. -/
structure State where
  previous : Option Char
  rest : List Char
  offset : Nat
  /-- groups closed so far, the latest first -/
  groups : List GroupSpan
  marks : List Mark

namespace State

def consume (state : State) (char : Char) (rest : List Char) : State :=
  { state with
    previous := some char
    rest := rest
    offset := state.offset + char.utf8Size }

def hasMade (state : State) (choice : Nat) : Bool := state.marks.contains ⟨choice, state.offset⟩

def make (state : State) (choice : Nat) : State :=
  { state with marks := ⟨choice, state.offset⟩ :: state.marks }

def closeGroup (state : State) (index start : Nat) : State :=
  { state with groups := ⟨index, start, state.offset⟩ :: state.groups }

def group? (state : State) (index : Nat) : Option GroupSpan :=
  state.groups.find? (·.index == index)

end State

/-- What becomes of the ways from a state: the first that was accepted gives a
result, or else all the choices made in vain are known. -/
inductive Verdict (Result : Type) where
  | accepted (result : Result)
  | refused (marks : List Mark)

namespace Verdict

variable {Result : Type}

def orTry (verdict : Verdict Result) (state : State) (other : State → Verdict Result) :
    Verdict Result :=
  match verdict with
  | .accepted result => .accepted result
  | .refused marks => other { state with marks := marks }

def result? : Verdict Result → Option Result
  | .accepted result => some result
  | .refused _ => none

end Verdict

namespace Program

/-- The rounds of a loop. Coming back to the loop without having consumed a
character is cut off, so one more visit than there are characters is enough. -/
def rounds {Result : Type} (round : State → (State → Verdict Result) → Verdict Result)
    (choice : Nat) (greedy : Bool) (next : State → Verdict Result) : Nat → State → Verdict Result
  | 0, state => .refused state.marks
  | visits + 1, state =>
      if state.hasMade choice then .refused state.marks
      else
        let state := state.make choice
        if greedy then
          (round state (rounds round choice greedy next visits)).orTry state next
        else
          (next state).orTry state fun state => round state (rounds round choice greedy next visits)

/-- Runs a program from a state and hands every way through, in order of
preference, to `next`, until one is accepted. -/
def run {Result : Type} : Program → State → (State → Verdict Result) → Verdict Result
  | .empty => fun state next => next state
  | .chars members => fun state next =>
      match state.rest with
      | [] => .refused state.marks
      | char :: rest =>
          if members.contains char then next (state.consume char rest) else .refused state.marks
  | .look assertion => fun state next =>
      if assertion.holds state.previous state.rest.head? then next state else .refused state.marks
  | .group index body => fun state next =>
      run body state fun inner => next (inner.closeGroup index state.offset)
  | .seq first second => fun state next => run first state fun middle => run second middle next
  | .branch choice first second => fun state next =>
      if state.hasMade choice then .refused state.marks
      else
        let state := state.make choice
        (run first state next).orTry state fun state => run second state next
  | .star choice greedy body => fun state next =>
      rounds (run body) choice greedy next (state.rest.length + 1) state

end Program

end LineGrammar.Regex
