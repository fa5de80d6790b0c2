import LineGrammar.Error
import LineGrammar.Regex.Basic

/-!
Token expressions. An expression is a leaf, which matches a pattern or nothing
at all, or a combination of expressions: a sequence, some of whose items may be
left out; a set, whose members may come in any order; or a repetition, possibly
with a separator between rounds. Each may carry a name that tags its matches.
-/

namespace LineGrammar

/-- Which items of a sequence may fail. -/
structure SkipPolicy where
  /-- indices of the items that may fail -/
  indices : List Nat := []
  /-- how many may fail in one attempt, if given -/
  limit : Option Nat := none
  deriving DecidableEq, Repr

namespace SkipPolicy

def allows (policy : SkipPolicy) (index : Nat) : Bool := policy.indices.contains index

/-- How many items may fail in one attempt on a sequence of `count` items:
without a limit, all that are allowed to, but not all there are. -/
def budget (policy : SkipPolicy) (count : Nat) : Nat :=
  policy.limit.getD (min ((List.range count).countP policy.allows) (count - 1))

def isPlain (policy : SkipPolicy) : Bool := policy.indices.isEmpty && policy.limit.isNone

end SkipPolicy

/-- How many members of a set must match, and how many may. -/
structure Bounds where
  min : Nat := 1
  max : Option Nat := none
  deriving DecidableEq, Repr

namespace Bounds

/-- Sets the lower bound, and raises the upper one if it is below. -/
def atLeast (bounds : Bounds) (count : Nat) : Bounds :=
  { min := count
    max := bounds.max.map fun max => Nat.max max count }

/-- Sets the upper bound, and lowers the lower one if it is above. -/
def atMost (bounds : Bounds) (count : Nat) : Bounds :=
  { min := Nat.min bounds.min count
    max := some count }

end Bounds

inductive Expr where
  /-- a pattern, or a place anywhere if there is no pattern -/
  | leaf (name : Option String) (source : String) (regex : Option Regex)
  | sequence (name : Option String) (items : List Expr) (skips : SkipPolicy)
  | set (name : Option String) (items : List Expr) (bounds : Bounds)
  | repetition (name : Option String) (item : Expr) (multiplicity : Multiplicity)
      (separator : Option Expr)

namespace Expr

def regex (source : String) : Except Error Expr :=
  match Regex.compile? source false with
  | some regex => .ok (.leaf none source (some regex))
  | none => .error .pattern

def regexNocase (source : String) : Except Error Expr :=
  match Regex.compile? source true with
  | some regex => .ok (.leaf none source (some regex))
  | none => .error .pattern

def literal (text : String) : Except Error Expr :=
  regex (String.ofList (Regex.escape text.toList))

def always : Expr := .leaf none "" none

def seq (items : List Expr) : Expr := .sequence none items {}

/-- At least one of the members. -/
def any (items : List Expr) : Expr := .set none items {}

def all (items : List Expr) : Expr := .set none items (Bounds.atLeast {} items.length)

def oneOf (items : List Expr) : Expr := .set none items (Bounds.atMost {} 1)

def twoOf (items : List Expr) : Expr := .set none items ((Bounds.atLeast {} 2).atMost 2)

def rep (item : Expr) (multiplicity : Multiplicity) : Expr := .repetition none item multiplicity none

def optional (item : Expr) : Expr := item.rep .optional

def zeroOrMore (item : Expr) : Expr := item.rep .zeroOrMore

def oneOrMore (item : Expr) : Expr := item.rep .oneOrMore

def twoOrMore (item : Expr) : Expr := item.rep .twoOrMore

def name : Expr → Option String
  | .leaf name .. | .sequence name .. | .set name .. | .repetition name .. => name

def withName (name : Option String) : Expr → Expr
  | .leaf _ source regex => .leaf name source regex
  | .sequence _ items skips => .sequence name items skips
  | .set _ items bounds => .set name items bounds
  | .repetition _ item multiplicity separator => .repetition name item multiplicity separator

def named (expr : Expr) (name : String) : Expr := expr.withName (some name)

mutual

def render : Expr → String
  | .leaf _ _ none => "<always>"
  | .leaf _ source (some _) => source
  | .sequence _ items _ => "[" ++ ", ".intercalate (renderList items) ++ "]"
  | .set _ items _ => "\x7b" ++ ", ".intercalate (renderList items) ++ "\x7d"
  | .repetition _ item multiplicity _ =>
      "(" ++ item.render ++ ")\x7b" ++ multiplicity.render ++ "\x7d"

def renderList : List Expr → List String
  | [] => []
  | first :: rest => first.render :: renderList rest

end

end Expr

end LineGrammar
