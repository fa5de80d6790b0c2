import LineGrammar.Buffer.Excerpt
import LineGrammar.Table
import LineGrammar.Text.Quoted

/-!
Match trees. A leaf is what a pattern matched, a composite what a combination
of expressions matched, with the matches of its parts as children.
-/

namespace LineGrammar

inductive Origin where
  | sequence
  | set
  | repetition
  deriving DecidableEq, Repr

/-- Where a match lies and what it carries: the text of its span, which the
rules of a grammar may edit, and a tag. -/
structure Extent where
  start : Position
  stop : Position
  tag : Option String
  text : String
  deriving DecidableEq, Repr

inductive Match where
  /-- `groups` holds the text of each group of the pattern that took part -/
  | leaf (extent : Extent) (pattern : String) (groups : List (Option String))
  | composite (extent : Extent) (origin : Origin) (children : List Match)
  deriving Repr

namespace Match

mutual

def decEq : (left right : Match) → Decidable (left = right)
  | .leaf extent pattern groups, .leaf extent' pattern' groups' =>
      decidable_of_iff (extent = extent' ∧ pattern = pattern' ∧ groups = groups') (by simp)
  | .leaf .., .composite .. => isFalse (by simp)
  | .composite .., .leaf .. => isFalse (by simp)
  | .composite extent origin children, .composite extent' origin' children' =>
      match decEqList children children' with
      | isTrue same =>
          decidable_of_iff (extent = extent' ∧ origin = origin') (by simp [same])
      | isFalse different => isFalse (by simp [different])

def decEqList : (left right : List Match) → Decidable (left = right)
  | [], [] => isTrue rfl
  | [], _ :: _ => isFalse (by simp)
  | _ :: _, [] => isFalse (by simp)
  | first :: rest, first' :: rest' =>
      match decEq first first', decEqList rest rest' with
      | isTrue sameFirst, isTrue sameRest => isTrue (by simp [sameFirst, sameRest])
      | isFalse different, _ => isFalse (by simp [different])
      | _, isFalse different => isFalse (by simp [different])

end

instance : DecidableEq Match := decEq

def extent : Match → Extent
  | .leaf extent _ _ => extent
  | .composite extent _ _ => extent

def start (found : Match) : Position := found.extent.start

def stop (found : Match) : Position := found.extent.stop

def tag (found : Match) : Option String := found.extent.tag

def text (found : Match) : String := found.extent.text

def mapExtent (change : Extent → Extent) : Match → Match
  | .leaf extent pattern groups => .leaf (change extent) pattern groups
  | .composite extent origin children => .composite (change extent) origin children

def withTag (found : Match) (tag : Option String) : Match :=
  found.mapExtent fun extent => { extent with tag := tag }

def withText (found : Match) (text : String) : Match :=
  found.mapExtent fun extent => { extent with text := text }

def isLeaf : Match → Bool
  | .leaf .. => true
  | .composite .. => false

def isEmpty (found : Match) : Bool := found.start == found.stop

def children : Match → List Match
  | .leaf .. => []
  | .composite _ _ children => children

/-- A group of a leaf; group 0 is the whole text. -/
def group? (found : Match) (index : Nat) : Option String :=
  match found, index with
  | .leaf extent _ _, 0 => some extent.text
  | .leaf _ _ groups, index + 1 => groups[index]?.join
  | .composite .., _ => none

def pattern? : Match → Option String
  | .leaf _ pattern _ => some pattern
  | .composite .. => none

mutual

def size : Match → Nat
  | .leaf .. => 1
  | .composite _ _ children => sizeList children + 1

def sizeList : List Match → Nat
  | [] => 0
  | first :: rest => first.size + sizeList rest

end

/-- Visits the nodes on a stack, each before its children; one step per node. -/
def walk : Nat → List Match → List Match
  | 0, _ => []
  | _ + 1, [] => []
  | steps + 1, found :: stack => found :: walk steps (found.children ++ stack)

def flatten (found : Match) : List Match := walk found.size [found]

def tagged (found : Match) (tag : String) : List Match :=
  found.flatten.filter (·.tag == some tag)

/-- Changes what is kept under the tag of a match, if it has one. -/
def keep {Kept : Type} (change : Option Kept → Match → Kept) (table : Table Kept) (found : Match) :
    Table Kept :=
  match found.tag with
  | none => table
  | some tag => table.set tag (change (table.get? tag) found)

/-- Every tag with the nodes that carry it, in order of visit. -/
def captures (found : Match) : Table (List Match) :=
  found.flatten.foldl (keep fun kept node => kept.getD [] ++ [node]) []

/-- Every tag with the last node that carries it. -/
def lastCaptures (found : Match) : Table Match :=
  found.flatten.foldl (keep fun _ node => node) []

def render (found : Match) : String :=
  (match found.tag with
    | some tag => tag ++ ": "
    | none => "") ++
    found.start.render ++ " - " ++ found.stop.render ++ " " ++ Text.quote found.text

def excerpt (found : Match) (buffer : Buffer) (width : Nat) : String :=
  buffer.excerpt found.start found.stop width

end Match

end LineGrammar
