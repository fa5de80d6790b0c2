import LineGrammar.Expr.Basic
import LineGrammar.Expr.Trial

/-!
Trying an expression at a cursor, and finding its matches in what follows.
-/

namespace LineGrammar.Expr

mutual

def attempt : Expr → Attempt
  | .leaf name source regex => .tagged name (.leaf source regex)
  | .sequence name items skips => .tagged name (.sequence skips (attempts items))
  | .set name items bounds => .tagged name (.set bounds (attempts items))
  | .repetition name item multiplicity separator =>
      .tagged name (.repetition multiplicity item.attempt (attempt? separator))

def attempts : List Expr → List Attempt
  | [] => []
  | first :: rest => first.attempt :: attempts rest

def attempt? : Option Expr → Option Attempt
  | none => none
  | some expr => some expr.attempt

end

structure Search (Result : Type) where
  found : Result
  cursor : Cursor
  trace : List Note

/-- The first match at or after a cursor, trying at most `limit` places. The
cursor is left after the match, one character further if that has no width. -/
def findWithin (attempt : Attempt) : Nat → Cursor → Search (Option Match)
  | 0, cursor => ⟨none, cursor, []⟩
  | limit + 1, cursor =>
      if cursor.atEnd then ⟨none, cursor, []⟩
      else
        let trial := attempt cursor
        match trial.result with
        | .ok found =>
            let after := if found.isEmpty then trial.cursor.advance 1 else trial.cursor
            ⟨some found, after, trial.trace⟩
        | .error _ =>
            let search := findWithin attempt limit (trial.cursor.advance 1)
            { search with trace := trial.trace ++ search.trace }

/-- The first match at or after a cursor. There are no more places to try than
the buffer has characters. -/
def find (expr : Expr) (cursor : Cursor) : Search (Option Match) :=
  findWithin expr.attempt (cursor.buffer.charCount + 1) cursor

def findAll (expr : Expr) : Nat → Cursor → Search (List Match)
  | 0, cursor => ⟨[], cursor, []⟩
  | limit + 1, cursor =>
      let search := expr.find cursor
      match search.found with
      | none => ⟨[], search.cursor, search.trace⟩
      | some found =>
          let later := expr.findAll limit search.cursor
          ⟨found :: later.found, later.cursor, search.trace ++ later.trace⟩

end LineGrammar.Expr
