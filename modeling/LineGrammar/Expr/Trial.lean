import LineGrammar.Expr.Basic
import LineGrammar.Note

/-!
Attempts at a cursor and how they combine. An attempt answers with a match or
an error, and says where the cursor stands afterwards in either case; what it
tried is kept in a trace. Every combination brings the cursor back itself when
it fails.
-/

namespace LineGrammar

/-- The outcome of trying something at a cursor. -/
structure Trial (Result : Type) where
  result : Except Error Result
  cursor : Cursor
  trace : List Note

abbrev Attempt := Cursor → Trial Match

namespace Trial

variable {Result Other : Type}

def after (notes : List Note) (trial : Trial Result) : Trial Result :=
  { trial with trace := notes ++ trial.trace }

def map (change : Result → Other) (trial : Trial Result) : Trial Other :=
  { trial with result := trial.result.map change }

end Trial

namespace Attempt

def leafText (regex : Option Regex) (cursor : Cursor) :
    Option (List Char × List (Option String)) :=
  match regex with
  | none => some ([], [])
  | some regex =>
      (cursor.matchRegex regex).map fun captures =>
        (Text.sliceBytes captures.start captures.stop cursor.text,
          captures.groups.map fun span =>
            span.map fun (start, stop) => String.ofList (Text.sliceBytes start stop cursor.text))

def leaf (source : String) (regex : Option Regex) : Attempt := fun cursor =>
  let probe := Probe.leaf source
  let start := cursor.position
  match leafText regex cursor with
  | none =>
      let error := Error.noMatch .leaf start
      { result := .error error
        cursor := cursor
        trace := [.probed cursor probe .begun, .probed cursor probe (.failed error)] }
  | some (text, groups) =>
      let after := cursor.skipBytes (Text.byteLength text)
      { result := .ok (.leaf ⟨start, after.position, none, String.ofList text⟩ source groups)
        cursor := after
        trace := [.probed cursor probe .begun, .probed after probe .succeeded] }

def compose (start : Position) (origin : Origin) (trial : Trial (List Match)) : Trial Match :=
  trial.map fun children =>
    .composite ⟨start, trial.cursor.position, none, trial.cursor.textFrom start⟩ origin children

/-- The items of a sequence from `index` on, of which `skipped` have failed so
far. An item may fail if the policy allows it and the budget is not used up. -/
def items (start : Position) (skips : SkipPolicy) (budget : Nat) :
    Nat → Nat → List Attempt → Cursor → Trial (List Match)
  | _, _, [], cursor => ⟨.ok [], cursor, []⟩
  | index, skipped, item :: later, cursor =>
      let trial := item cursor
      match trial.result with
      | .ok found =>
          ((items start skips budget (index + 1) skipped later trial.cursor).map
            (found :: ·)).after trial.trace
      | .error error =>
          if error.isRecoverable && decide (skipped < budget) && skips.allows index then
            (items start skips budget (index + 1) (skipped + 1) later trial.cursor).after
              trial.trace
          else
            let back := trial.cursor.moveTo start
            { result := .error (if error.isRecoverable then .noMatch .sequence start else error)
              cursor := back
              trace := trial.trace ++ [.probed back (.sequence index) (.failed error)] }

def sequence (skips : SkipPolicy) (attempts : List Attempt) : Attempt := fun cursor =>
  let start := cursor.position
  let budget := skips.budget attempts.length
  (compose start .sequence (items start skips budget 0 0 attempts cursor)).after
    [.probed cursor (.sequence attempts.length) .begun]

/-- The first member that matches, and the members that remain without it. -/
def firstMember : List Attempt → Cursor → Trial (Option (Match × List Attempt))
  | [], cursor => ⟨.ok none, cursor, []⟩
  | member :: later, cursor =>
      let trial := member cursor
      match trial.result with
      | .ok found => ⟨.ok (some (found, later)), trial.cursor, trial.trace⟩
      | .error error =>
          if error.isRecoverable then
            ((firstMember later trial.cursor).map
              (Option.map fun (found, others) => (found, member :: others))).after trial.trace
          else ⟨.error error, trial.cursor, trial.trace⟩

/-- Takes up to `limit` members, each the first remaining one that matches. -/
def members : Nat → List Attempt → Cursor → Trial (List Match)
  | 0, _, cursor => ⟨.ok [], cursor, []⟩
  | limit + 1, remaining, cursor =>
      let trial := firstMember remaining cursor
      match trial.result with
      | .ok none => ⟨.ok [], trial.cursor, trial.trace⟩
      | .ok (some (found, others)) =>
          ((members limit others trial.cursor).map (found :: ·)).after trial.trace
      | .error error => ⟨.error error, trial.cursor, trial.trace⟩

def set (bounds : Bounds) (attempts : List Attempt) : Attempt := fun cursor =>
  let start := cursor.position
  let limit := match bounds.max with
    | some max => min max attempts.length
    | none => attempts.length
  let trial := (members limit attempts cursor).after
    [.probed cursor (.set bounds.min bounds.max) .begun]
  match trial.result with
  | .error error => ⟨.error error, trial.cursor.moveTo start, trial.trace⟩
  | .ok children =>
      if children.length < bounds.min then
        let back := trial.cursor.moveTo start
        let error := Error.noMatch .set start
        { result := .error error
          cursor := back
          trace := trial.trace ++ [.probed back (.members children.length) (.failed error)] }
      else compose start .set trial

/-- The separator before a round, of which there is none before the first. -/
def separate (separator : Option Attempt) (count : Nat) (cursor : Cursor) : Trial Unit :=
  match separator with
  | some attempt => if count = 0 then ⟨.ok (), cursor, []⟩ else (attempt cursor).map fun _ => ()
  | none => ⟨.ok (), cursor, []⟩

/-- Rounds of an item after `count` others, until the upper bound is reached,
the separator or the item fails, or a round has no width. Every other round
consumes a character, so `limit` rounds are enough if the line has fewer
characters left. -/
def rounds (start : Position) (item : Attempt) (separator : Option Attempt) (upper : Option Nat) :
    Nat → Nat → Cursor → Trial (List Match)
  | 0, _, cursor => ⟨.ok [], cursor, []⟩
  | limit + 1, count, cursor =>
      if upper.any (· ≤ count) then ⟨.ok [], cursor, []⟩
      else
        let lead := separate separator count cursor
        match lead.result with
        | .error error =>
            if error.isRecoverable then ⟨.ok [], lead.cursor, lead.trace⟩
            else ⟨.error error, lead.cursor.moveTo start, lead.trace⟩
        | .ok () =>
            let trial := (item lead.cursor).after lead.trace
            match trial.result with
            | .ok found =>
                if trial.cursor.position = cursor.position then
                  ⟨.ok [found], trial.cursor, trial.trace⟩
                else
                  ((rounds start item separator upper limit (count + 1) trial.cursor).map
                    (found :: ·)).after trial.trace
            | .error error =>
                if error.isRecoverable then
                  ⟨.ok [], trial.cursor.moveTo cursor.position, trial.trace⟩
                else ⟨.error error, trial.cursor.moveTo start, trial.trace⟩

def repetition (multiplicity : Multiplicity) (item : Attempt) (separator : Option Attempt) :
    Attempt := fun cursor =>
  let start := cursor.position
  let trial :=
    (rounds start item separator multiplicity.upperBound (cursor.rest.length + 1) 0 cursor).after
      [.probed cursor (.repetition multiplicity) .begun]
  match trial.result with
  | .error error => ⟨.error error, trial.cursor, trial.trace⟩
  | .ok children =>
      if multiplicity.accepts children.length then compose start .repetition trial
      else
        let back := trial.cursor.moveTo start
        let error := Error.noMatch .repetition start
        { result := .error error
          cursor := back
          trace := trial.trace ++ [.probed back (.rounds children.length) (.failed error)] }

def tagged (tag : Option String) (attempt : Attempt) : Attempt := fun cursor =>
  (attempt cursor).map fun found => found.withTag tag

end Attempt

end LineGrammar
