import LineGrammar.Grammar.Basic

/-!
One round of a parse: the rules of the current scope are tried in order, the
first that matches wins, and where none does a relaxed scope passes over one
character.
-/

namespace LineGrammar.Session

/-- What follows when a rule has matched. -/
def win (scope : String) (rule : Nat) (found : Match) : Action Bool := fun session =>
  let session := session.note (.matched scope rule found.start found.stop)
  let saved :=
    if session.context.setting.config.recordAll && !found.isEmpty then save found session
    else .ok () session
  match saved with
  | .ok () session => .ok true (session.publish (.matched scope rule found))
  | .error error session => .error error session

/-- Tries rules of a scope, the first of which has the given index, each at
`start`. -/
def tryRules (scope : String) (start : Position) : Nat → List Rule → Action Bool
  | _, [] => fun session => .ok false session
  | index, rule :: later => fun session =>
      match rule.matchAt session with
      | .ok found session => win scope index found session
      | .error error session =>
          if error.isRecoverable then
            tryRules scope start (index + 1) later
              { session with cursor := session.cursor.moveTo start }
          else .error error session

/-- Tries the rules of the current scope at the cursor. Whether one matched is
the answer; in a strict scope one has to. -/
def matchAt (grammar : Grammar) : Action Bool := fun session =>
  let scope := session.context.scopeName
  match grammar.scope? scope with
  | none => .error (session.context.fault (.noRules scope)) session
  | some rules =>
      match tryRules scope session.cursor.position 0 rules.rules session with
      | .ok false session =>
          if session.context.isStrict scope then abandon (.noRule scope) session
          else .ok false session
      | outcome => outcome

def announceStart (session : Session) : Session :=
  if session.cursor.atLineStart then session.publish (.lineBegun session.cursor.position)
  else session

/-- Passes over one character, but not over the end of a line. -/
def skipChar (session : Session) : Session :=
  if session.cursor.atLineEnd then session
  else { session with cursor := session.cursor.advance 1 }

/-- At the end of a line, makes it known and goes to the next one. -/
def endLine (session : Session) : Session :=
  if session.cursor.atLineEnd then
    let session := session.publish (.lineEnded session.cursor.position)
    { session with cursor := session.cursor.nextLine }
  else session

def round (grammar : Grammar) : Action Unit := fun session =>
  match matchAt grammar session.announceStart with
  | .ok true session => .ok () session.endLine
  | .ok false session => .ok () session.skipChar.endLine
  | .error error session => .error error session

end LineGrammar.Session
