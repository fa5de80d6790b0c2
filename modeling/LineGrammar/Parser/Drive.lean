import LineGrammar.Parser.Round

/-!
Running a grammar over a buffer, round after round, to its end. A fuse counts
the rounds that leave the cursor in place and stops a parse that gets nowhere.
Besides, every parse has a budget, which bounds the rounds of a parse that
keeps moving back and forth and the depth of parses inside parses. The error
`exhausted` says that the budget was used up. It says nothing about the text: with
no bound the parse would have gone on.
-/

namespace LineGrammar

/-- Counts consecutive rounds that ended where they began. -/
structure Fuse where
  position : Position
  count : Nat
  deriving DecidableEq, Repr

/-- The fuse after a round, or none if it has blown. -/
def Fuse.update? (fuse : Fuse) (limit : Nat) (position : Position) : Option Fuse :=
  if position = fuse.position then
    if fuse.count + 1 < limit then some { fuse with count := fuse.count + 1 } else none
  else some ⟨position, 0⟩

/-- How much a parse may take. -/
structure Budget where
  /-- levels of parses inside parses -/
  depth : Nat
  /-- rounds beyond those that a parse can take without moving back -/
  extra : Nat
  deriving DecidableEq, Repr

/-- The most rounds that a parse can take without moving back: at every
character and line break, as many as the fuse allows. -/
def Config.roundLimit (config : Config) (buffer : Buffer) : Nat :=
  (buffer.charCount + 1) * max 1 config.maxStall

structure Outcome where
  result : Except Error Tree
  cursor : Cursor
  events : Array Event
  notes : Array Note

namespace Session

def stall : Action Unit := fun session =>
  let complaint := Complaint.stalled session.context.setting.config.maxStall
    session.context.scopeName
  let diagnostic := session.context.diagnose session.cursor complaint
  .error (.stuck diagnostic) (session.note (.abandoned diagnostic))

def rounds (grammar : Grammar) : Nat → Fuse → Action Unit
  | limit, fuse => fun session =>
      if session.cursor.atEnd then .ok () session
      else
        match limit with
        | 0 => .error .exhausted session
        | limit + 1 =>
            match round grammar session with
            | .error error session => .error error session
            | .ok () session =>
                let maxStall := session.context.setting.config.maxStall
                match fuse.update? maxStall session.cursor.position with
                | some fuse => rounds grammar limit fuse session
                | none => stall session

/-- Opens the start scope, unless that is the root. -/
def enter : Action Unit := fun session =>
  let start := session.context.setting.config.start
  if start = Context.mainScope then .ok () session else openScope start session

def leave : Action Unit := fun session =>
  match session.context.setting.config.stop with
  | none => .ok () session
  | some stop =>
      if session.context.scopeName = stop then .ok () session
      else abandon (.wrongEnd stop session.context.scopeName) session

def parse (grammar : Grammar) (limit : Nat) : Action Tree := do
  enter
  let session ← get
  rounds grammar limit ⟨session.cursor.position, 0⟩
  leave
  let session ← get
  let tree := session.context.tree
  set (session.note (.parseDone tree.size))
  return tree

def conclude : EStateM.Result Error Session Tree → Outcome
  | .ok tree session => ⟨.ok tree, session.cursor, session.events, session.notes⟩
  | .error error session => ⟨.error error, session.cursor, session.events, session.notes⟩

end Session

namespace Grammar

/-- The setting of a parse in which other lines are parsed by `parse`. -/
def setting (grammar : Grammar) (config : Config) (parse : Cursor → Outcome) : Setting :=
  { scopes := grammar.strictness
    config := config
    nested := fun lines =>
      let buffer := Buffer.ofLines lines
      let outcome := parse ⟨buffer, .origin⟩
      ⟨outcome.result, #[.bufferRead buffer.size] ++ outcome.notes⟩ }

/-- Parses from a cursor to the end of its buffer, with `extra` rounds to spare
and at most so many levels of parses inside parses. -/
def drive (grammar : Grammar) (config : Config) (extra : Nat) : Nat → Cursor → Outcome
  | 0, cursor => ⟨.error .exhausted, cursor, #[], #[]⟩
  | depth + 1, cursor =>
      let setting := grammar.setting config (grammar.drive config extra depth)
      let begun := Note.parseBegun cursor.position cursor.buffer.size
      let session := (Session.begin setting cursor).note begun
      let limit := config.roundLimit cursor.buffer + extra
      Session.conclude (Session.parse grammar limit session)

end Grammar

end LineGrammar
