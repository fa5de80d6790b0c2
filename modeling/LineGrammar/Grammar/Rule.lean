import LineGrammar.Expr.Attempt
import LineGrammar.Session.Script

/-!
Rules: an expression together with the checks around it and with what happens
when it matches.
-/

namespace LineGrammar

/-- Decides, before anything is matched, whether a rule is tried. -/
abbrev PreCheck := Cursor → Context → Bool

/-- A named check of matched text, with arguments from the grammar. -/
abbrev Validator := String → List Value → Bool

/-- A named edit of matched text, with arguments from the grammar. -/
abbrev Processor := String → List Value → String

/-- Accepts or rejects a match; the cursor stands after it. -/
inductive PostCheck where
  | validator (accepts : Validator) (arguments : List Value)
  | host (accepts : Cursor → Context → Match → Bool)

def PostCheck.accepts (cursor : Cursor) (context : Context) (found : Match) : PostCheck → Bool
  | .validator accepts arguments => accepts found.text arguments
  | .host accepts => accepts cursor context found

inductive Transform where
  | constant (text : String)
  | processor (edit : Processor) (arguments : List Value)
  | host (edit : String → String)

def Transform.apply (text : String) : Transform → String
  | .constant replacement => replacement
  | .processor edit arguments => edit text arguments
  | .host edit => edit text

inductive Callback where
  | save
  | perform (operation : Operation)
  | host (script : Match → Script)

def Callback.run (found : Match) : Callback → Action Unit
  | .save => Session.save found
  | .perform operation => operation.run
  | .host script => (script found).run

structure Rule where
  expr : Expr
  pre : List PreCheck := []
  post : List PostCheck := []
  tag : Option String := none
  transforms : List Transform := []
  callbacks : List Callback := []

namespace Rule

def always : Rule := { expr := .always }

variable (rule : Rule)

/-- What the rule makes of a match: its own tag, if it has one, and the
edited text. -/
def dress (found : Match) : Match :=
  let found := if rule.tag.isSome then found.withTag rule.tag else found
  found.withText (rule.transforms.foldl (fun text transform => transform.apply text) found.text)

def runCallbacks (found : Match) : List Callback → Action Unit
  | [] => fun session => .ok () session
  | callback :: later => fun session =>
      match callback.run found session with
      | .ok () session => runCallbacks found later session
      | .error error session => .error error session

/-- Refuses a match at `start`, where the cursor is brought back to. -/
def reject (start : Position) (error : Error) : Action Match := fun session =>
  let back := session.cursor.moveTo start
  .error error ({ session with cursor := back }.note (.probed back (.rule rule.tag) (.failed error)))

/-- Tries the rule at the cursor: the pre-checks, the expression, the
post-checks, then the callbacks. -/
def matchAt : Action Match := fun session =>
  let start := session.cursor.position
  if rule.pre.all fun accepts => accepts session.cursor session.context then
    let trial := rule.expr.attempt session.cursor
    let session :=
      { session with cursor := trial.cursor, notes := session.notes ++ trial.trace.toArray }
    match trial.result with
    | .error error => .error error session
    | .ok found =>
        if rule.post.all fun check => check.accepts session.cursor session.context found then
          let found := rule.dress found
          match runCallbacks found rule.callbacks session with
          | .ok () session => .ok found session
          | .error error session => .error error session
        else rule.reject start (.postCheck start) session
  else
    let error := Error.preCheck start
    .error error (session.note (.probed session.cursor (.rule rule.tag) (.failed error)))

def render : String :=
  "Rule \x7b expr: " ++ Text.quote rule.expr.render ++ ", tag: " ++
    Text.optional (rule.tag.map Text.quote) ++ ", pre: " ++ toString rule.pre.length ++
    ", post: " ++ toString rule.post.length ++ ", transforms: " ++
    toString rule.transforms.length ++ ", callbacks: " ++ toString rule.callbacks.length ++ " \x7d"

end Rule

end LineGrammar
