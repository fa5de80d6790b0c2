import LineGrammar.Grammar.Registry

/-!
Instructions, from which rules are described: a name and arguments that are
plain data or host functions. Compiling a list of instructions into a rule
checks every name and argument, so that nothing of this kind can fail later.
-/

namespace LineGrammar

inductive Argument where
  | text (content : String)
  | int (number : Int)
  | pre (check : PreCheck)
  | post (accepts : Cursor → Context → Match → Bool)
  | transform (edit : String → String)
  | call (script : Match → Script)

def Argument.render : Argument → String
  | .text content => Text.quote content
  | .int number => toString number
  | .pre _ => "<pre-check>"
  | .post _ => "<post-check>"
  | .transform _ => "<transform>"
  | .call _ => "<callback>"

def renderArguments (arguments : List Argument) : String :=
  Text.bracketed (arguments.map Argument.render)

structure Instruction where
  name : String
  arguments : List Argument := []

def Instruction.render (instruction : Instruction) : String :=
  "Instruction \x7b mnemonic: " ++ Text.quote instruction.name ++ ", args: " ++
    renderArguments instruction.arguments ++ " \x7d"

/-- What compiling instructions needs to know of the grammar. -/
structure Compiler where
  registry : Registry
  scopes : List String

namespace Compiler

abbrev Reader := ReaderT (List Argument) (Except ArgumentFault)

def expectCount (min max : Nat) : Reader Unit := do
  let count := (← read).length
  if count < min || max < count then throw (.wrongCount min max)

def textAt (index : Nat) : Reader String := do
  match (← read)[index]? with
  | some (.text content) => pure content
  | _ => throw (.expectsText (index + 1))

def intAt (index : Nat) (default : Int) : Reader Int := do
  match (← read)[index]? with
  | none => pure default
  | some (.int number) => pure number
  | some _ => throw (.expectsInteger (index + 1))

/-- A number of levels or characters, 0 if not given. -/
def levelAt (index : Nat) : Reader Nat := do
  let number ← intAt index 0
  if number < 0 then throw .expectsLevel else pure number.toNat

def valueOf (index : Nat) : Option Argument → Reader Value
  | some (.text content) => pure (.text content)
  | some (.int number) => pure (.int number)
  | _ => throw (.expectsValue (index + 1))

def valueAt (index : Nat) : Reader Value := do
  valueOf index (← read)[index]?

def valuesFrom (index : Nat) : Reader (List Value) := do
  let count := (← read).length
  ((List.range count).drop index).mapM valueAt

variable (compiler : Compiler)

def scopeAt (index : Nat) : Reader String := do
  let name ← textAt index
  if compiler.scopes.contains name then pure name else throw (.unknownScope name)

def withCallback (rule : Rule) (callback : Callback) : Rule :=
  { rule with callbacks := rule.callbacks ++ [callback] }

def withOperation (rule : Rule) (operation : Operation) : Rule :=
  withCallback rule (.perform operation)

def applyError (rule : Rule) : Reader Rule := do
  expectCount 0 1
  let message ← if (← read).isEmpty then pure "error instruction" else textAt 0
  return withOperation rule (.abandon message)

def applyReplace (rule : Rule) : Reader Rule := do
  expectCount 1 1
  let text ← textAt 0
  return withCallback
    { rule with transforms := rule.transforms ++ [.constant text], tag := some "rep" } .save

def applyAdd (rule : Rule) (amount : Int) : Reader Rule := do
  expectCount 1 2
  let name ← textAt 0
  let level ← levelAt 1
  return withOperation rule (.add name amount level)

def applyDefine (rule : Rule) : Reader Rule := do
  expectCount 2 3
  let name ← textAt 0
  let value ← valueAt 1
  let level ← levelAt 2
  return withOperation rule (.define name value level)

def applyAppend (rule : Rule) : Reader Rule := do
  expectCount 2 3
  let name ← textAt 0
  let value ← valueAt 1
  let level ← levelAt 2
  return withOperation rule (.append name value level)

def applyTag (rule : Rule) : Reader Rule := do
  expectCount 1 1
  let tag ← textAt 0
  return withCallback { rule with tag := some tag } .save

def applyPre (rule : Rule) : Reader Rule := do
  match ← read with
  | [.pre check] => return { rule with pre := rule.pre ++ [check] }
  | _ => throw .expectsPreCheck

def applyPost (rule : Rule) : Reader Rule := do
  match (← read).head? with
  | some (.post accepts) =>
      expectCount 1 1
      return { rule with post := rule.post ++ [.host accepts] }
  | some (.text name) =>
      match compiler.registry.validator? name with
      | none => throw (.unknownValidator name)
      | some validator =>
          let arguments ← valuesFrom 1
          return { rule with post := rule.post ++ [.validator validator arguments] }
  | _ => throw .expectsPostCheck

def applyProc (rule : Rule) : Reader Rule := do
  match (← read).head? with
  | some (.transform edit) =>
      expectCount 1 1
      return { rule with transforms := rule.transforms ++ [.host edit] }
  | some (.text name) =>
      match compiler.registry.processor? name with
      | none => throw (.unknownProcessor name)
      | some processor =>
          let arguments ← valuesFrom 1
          return { rule with transforms := rule.transforms ++ [.processor processor arguments] }
  | _ => throw .expectsTransform

def applyCall (rule : Rule) : Reader Rule := do
  match ← read with
  | [.call script] => return withCallback rule (.host script)
  | _ => throw .expectsCallback

def applySave (rule : Rule) : Reader Rule := do
  expectCount 0 0
  return withCallback rule .save

def applyStrict (rule : Rule) (strict : Bool) : Reader Rule := do
  expectCount 1 1
  let scope ← compiler.scopeAt 0
  return withOperation rule (.setStrict scope strict)

def applyOpen (rule : Rule) : Reader Rule := do
  expectCount 1 1
  let scope ← compiler.scopeAt 0
  return withOperation rule (.openScope scope)

def applyClose (rule : Rule) : Reader Rule := do
  expectCount 0 1
  let count ← levelAt 0
  return withOperation rule (.closeScopes (max count 1))

def applySwap (rule : Rule) : Reader Rule := do
  expectCount 1 1
  let scope ← compiler.scopeAt 0
  return withOperation rule (.swapScope scope)

def applyNext (rule : Rule) : Reader Rule := do
  expectCount 1 2
  let scope ← compiler.scopeAt 0
  let count ← levelAt 1
  return withOperation rule (.nextScope scope (max count 1))

def applyMove (rule : Rule) (movement : Nat → Movement) : Reader Rule := do
  expectCount 1 1
  let count ← levelAt 0
  return withOperation rule (.move (movement count))

/-- The places that can be named as a target. -/
def targets : Table Movement :=
  [("bol", .lineStart), ("eol", .lineEnd), ("eof", .bufferEnd), ("nextline", .nextLine)]

def applyGoto (rule : Rule) : Reader Rule := do
  expectCount 1 1
  let target ← textAt 0
  match targets.get? target with
  | some movement => return withOperation rule (.move movement)
  | none => throw (.unknownTarget target)

/-- Adds to a rule what an instruction says. -/
def apply (mnemonic : Mnemonic) (rule : Rule) : Reader Rule :=
  match mnemonic with
  | .error => applyError rule
  | .replace => applyReplace rule
  | .increment => applyAdd rule 1
  | .decrement => applyAdd rule (-1)
  | .define => applyDefine rule
  | .append => applyAppend rule
  | .tag => applyTag rule
  | .pre => applyPre rule
  | .post => compiler.applyPost rule
  | .proc => compiler.applyProc rule
  | .call => applyCall rule
  | .save => applySave rule
  | .strict => compiler.applyStrict rule true
  | .relax => compiler.applyStrict rule false
  | .open => compiler.applyOpen rule
  | .close => applyClose rule
  | .swap => compiler.applySwap rule
  | .next => compiler.applyNext rule
  | .advance => applyMove rule .advance
  | .reverse => applyMove rule .retreat
  | .goto => applyGoto rule

def step (rule : Rule) (instruction : Instruction) : Except GrammarFault Rule :=
  match Mnemonic.ofName? instruction.name with
  | none => .error (.unknownInstruction instruction.name)
  | some mnemonic =>
      match compiler.apply mnemonic rule instruction.arguments with
      | .ok rule => .ok rule
      | .error fault =>
          .error (.badArguments mnemonic fault (renderArguments instruction.arguments))

def compile (expr : Expr) (instructions : List Instruction) : Except GrammarFault Rule :=
  instructions.foldlM compiler.step { expr := expr }

end Compiler

end LineGrammar
