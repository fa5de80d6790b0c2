import LineGrammar.Grammar.Basic
import LineGrammar.Grammar.Instruction

/-!
Building grammars from descriptions. Rules are described by a pattern and
instructions, or given ready made; what is said of one scope may be scattered
over several calls. All names are resolved when the grammar is built, so the
order of the descriptions of different scopes does not matter.
-/

namespace LineGrammar

inductive Subject where
  | given (expr : Expr)
  | regex (source : String)
  | always

def Subject.expr : Subject → Except Error Expr
  | .given expr => .ok expr
  | .regex source => Expr.regex source
  | .always => .ok .always

structure RuleSpec where
  subject : Subject
  instructions : List Instruction := []

namespace RuleSpec

def regex (source : String) : RuleSpec := { subject := .regex source }

def always : RuleSpec := { subject := .always }

def instruct (spec : RuleSpec) (name : String) (arguments : List Argument) : RuleSpec :=
  { spec with instructions := spec.instructions ++ [⟨name, arguments⟩] }

end RuleSpec

/-- A rule of a grammar under construction. -/
inductive Entry where
  | spec (spec : RuleSpec)
  | rule (rule : Rule)

structure Builder where
  /-- the entries of each scope, in the order in which the scopes were named -/
  entries : Table (List Entry) := []
  strict : List String := []
  registry : Registry := .standard

namespace Builder

def addEntries (builder : Builder) (name : String) (entries : List Entry) : Builder :=
  let earlier := (builder.entries.get? name).getD []
  { builder with entries := builder.entries.set name (earlier ++ entries) }

def scope (builder : Builder) (name : String) (specs : List RuleSpec) : Builder :=
  builder.addEntries name (specs.map .spec)

def scopeRules (builder : Builder) (name : String) (rules : List Rule) : Builder :=
  builder.addEntries name (rules.map .rule)

def markStrict (builder : Builder) (name : String) : Builder :=
  { builder with strict := builder.strict ++ [name] }

def withRegistry (builder : Builder) (registry : Registry) : Builder :=
  { builder with registry := registry }

def validator (builder : Builder) (name : String) (validator : Validator) : Builder :=
  { builder with registry := builder.registry.addValidator name validator }

def processor (builder : Builder) (name : String) (processor : Processor) : Builder :=
  { builder with registry := builder.registry.addProcessor name processor }

/-- The rule of an entry, which is the rule of the given index in its scope. -/
def buildEntry (compiler : Compiler) (name : String) (index : Nat) : Entry → Except Error Rule
  | .rule rule => .ok rule
  | .spec spec => do
      let expr ← spec.subject.expr
      match compiler.compile expr spec.instructions with
      | .ok rule => .ok rule
      | .error fault => .error (.grammar (.inRule name index fault))

/-- The rules of entries, the first of which has the given index. -/
def buildEntries (compiler : Compiler) (name : String) : Nat → List Entry → Except Error (List Rule)
  | _, [] => .ok []
  | index, entry :: later => do
      let rule ← buildEntry compiler name index entry
      let rules ← buildEntries compiler name (index + 1) later
      return rule :: rules

def buildScope (compiler : Compiler) (strict : List String) (named : String × List Entry) :
    Except Error Scope := do
  let rules ← buildEntries compiler named.1 0 named.2
  return ⟨named.1, rules, strict.contains named.1⟩

/-- The grammar, if it has a main scope, only known scopes are strict, every
pattern is well formed and every instruction is valid. -/
def build (builder : Builder) : Except Error Grammar := do
  let names := builder.entries.names
  if !names.contains Context.mainScope then throw (.grammar .noMain)
  match builder.strict.find? fun name => !names.contains name with
  | some unknown => throw (.grammar (.strictUnknown unknown))
  | none => pure ()
  let compiler : Compiler := { registry := builder.registry, scopes := names }
  let scopes ← builder.entries.mapM (buildScope compiler builder.strict)
  return ⟨scopes⟩

end Builder

end LineGrammar
