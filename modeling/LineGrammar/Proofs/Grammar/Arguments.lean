import LineGrammar.Proofs.Grammar.Compiled

/-!
Which instructions can be compiled. Every instruction has a few forms, each a list
of the kinds of its arguments, and it is compiled exactly if its arguments have one
of them. What the rule was before makes no difference, nor does anything of the
grammar but the names that are known.
-/

namespace LineGrammar

structure Vocabulary where
  scope : String → Prop
  validator : String → Prop
  processor : String → Prop

namespace Argument

inductive Kind where
  | text
  /-- a text or an integer -/
  | value
  /-- an integer that is not negative -/
  | level
  | scope
  | validator
  | processor
  /-- a place to go to -/
  | target
  | preCheck
  | postCheck
  | edit
  | script

def Kind.Admits (known : Vocabulary) (argument : Argument) : Kind → Prop
  | .text => ∃ content, argument = .text content
  | .value => (∃ content, argument = .text content) ∨ ∃ number, argument = .int number
  | .level => ∃ number, 0 ≤ number ∧ argument = .int number
  | .scope => ∃ name, known.scope name ∧ argument = .text name
  | .validator => ∃ name, known.validator name ∧ argument = .text name
  | .processor => ∃ name, known.processor name ∧ argument = .text name
  | .target => ∃ name ∈ ["bol", "eol", "eof", "nextline"], argument = .text name
  | .preCheck => ∃ check, argument = .pre check
  | .postCheck => ∃ accepts, argument = .post accepts
  | .edit => ∃ edit, argument = .transform edit
  | .script => ∃ script, argument = .call script

/-- A form of an instruction: the kinds of its arguments, and whether any number of
values may follow. -/
structure Form where
  kinds : List Kind
  more : Bool := false

/-- Whether arguments are of given kinds, with values behind them only if `more`. -/
def Fit (known : Vocabulary) (more : Bool) : List Kind → List Argument → Prop
  | [], arguments => if more then ∀ argument ∈ arguments, Kind.Admits known argument .value
      else arguments = []
  | _ :: _, [] => False
  | kind :: kinds, argument :: later => kind.Admits known argument ∧ Fit known more kinds later

end Argument

open Argument (Kind Form Fit)

def Mnemonic.forms : Mnemonic → List Form
  | .error => [⟨[], false⟩, ⟨[.text], false⟩]
  | .replace | .tag => [⟨[.text], false⟩]
  | .increment | .decrement => [⟨[.text], false⟩, ⟨[.text, .level], false⟩]
  | .define | .append => [⟨[.text, .value], false⟩, ⟨[.text, .value, .level], false⟩]
  | .pre => [⟨[.preCheck], false⟩]
  | .post => [⟨[.postCheck], false⟩, ⟨[.validator], true⟩]
  | .proc => [⟨[.edit], false⟩, ⟨[.processor], true⟩]
  | .call => [⟨[.script], false⟩]
  | .save => [⟨[], false⟩]
  | .strict | .relax | .open | .swap => [⟨[.scope], false⟩]
  | .close => [⟨[], false⟩, ⟨[.level], false⟩]
  | .next => [⟨[.scope], false⟩, ⟨[.scope, .level], false⟩]
  | .advance | .reverse => [⟨[.level], false⟩]
  | .goto => [⟨[.target], false⟩]

def Mnemonic.Takes (known : Vocabulary) (mnemonic : Mnemonic) (arguments : List Argument) : Prop :=
  ∃ form ∈ mnemonic.forms, Fit known form.more form.kinds arguments

def Instruction.Valid (known : Vocabulary) (instruction : Instruction) : Prop :=
  ∃ mnemonic, Mnemonic.ofName? instruction.name = some mnemonic ∧
    mnemonic.Takes known instruction.arguments

namespace Compiler

def vocabulary (compiler : Compiler) : Vocabulary where
  scope name := name ∈ compiler.scopes
  validator name := (compiler.registry.validator? name).isSome = true
  processor name := (compiler.registry.processor? name).isSome = true

variable {arguments : List Argument}

theorem Reader.exists_bind {First Result : Type} {first : Reader First}
    {next : First → Reader Result} :
    (∃ result, (first >>= next) arguments = .ok result) ↔
      ∃ middle, first arguments = .ok middle ∧ ∃ result, next middle arguments = .ok result := by
  simp only [Reader.bind_eq_ok]
  rw [exists_comm]
  simp only [exists_and_left]

theorem Reader.exists_pure {Result : Type} (value : Result) :
    ∃ result, (pure value : Reader Result) arguments = .ok result :=
  ⟨value, rfl⟩

theorem intAt_eq_ok {index : Nat} {default number : Int} :
    intAt index default arguments = .ok number ↔
      arguments[index]? = none ∧ default = number ∨ arguments[index]? = some (.int number) := by
  simp only [intAt, Reader.bind_eq_ok, Reader.read_eq_ok, exists_eq_left']
  generalize arguments[index]? = given
  split
  · simp [Reader.pure_eq_ok]
  · simp [Reader.pure_eq_ok]
  · rename_i other different
    simp only [Reader.throw_eq_ok, false_iff, not_or]
    exact ⟨by simp, fun same => different number (Option.some.inj same)⟩

theorem exists_levelAt {index : Nat} :
    (∃ level, levelAt index arguments = .ok level) ↔
      arguments[index]? = none ∨ ∃ number : Int, 0 ≤ number ∧
        arguments[index]? = some (.int number) := by
  simp only [levelAt, Reader.bind_eq_ok, intAt_eq_ok]
  constructor
  · rintro ⟨level, number, absent | given, done⟩
    · exact .inl absent.1
    · refine .inr ⟨number, Int.not_lt.mp fun negative => ?_, given⟩
      rw [if_pos negative] at done
      exact Reader.throw_eq_ok.mp done
  · rintro (absent | ⟨number, least, given⟩)
    · exact ⟨0, 0, .inl ⟨absent, rfl⟩, rfl⟩
    · refine ⟨number.toNat, number, .inr given, ?_⟩
      rw [if_neg (Int.not_lt.mpr least)]
      rfl

theorem exists_valueAt (known : Vocabulary) {index : Nat} :
    (∃ value, valueAt index arguments = .ok value) ↔
      ∃ argument, arguments[index]? = some argument ∧ Kind.Admits known argument .value := by
  simp only [valueAt, Reader.bind_eq_ok, Reader.read_eq_ok, exists_eq_left']
  cases given : arguments[index]? with
  | none => simp [valueOf, Reader.throw_eq_ok]
  | some argument =>
      cases argument <;>
        simp [valueOf, Kind.Admits, Reader.pure_eq_ok, Reader.throw_eq_ok]

theorem exists_mapM {Item Result : Type} {read : Item → Reader Result} {items : List Item} :
    (∃ results, items.mapM read arguments = .ok results) ↔
      ∀ item ∈ items, ∃ result, read item arguments = .ok result := by
  induction items with
  | nil => simp [Reader.pure_eq_ok]
  | cons item later induction =>
      simp only [List.mapM_cons, Reader.bind_eq_ok, Reader.pure_eq_ok, List.forall_mem_cons,
        ← induction]
      constructor
      · rintro ⟨_, result, first, results, rest, rfl⟩
        exact ⟨⟨result, first⟩, results, rest⟩
      · rintro ⟨⟨result, first⟩, results, rest⟩
        exact ⟨_, result, first, results, rest, rfl⟩

theorem exists_valuesFrom_one (known : Vocabulary) {first : Argument} {later : List Argument} :
    (∃ values, valuesFrom 1 (first :: later) = .ok values) ↔
      ∀ argument ∈ later, Kind.Admits known argument .value := by
  have indices : (List.range (first :: later).length).drop 1 =
      (List.range later.length).map (· + 1) := by
    rw [List.length_cons, List.range_succ_eq_map]
    rfl
  simp only [valuesFrom, Reader.bind_eq_ok, Reader.read_eq_ok, exists_eq_left', exists_mapM,
    indices, exists_valueAt known, List.mem_map, List.mem_range]
  constructor
  · intro each argument member
    obtain ⟨index, bound, rfl⟩ := List.getElem_of_mem member
    obtain ⟨given, same, admitted⟩ := each (index + 1) ⟨index, bound, rfl⟩
    rw [List.getElem?_cons_succ, List.getElem?_eq_getElem bound] at same
    cases same
    exact admitted
  · rintro each _ ⟨index, bound, rfl⟩
    refine ⟨later[index], ?_, each _ (List.getElem_mem bound)⟩
    rw [List.getElem?_cons_succ, List.getElem?_eq_getElem bound]

variable {compiler : Compiler} {rule : Rule}

theorem scopeAt_eq_ok {index : Nat} {scope : String} :
    compiler.scopeAt index arguments = .ok scope ↔
      arguments[index]? = some (.text scope) ∧ scope ∈ compiler.scopes := by
  simp only [scopeAt, Reader.bind_eq_ok, textAt_eq_ok]
  constructor
  · rintro ⟨name, given, done⟩
    split at done
    · rename_i listed
      cases Reader.pure_eq_ok.mp done
      exact ⟨given, by simpa using listed⟩
    · exact (Reader.throw_eq_ok.mp done).elim
  · rintro ⟨given, listed⟩
    refine ⟨scope, given, ?_⟩
    rw [if_pos (by simpa using listed)]
    rfl

theorem mem_targets {target : String} :
    (∃ movement, targets.get? target = some movement) ↔
      target ∈ ["bol", "eol", "eof", "nextline"] := by
  simp only [targets, Table.get?, List.lookup_cons, List.lookup_nil, List.mem_cons,
    List.not_mem_nil, or_false]
  by_cases first : target = "bol" <;> by_cases second : target = "eol" <;>
    by_cases third : target = "eof" <;> by_cases fourth : target = "nextline" <;>
    simp [*, beq_false_of_ne]

theorem exists_applyPost :
    (∃ after, compiler.applyPost rule arguments = .ok after) ↔
      Mnemonic.post.Takes compiler.vocabulary arguments := by
  simp only [applyPost, Reader.exists_bind, Reader.read_eq_ok, exists_eq_left']
  cases arguments with
  | nil => simp [Mnemonic.Takes, Mnemonic.forms, Fit, Reader.throw_eq_ok]
  | cons first later =>
      cases first with
      | post accepts =>
          simp only [List.head?_cons, Reader.exists_bind, Reader.exists_pure, expectCount_eq_ok]
          simp [Mnemonic.Takes, Mnemonic.forms, Fit, Kind.Admits]
      | text name =>
          simp only [List.head?_cons]
          cases registered : compiler.registry.validator? name with
          | none =>
              simp [Mnemonic.Takes, Mnemonic.forms, Fit, Kind.Admits, vocabulary, registered,
                Reader.throw_eq_ok]
          | some validator =>
              simp only [Reader.exists_bind, Reader.exists_pure, and_true,
                exists_valuesFrom_one compiler.vocabulary]
              simp [Mnemonic.Takes, Mnemonic.forms, Fit, Kind.Admits, vocabulary, registered]
      | _ => simp [Mnemonic.Takes, Mnemonic.forms, Fit, Kind.Admits, Reader.throw_eq_ok]

theorem exists_applyProc :
    (∃ after, compiler.applyProc rule arguments = .ok after) ↔
      Mnemonic.proc.Takes compiler.vocabulary arguments := by
  simp only [applyProc, Reader.exists_bind, Reader.read_eq_ok, exists_eq_left']
  cases arguments with
  | nil => simp [Mnemonic.Takes, Mnemonic.forms, Fit, Reader.throw_eq_ok]
  | cons first later =>
      cases first with
      | transform edit =>
          simp only [List.head?_cons, Reader.exists_bind, Reader.exists_pure, expectCount_eq_ok]
          simp [Mnemonic.Takes, Mnemonic.forms, Fit, Kind.Admits]
      | text name =>
          simp only [List.head?_cons]
          cases registered : compiler.registry.processor? name with
          | none =>
              simp [Mnemonic.Takes, Mnemonic.forms, Fit, Kind.Admits, vocabulary, registered,
                Reader.throw_eq_ok]
          | some processor =>
              simp only [Reader.exists_bind, Reader.exists_pure, and_true,
                exists_valuesFrom_one compiler.vocabulary]
              simp [Mnemonic.Takes, Mnemonic.forms, Fit, Kind.Admits, vocabulary, registered]
      | _ => simp [Mnemonic.Takes, Mnemonic.forms, Fit, Kind.Admits, Reader.throw_eq_ok]

theorem exists_applyGoto :
    (∃ after, applyGoto rule arguments = .ok after) ↔
      Mnemonic.goto.Takes compiler.vocabulary arguments := by
  simp only [applyGoto, Reader.exists_bind, expectCount_eq_ok, textAt_eq_ok]
  rcases arguments with _ | ⟨first, _ | ⟨second, later⟩⟩
  case nil | cons.cons => simp [Mnemonic.Takes, Mnemonic.forms, Fit]
  case cons.nil =>
    have admitted : Mnemonic.goto.Takes compiler.vocabulary [first] ↔
        ∃ target, (∃ movement, targets.get? target = some movement) ∧ first = .text target := by
      simp [Mnemonic.Takes, Mnemonic.forms, Fit, Kind.Admits, mem_targets]
    rw [admitted]
    simp only [List.length_singleton, Nat.le_refl, and_self, exists_const, true_and,
      List.getElem?_cons_zero, Option.some.injEq]
    apply exists_congr
    intro target
    rw [and_comm]
    apply and_congr_left
    intro _
    cases targets.get? target with
    | none => simp [Reader.throw_eq_ok]
    | some movement => simp [Reader.exists_pure]

/-- Whether an instruction can be compiled is decided by its arguments and the names
that are known. -/
theorem exists_apply {mnemonic : Mnemonic} :
    (∃ after, compiler.apply mnemonic rule arguments = .ok after) ↔
      mnemonic.Takes compiler.vocabulary arguments := by
  cases mnemonic with
  | post => exact exists_applyPost
  | proc => exact exists_applyProc
  | goto => exact exists_applyGoto
  | error =>
      simp only [apply, applyError, Reader.exists_bind, expectCount_eq_ok, Reader.read_eq_ok]
      rcases arguments with _ | ⟨first, _ | ⟨second, later⟩⟩
      · simp [Mnemonic.Takes, Mnemonic.forms, Fit, Reader.exists_pure]
      · simp only [List.isEmpty_cons, Bool.false_eq_true, if_false, exists_eq_left',
          Reader.exists_bind, Reader.exists_pure, textAt_eq_ok]
        simp [Mnemonic.Takes, Mnemonic.forms, Fit, Kind.Admits]
      · simp [Mnemonic.Takes, Mnemonic.forms, Fit]
  | pre | call =>
      simp only [apply, applyPre, applyCall, Reader.exists_bind, Reader.read_eq_ok,
        exists_eq_left']
      rcases arguments with _ | ⟨first, _ | ⟨second, later⟩⟩
      · simp [Mnemonic.Takes, Mnemonic.forms, Fit, Reader.throw_eq_ok]
      · cases first <;>
          simp [Mnemonic.Takes, Mnemonic.forms, Fit, Kind.Admits, Reader.exists_pure,
            Reader.throw_eq_ok]
      · simp [Mnemonic.Takes, Mnemonic.forms, Fit, Reader.throw_eq_ok]
  -- The others read their arguments one by one.
  | _ =>
      simp only [apply, applyReplace, applyAdd, applyDefine, applyAppend, applyTag, applySave,
        applyStrict, applyOpen, applyClose, applySwap, applyNext, applyMove, Reader.exists_bind,
        Reader.exists_pure, expectCount_eq_ok, textAt_eq_ok, scopeAt_eq_ok, exists_levelAt,
        exists_valueAt compiler.vocabulary, exists_and_left, exists_and_right, and_true,
        exists_const]
      -- No instruction of these takes more than three.
      rcases arguments with _ | ⟨first, _ | ⟨second, _ | ⟨third, _ | ⟨fourth, later⟩⟩⟩⟩
      case nil | cons.cons.cons.cons => simp [Mnemonic.Takes, Mnemonic.forms, Fit]
      case cons.nil | cons.cons.nil | cons.cons.cons.nil =>
        simp [Mnemonic.Takes, Mnemonic.forms, Fit, Kind.Admits, vocabulary, and_comm]

theorem exists_step {instruction : Instruction} :
    (∃ after, compiler.step rule instruction = .ok after) ↔
      instruction.Valid compiler.vocabulary := by
  unfold step Instruction.Valid
  cases named : Mnemonic.ofName? instruction.name with
  | none => simp
  | some mnemonic =>
      simp only [Option.some.injEq, exists_eq_left', ← @exists_apply _ compiler rule]
      cases compiler.apply mnemonic rule instruction.arguments <;> simp

theorem exists_compile {expr : Expr} {instructions : List Instruction} :
    (∃ after, compiler.compile expr instructions = .ok after) ↔
      ∀ instruction ∈ instructions, instruction.Valid compiler.vocabulary := by
  unfold compile
  generalize ({ expr := expr } : Rule) = start
  induction instructions generalizing start with
  | nil => exact iff_of_true ⟨start, rfl⟩ (by simp)
  | cons instruction later induction =>
      rw [List.foldlM_cons, List.forall_mem_cons, ← @exists_step compiler start]
      cases stepped : compiler.step start instruction with
      | error fault => simp [bind, Except.bind]
      | ok next => simpa [bind, Except.bind] using induction next

/-- Whether two compilers know the same names, and the same checks and edits by them. -/
structure Agrees (compiler other : Compiler) : Prop where
  scopes : ∀ name, name ∈ compiler.scopes ↔ name ∈ other.scopes
  validators : ∀ name, compiler.registry.validator? name = other.registry.validator? name
  processors : ∀ name, compiler.registry.processor? name = other.registry.processor? name

variable {other : Compiler}

theorem Agrees.vocabulary_eq (agrees : compiler.Agrees other) :
    compiler.vocabulary = other.vocabulary := by
  simp only [vocabulary, agrees.scopes, agrees.validators, agrees.processors]

theorem Agrees.scopeAt_eq (agrees : compiler.Agrees other) (index : Nat) :
    compiler.scopeAt index = other.scopeAt index := by
  have same : ∀ name, compiler.scopes.contains name = other.scopes.contains name := by
    intro name
    rw [List.contains_eq_mem, List.contains_eq_mem, decide_eq_decide]
    exact agrees.scopes name
  simp only [scopeAt, same]

/-- Of the grammar, compiling sees only the names and what is registered under them. -/
theorem Agrees.apply_eq (agrees : compiler.Agrees other) (mnemonic : Mnemonic) (rule : Rule) :
    compiler.apply mnemonic rule = other.apply mnemonic rule := by
  cases mnemonic with
  | post => simp only [apply, applyPost, agrees.validators]
  | proc => simp only [apply, applyProc, agrees.processors]
  | strict | relax | «open» | swap | next =>
      simp only [apply, applyStrict, applyOpen, applySwap, applyNext, agrees.scopeAt_eq]
  | _ => rfl

theorem Agrees.compile_eq (agrees : compiler.Agrees other) (expr : Expr)
    (instructions : List Instruction) :
    compiler.compile expr instructions = other.compile expr instructions := by
  have step : compiler.step = other.step := by
    funext rule instruction
    simp only [Compiler.step, agrees.apply_eq]
  rw [compile, compile, step]

end Compiler

end LineGrammar
