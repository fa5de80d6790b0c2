import LineGrammar.Grammar.Builder
import LineGrammar.Proofs.Except
import LineGrammar.Proofs.Session.Change
import LineGrammar.Proofs.Table

/-!
What building a grammar puts into its rules. Every callback of a built rule was
given ready made or comes from one of the instructions, each of which issues
callbacks of one kind only; only two instructions edit the matched text; and the
host's own checks are the ones that it gives as arguments.
-/

namespace LineGrammar

def Callback.isHost : Callback → Bool
  | .host _ => true
  | _ => false

/-- The callbacks that an instruction with given arguments may issue. -/
inductive Mnemonic.Issues : Mnemonic → List Argument → Callback → Prop
  | error (arguments : List Argument) (message : String) :
      Issues .error arguments (.perform (.abandon message))
  | replace (arguments : List Argument) : Issues .replace arguments .save
  | increment (arguments : List Argument) (name : String) (level : Nat) :
      Issues .increment arguments (.perform (.add name 1 level))
  | decrement (arguments : List Argument) (name : String) (level : Nat) :
      Issues .decrement arguments (.perform (.add name (-1) level))
  | define (arguments : List Argument) (name : String) (value : Value) (level : Nat) :
      Issues .define arguments (.perform (.define name value level))
  | append (arguments : List Argument) (name : String) (value : Value) (level : Nat) :
      Issues .append arguments (.perform (.append name value level))
  | tag (arguments : List Argument) : Issues .tag arguments .save
  | call (script : Match → Script) : Issues .call [.call script] (.host script)
  | save (arguments : List Argument) : Issues .save arguments .save
  | strict (arguments : List Argument) (scope : String) :
      Issues .strict arguments (.perform (.setStrict scope true))
  | relax (arguments : List Argument) (scope : String) :
      Issues .relax arguments (.perform (.setStrict scope false))
  | openScope (arguments : List Argument) (scope : String) :
      Issues .open arguments (.perform (.openScope scope))
  | close (arguments : List Argument) (count : Nat) :
      Issues .close arguments (.perform (.closeScopes count))
  | swap (arguments : List Argument) (scope : String) :
      Issues .swap arguments (.perform (.swapScope scope))
  | next (arguments : List Argument) (scope : String) (count : Nat) :
      Issues .next arguments (.perform (.nextScope scope count))
  | advance (arguments : List Argument) (count : Nat) :
      Issues .advance arguments (.perform (.move (.advance count)))
  | reverse (arguments : List Argument) (count : Nat) :
      Issues .reverse arguments (.perform (.move (.retreat count)))
  | goto {target : String} {movement : Movement}
      (known : Compiler.targets.get? target = some movement) :
      Issues .goto [.text target] (.perform (.move movement))

structure Rule.Grows (mnemonic : Mnemonic) (arguments : List Argument) (before after : Rule) :
    Prop where
  callbacks : ∃ added, after.callbacks = before.callbacks ++ added ∧
    ∀ callback ∈ added, mnemonic.Issues arguments callback
  transforms : mnemonic ≠ .replace → mnemonic ≠ .proc → after.transforms = before.transforms
  pre : ∃ added, after.pre = before.pre ++ added ∧ ∀ check ∈ added, .pre check ∈ arguments
  post : ∃ added, after.post = before.post ++ added ∧
    ∀ accepts, .host accepts ∈ added → .post accepts ∈ arguments

namespace Rule.Grows

variable {mnemonic : Mnemonic} {arguments : List Argument} {before : Rule}

theorem nothing_added {Item : Type} {items items' : List Item} {holds : Item → Prop}
    (same : items' = items) : ∃ added, items' = items ++ added ∧ ∀ item ∈ added, holds item :=
  ⟨[], by rw [same, List.append_nil], by simp⟩

theorem of_one_callback {after : Rule} {callback : Callback}
    (issued : mnemonic.Issues arguments callback)
    (callbacks : after.callbacks = before.callbacks ++ [callback])
    (transforms : mnemonic ≠ .replace → mnemonic ≠ .proc → after.transforms = before.transforms)
    (pre : after.pre = before.pre) (post : after.post = before.post) :
    Grows mnemonic arguments before after := by
  refine ⟨⟨[callback], callbacks, ?_⟩, transforms, nothing_added pre, [], by simp [post], by simp⟩
  intro other member
  rw [List.mem_singleton.mp member]
  exact issued

theorem of_callback {callback : Callback} (issued : mnemonic.Issues arguments callback) :
    Grows mnemonic arguments before (Compiler.withCallback before callback) :=
  of_one_callback issued rfl (fun _ _ => rfl) rfl rfl

theorem of_operation {operation : Operation}
    (issued : mnemonic.Issues arguments (.perform operation)) :
    Grows mnemonic arguments before (Compiler.withOperation before operation) :=
  of_callback issued

end Rule.Grows

namespace Compiler

open Rule.Grows (nothing_added)

variable {arguments : List Argument}

theorem Reader.bind_eq_ok {First Result : Type} {first : Reader First} {next : First → Reader Result}
    {result : Result} :
    (first >>= next) arguments = .ok result ↔
      ∃ middle, first arguments = .ok middle ∧ next middle arguments = .ok result := by
  cases outcome : first arguments <;>
    simp [bind, ReaderT.bind, Except.bind, outcome]

theorem Reader.pure_eq_ok {Result : Type} {value result : Result} :
    (pure value : Reader Result) arguments = .ok result ↔ value = result := by
  simp [pure, ReaderT.pure, Except.pure]

theorem Reader.read_eq_ok {result : List Argument} :
    (read : Reader (List Argument)) arguments = .ok result ↔ arguments = result := by
  have given : (read : Reader (List Argument)) arguments = .ok arguments := rfl
  rw [given, Except.ok.injEq]

theorem Reader.throw_eq_ok {Result : Type} {fault : ArgumentFault} {result : Result} :
    (throw fault : Reader Result) arguments = .ok result ↔ False := by
  simp [throw, throwThe, MonadExceptOf.throw, MonadExcept.throw, liftM, monadLift, MonadLift.monadLift]

theorem expectCount_eq_ok {min max : Nat} {value : Unit} :
    expectCount min max arguments = .ok value ↔
      min ≤ arguments.length ∧ arguments.length ≤ max := by
  simp only [expectCount, Reader.bind_eq_ok, Reader.read_eq_ok]
  constructor
  · rintro ⟨_, rfl, done⟩
    split at done
    · exact (Reader.throw_eq_ok.mp done).elim
    · rename_i inside
      simpa using inside
  · rintro ⟨least, most⟩
    refine ⟨arguments, rfl, ?_⟩
    split
    · rename_i outside
      simp at outside
      omega
    · rfl

theorem textAt_eq_ok {index : Nat} {content : String} :
    textAt index arguments = .ok content ↔ arguments[index]? = some (.text content) := by
  simp only [textAt, Reader.bind_eq_ok, Reader.read_eq_ok]
  constructor
  · rintro ⟨_, rfl, done⟩
    generalize arguments[index]? = given at done
    split at done
    · rw [Reader.pure_eq_ok.mp done]
    · exact (Reader.throw_eq_ok.mp done).elim
  · intro given
    refine ⟨arguments, rfl, ?_⟩
    rw [given]
    rfl

theorem eq_singleton_text {content : String} {value : Unit}
    (counted : expectCount 1 1 arguments = .ok value) (given : textAt 0 arguments = .ok content) :
    arguments = [.text content] := by
  rw [expectCount_eq_ok] at counted
  rw [textAt_eq_ok] at given
  match arguments with
  | [] => cases given
  | [argument] =>
      cases given
      rfl
  | _ :: _ :: _ =>
      simp only [List.length_cons] at counted
      omega

variable {compiler : Compiler} {before after : Rule}

theorem applyAdd_grows {mnemonic : Mnemonic} {amount : Int}
    (issued : ∀ name level, mnemonic.Issues arguments (.perform (.add name amount level)))
    (done : applyAdd before amount arguments = .ok after) : before.Grows mnemonic arguments after := by
  simp only [applyAdd, Reader.bind_eq_ok, Reader.pure_eq_ok] at done
  rcases done with ⟨_, _, name, _, level, _, rfl⟩
  exact .of_operation (issued name level)

theorem applyMove_grows {mnemonic : Mnemonic} {movement : Nat → Movement}
    (issued : ∀ count, mnemonic.Issues arguments (.perform (.move (movement count))))
    (done : applyMove before movement arguments = .ok after) :
    before.Grows mnemonic arguments after := by
  simp only [applyMove, Reader.bind_eq_ok, Reader.pure_eq_ok] at done
  rcases done with ⟨_, _, count, _, rfl⟩
  exact .of_operation (issued count)

theorem applyStrict_grows {mnemonic : Mnemonic} {strict : Bool}
    (issued : ∀ scope, mnemonic.Issues arguments (.perform (.setStrict scope strict)))
    (done : compiler.applyStrict before strict arguments = .ok after) :
    before.Grows mnemonic arguments after := by
  simp only [applyStrict, Reader.bind_eq_ok, Reader.pure_eq_ok] at done
  rcases done with ⟨_, _, scope, _, rfl⟩
  exact .of_operation (issued scope)

theorem applyPre_grows (done : applyPre before arguments = .ok after) :
    before.Grows .pre arguments after := by
  simp only [applyPre, Reader.bind_eq_ok, Reader.read_eq_ok] at done
  rcases done with ⟨_, rfl, done⟩
  split at done
  · rename_i check
    rw [← Reader.pure_eq_ok.mp done]
    exact ⟨nothing_added rfl, fun _ _ => rfl, ⟨[check], rfl, by simp⟩, [], by simp, by simp⟩
  · exact (Reader.throw_eq_ok.mp done).elim

theorem applyPost_grows (done : compiler.applyPost before arguments = .ok after) :
    before.Grows .post arguments after := by
  simp only [applyPost, Reader.bind_eq_ok, Reader.read_eq_ok] at done
  rcases done with ⟨_, rfl, done⟩
  generalize head : arguments.head? = first at done
  split at done
  · rename_i accepts
    simp only [Reader.bind_eq_ok, Reader.pure_eq_ok] at done
    rcases done with ⟨_, _, rfl⟩
    refine ⟨nothing_added rfl, fun _ _ => rfl, nothing_added rfl, [.host accepts], rfl, ?_⟩
    intro other member
    cases List.mem_singleton.mp member
    exact List.mem_of_mem_head? head
  · generalize compiler.registry.validator? _ = registered at done
    split at done
    · exact (Reader.throw_eq_ok.mp done).elim
    · rename_i validator
      simp only [Reader.bind_eq_ok, Reader.pure_eq_ok] at done
      rcases done with ⟨values, _, rfl⟩
      refine ⟨nothing_added rfl, fun _ _ => rfl, nothing_added rfl,
        [.validator validator values], rfl, ?_⟩
      intro other member
      cases List.mem_singleton.mp member
  · exact (Reader.throw_eq_ok.mp done).elim

theorem applyProc_grows (done : compiler.applyProc before arguments = .ok after) :
    before.Grows .proc arguments after := by
  simp only [applyProc, Reader.bind_eq_ok, Reader.read_eq_ok] at done
  rcases done with ⟨_, rfl, done⟩
  generalize arguments.head? = first at done
  split at done
  · simp only [Reader.bind_eq_ok, Reader.pure_eq_ok] at done
    rcases done with ⟨_, _, rfl⟩
    exact ⟨nothing_added rfl, fun _ excluded => absurd rfl excluded, nothing_added rfl, [], by simp,
      by simp⟩
  · generalize compiler.registry.processor? _ = registered at done
    split at done
    · exact (Reader.throw_eq_ok.mp done).elim
    · simp only [Reader.bind_eq_ok, Reader.pure_eq_ok] at done
      rcases done with ⟨_, _, rfl⟩
      exact ⟨nothing_added rfl, fun _ excluded => absurd rfl excluded, nothing_added rfl, [], by simp,
        by simp⟩
  · exact (Reader.throw_eq_ok.mp done).elim

theorem applyCall_grows (done : applyCall before arguments = .ok after) :
    before.Grows .call arguments after := by
  simp only [applyCall, Reader.bind_eq_ok, Reader.read_eq_ok] at done
  rcases done with ⟨_, rfl, done⟩
  split at done
  · rw [← Reader.pure_eq_ok.mp done]
    exact .of_callback (.call _)
  · exact (Reader.throw_eq_ok.mp done).elim

theorem applyReplace_grows (done : applyReplace before arguments = .ok after) :
    before.Grows .replace arguments after := by
  simp only [applyReplace, Reader.bind_eq_ok, Reader.pure_eq_ok] at done
  rcases done with ⟨_, _, text, _, rfl⟩
  exact .of_one_callback (.replace arguments) rfl (fun excluded => absurd rfl excluded) rfl rfl

theorem applyGoto_grows (done : applyGoto before arguments = .ok after) :
    before.Grows .goto arguments after := by
  simp only [applyGoto, Reader.bind_eq_ok] at done
  rcases done with ⟨_, counted, target, given, done⟩
  generalize known : targets.get? target = place at done
  split at done
  · rw [← Reader.pure_eq_ok.mp done, eq_singleton_text counted given]
    exact .of_operation (.goto known)
  · exact (Reader.throw_eq_ok.mp done).elim

/-- Every instruction adds to a rule only what it issues. -/
theorem apply_grows {mnemonic : Mnemonic}
    (done : compiler.apply mnemonic before arguments = .ok after) :
    before.Grows mnemonic arguments after := by
  cases mnemonic with
  | error =>
      simp only [apply, applyError, Reader.bind_eq_ok] at done
      rcases done with ⟨_, _, _, _, done⟩
      split at done <;>
        · simp only [Reader.bind_eq_ok, Reader.pure_eq_ok] at done
          rcases done with ⟨message, _, rfl⟩
          exact .of_operation (.error arguments message)
  | replace => exact applyReplace_grows done
  | increment => exact applyAdd_grows (.increment arguments) done
  | decrement => exact applyAdd_grows (.decrement arguments) done
  | define =>
      simp only [apply, applyDefine, Reader.bind_eq_ok, Reader.pure_eq_ok] at done
      rcases done with ⟨_, _, name, _, value, _, level, _, rfl⟩
      exact .of_operation (.define arguments name value level)
  | append =>
      simp only [apply, applyAppend, Reader.bind_eq_ok, Reader.pure_eq_ok] at done
      rcases done with ⟨_, _, name, _, value, _, level, _, rfl⟩
      exact .of_operation (.append arguments name value level)
  | tag =>
      simp only [apply, applyTag, Reader.bind_eq_ok, Reader.pure_eq_ok] at done
      rcases done with ⟨_, _, tag, _, rfl⟩
      exact .of_one_callback (.tag arguments) rfl (fun _ _ => rfl) rfl rfl
  | pre => exact applyPre_grows done
  | post => exact applyPost_grows done
  | proc => exact applyProc_grows done
  | call => exact applyCall_grows done
  | save =>
      simp only [apply, applySave, Reader.bind_eq_ok, Reader.pure_eq_ok] at done
      rcases done with ⟨_, _, rfl⟩
      exact .of_callback (.save arguments)
  | strict => exact applyStrict_grows (.strict arguments) done
  | relax => exact applyStrict_grows (.relax arguments) done
  | «open» =>
      simp only [apply, applyOpen, Reader.bind_eq_ok, Reader.pure_eq_ok] at done
      rcases done with ⟨_, _, scope, _, rfl⟩
      exact .of_operation (.openScope arguments scope)
  | close =>
      simp only [apply, applyClose, Reader.bind_eq_ok, Reader.pure_eq_ok] at done
      rcases done with ⟨_, _, count, _, rfl⟩
      exact .of_operation (.close arguments _)
  | swap =>
      simp only [apply, applySwap, Reader.bind_eq_ok, Reader.pure_eq_ok] at done
      rcases done with ⟨_, _, scope, _, rfl⟩
      exact .of_operation (.swap arguments scope)
  | next =>
      simp only [apply, applyNext, Reader.bind_eq_ok, Reader.pure_eq_ok] at done
      rcases done with ⟨_, _, scope, _, count, _, rfl⟩
      exact .of_operation (.next arguments scope _)
  | advance => exact applyMove_grows (.advance arguments) done
  | reverse => exact applyMove_grows (.reverse arguments) done
  | goto => exact applyGoto_grows done

theorem step_grows {instruction : Instruction}
    (done : compiler.step before instruction = .ok after) :
    ∃ mnemonic, Mnemonic.ofName? instruction.name = some mnemonic ∧
      before.Grows mnemonic instruction.arguments after := by
  unfold step at done
  split at done
  · cases done
  · rename_i mnemonic named
    split at done
    · rename_i applied
      cases done
      exact ⟨mnemonic, named, apply_grows applied⟩
    · cases done

theorem compile_induction {expr : Expr} {instructions : List Instruction} (holds : Rule → Prop)
    (initial : holds { expr := expr })
    (keeps : ∀ instruction ∈ instructions, ∀ before after : Rule,
      compiler.step before instruction = .ok after → holds before → holds after)
    (done : compiler.compile expr instructions = .ok after) : holds after := by
  unfold compile at done
  generalize ({ expr := expr } : Rule) = start at initial done
  induction instructions generalizing start with
  | nil =>
      cases done
      exact initial
  | cons instruction later induction =>
      rw [List.foldlM_cons] at done
      cases stepped : compiler.step start instruction with
      | error fault =>
          rw [stepped] at done
          cases done
      | ok next =>
          rw [stepped] at done
          refine induction ?_ next ?_ done
          · intro other member
            exact keeps other (by simp [member])
          · exact keeps instruction (by simp) start next stepped initial

/-- What holds of a rule at first and as it grows by every instruction holds of
the compiled rule. -/
theorem compile_keeps {expr : Expr} {instructions : List Instruction} (holds : Rule → Prop)
    (initial : holds { expr := expr })
    (keeps : ∀ instruction ∈ instructions, ∀ mnemonic,
      Mnemonic.ofName? instruction.name = some mnemonic → ∀ before after : Rule,
      before.Grows mnemonic instruction.arguments after → holds before → holds after)
    (done : compiler.compile expr instructions = .ok after) : holds after := by
  apply compile_induction holds initial _ done
  intro instruction member before after stepped
  obtain ⟨mnemonic, named, grows⟩ := step_grows stepped
  exact keeps instruction member mnemonic named before after grows

end Compiler

/-- Whether the callbacks of a rule under construction come only from
instructions that are allowed. A rule that is given ready made has none. -/
def Entry.Confined (allowed : Mnemonic → List Argument → Prop) : Entry → Prop
  | .spec described => ∀ instruction ∈ described.instructions,
      ∀ mnemonic ∈ Mnemonic.ofName? instruction.name, allowed mnemonic instruction.arguments
  | .rule given => given.callbacks = []

instance {allowed : Mnemonic → List Argument → Prop}
    [∀ mnemonic arguments, Decidable (allowed mnemonic arguments)] :
    DecidablePred (Entry.Confined allowed)
  | .spec described =>
      inferInstanceAs (Decidable (∀ instruction ∈ described.instructions,
        ∀ mnemonic ∈ Mnemonic.ofName? instruction.name, allowed mnemonic instruction.arguments))
  | .rule given => decidable_of_iff (given.callbacks.isEmpty = true) List.isEmpty_iff

theorem Entry.Confined.and {first second : Mnemonic → List Argument → Prop} {entry : Entry}
    (one : entry.Confined first) (two : entry.Confined second) :
    entry.Confined fun mnemonic arguments => first mnemonic arguments ∧ second mnemonic arguments := by
  cases entry with
  | rule given => exact one
  | spec described =>
      intro instruction listed mnemonic named
      exact ⟨one instruction listed mnemonic named, two instruction listed mnemonic named⟩

/-- Whether the matched text stays as it is under a rule under construction. -/
def Entry.Unedited : Entry → Prop
  | .spec described => ∀ instruction ∈ described.instructions,
      Mnemonic.ofName? instruction.name ≠ some .replace ∧
        Mnemonic.ofName? instruction.name ≠ some .proc
  | .rule given => given.transforms = []

instance : DecidablePred Entry.Unedited
  | .spec described =>
      inferInstanceAs (Decidable (∀ instruction ∈ described.instructions,
        Mnemonic.ofName? instruction.name ≠ some .replace ∧
          Mnemonic.ofName? instruction.name ≠ some .proc))
  | .rule given => decidable_of_iff (given.transforms.isEmpty = true) List.isEmpty_iff

/-- Whether a rule is what an entry comes to, wherever in its scope it stands. -/
def Entry.Gives (compiler : Compiler) : Entry → Rule → Prop
  | .rule ready, made => made = ready
  | .spec described, made => ∃ expr, described.subject.expr = .ok expr ∧
      compiler.compile expr described.instructions = .ok made

def Rule.IssuedBy (allowed : Mnemonic → List Argument → Prop) (rule : Rule) : Prop :=
  ∀ callback ∈ rule.callbacks, ∃ mnemonic arguments,
    allowed mnemonic arguments ∧ mnemonic.Issues arguments callback

def Grammar.Every (holds : Rule → Prop) (grammar : Grammar) : Prop :=
  ∀ scope ∈ grammar.scopes, ∀ rule ∈ scope.rules, holds rule

theorem Grammar.strictness_get? {grammar : Grammar} {name : String} {scope : Scope}
    (known : grammar.scope? name = some scope) :
    grammar.strictness.get? name = some scope.strict := by
  unfold scope? at known
  unfold strictness Table.get?
  generalize grammar.scopes = scopes at known
  induction scopes with
  | nil => cases known
  | cons first rest induction =>
      rw [List.find?_cons] at known
      rw [List.map_cons, List.lookup_cons]
      by_cases same : first.name = name
      · subst same
        simp only [BEq.rfl] at known ⊢
        cases known
        rfl
      · have other : (first.name == name) = false := by simpa using same
        have other' : (name == first.name) = false := by simpa using Ne.symm same
        rw [other] at known
        rw [other']
        exact induction known

theorem Grammar.has_strictness (grammar : Grammar) (name : String) :
    grammar.strictness.has name = grammar.contains name := by
  unfold Table.has contains
  cases known : grammar.scope? name with
  | some scope => rw [strictness_get? known, Option.isSome_some, Option.isSome_some]
  | none =>
      have absent : grammar.strictness.get? name = none := by
        unfold strictness Table.get?
        rw [List.lookup_eq_none_iff]
        intro entry member
        obtain ⟨scope, inGrammar, rfl⟩ := List.mem_map.mp member
        have other := List.find?_eq_none.mp known scope inGrammar
        simpa using fun same => other (beq_iff_eq.mpr (Eq.symm same))
      rw [absent, Option.isSome_none, Option.isSome_none]

namespace Builder

def Every (holds : Entry → Prop) (builder : Builder) : Prop :=
  ∀ named ∈ builder.entries, ∀ entry ∈ named.2, holds entry

instance {holds : Entry → Prop} [DecidablePred holds] (builder : Builder) :
    Decidable (builder.Every holds) :=
  inferInstanceAs (Decidable (∀ named ∈ builder.entries, ∀ entry ∈ named.2, holds entry))

variable {builder : Builder} {grammar : Grammar}

/-- What the rules of a builder are compiled with. -/
def compiler (builder : Builder) : Compiler :=
  { registry := builder.registry, scopes := builder.entries.names }

section Scopes

variable {compiler : Compiler} {strict : List String} {name : String} {index : Nat}

theorem buildEntry_eq_ok_iff {entry : Entry} {rule : Rule} :
    buildEntry compiler name index entry = .ok rule ↔ entry.Gives compiler rule := by
  cases entry with
  | rule ready => simp [buildEntry, Entry.Gives, eq_comm]
  | spec spec =>
      simp only [buildEntry, Entry.Gives, bind_eq_ok_iff]
      apply exists_congr
      intro expr
      cases compiler.compile expr spec.instructions <;> simp

/-- Every entry gives one rule, in the same order. -/
theorem buildEntries_eq_ok_iff {entries : List Entry} {rules : List Rule} :
    buildEntries compiler name index entries = .ok rules ↔
      List.Forall₂ (Entry.Gives compiler) entries rules := by
  induction entries generalizing index rules with
  | nil => simp [buildEntries, eq_comm]
  | cons entry later induction =>
      simp only [buildEntries, bind_eq_ok_iff, buildEntry_eq_ok_iff, induction,
        List.forall₂_cons_left_iff]
      constructor
      · rintro ⟨rule, first, others, rest, ⟨⟩⟩
        exact ⟨rule, others, first, rest, rfl⟩
      · rintro ⟨rule, others, first, rest, rfl⟩
        exact ⟨rule, first, others, rest, rfl⟩

theorem buildScope_eq_ok_iff {named : String × List Entry} {scope : Scope} :
    buildScope compiler strict named = .ok scope ↔
      scope.name = named.1 ∧ scope.strict = strict.contains named.1 ∧
        List.Forall₂ (Entry.Gives compiler) named.2 scope.rules := by
  simp only [buildScope, bind_eq_ok_iff, buildEntries_eq_ok_iff]
  constructor
  · rintro ⟨rules, gives, ⟨⟩⟩
    exact ⟨rfl, rfl, gives⟩
  · obtain ⟨_, rules, _⟩ := scope
    rintro ⟨rfl, rfl, gives⟩
    exact ⟨rules, gives, rfl⟩

end Scopes

/-- A grammar is made of the scopes that were described, if its main scope and the
strict ones are among them. -/
theorem build_eq_ok_iff :
    builder.build = .ok grammar ↔
      Context.mainScope ∈ builder.entries.names ∧
        (∀ name ∈ builder.strict, name ∈ builder.entries.names) ∧
        builder.entries.mapM (buildScope builder.compiler builder.strict) = .ok grammar.scopes := by
  unfold build
  simp only [bind, Except.bind, pure, Except.pure, throw, throwThe, MonadExceptOf.throw]
  by_cases main : Context.mainScope ∈ builder.entries.names
  · have listed : (!builder.entries.names.contains Context.mainScope) = false := by simpa using main
    simp only [listed, Bool.false_eq_true, if_false, main, true_and]
    cases unknown : builder.strict.find? fun name => !builder.entries.names.contains name with
    | some name =>
        obtain ⟨isUnknown, marked⟩ := List.find?_eq_some_iff_append.mp unknown
        have absent : name ∉ builder.entries.names := by simpa using isUnknown
        have member := List.mem_of_find?_eq_some unknown
        simp only [reduceCtorEq, false_iff, not_and]
        intro every
        exact absurd (every name member) absent
    | none =>
        have every : ∀ name ∈ builder.strict, name ∈ builder.entries.names := by
          intro name member
          simpa using List.find?_eq_none.mp unknown name member
        rw [and_iff_right every]
        unfold compiler
        cases builder.entries.mapM (buildScope ⟨builder.registry, builder.entries.names⟩
          builder.strict) with
        | error error => simp
        | ok scopes =>
            cases grammar
            simp
  · simp [main]

theorem scopes_of_build (built : builder.build = .ok grammar) :
    List.Forall₂ (fun named scope =>
      buildScope builder.compiler builder.strict named = .ok scope) builder.entries grammar.scopes :=
  (mapM_eq_ok_iff _ _ _).mp (build_eq_ok_iff.mp built).2.2

/-- A scope of a built grammar is made of what was said of it. -/
theorem scope_of_build (built : builder.build = .ok grammar) {scope : Scope}
    (member : scope ∈ grammar.scopes) :
    ∃ named ∈ builder.entries, scope.name = named.1 ∧
      scope.strict = builder.strict.contains named.1 ∧
        List.Forall₂ (Entry.Gives builder.compiler) named.2 scope.rules := by
  obtain ⟨named, described, made⟩ := exists_of_mem_right (scopes_of_build built) member
  exact ⟨named, described, buildScope_eq_ok_iff.mp made⟩

theorem names_eq_of_build (built : builder.build = .ok grammar) :
    builder.entries.names = grammar.scopes.map Scope.name := by
  rw [Table.names, ← List.forall₂_eq_eq_eq, List.forall₂_map_left_iff, List.forall₂_map_right_iff]
  exact (scopes_of_build built).imp fun _ _ made => (buildScope_eq_ok_iff.mp made).1.symm

theorem contains_of_build (built : builder.build = .ok grammar) {name : String}
    (said : name ∈ builder.entries.names) : grammar.contains name = true := by
  rw [names_eq_of_build built] at said
  obtain ⟨scope, inGrammar, isNamed⟩ := List.mem_map.mp said
  unfold Grammar.contains Grammar.scope?
  rw [List.find?_isSome]
  exact ⟨scope, inGrammar, beq_iff_eq.mpr isNamed⟩

theorem main_of_build (built : builder.build = .ok grammar) :
    grammar.contains Context.mainScope = true :=
  contains_of_build built (build_eq_ok_iff.mp built).1

/-- What every entry gives to its rule holds of all rules of the grammar. -/
theorem every_of_build {described : Entry → Prop} {holds : Rule → Prop}
    (given : ∀ rule, described (.rule rule) → holds rule)
    (compiled : ∀ spec, described (.spec spec) → ∀ expr rule,
      builder.compiler.compile expr spec.instructions = .ok rule → holds rule)
    (every : builder.Every described) (built : builder.build = .ok grammar) :
    grammar.Every holds := by
  intro scope inGrammar rule inScope
  obtain ⟨named, isNamed, _, _, rules⟩ := scope_of_build built inGrammar
  obtain ⟨entry, isEntry, gives⟩ := exists_of_mem_right rules inScope
  have fact := every named isNamed entry isEntry
  cases entry with
  | rule ready =>
      cases gives
      exact given rule fact
  | spec spec =>
      obtain ⟨expr, _, done⟩ := gives
      exact compiled spec fact expr rule done

theorem issued_of_build {allowed : Mnemonic → List Argument → Prop}
    (confined : builder.Every (Entry.Confined allowed)) (built : builder.build = .ok grammar) :
    grammar.Every (Rule.IssuedBy allowed) := by
  refine every_of_build ?_ ?_ confined built
  · intro rule none callback member
    rw [show rule.callbacks = [] from none] at member
    simp at member
  · intro spec within expr rule compiled
    refine Compiler.compile_keeps (Rule.IssuedBy allowed) ?_ ?_ compiled
    · intro callback member
      simp at member
    · intro instruction listed mnemonic named before after grows earlier callback member
      rcases grows.callbacks with ⟨added, callbacks, issued⟩
      rw [callbacks] at member
      rcases List.mem_append.mp member with old | new
      · exact earlier callback old
      · exact ⟨mnemonic, instruction.arguments, within instruction listed mnemonic named,
          issued callback new⟩

theorem unedited_of_build (unedited : builder.Every Entry.Unedited)
    (built : builder.build = .ok grammar) : grammar.Every fun rule => rule.transforms = [] := by
  refine every_of_build ?_ ?_ unedited built
  · intro rule none
    exact none
  · intro spec without expr rule compiled
    refine Compiler.compile_keeps (fun rule => rule.transforms = []) rfl ?_ compiled
    intro instruction listed mnemonic named before after grows earlier
    have kept := without instruction listed
    rw [named] at kept
    rw [grows.transforms, earlier]
    · exact fun same => kept.1 (congrArg some same)
    · exact fun same => kept.2 (congrArg some same)

end Builder

end LineGrammar
