import LineGrammar.Proofs.Grammar.Arguments
import LineGrammar.Proofs.Session.Trace
import Mathlib.Data.List.Induction
import Mathlib.Data.List.Nodup
import Mathlib.Data.List.Perm.Basic

/-!
Grammars do not depend on the order in which they are described. What counts is
what was said of each scope, in its order, which scopes are strict and what is
registered in the end. A grammar can be built exactly if it has a main scope, the
strict scopes are among its scopes, every pattern is well formed and every
instruction is valid, all names being known from the start. Each of its scopes then
has what the entries of its name give, rule by rule.
-/

namespace LineGrammar

def Entry.Valid (known : Vocabulary) : Entry → Prop
  | .rule _ => True
  | .spec described => (∃ expr, described.subject.expr = .ok expr) ∧
      ∀ instruction ∈ described.instructions, instruction.Valid known

namespace Builder

/-! What a builder makes of its entries. -/

section Building

variable {compiler other : Compiler} {strict strict' : List String} {name : String}

theorem exists_gives {entry : Entry} :
    (∃ rule, entry.Gives compiler rule) ↔ entry.Valid compiler.vocabulary := by
  cases entry with
  | rule ready => exact iff_of_true ⟨ready, rfl⟩ trivial
  | spec spec =>
      constructor
      · rintro ⟨rule, expr, subject, compiled⟩
        exact ⟨⟨expr, subject⟩, Compiler.exists_compile.mp ⟨rule, compiled⟩⟩
      · rintro ⟨⟨expr, subject⟩, valid⟩
        obtain ⟨rule, compiled⟩ := (@Compiler.exists_compile compiler expr _).mpr valid
        exact ⟨rule, expr, subject, compiled⟩

theorem exists_buildScope {named : String × List Entry} :
    (∃ scope, buildScope compiler strict named = .ok scope) ↔
      ∀ entry ∈ named.2, entry.Valid compiler.vocabulary := by
  simp only [← @exists_gives compiler, ← exists_forall₂_iff, buildScope_eq_ok_iff]
  constructor
  · rintro ⟨scope, _, _, gives⟩
    exact ⟨_, gives⟩
  · rintro ⟨rules, gives⟩
    exact ⟨⟨named.1, rules, strict.contains named.1⟩, rfl, rfl, gives⟩

theorem buildEntries_eq (agrees : compiler.Agrees other) (index : Nat) (entries : List Entry) :
    buildEntries compiler name index entries = buildEntries other name index entries := by
  have same : ∀ index entry, buildEntry compiler name index entry =
      buildEntry other name index entry := by
    intro index entry
    cases entry <;> simp only [buildEntry, agrees.compile_eq]
  induction entries generalizing index with
  | nil => rfl
  | cons entry later induction => rw [buildEntries, buildEntries, same, induction]

theorem buildScope_eq (agrees : compiler.Agrees other)
    (sameStrict : ∀ name, name ∈ strict ↔ name ∈ strict') :
    buildScope compiler strict = buildScope other strict' := by
  funext named
  have marked : strict.contains named.1 = strict'.contains named.1 := by
    rw [List.contains_eq_mem, List.contains_eq_mem, decide_eq_decide]
    exact sameStrict named.1
  rw [buildScope, buildScope, buildEntries_eq agrees, marked]

end Building

variable {builder : Builder}

theorem exists_build :
    (∃ grammar, builder.build = .ok grammar) ↔
      Context.mainScope ∈ builder.entries.names ∧
        (∀ name ∈ builder.strict, name ∈ builder.entries.names) ∧
        ∀ named ∈ builder.entries, ∀ entry ∈ named.2, entry.Valid builder.compiler.vocabulary := by
  simp only [← @exists_buildScope builder.compiler builder.strict, ← exists_forall₂_iff,
    ← mapM_eq_ok_iff]
  constructor
  · rintro ⟨grammar, built⟩
    obtain ⟨main, strict, scopes⟩ := build_eq_ok_iff.mp built
    exact ⟨main, strict, _, scopes⟩
  · rintro ⟨main, strict, scopes, built⟩
    exact ⟨⟨scopes⟩, build_eq_ok_iff.mpr ⟨main, strict, built⟩⟩

/-- One thing that is said of a grammar. -/
inductive Call where
  | scope (name : String) (specs : List RuleSpec)
  | scopeRules (name : String) (rules : List Rule)
  | strict (name : String)
  | validator (name : String) (validator : Validator)
  | processor (name : String) (processor : Processor)

def call (builder : Builder) : Call → Builder
  | .scope name specs => builder.scope name specs
  | .scopeRules name rules => builder.scopeRules name rules
  | .strict name => builder.markStrict name
  | .validator name validator => builder.validator name validator
  | .processor name processor => builder.processor name processor

def ofCalls (calls : List Call) : Builder := calls.foldl call {}

namespace Call

def scopeName? : Call → Option String
  | .scope name _ => some name
  | .scopeRules name _ => some name
  | _ => none

def entries (name : String) : Call → List Entry
  | .scope other specs => if name = other then specs.map .spec else []
  | .scopeRules other rules => if name = other then rules.map .rule else []
  | _ => []

/-- Whether rules of a scope are told, be it that it has none. -/
def Named (calls : List Call) (name : String) : Prop :=
  ∃ call ∈ calls, call.scopeName? = some name

def entriesOf (calls : List Call) (name : String) : List Entry := calls.flatMap (entries name)

/-- The names that are known in the end: of the scopes, and of the checks and edits
that there always are or that are registered. -/
def vocabulary (calls : List Call) : Vocabulary where
  scope := Named calls
  validator name := (Registry.standard.validator? name).isSome = true ∨
    ∃ validator, .validator name validator ∈ calls
  processor name := (Registry.standard.processor? name).isSome = true ∨
    ∃ processor, .processor name processor ∈ calls

theorem named_concat {calls : List Call} {call : Call} {name : String} :
    Named (calls ++ [call]) name ↔ Named calls name ∨ call.scopeName? = some name := by
  simp [Named, or_and_right, exists_or]

end Call

theorem ofCalls_concat (calls : List Call) (call : Call) :
    ofCalls (calls ++ [call]) = (ofCalls calls).call call := by
  rw [ofCalls, List.foldl_append]
  rfl

theorem get?_call (builder : Builder) (call : Call) (name : String) :
    ((builder.call call).entries.get? name).getD [] =
        (builder.entries.get? name).getD [] ++ call.entries name ∧
      (name ∈ (builder.call call).entries.names ↔
        name ∈ builder.entries.names ∨ call.scopeName? = some name) := by
  have added : ∀ other entries,
      ((builder.addEntries other entries).entries.get? name).getD [] =
          (builder.entries.get? name).getD [] ++ (if name = other then entries else []) ∧
        (name ∈ (builder.addEntries other entries).entries.names ↔
          name ∈ builder.entries.names ∨ other = name) := by
    intro other entries
    rw [Table.mem_names_iff, Table.mem_names_iff, addEntries, Table.get?_set]
    by_cases same : name = other
    · subst same
      simp
    · simp [same, Ne.symm same]
  cases call with
  | scope other specs =>
      have fact := added other (specs.map .spec)
      simpa [Builder.call, Builder.scope, Call.entries, Call.scopeName?] using fact
  | scopeRules other rules =>
      have fact := added other (rules.map .rule)
      simpa [Builder.call, Builder.scopeRules, Call.entries, Call.scopeName?] using fact
  | _ => simp [Builder.call, markStrict, validator, processor, Call.entries, Call.scopeName?]

variable {calls calls' : List Call}

theorem get?_ofCalls (calls : List Call) (name : String) :
    ((ofCalls calls).entries.get? name).getD [] = Call.entriesOf calls name ∧
      (name ∈ (ofCalls calls).entries.names ↔ Call.Named calls name) := by
  induction calls using List.reverseRecOn with
  | nil => exact ⟨rfl, by simp [ofCalls, Table.names, Call.Named]⟩
  | append_singleton calls call induction =>
      obtain ⟨entries, names⟩ := get?_call (ofCalls calls) call name
      rw [ofCalls_concat, entries, names, induction.1, induction.2, Call.named_concat]
      simp [Call.entriesOf]

theorem nodup_ofCalls (calls : List Call) : (ofCalls calls).entries.names.Nodup := by
  induction calls using List.reverseRecOn with
  | nil => exact List.nodup_nil
  | append_singleton calls call induction =>
      rw [ofCalls_concat]
      cases call with
      | scope name specs => exact Table.nodup_names_set _ induction
      | scopeRules name rules => exact Table.nodup_names_set _ induction
      | _ => exact induction

theorem mem_entries_ofCalls {named : String × List Entry} :
    named ∈ (ofCalls calls).entries ↔
      Call.Named calls named.1 ∧ named.2 = Call.entriesOf calls named.1 := by
  obtain ⟨name, entries⟩ := named
  obtain ⟨said, names⟩ := get?_ofCalls calls name
  rw [Table.mem_iff_get? (nodup_ofCalls calls), ← names, Table.mem_names_iff, ← said]
  cases (ofCalls calls).entries.get? name with
  | none => simp
  | some list => simp [eq_comm]

theorem mem_strict_ofCalls {name : String} :
    name ∈ (ofCalls calls).strict ↔ .strict name ∈ calls := by
  induction calls using List.reverseRecOn with
  | nil => simp [ofCalls]
  | append_singleton calls call induction =>
      rw [ofCalls_concat, List.mem_append, List.mem_singleton, ← induction]
      cases call <;>
        simp [Builder.call, Builder.scope, scopeRules, addEntries, markStrict, validator, processor]

theorem validator?_ofCalls {name : String} :
    ((ofCalls calls).registry.validator? name).isSome = true ↔
      (Call.vocabulary calls).validator name := by
  simp only [Call.vocabulary]
  induction calls using List.reverseRecOn with
  | nil => simp [ofCalls]
  | append_singleton calls call induction =>
      simp only [ofCalls_concat, List.mem_append, List.mem_singleton, exists_or, ← or_assoc,
        ← induction]
      cases call with
      | validator other added =>
          have told : ((ofCalls calls).call (.validator other added)).registry.validator? name =
              if name = other then some added
              else (ofCalls calls).registry.validator? name :=
            Table.get?_set _ _ _ _
          rw [told]
          by_cases same : name = other <;> simp [same]
      | _ =>
          simp [Builder.call, Builder.scope, scopeRules, addEntries, markStrict, processor,
            Registry.addProcessor, Registry.validator?]

theorem processor?_ofCalls {name : String} :
    ((ofCalls calls).registry.processor? name).isSome = true ↔
      (Call.vocabulary calls).processor name := by
  simp only [Call.vocabulary]
  induction calls using List.reverseRecOn with
  | nil => simp [ofCalls]
  | append_singleton calls call induction =>
      simp only [ofCalls_concat, List.mem_append, List.mem_singleton, exists_or, ← or_assoc,
        ← induction]
      cases call with
      | processor other added =>
          have told : ((ofCalls calls).call (.processor other added)).registry.processor? name =
              if name = other then some added
              else (ofCalls calls).registry.processor? name :=
            Table.get?_set _ _ _ _
          rw [told]
          by_cases same : name = other <;> simp [same]
      | _ =>
          simp [Builder.call, Builder.scope, scopeRules, addEntries, markStrict, validator,
            Registry.addValidator, Registry.processor?]

theorem vocabulary_ofCalls (calls : List Call) :
    (ofCalls calls).compiler.vocabulary = Call.vocabulary calls := by
  have scopes : (ofCalls calls).compiler.vocabulary.scope = Call.Named calls :=
    funext fun name => propext (get?_ofCalls calls name).2
  have validators : (ofCalls calls).compiler.vocabulary.validator =
      (Call.vocabulary calls).validator := funext fun _ => propext validator?_ofCalls
  have processors : (ofCalls calls).compiler.vocabulary.processor =
      (Call.vocabulary calls).processor := funext fun _ => propext processor?_ofCalls
  exact congr (congrArg₂ Vocabulary.mk scopes validators) processors

theorem exists_build_ofCalls :
    (∃ grammar, (ofCalls calls).build = .ok grammar) ↔
      Call.Named calls Context.mainScope ∧
        (∀ name, .strict name ∈ calls → Call.Named calls name) ∧
        ∀ name, ∀ entry ∈ Call.entriesOf calls name, entry.Valid (Call.vocabulary calls) := by
  rw [exists_build, vocabulary_ofCalls, (get?_ofCalls calls _).2]
  simp only [mem_strict_ofCalls, (get?_ofCalls calls _).2, mem_entries_ofCalls]
  apply and_congr_right
  intro _
  apply and_congr_right
  intro _
  constructor
  · intro valid name entry member
    -- Of a scope that has entries something was said.
    have named : Call.Named calls name := by
      obtain ⟨call, isCall, given⟩ := List.mem_flatMap.mp member
      refine ⟨call, isCall, ?_⟩
      cases call with
      | scope other specs | scopeRules other rules =>
          simp only [Call.entries] at given
          split at given
          · rename_i same
            rw [same]
            rfl
          · cases given
      | _ => cases given
    exact valid (name, _) ⟨named, rfl⟩ entry member
  · rintro valid named ⟨_, said⟩ entry member
    rw [said] at member
    exact valid named.1 entry member

end Builder

theorem Grammar.scope?_eq_some_iff {grammar : Grammar}
    (distinct : (grammar.scopes.map Scope.name).Nodup) {name : String} {scope : Scope} :
    grammar.scope? name = some scope ↔ scope ∈ grammar.scopes ∧ scope.name = name := by
  constructor
  · intro found
    exact ⟨List.mem_of_find?_eq_some found, by simpa using List.find?_some found⟩
  · rintro ⟨member, rfl⟩
    cases found : grammar.scope? scope.name with
    | none => exact absurd (by simp) (List.find?_eq_none.mp found scope member)
    | some other =>
        have isOther : other ∈ grammar.scopes := List.mem_of_find?_eq_some found
        have same : other.name = scope.name := by simpa using List.find?_some found
        rw [List.inj_on_of_nodup_map distinct isOther member same]

namespace Builder

variable {calls calls' : List Call} {grammar grammar' : Grammar}

theorem distinct_of_build (built : (ofCalls calls).build = .ok grammar) :
    (grammar.scopes.map Scope.name).Nodup := by
  rw [← names_eq_of_build built]
  exact nodup_ofCalls calls

theorem exists_scope?_iff (built : (ofCalls calls).build = .ok grammar) (name : String) :
    (∃ scope, grammar.scope? name = some scope) ↔ Call.Named calls name := by
  simp only [Grammar.scope?_eq_some_iff (distinct_of_build built)]
  rw [← List.mem_map, ← names_eq_of_build built]
  exact (get?_ofCalls calls name).2

theorem of_scope? (built : (ofCalls calls).build = .ok grammar) {name : String} {scope : Scope}
    (found : grammar.scope? name = some scope) :
    scope.name = name ∧ (scope.strict = true ↔ .strict name ∈ calls) ∧
      List.Forall₂ (Entry.Gives (ofCalls calls).compiler) (Call.entriesOf calls name)
        scope.rules := by
  obtain ⟨member, rfl⟩ := (Grammar.scope?_eq_some_iff (distinct_of_build built)).mp found
  obtain ⟨named, described, isName, strict, rules⟩ := scope_of_build built member
  rw [(mem_entries_ofCalls.mp described).2, ← isName] at rules
  refine ⟨rfl, ?_, rules⟩
  rw [strict, ← isName, List.contains_iff_mem, mem_strict_ofCalls]

/-- Whether the same is said in two orders: the same of each scope, the same strict
scopes, and what is registered in the end. -/
structure Call.Same (calls calls' : List Call) : Prop where
  named : ∀ name, Named calls name ↔ Named calls' name
  entries : ∀ name, entriesOf calls name = entriesOf calls' name
  strict : ∀ name, .strict name ∈ calls ↔ .strict name ∈ calls'
  validators : ∀ name,
    (ofCalls calls).registry.validator? name = (ofCalls calls').registry.validator? name
  processors : ∀ name,
    (ofCalls calls).registry.processor? name = (ofCalls calls').registry.processor? name

theorem Call.Same.symm (same : Call.Same calls calls') : Call.Same calls' calls where
  named name := (same.named name).symm
  entries name := (same.entries name).symm
  strict name := (same.strict name).symm
  validators name := (same.validators name).symm
  processors name := (same.processors name).symm

theorem Call.Same.agrees (same : Call.Same calls calls') :
    (ofCalls calls).compiler.Agrees (ofCalls calls').compiler where
  scopes name := by
    unfold compiler
    rw [(get?_ofCalls calls name).2, (get?_ofCalls calls' name).2]
    exact same.named name
  validators := same.validators
  processors := same.processors

theorem Call.Same.buildScope_eq (same : Call.Same calls calls') :
    buildScope (ofCalls calls).compiler (ofCalls calls).strict =
      buildScope (ofCalls calls').compiler (ofCalls calls').strict := by
  refine Builder.buildScope_eq same.agrees fun name => ?_
  rw [mem_strict_ofCalls, mem_strict_ofCalls]
  exact same.strict name

theorem Call.Same.entries_perm (same : Call.Same calls calls') :
    (ofCalls calls).entries.Perm (ofCalls calls').entries := by
  have distinct : ∀ calls, (ofCalls calls).entries.Nodup := fun calls =>
    List.Nodup.of_map _ (nodup_ofCalls calls)
  rw [List.perm_ext_iff_of_nodup (distinct calls) (distinct calls')]
  intro named
  rw [mem_entries_ofCalls, mem_entries_ofCalls, same.named, same.entries]

theorem Call.Same.scopes_perm (same : Call.Same calls calls')
    (built : (ofCalls calls).build = .ok grammar) (built' : (ofCalls calls').build = .ok grammar') :
    grammar.scopes.Perm grammar'.scopes := by
  have made := forall₂_ok_iff.mp (scopes_of_build built)
  have made' := forall₂_ok_iff.mp (scopes_of_build built')
  have results : (grammar.scopes.map Except.ok).Perm
      (grammar'.scopes.map (Except.ok : Scope → Except Error Scope)) := by
    rw [← made, ← made', same.buildScope_eq]
    exact same.entries_perm.map _
  have injective : Function.Injective (Except.ok : Scope → Except Error Scope) :=
    fun _ _ => Except.ok.inj
  exact (List.map_perm_map_iff injective).mp results

theorem Call.Same.scope?_eq (same : Call.Same calls calls')
    (built : (ofCalls calls).build = .ok grammar) (built' : (ofCalls calls').build = .ok grammar')
    (name : String) : grammar.scope? name = grammar'.scope? name := by
  apply Option.ext
  intro scope
  rw [Grammar.scope?_eq_some_iff (distinct_of_build built),
    Grammar.scope?_eq_some_iff (distinct_of_build built'),
    (same.scopes_perm built built').mem_iff]

theorem Call.Same.exists_build (same : Call.Same calls calls')
    (built : ∃ grammar, (ofCalls calls).build = .ok grammar) :
    ∃ grammar, (ofCalls calls').build = .ok grammar := by
  have vocabulary : Call.vocabulary calls = Call.vocabulary calls' := by
    rw [← vocabulary_ofCalls, ← vocabulary_ofCalls]
    exact same.agrees.vocabulary_eq
  rw [exists_build_ofCalls] at built ⊢
  simpa only [← same.named, ← same.strict, ← same.entries, ← vocabulary] using built

/-- A grammar can be built exactly if its main scope and the strict ones are named,
every pattern is well formed and every instruction is valid, whichever calls name
what it refers to. It then has the named scopes and no others; the rules of a scope
are what the entries of its name give, in their order, and it is strict if a call
made it so. When the same is said in another order, both succeed, with the same
scopes, or both fail. -/
theorem build_order_independent :
    (∀ calls, (∃ grammar, (ofCalls calls).build = .ok grammar) ↔
      Call.Named calls Context.mainScope ∧
        (∀ name, .strict name ∈ calls → Call.Named calls name) ∧
        ∀ name, ∀ entry ∈ Call.entriesOf calls name, entry.Valid (Call.vocabulary calls)) ∧
    (∀ calls grammar, (ofCalls calls).build = .ok grammar → ∀ name,
      ((∃ scope, grammar.scope? name = some scope) ↔ Call.Named calls name) ∧
      ∀ scope, grammar.scope? name = some scope →
        scope.name = name ∧ (scope.strict = true ↔ .strict name ∈ calls) ∧
          List.Forall₂ (Entry.Gives (ofCalls calls).compiler) (Call.entriesOf calls name)
            scope.rules) ∧
    ∀ calls calls', Call.Same calls calls' →
      (∃ grammar grammar', (ofCalls calls).build = .ok grammar ∧
        (ofCalls calls').build = .ok grammar' ∧ grammar.scopes.Perm grammar'.scopes ∧
        ∀ name, grammar.scope? name = grammar'.scope? name) ∨
      ∃ fault fault', (ofCalls calls).build = .error fault ∧
        (ofCalls calls').build = .error fault' := by
  refine ⟨fun calls => exists_build_ofCalls, ?_, ?_⟩
  · intro calls grammar built name
    exact ⟨exists_scope?_iff built name, fun scope found => of_scope? built found⟩
  · intro calls calls' same
    cases built : (ofCalls calls).build with
    | ok grammar =>
        obtain ⟨grammar', built'⟩ := same.exists_build ⟨grammar, built⟩
        exact .inl ⟨grammar, grammar', rfl, built', same.scopes_perm built built',
          same.scope?_eq built built'⟩
    | error fault =>
        cases built' : (ofCalls calls').build with
        | ok grammar' =>
            obtain ⟨grammar, isBuilt⟩ := same.symm.exists_build ⟨grammar', built'⟩
            rw [built] at isBuilt
            cases isBuilt
        | error fault' => exact .inr ⟨fault, fault', rfl, rfl⟩

/-- A grammar whose first rule refers to what is said later. -/
def forwardCalls : List Call :=
  [.scope "main" [(RuleSpec.always.instruct "open" [.text "late"]).instruct "post" [.text "any"]],
    .scope "late" [], .strict "late", .validator "any" fun _ _ => true]

theorem forwardCalls_reverse : Call.Same forwardCalls forwardCalls.reverse where
  named name := by simp [Call.Named]
  entries name := by
    by_cases main : name = "main" <;> by_cases late : name = "late" <;>
      simp [forwardCalls, Call.entriesOf, Call.entries, main, late]
  strict name := by simp
  validators name := rfl
  processors name := rfl

/-- What a rule refers to may be told before or after it. The later scope is strict
and has no rules either way. -/
theorem forwardCalls_build :
    ∃ grammar grammar' late, (ofCalls forwardCalls).build = .ok grammar ∧
      (ofCalls forwardCalls.reverse).build = .ok grammar' ∧
      grammar.scopes.Perm grammar'.scopes ∧
      (∀ name, grammar.scope? name = grammar'.scope? name) ∧
      grammar'.scope? "late" = some late ∧ late.strict = true ∧ late.rules = [] := by
  obtain ⟨_, described, either⟩ := build_order_independent
  rcases either _ _ forwardCalls_reverse with
    ⟨grammar, grammar', built, built', scopes, found⟩ | ⟨fault, fault', failed, _⟩
  · have named : Call.Named forwardCalls.reverse "late" :=
      ⟨.scope "late" [], by simp [forwardCalls], rfl⟩
    obtain ⟨late, isLate⟩ := (described _ _ built' "late").1.mpr named
    obtain ⟨_, strict, rules⟩ := (described _ _ built' "late").2 late isLate
    have none : Call.entriesOf forwardCalls.reverse "late" = [] := rfl
    rw [none] at rules
    refine ⟨grammar, grammar', late, built, built', scopes, found, isLate, ?_, ?_⟩
    · exact strict.mpr (by simp [forwardCalls])
    · exact List.forall₂_nil_left_iff.mp rules
  · have succeeds : ∃ grammar, (ofCalls forwardCalls).build = .ok grammar := ⟨_, rfl⟩
    obtain ⟨grammar, built⟩ := succeeds
    rw [failed] at built
    cases built

end Builder

end LineGrammar
