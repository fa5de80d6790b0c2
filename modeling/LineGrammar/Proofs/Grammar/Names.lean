import LineGrammar.Proofs.Grammar.Compiled

/-!
The names of scopes in a built grammar. Four operations name a scope, and every
instruction that issues one of them looks the name up among the scopes that were
described. So a callback that comes from an instruction names scopes of the
grammar only.
-/

namespace LineGrammar

def Operation.scope? : Operation → Option String
  | .openScope scope => some scope
  | .swapScope scope => some scope
  | .nextScope scope _ => some scope
  | .setStrict scope _ => some scope
  | _ => none

/-- Whether a callback is not the host's own and names known scopes only. -/
def Callback.Names (known : String → Prop) : Callback → Prop
  | .save => True
  | .perform operation => ∀ scope ∈ operation.scope?, known scope
  | .host _ => False

def Rule.Names (known : String → Prop) (rule : Rule) : Prop :=
  ∀ callback ∈ rule.callbacks, callback.Names known

variable {known : String → Prop}

theorem Callback.Names.mono {wider : String → Prop} {callback : Callback}
    (names : callback.Names known) (widen : ∀ name, known name → wider name) :
    callback.Names wider := by
  cases callback with
  | save => trivial
  | perform operation => exact fun scope named => widen scope (names scope named)
  | host script => exact names.elim

theorem Rule.Names.withOperation {rule : Rule} {operation : Operation} (names : rule.Names known)
    (named : ∀ scope ∈ operation.scope?, known scope) :
    (Compiler.withOperation rule operation).Names known := by
  intro callback member
  rcases List.mem_append.mp member with old | new
  · exact names callback old
  · rw [List.mem_singleton.mp new]
    exact named

/-- Whether the scope of an instruction is looked up when it is compiled. -/
def Mnemonic.looksUp (mnemonic : Mnemonic) : Bool :=
  [.strict, .relax, .open, .swap, .next].contains mnemonic

theorem Mnemonic.Issues.names {mnemonic : Mnemonic} {arguments : List Argument}
    {callback : Callback} (issued : mnemonic.Issues arguments callback)
    (plain : mnemonic.looksUp = false) (noCall : mnemonic ≠ .call) : callback.Names known := by
  cases issued with
  | call script => exact absurd rfl noCall
  | strict arguments scope => cases plain
  | relax arguments scope => cases plain
  | openScope arguments scope => cases plain
  | swap arguments scope => cases plain
  | next arguments scope count => cases plain
  | replace arguments => trivial
  | tag arguments => trivial
  | save arguments => trivial
  | _ => exact nofun

namespace Compiler

variable {compiler : Compiler} {arguments : List Argument} {before after : Rule}

theorem mem_scopes_of_scopeAt {index : Nat} {scope : String}
    (read : compiler.scopeAt index arguments = .ok scope) : scope ∈ compiler.scopes := by
  simp only [scopeAt, Reader.bind_eq_ok] at read
  obtain ⟨name, _, done⟩ := read
  split at done
  · rename_i listed
    rw [← Reader.pure_eq_ok.mp done]
    exact List.contains_iff_mem.mp listed
  · exact (Reader.throw_eq_ok.mp done).elim

theorem apply_names {mnemonic : Mnemonic} (noCall : mnemonic ≠ .call)
    (done : compiler.apply mnemonic before arguments = .ok after)
    (names : before.Names (· ∈ compiler.scopes)) : after.Names (· ∈ compiler.scopes) := by
  have looked : ∀ {operation : Operation} {scope : String},
      operation.scope? = some scope → compiler.scopeAt 0 arguments = .ok scope →
        (withOperation before operation).Names (· ∈ compiler.scopes) := by
    intro operation scope named read
    apply names.withOperation
    rw [named]
    rintro _ ⟨⟩
    exact mem_scopes_of_scopeAt read
  by_cases plain : mnemonic.looksUp = false
  · obtain ⟨added, callbacks, issued⟩ := (apply_grows done).callbacks
    intro callback member
    rw [callbacks] at member
    rcases List.mem_append.mp member with old | new
    · exact names callback old
    · exact (issued callback new).names plain noCall
  · cases mnemonic with
    | strict =>
        simp only [apply, applyStrict, Reader.bind_eq_ok, Reader.pure_eq_ok] at done
        obtain ⟨_, _, scope, read, rfl⟩ := done
        exact looked rfl read
    | relax =>
        simp only [apply, applyStrict, Reader.bind_eq_ok, Reader.pure_eq_ok] at done
        obtain ⟨_, _, scope, read, rfl⟩ := done
        exact looked rfl read
    | «open» =>
        simp only [apply, applyOpen, Reader.bind_eq_ok, Reader.pure_eq_ok] at done
        obtain ⟨_, _, scope, read, rfl⟩ := done
        exact looked rfl read
    | swap =>
        simp only [apply, applySwap, Reader.bind_eq_ok, Reader.pure_eq_ok] at done
        obtain ⟨_, _, scope, read, rfl⟩ := done
        exact looked rfl read
    | next =>
        simp only [apply, applyNext, Reader.bind_eq_ok, Reader.pure_eq_ok] at done
        obtain ⟨_, _, scope, read, _, _, rfl⟩ := done
        exact looked rfl read
    | _ => exact absurd rfl plain

theorem step_names {instruction : Instruction}
    (noCall : ∀ mnemonic ∈ Mnemonic.ofName? instruction.name, mnemonic ≠ .call)
    (done : compiler.step before instruction = .ok after)
    (names : before.Names (· ∈ compiler.scopes)) : after.Names (· ∈ compiler.scopes) := by
  unfold step at done
  split at done
  · cases done
  · rename_i mnemonic named
    split at done
    · rename_i applied
      cases done
      exact apply_names (noCall mnemonic named) applied names
    · cases done

end Compiler

/-- Without a call, the rules of a built grammar name scopes of the grammar only. -/
theorem Builder.names_of_build {builder : Builder} {grammar : Grammar}
    (confined : builder.Every (Entry.Confined fun mnemonic _ => mnemonic ≠ .call))
    (built : builder.build = .ok grammar) :
    grammar.Every (Rule.Names fun name => grammar.contains name = true) := by
  refine every_of_build ?_ ?_ confined built
  · intro rule none callback member
    rw [show rule.callbacks = [] from none] at member
    cases member
  · intro spec noCall expr rule compiled callback member
    have named : rule.Names (· ∈ builder.compiler.scopes) := by
      apply Compiler.compile_induction (Rule.Names (· ∈ builder.compiler.scopes)) nofun _ compiled
      intro instruction listed before after stepped
      exact Compiler.step_names (noCall instruction listed) stepped
    apply (named callback member).mono
    intro name listed
    exact contains_of_build built listed

end LineGrammar
