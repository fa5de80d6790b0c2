import LineGrammar.Proofs.Grammar.Compiled

/-!
Rules that show the session to no function of the host. A host sees the cursor
and the context of a parse in checks and callbacks only, and all of these that a
described rule has were given as arguments of its instructions.
-/

namespace LineGrammar

/-- Whether an argument is a function of the host that is shown the session. An
edit of matched text is not. -/
def Argument.watches : Argument → Bool
  | .pre _ | .post _ | .call _ => true
  | .text _ | .int _ | .transform _ => false

def PostCheck.isHost : PostCheck → Bool
  | .host _ => true
  | .validator .. => false

structure Rule.Unwatched (rule : Rule) : Prop where
  pre : rule.pre = []
  post : ∀ check ∈ rule.post, check.isHost = false
  callbacks : ∀ callback ∈ rule.callbacks, callback.isHost = false

instance : DecidablePred Rule.Unwatched := fun rule =>
  decidable_of_iff (rule.pre.isEmpty = true ∧ (∀ check ∈ rule.post, check.isHost = false) ∧
      ∀ callback ∈ rule.callbacks, callback.isHost = false)
    ⟨fun holds => ⟨List.isEmpty_iff.mp holds.1, holds.2.1, holds.2.2⟩,
      fun free => ⟨List.isEmpty_iff.mpr free.pre, free.post, free.callbacks⟩⟩

def Entry.Unwatched : Entry → Prop
  | .spec described => ∀ instruction ∈ described.instructions,
      ∀ argument ∈ instruction.arguments, argument.watches = false
  | .rule given => given.Unwatched

instance : DecidablePred Entry.Unwatched
  | .spec described =>
      inferInstanceAs (Decidable (∀ instruction ∈ described.instructions,
        ∀ argument ∈ instruction.arguments, argument.watches = false))
  | .rule given => inferInstanceAs (Decidable given.Unwatched)

variable {arguments : List Argument}

theorem Mnemonic.Issues.not_host {mnemonic : Mnemonic} {callback : Callback}
    (issued : mnemonic.Issues arguments callback)
    (unwatched : ∀ argument ∈ arguments, argument.watches = false) : callback.isHost = false := by
  cases issued with
  | call script => cases unwatched (.call script) (by simp)
  | _ => rfl

theorem Rule.Grows.unwatched {mnemonic : Mnemonic} {before after : Rule}
    (grows : before.Grows mnemonic arguments after)
    (unwatched : ∀ argument ∈ arguments, argument.watches = false) (free : before.Unwatched) :
    after.Unwatched := by
  obtain ⟨⟨callbacks, addedCallbacks, issued⟩, _, ⟨pre, addedPre, given⟩, post, addedPost,
    given'⟩ := grows
  constructor
  · have nothing : pre = [] := by
      apply List.eq_nil_iff_forall_not_mem.mpr
      intro check member
      cases unwatched _ (given check member)
    rw [addedPre, free.pre, nothing, List.append_nil]
  · intro check member
    rw [addedPost] at member
    rcases List.mem_append.mp member with old | new
    · exact free.post check old
    · cases check with
      | validator accepts values => rfl
      | host accepts => cases unwatched _ (given' accepts new)
  · intro callback member
    rw [addedCallbacks] at member
    rcases List.mem_append.mp member with old | new
    · exact free.callbacks callback old
    · exact (issued callback new).not_host unwatched

theorem Builder.unwatched_of_build {builder : Builder} {grammar : Grammar}
    (unwatched : builder.Every Entry.Unwatched) (built : builder.build = .ok grammar) :
    grammar.Every Rule.Unwatched := by
  refine every_of_build ?_ ?_ unwatched built
  · intro rule given
    exact given
  · intro described entry expr rule done
    apply Compiler.compile_keeps Rule.Unwatched ⟨rfl, by simp, by simp⟩ _ done
    intro instruction listed mnemonic _ before after grows free
    exact grows.unwatched (entry instruction listed) free

end LineGrammar
