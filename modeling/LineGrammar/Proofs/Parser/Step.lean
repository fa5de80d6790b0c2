import LineGrammar.Proofs.Cursor.Remaining
import LineGrammar.Proofs.Grammar.Compiled
import LineGrammar.Proofs.Grammar.FirstMatch
import LineGrammar.Proofs.Parser.Run
import LineGrammar.Proofs.Session.Record

/-!
What one round does if no callback moves the cursor. Either the first rule that
matches takes the cursor behind its match, and all that happens after that are
changes of the scopes and the saving of that very match; or no rule matches, and
one character is passed over unless the line has ended. At the end of a line the
cursor goes on to the next one.
-/

namespace LineGrammar

namespace Rule

variable {rule : Rule}

def Still (sets : Bool → Prop) (rule : Rule) : Prop :=
  ∀ callback ∈ rule.callbacks, callback.Still sets

theorem Still.decisive {sets : Bool → Prop} (still : rule.Still sets) : rule.Decisive := by
  apply decisive_of_callbacks
  intro callback member
  exact (still callback member).ends

@[simp]
theorem start_dress (rule : Rule) (found : Match) : (rule.dress found).start = found.start := by
  unfold dress
  split <;> simp

@[simp]
theorem stop_dress (rule : Rule) (found : Match) : (rule.dress found).stop = found.stop := by
  unfold dress
  split <;> simp

@[simp]
theorem children_dress (rule : Rule) (found : Match) :
    (rule.dress found).children = found.children := by
  unfold dress
  split <;> simp

theorem text_dress (unedited : rule.transforms = []) (found : Match) :
    (rule.dress found).text = found.text := by
  unfold dress
  split <;> simp [unedited]

end Rule

def Mnemonic.KeepsPlace (mnemonic : Mnemonic) : Prop :=
  mnemonic ∉ [.advance, .reverse, .goto, .call]

instance : DecidablePred Mnemonic.KeepsPlace := fun mnemonic =>
  inferInstanceAs (Decidable (mnemonic ∉ [.advance, .reverse, .goto, .call]))

theorem Mnemonic.Issues.still {mnemonic : Mnemonic} {arguments : List Argument}
    {callback : Callback} {sets : Bool → Prop} (issued : mnemonic.Issues arguments callback)
    (keeps : mnemonic.KeepsPlace) (strict : sets true) (relax : mnemonic = .relax → sets false) :
    callback.Still sets := by
  cases issued with
  | call script => exact absurd (by decide) keeps
  | advance arguments count => exact absurd (by decide) keeps
  | reverse arguments count => exact absurd (by decide) keeps
  | goto known => exact absurd (by decide) keeps
  | strict arguments scope => exact strict
  | relax arguments scope => exact relax rfl
  | _ => trivial

theorem Builder.still_of_build {builder : Builder} {grammar : Grammar}
    {allowed : Mnemonic → List Argument → Prop} {sets : Bool → Prop}
    (confined : builder.Every (Entry.Confined allowed)) (built : builder.build = .ok grammar)
    (keeps : ∀ mnemonic arguments, allowed mnemonic arguments → mnemonic.KeepsPlace)
    (strict : sets true)
    (relax : ∀ arguments, allowed .relax arguments → sets false) :
    grammar.Every (Rule.Still sets) := by
  intro scope inGrammar rule inScope callback member
  obtain ⟨mnemonic, arguments, permitted, issued⟩ :=
    issued_of_build confined built scope inGrammar rule inScope callback member
  apply issued.still (keeps mnemonic arguments permitted) strict
  rintro rfl
  exact relax arguments permitted

namespace Session

variable {grammar : Grammar} {sets : Bool → Prop} {session before after : Session}

theorem filterMap_announceStart {Told : Type} {tell : Event → Option Told}
    (silent : ∀ position, tell (.lineBegun position) = none) (session : Session) :
    session.announceStart.events.toList.filterMap tell = session.events.toList.filterMap tell := by
  unfold announceStart
  split
  · exact filterMap_push_of_none (silent session.cursor.position)
  · rfl

theorem filterMap_endLine {Told : Type} {tell : Event → Option Told}
    (silent : ∀ position, tell (.lineEnded position) = none) (session : Session) :
    session.endLine.events.toList.filterMap tell = session.events.toList.filterMap tell := by
  unfold endLine
  split
  · exact filterMap_push_of_none (silent session.cursor.position)
  · rfl

theorem announceStart_winners (session : Session) :
    session.announceStart.winners = session.winners :=
  filterMap_announceStart (fun _ => rfl) session

theorem announceStart_savings (session : Session) :
    session.announceStart.savings = session.savings :=
  filterMap_announceStart (fun _ => rfl) session

theorem endLine_winners (session : Session) : session.endLine.winners = session.winners :=
  filterMap_endLine (fun _ => rfl) session

theorem endLine_savings (session : Session) : session.endLine.savings = session.savings :=
  filterMap_endLine (fun _ => rfl) session

theorem endLine_context (session : Session) : session.endLine.context = session.context := by
  unfold endLine
  split <;> rfl

theorem endLine_buffer (session : Session) :
    session.endLine.cursor.buffer = session.cursor.buffer := by
  unfold endLine
  split <;> rfl

theorem endLine_valid (valid : session.cursor.Valid) : session.endLine.cursor.Valid := by
  unfold endLine
  split
  · exact valid.onward_nextLine.valid
  · exact valid

/-- What a successful round comes to. -/
inductive Step (grammar : Grammar) (sets : Bool → Prop) (before : Session) : Session → Prop
  | skipped {scope : Scope} (notes : Array Note)
      (known : grammar.scope? before.context.scopeName = some scope)
      (refused : ∀ rule ∈ scope.rules, rule.match? before.cursor before.context = none)
      (relaxed : before.context.isStrict before.context.scopeName = false) :
      Step grammar sets before { before.announceStart with notes := notes }.skipChar.endLine
  | matched {scope : Scope} {earlier later : List Rule} {rule : Rule} {found : Match}
      {last : Session} (known : grammar.scope? before.context.scopeName = some scope)
      (listed : scope.rules = earlier ++ rule :: later)
      (accepted : rule.match? before.cursor before.context = some found)
      (changes : Changes (· = rule.dress found) sets
        { before.announceStart with cursor := (rule.expr.attempt before.cursor).cursor } last)
      (recorded : before.context.setting.config.recordAll = true →
        (rule.dress found).isEmpty = false → last.context.lastSave = some (rule.dress found)) :
      Step grammar sets before
        (last.publish (.matched before.context.scopeName earlier.length (rule.dress found))).endLine

theorem round_step (still : grammar.Every (Rule.Still sets)) (valid : before.cursor.Valid)
    (made : round grammar before = .ok () after) : Step grammar sets before after := by
  have cursor := announceStart_cursor before
  have context := announceStart_context before
  have answers := @matchAt_answers before.announceStart grammar (by rwa [cursor])
    fun scope inGrammar rule inScope => (still scope inGrammar rule inScope).decisive
  unfold round at made
  generalize matchAt grammar before.announceStart = outcome at answers made
  cases answers with
  | passed notes known refused relaxed =>
      rw [cursor, context] at refused
      rw [context] at known relaxed
      cases made
      exact .skipped notes known refused relaxed
  | failed ends => cases made
  | @won scope earlier later rule found ran after notes known listed _ accepted called wins =>
      rw [cursor, context] at accepted
      rw [context] at known wins
      rw [cursor] at called
      have inScope : rule ∈ scope.rules := by simp [listed]
      have mine := still scope (List.mem_of_find?_eq_some known) rule inScope
      have behind : Changes (· = rule.dress found) sets
          { before.announceStart with cursor := (rule.expr.attempt before.cursor).cursor } ran :=
        (Change.notes notes).changes.trans
          ((Rule.runCallbacks_changing mine (rule.dress found) _).changes called)
      obtain ⟨last, saving, won, recorded⟩ :=
        win_eq sets before.context.scopeName earlier.length (rule.dress found) ran
      rw [won] at wins
      cases wins
      cases made
      apply Step.matched known listed accepted (behind.trans saving)
      intro wanted wide
      apply recorded _ wide
      rw [behind.setting_eq]
      exact context ▸ wanted

end Session

end LineGrammar
