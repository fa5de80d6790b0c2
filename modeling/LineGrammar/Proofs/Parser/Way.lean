import LineGrammar.Proofs.Cursor.Within
import LineGrammar.Proofs.Grammar.Compiled
import LineGrammar.Proofs.Grammar.FirstMatch
import LineGrammar.Proofs.Parser.Run

/-!
Which way the cursor goes in a round. A way is a relation between cursors to
which everything belongs that only goes forward. Matching, skipping a character
and going to the next line are such steps, so a round goes the same way as its
callbacks do.
-/

namespace LineGrammar

/-- Whether a relation between cursors is a way: it comprises all that goes
forward, can be continued, and leads to places where a cursor may stand. -/
structure Cursor.Way (way : Cursor → Cursor → Prop) : Prop where
  onward : ∀ before after : Cursor, before.Onward after → way before after
  trans : ∀ before middle after : Cursor, way before middle → way middle after → way before after
  valid : ∀ before after : Cursor, way before after → after.Valid

theorem Cursor.way_onward : Cursor.Way Cursor.Onward :=
  ⟨fun _ _ onward => onward, fun _ _ _ early late => early.trans late, fun _ _ onward => onward.valid⟩

theorem Cursor.way_within : Cursor.Way Cursor.Within :=
  ⟨fun _ _ onward => onward.within, fun _ _ _ early late => early.trans late,
    fun _ _ within => within.valid⟩

/-- Whether a callback stays at its place or makes one movement, which goes a
given way. -/
def Callback.Goes (way : Cursor → Cursor → Prop) (callback : Callback) : Prop :=
  callback.Still (fun _ => True) ∨
    ∃ movement : Movement, (∀ cursor : Cursor, cursor.Valid → way cursor (movement.apply cursor)) ∧
      callback = .perform (.move movement)

def Rule.Goes (way : Cursor → Cursor → Prop) (rule : Rule) : Prop :=
  ∀ callback ∈ rule.callbacks, callback.Goes way

variable {way : Cursor → Cursor → Prop}

theorem Callback.Goes.imp {wider : Cursor → Cursor → Prop} {callback : Callback}
    (goes : callback.Goes way) (widen : ∀ before after, way before after → wider before after) :
    callback.Goes wider := by
  rcases goes with still | ⟨movement, leads, rfl⟩
  · exact .inl still
  · exact .inr ⟨movement, fun cursor valid => widen _ _ (leads cursor valid), rfl⟩

theorem Callback.Goes.ends {callback : Callback} (goes : callback.Goes way) (found : Match)
    (session : Session) :
    Action.Ends (callback.run found session) (fun _ _ => True) (fun error _ => error.EndsParse) := by
  rcases goes with still | ⟨movement, _, rfl⟩
  · exact still.ends found session
  · trivial

theorem Rule.Goes.decisive {rule : Rule} (goes : rule.Goes way) : rule.Decisive :=
  Rule.decisive_of_callbacks fun callback member => (goes callback member).ends

namespace Session

structure Along (way : Cursor → Cursor → Prop) (before after : Session) : Prop where
  cursor : way before.cursor after.cursor
  setting : after.context.setting = before.context.setting

def EndsAlong {Result : Type} (way : Cursor → Cursor → Prop) (before : Session)
    (outcome : EStateM.Result Error Session Result) : Prop :=
  Action.Ends outcome (fun _ after => before.Along way after) (fun error _ => error.EndsParse)

variable {before middle after : Session}

theorem Along.trans (ways : Cursor.Way way) (early : before.Along way middle)
    (late : middle.Along way after) : before.Along way after :=
  ⟨ways.trans _ _ _ early.cursor late.cursor, late.setting.trans early.setting⟩

theorem Along.following {Result : Type} {outcome : EStateM.Result Error Session Result}
    (ways : Cursor.Way way) (early : before.Along way middle) (late : middle.EndsAlong way outcome) :
    before.EndsAlong way outcome := by
  cases outcome with
  | ok value after => exact early.trans ways late
  | error error after => exact late

theorem Changes.along {may : Match → Prop} {sets : Bool → Prop} (ways : Cursor.Way way)
    (changes : Changes may sets before after) (valid : before.cursor.Valid) :
    before.Along way after := by
  refine ⟨?_, changes.setting_eq⟩
  rw [changes.cursor_eq]
  exact ways.onward _ _ valid.onward_self

end Session

theorem Callback.run_endsAlong {callback : Callback} (ways : Cursor.Way way)
    (goes : callback.Goes way) (found : Match) {session : Session} (valid : session.cursor.Valid) :
    session.EndsAlong way (callback.run found session) := by
  rcases goes with still | ⟨movement, leads, rfl⟩
  · have changing := Callback.run_changing still found session
    cases outcome : callback.run found session with
    | ok value after =>
        rw [outcome] at changing
        exact Session.Changes.along ways changing valid
    | error error after =>
        rw [outcome] at changing
        exact changing.1
  · exact ⟨leads _ valid, rfl⟩

theorem Rule.runCallbacks_endsAlong {callbacks : List Callback} (ways : Cursor.Way way)
    (goes : ∀ callback ∈ callbacks, callback.Goes way) (found : Match) {session : Session}
    (valid : session.cursor.Valid) :
    session.EndsAlong way (Rule.runCallbacks found callbacks session) := by
  have here : session.Along way session := ⟨ways.onward _ _ valid.onward_self, rfl⟩
  apply Rule.runCallbacks_ends _ here
  intro callback member next along
  exact along.following ways
    (Callback.run_endsAlong ways (goes callback member) found (ways.valid _ _ along.cursor))

namespace Session

variable {grammar : Grammar} {session after : Session}

theorem skipChar_along (ways : Cursor.Way way) (valid : session.cursor.Valid) :
    session.Along way session.skipChar := by
  unfold skipChar
  split
  · exact ⟨ways.onward _ _ valid.onward_self, rfl⟩
  · exact ⟨ways.onward _ _ (valid.onward_advance 1), rfl⟩

theorem endLine_along (ways : Cursor.Way way) (valid : session.cursor.Valid) :
    session.Along way session.endLine := by
  unfold endLine
  split
  · exact ⟨ways.onward _ _ valid.onward_nextLine, rfl⟩
  · exact ⟨ways.onward _ _ valid.onward_self, rfl⟩

theorem win_along {scope : String} {index : Nat} {found : Match} {answer : Bool}
    (ways : Cursor.Way way) (wins : win scope index found session = .ok answer after)
    (valid : session.cursor.Valid) : session.Along way after := by
  rcases win_eq (fun _ => True) scope index found session with ⟨last, changes, won, _⟩
  rw [won] at wins
  cases wins
  have along := changes.along ways valid
  exact ⟨along.cursor, along.setting⟩

theorem round_endsAlong (ways : Cursor.Way way) (goes : grammar.Every (Rule.Goes way))
    (valid : session.cursor.Valid) : session.EndsAlong way (round grammar session) := by
  have announced : session.Along way session.announceStart := by
    refine ⟨?_, by rw [announceStart_context]⟩
    rw [announceStart_cursor]
    exact ways.onward _ _ valid.onward_self
  have standing := ways.valid _ _ announced.cursor
  have answers := @matchAt_answers _ grammar standing
    fun scope inGrammar rule inScope => (goes scope inGrammar rule inScope).decisive
  unfold round
  generalize matchAt grammar session.announceStart = outcome at answers
  cases answers with
  | passed notes _ _ _ =>
      have noted : session.Along way { session.announceStart with notes := notes } :=
        ⟨announced.cursor, announced.setting⟩
      have skipped := noted.trans ways (skipChar_along ways standing)
      exact skipped.trans ways (endLine_along ways (ways.valid _ _ skipped.cursor))
  | @won scope earlier later rule found ran after notes known listed _ accepted called wins =>
      have inScope : rule ∈ scope.rules := by simp [listed]
      have mine := goes scope (List.mem_of_find?_eq_some known) rule inScope
      have covers := rule.expr.covers_of_attempt standing (Rule.attempt_of_match? accepted)
      have behind : session.announceStart.Along way
          { session.announceStart with
            cursor := (rule.expr.attempt session.announceStart.cursor).cursor
            notes := notes } :=
        ⟨ways.onward _ _ (covers.leads.to_onward standing), rfl⟩
      have calls := Rule.runCallbacks_endsAlong ways mine (rule.dress found)
        (ways.valid _ _ behind.cursor)
      rw [called] at calls
      have ran : session.Along way ran := (announced.trans ways behind).trans ways calls
      have won : session.Along way after :=
        ran.trans ways (win_along ways wins (ways.valid _ _ ran.cursor))
      exact won.trans ways (endLine_along ways (ways.valid _ _ won.cursor))
  | failed ends => exact ends

end Session

end LineGrammar
