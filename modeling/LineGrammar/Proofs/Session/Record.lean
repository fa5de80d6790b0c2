import LineGrammar.Proofs.Scope.Chronology
import LineGrammar.Proofs.Session.Change

/-!
What a session has made known of matches, and that its tree keeps the same
record: going over the tree gives the matches in the order in which their
saving was made known.
-/

namespace LineGrammar

def Event.matched? : Event → Option Match
  | .matched _ _ found => some found
  | _ => none

def Event.saved? : Event → Option Match
  | .saved _ found => some found
  | _ => none

namespace Session

def winners (session : Session) : List Match := session.events.toList.filterMap Event.matched?

def savings (session : Session) : List Match := session.events.toList.filterMap Event.saved?

def Chronicled (session : Session) : Prop :=
  session.context.tree.Chronicle session.context.current session.savings

variable {may : Match → Prop} {sets : Bool → Prop} {before after : Session}

theorem filterMap_push {Told : Type} (tell : Event → Option Told) (events : Array Event)
    (event : Event) :
    (events.push event).toList.filterMap tell =
      events.toList.filterMap tell ++ (tell event).toList := by
  cases told : tell event <;> simp [told]

theorem filterMap_push_of_none {Told : Type} {tell : Event → Option Told} {events : Array Event}
    {event : Event} (silent : tell event = none) :
    (events.push event).toList.filterMap tell = events.toList.filterMap tell := by
  rw [filterMap_push, silent, Option.toList_none, List.append_nil]

theorem Chronicled.of_same (chronicled : before.Chronicled)
    (tree : after.context.tree = before.context.tree)
    (current : after.context.current = before.context.current)
    (savings : after.savings = before.savings) : after.Chronicled := by
  unfold Chronicled at *
  rw [tree, current, savings]
  exact chronicled

theorem Changes.winners_eq (changes : Changes may sets before after) :
    after.winners = before.winners := by
  refine changes.keep (fun session => session.winners = before.winners) ?_ rfl
  intro session next change same
  rw [← same]
  cases change <;> simp [winners, Event.matched?]

theorem Change.savings_cases (change : Change may sets before after) :
    (after.savings = before.savings ∧ after.context.lastSave = before.context.lastSave) ∨
      ∃ found, may found ∧ before.context.lastSave ≠ some found ∧
        after.savings = before.savings ++ [found] ∧ after.context.lastSave = some found := by
  cases change with
  | save found allowed fresh =>
      right
      exact ⟨found, allowed, fresh, filterMap_push _ _ _, rfl⟩
  | _ =>
      left
      simp [savings, Event.saved?]

theorem Changes.nothing_saved (changes : Changes (fun _ => False) sets before after) :
    after.savings = before.savings ∧ after.context.lastSave = before.context.lastSave := by
  refine changes.keep (fun session => session.savings = before.savings ∧
    session.context.lastSave = before.context.lastSave) ?_ ⟨rfl, rfl⟩
  intro session next change same
  rcases change.savings_cases with ⟨savings, lastSave⟩ | ⟨_, never, _⟩
  · exact ⟨savings.trans same.1, lastSave.trans same.2⟩
  · exact never.elim

/-- A match that has not been saved last before, but has after, was saved once, if
no other match may be saved. -/
theorem Changes.saved_once {found : Match} (changes : Changes (· = found) sets before after)
    (fresh : before.context.lastSave ≠ some found)
    (last : after.context.lastSave = some found) : after.savings = before.savings ++ [found] := by
  have either : after.savings = before.savings ∧
        after.context.lastSave = before.context.lastSave ∨
      after.savings = before.savings ++ [found] ∧ after.context.lastSave = some found := by
    refine changes.keep (fun session => session.savings = before.savings ∧
        session.context.lastSave = before.context.lastSave ∨
      session.savings = before.savings ++ [found] ∧ session.context.lastSave = some found) ?_
      (.inl ⟨rfl, rfl⟩)
    intro session next change held
    rcases change.savings_cases with ⟨savings, lastSave⟩ | ⟨_, rfl, new, savings, lastSave⟩
    · rwa [savings, lastSave]
    · rcases held with ⟨same, _⟩ | ⟨_, saved⟩
      · exact .inr ⟨savings.trans (congrArg (· ++ _) same), lastSave⟩
      · exact absurd saved new
  rcases either with ⟨_, same⟩ | ⟨saved, _⟩
  · exact absurd (same.symm.trans last) fresh
  · exact saved

theorem Change.chronicled (change : Change may sets before after) (chronicled : before.Chronicled) :
    after.Chronicled := by
  unfold Chronicled savings at *
  cases change with
  | notes notes => exact chronicled
  | save found _ _ =>
      rw [filterMap_push]
      exact chronicled.save found
  | openScope scope depth _ =>
      rw [filterMap_push_of_none rfl]
      exact chronicled.addChild scope
  | closeScope =>
      rw [filterMap_push_of_none rfl]
      exact chronicled.close
  | swapScope scope _ =>
      rw [filterMap_push_of_none rfl]
      exact chronicled.update (fun _ => by rfl) (fun _ => by rfl) before.context.current
  | setVariable id name value =>
      exact chronicled.update (fun _ => by rfl) (fun _ => by rfl) id
  | setStrict scope strict _ => exact chronicled

theorem Changes.chronicled (changes : Changes may sets before after)
    (chronicled : before.Chronicled) : after.Chronicled :=
  changes.keep Chronicled (fun _ _ change => change.chronicled) chronicled

end Session

end LineGrammar
