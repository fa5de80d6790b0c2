import LineGrammar.Proofs.Expr.Placement

/-!
Repetitions. A round is an item, with the separator before it unless it is the
first. Each round begins where the one before has ended, and the rounds go on
until there are as many as the upper bound allows, one of them has no width, or
the separator or the item is refused. So there is only one way for them to go,
and it cannot be long: every round but the last consumes a byte. Whether the
repetition matches depends on nothing but the number of rounds.
-/

namespace LineGrammar

namespace Cursor.LeadsTo

variable {before after : Cursor}

theorem eq_of_position (leads : before.LeadsTo after) (same : after.position = before.position) :
    after = before := by
  have buffer := leads.buffer
  cases before
  cases after
  cases same
  cases buffer
  rfl

theorem column_lt (leads : before.LeadsTo after) (moved : after.position ≠ before.position) :
    before.position.column < after.position.column := by
  apply Nat.lt_of_le_of_ne leads.column
  intro column
  apply moved
  have line := leads.line
  cases same : before.position
  cases same' : after.position
  rw [same, same'] at line column
  cases line
  cases column
  rfl

theorem rest_lt (leads : before.LeadsTo after) (valid : before.Valid)
    (moved : after.position ≠ before.position) : after.rest.length < before.rest.length := by
  have boundary := leads.valid.boundary
  rw [leads.text] at boundary
  unfold Cursor.rest
  rw [leads.text]
  exact valid.boundary.length_dropBytes_lt boundary (leads.column_lt moved)

end Cursor.LeadsTo

namespace Attempt

/-- Whether an item that comes after `count` others is to be tried at `place`. -/
def Parted : Option Attempt → Nat → Cursor → Cursor → Prop
  | none, _, before, place => place = before
  | some _, 0, before, place => place = before
  | some attempt, _ + 1, before, place =>
      (∃ found, (attempt before).result = .ok found) ∧ place = (attempt before).cursor

def Round (item : Attempt) (separator : Option Attempt) (count : Nat) (before : Cursor)
    (found : Match) (after : Cursor) : Prop :=
  ∃ place, Parted separator count before place ∧
    (item place).result = .ok found ∧ after = (item place).cursor

/-- Rounds that come after `count` others, with the places where they end. -/
inductive Course (item : Attempt) (separator : Option Attempt) :
    Nat → Cursor → List Cursor → List Match → Cursor → Prop where
  | done (count : Nat) (cursor : Cursor) : Course item separator count cursor [] [] cursor
  | round {count : Nat} {before place after : Cursor} {found : Match} {places : List Cursor}
      {children : List Match} (first : Round item separator count before found place)
      (later : Course item separator (count + 1) place places children after) :
      Course item separator count before (place :: places) (found :: children) after

/-- Rounds of which all but the last move on, and after which there can be no
other. -/
structure Exhausted (item : Attempt) (separator : Option Attempt) (upper : Option Nat)
    (count : Nat) (cursor : Cursor) (places : List Cursor) (children : List Match)
    (after : Cursor) : Prop where
  course : Course item separator count cursor places children after
  bounded : ∀ most, upper = some most → count + children.length ≤ most
  onward : (cursor :: places).dropLast.IsChain fun before after => before.position < after.position
  stopped : upper = some (count + children.length) ∨ [after, after] <:+ cursor :: places ∨
    ∀ found place, ¬Round item separator (count + children.length) after found place

variable {item : Attempt} {separator : Option Attempt} {upper : Option Nat} {count : Nat}
  {cursor before place place' after after' : Cursor} {found found' : Match}
  {places places' : List Cursor} {children children' : List Match}

theorem Parted.unique (parted : Parted separator count before place)
    (parted' : Parted separator count before place') : place' = place := by
  cases separator with
  | none => exact Eq.trans parted' parted.symm
  | some attempt =>
      cases count with
      | zero => exact Eq.trans parted' parted.symm
      | succ count => exact parted'.2.trans parted.2.symm

theorem Parted.leads (sound : ∀ attempt, separator = some attempt → attempt.Sound)
    (valid : before.Valid) (parted : Parted separator count before place) :
    before.LeadsTo place := by
  cases separator with
  | none =>
      cases parted
      exact valid.leadsTo_self
  | some attempt =>
      cases count with
      | zero =>
          cases parted
          exact valid.leadsTo_self
      | succ count =>
          rcases parted with ⟨⟨found, outcome⟩, rfl⟩
          exact ((sound attempt rfl).covers valid outcome).leads

theorem Round.unique (round : Round item separator count before found after)
    (round' : Round item separator count before found' after') :
    found' = found ∧ after' = after := by
  rcases round with ⟨place, parted, outcome, rfl⟩
  rcases round' with ⟨place', parted', outcome', rfl⟩
  cases parted.unique parted'
  exact ⟨Except.ok.inj (outcome'.symm.trans outcome), rfl⟩

theorem Round.leads (sound : item.Sound)
    (soundSeparator : ∀ attempt, separator = some attempt → attempt.Sound) (valid : before.Valid)
    (round : Round item separator count before found after) : before.LeadsTo after := by
  rcases round with ⟨place, parted, outcome, rfl⟩
  have reached := parted.leads soundSeparator valid
  exact reached.trans (sound.covers reached.valid outcome).leads

theorem Course.length_places (course : Course item separator count cursor places children after) :
    places.length = children.length := by
  induction course with
  | done => rfl
  | round _ _ induction => rw [List.length_cons, List.length_cons, induction]

theorem Course.leads (sound : item.Sound)
    (soundSeparator : ∀ attempt, separator = some attempt → attempt.Sound) (valid : cursor.Valid)
    (course : Course item separator count cursor places children after) :
    (cursor :: places).IsChain Cursor.LeadsTo ∧ cursor.LeadsTo after := by
  induction course with
  | done => exact ⟨.singleton _, valid.leadsTo_self⟩
  | round first _ induction =>
      have moves := first.leads sound soundSeparator valid
      have later := induction moves.valid
      exact ⟨.cons_cons moves later.1, moves.trans later.2⟩

/-- Every round but the last consumes a byte, so there are not many of them. -/
theorem Course.length_le (sound : item.Sound)
    (soundSeparator : ∀ attempt, separator = some attempt → attempt.Sound) (valid : cursor.Valid)
    (course : Course item separator count cursor places children after)
    (onward : (cursor :: places).dropLast.IsChain
      fun before after => before.position < after.position) :
    cursor.position.column + children.length ≤ after.position.column + 1 := by
  induction course with
  | done => exact Nat.le_succ _
  | @round _ before place _ _ _ _ first later induction =>
      have moves := first.leads sound soundSeparator valid
      cases later with
      | done =>
          have column := moves.column
          simp only [List.length_cons, List.length_nil]
          omega
      | round second rest =>
          rw [List.dropLast_cons_cons, List.dropLast_cons_cons, List.isChain_cons_cons] at onward
          have column : before.position.column < place.position.column := by
            rcases onward.1 with line | ⟨_, column⟩
            · exact absurd moves.line (Nat.ne_of_gt line)
            · exact column
          have rest := induction moves.valid (by rw [List.dropLast_cons_cons]; exact onward.2)
          rw [List.length_cons]
          omega

theorem exhausted_nil (room : ∀ most, upper = some most → count ≤ most)
    (stopped : upper = some count ∨ ∀ found place, ¬Round item separator count cursor found place) :
    Exhausted item separator upper count cursor [] [] cursor where
  course := .done count cursor
  bounded := room
  onward := .nil
  stopped := stopped.imp_right .inr

theorem exhausted_still (room : ∀ most, upper = some most → count + 1 ≤ most)
    (round : Round item separator count cursor found cursor) :
    Exhausted item separator upper count cursor [cursor] [found] cursor where
  course := .round round (.done _ _)
  bounded := room
  onward := .singleton _
  stopped := .inr (.inl (List.suffix_refl _))

theorem exhausted_cons (round : Round item separator count cursor found place)
    (moves : cursor.position < place.position)
    (later : Exhausted item separator upper (count + 1) place places children after) :
    Exhausted item separator upper count cursor (place :: places) (found :: children) after := by
  have total : count + (found :: children).length = count + 1 + children.length := by
    rw [List.length_cons]
    omega
  constructor
  · exact .round round later.course
  · rw [total]
    exact later.bounded
  · rw [List.dropLast_cons_cons]
    have rest := later.onward
    cases places with
    | nil => exact .singleton _
    | cons next places =>
        rw [List.dropLast_cons_cons] at rest ⊢
        exact .cons_cons moves rest
  · rw [total]
    rcases later.stopped with full | still | refused
    · exact .inl full
    · exact .inr (.inl (still.trans (List.suffix_cons _ _)))
    · exact .inr (.inr refused)

theorem Exhausted.tail
    (exhausted : Exhausted item separator upper count cursor (place :: places) (found :: children)
      after)
    (later : Course item separator (count + 1) place places children after)
    (moves : cursor ≠ place) :
    Exhausted item separator upper (count + 1) place places children after := by
  have total : count + (found :: children).length = count + 1 + children.length := by
    rw [List.length_cons]
    omega
  have bounded := exhausted.bounded
  have onward := exhausted.onward
  have stopped := exhausted.stopped
  rw [total] at bounded stopped
  refine ⟨later, bounded, ?_, stopped.imp_right (Or.imp_left ?_)⟩
  · rw [List.dropLast_cons_cons] at onward
    exact onward.of_cons
  · intro still
    rcases List.suffix_cons_iff.mp still with whole | rest
    · simp only [List.cons.injEq] at whole
      exact absurd (whole.1.symm.trans whole.2.1) moves
    · exact rest

theorem Exhausted.nil_of_nil
    (exhausted : Exhausted item separator upper count cursor [] [] cursor)
    (other : Exhausted item separator upper count cursor places children after) : places = [] := by
  cases places with
  | nil => rfl
  | cons place places =>
      cases other.course with
      | round first later =>
          rcases exhausted.stopped with full | still | refused
          · have most := other.bounded _ full
            simp only [List.length_cons, List.length_nil] at most
            omega
          · exact absurd still.length_le (by simp)
          · exact absurd first (refused _ _)

theorem Exhausted.nil_of_still
    (exhausted : Exhausted item separator upper count cursor (cursor :: places) children after) :
    places = [] := by
  cases places with
  | nil => rfl
  | cons place places =>
      have onward := exhausted.onward
      rw [List.dropLast_cons_cons, List.dropLast_cons_cons, List.isChain_cons_cons] at onward
      exact absurd onward.1 (Position.not_lt_self _)

theorem Exhausted.unique
    (exhausted : Exhausted item separator upper count cursor places children after)
    (exhausted' : Exhausted item separator upper count cursor places' children' after') :
    places' = places ∧ children' = children ∧ after' = after := by
  induction places generalizing count cursor children places' children' with
  | nil =>
      cases exhausted.course
      cases exhausted.nil_of_nil exhausted'
      cases exhausted'.course
      exact ⟨rfl, rfl, rfl⟩
  | cons place places induction =>
      cases places' with
      | nil =>
          cases exhausted'.course
          cases exhausted'.nil_of_nil exhausted
      | cons place' places' =>
          cases course : exhausted.course with
          | round first later =>
              cases course' : exhausted'.course with
              | round first' later' =>
                  rcases first.unique first' with ⟨rfl, rfl⟩
                  by_cases still : cursor = place'
                  · subst still
                    cases exhausted.nil_of_still
                    cases exhausted'.nil_of_still
                    cases later
                    cases later'
                    exact ⟨rfl, rfl, rfl⟩
                  · have rest := induction (exhausted.tail later still)
                      (exhausted'.tail later' still)
                    rcases rest with ⟨rfl, rfl, rfl⟩
                    exact ⟨rfl, rfl, rfl⟩

theorem separate_parted (sound : ∀ attempt, separator = some attempt → attempt.Sound)
    (count : Nat) (valid : cursor.Valid) :
    (separate separator count cursor).Ends
      (fun _ place => Parted separator count cursor place)
      (fun error place => error.isRecoverable = true ∧ place = cursor ∧
        ∀ place, ¬Parted separator count cursor place) := by
  cases separator with
  | none => exact Eq.refl cursor
  | some attempt =>
      cases count with
      | zero => exact Eq.refl cursor
      | succ count =>
          simp only [separate, Nat.add_eq_zero_iff, Nat.one_ne_zero, and_false, if_false]
          apply Trial.Ends.map
          cases outcome : (attempt cursor).result with
          | ok found => exact Trial.ends_of_ok outcome ⟨⟨found, outcome⟩, rfl⟩
          | error error =>
              have refused := (sound attempt rfl).refuses valid outcome
              apply Trial.ends_of_error outcome
              refine ⟨refused.1, refused.2, ?_⟩
              rintro place ⟨⟨found, given⟩, _⟩
              rw [outcome] at given
              cases given

/-- The loop of a repetition goes through rounds until they are exhausted. Every
round that does not end the loop leaves fewer characters in the line, so that
`limit` does not end it. -/
theorem rounds_exhausted (sound : item.Sound)
    (soundSeparator : ∀ attempt, separator = some attempt → attempt.Sound) (start : Position)
    {limit : Nat} (valid : cursor.Valid) (enough : cursor.rest.length < limit)
    (room : ∀ most, upper = some most → count ≤ most) :
    (rounds start item separator upper limit count cursor).Ends
      (fun children after => ∃ places,
        Exhausted item separator upper count cursor places children after)
      (fun _ _ => False) := by
  induction limit generalizing count cursor with
  | zero => exact absurd enough (Nat.not_lt_zero _)
  | succ limit induction =>
      have lead := separate_parted soundSeparator count valid
      simp only [rounds]
      split
      · rename_i full
        cases upper with
        | none => cases full
        | some most =>
            have last := Nat.le_antisymm (of_decide_eq_true full) (room most rfl)
            exact ⟨[], exhausted_nil room (.inl (congrArg some last))⟩
      · rename_i notFull
        have more : ∀ most, upper = some most → count + 1 ≤ most := by
          intro most given
          rw [given] at notFull
          exact Nat.lt_of_not_le fun reached => notFull (decide_eq_true reached)
        split
        · rename_i error outcome
          rcases lead.of_error outcome with ⟨recoverable, back, refused⟩
          rw [if_pos recoverable, back]
          refine ⟨[], exhausted_nil room (.inr ?_)⟩
          rintro found after ⟨place, parted, _⟩
          exact refused place parted
        · rename_i outcome
          have parted := lead.of_ok outcome
          have reached := parted.leads soundSeparator valid
          split
          · rename_i found matched
            have round : Round item separator count cursor found _ := ⟨_, parted, matched, rfl⟩
            have moves := round.leads sound soundSeparator valid
            split
            · rename_i still
              have same := moves.eq_of_position still
              rw [same] at round
              simp only [Trial.Ends, Trial.after, same]
              exact ⟨[cursor], exhausted_still more round⟩
            · rename_i onward
              have column := moves.column_lt onward
              have fewer : (item _).cursor.rest.length < limit :=
                Nat.lt_of_lt_of_le (moves.rest_lt valid onward) (Nat.le_of_lt_succ enough)
              have rest := induction moves.valid fewer more
              refine ((rest.imp ?_ ?_).map).after _
              · rintro children after ⟨places, exhausted⟩
                exact ⟨_ :: places, exhausted_cons round (.inr ⟨moves.line.symm, column⟩) exhausted⟩
              · intro error after impossible
                exact impossible
          · rename_i error refused
            rcases sound.refuses reached.valid refused with ⟨recoverable, back⟩
            rw [if_pos recoverable]
            -- The item gives back only itself; the separator is given back by the jump
            -- to where the round began.
            have restored : (item (separate separator count cursor).cursor).cursor.moveTo
                cursor.position = cursor := by
              rw [back]
              exact valid.moveTo_eq reached.buffer
            simp only [Trial.Ends, Trial.after, restored]
            refine ⟨[], exhausted_nil room (.inr ?_)⟩
            rintro found after ⟨place, parted', given, _⟩
            cases parted.unique parted'
            cases given.symm.trans refused

theorem repetition_exhausted (sound : item.Sound)
    (soundSeparator : ∀ attempt, separator = some attempt → attempt.Sound)
    (multiplicity : Multiplicity) (valid : cursor.Valid) :
    ∃ places children after,
      Exhausted item separator multiplicity.upperBound 0 cursor places children after ∧
      (repetition multiplicity item separator cursor).Ends
        (fun found stop => multiplicity.accepts children.length = true ∧
          found.children = children ∧ stop = after)
        (fun _ _ => multiplicity.accepts children.length = false) := by
  have loop := @rounds_exhausted item separator multiplicity.upperBound 0 cursor sound
    soundSeparator cursor.position _ valid (Nat.lt_succ_self cursor.rest.length)
    (fun most _ => Nat.zero_le most)
  cases outcome : (rounds cursor.position item separator multiplicity.upperBound
      (cursor.rest.length + 1) 0 cursor).result with
  | error error => exact (loop.of_error outcome).elim
  | ok children =>
      rcases loop.of_ok outcome with ⟨places, exhausted⟩
      refine ⟨places, children, _, exhausted, ?_⟩
      simp only [repetition, Trial.after, outcome]
      split
      · rename_i accepted
        exact compose_ends (Trial.ends_of_ok rfl ⟨accepted, rfl, rfl⟩)
      · rename_i refused
        exact Bool.eq_false_iff.mpr refused

end Attempt

namespace Expr

/-- A repetition goes through rounds in the one way there is: each begins where
the one before has ended, with the separator if it is not the first; all but the
last move on; and they stop only at the upper bound, after a round without
width, or where the separator or the item is refused. It matches exactly if the
multiplicity accepts the number of rounds. Its children are then the matches of
the items, and the cursor stands where the last round has ended. -/
theorem repetition_goes_on_while_it_moves (name : Option String) (item : Expr)
    (multiplicity : Multiplicity) (separator : Option Expr) (cursor : Cursor)
    (valid : cursor.Valid) :
    let trial := (Expr.repetition name item multiplicity separator).attempt cursor
    ∃ places children after,
      Attempt.Exhausted item.attempt (attempt? separator) multiplicity.upperBound 0 cursor places
        children after ∧
      (∀ places' children' after',
        Attempt.Exhausted item.attempt (attempt? separator) multiplicity.upperBound 0 cursor
          places' children' after' →
          places' = places ∧ children' = children ∧ after' = after) ∧
      places.length = children.length ∧ (cursor :: places).IsChain Cursor.LeadsTo ∧
      after.position.line = cursor.position.line ∧
      children.length ≤ 1 + (after.position.column - cursor.position.column) ∧
      ((∃ found, trial.result = .ok found) ↔ multiplicity.accepts children.length = true) ∧
      ∀ found, trial.result = .ok found → found.children = children ∧ trial.cursor = after := by
  intro trial
  have sound := item.attempt_sound
  have soundSeparator := attempt?_sound separator
  rcases Attempt.repetition_exhausted sound soundSeparator multiplicity valid with
    ⟨places, children, after, exhausted, loop⟩
  have ends : trial.Ends
      (fun found stop => multiplicity.accepts children.length = true ∧
        found.children = children ∧ stop = after)
      (fun _ _ => multiplicity.accepts children.length = false) := by
    simp only [trial, attempt]
    apply Trial.Ends.map
    apply loop.imp
    · intro found stop matched
      rwa [Match.children_withTag]
    · intro error stop refused
      exact refused
  have leads := exhausted.course.leads sound soundSeparator valid
  have few := exhausted.course.length_le sound soundSeparator valid exhausted.onward
  refine ⟨places, children, after, exhausted, ?_, exhausted.course.length_places, leads.1,
    leads.2.line, by omega, ?_, ?_⟩
  · intro places' children' after' exhausted'
    exact exhausted.unique exhausted'
  · constructor
    · rintro ⟨found, matched⟩
      exact (ends.of_ok matched).1
    · intro accepted
      cases outcome : trial.result with
      | ok found => exact ⟨found, rfl⟩
      | error error => exact nomatch accepted.symm.trans (ends.of_error outcome)
  · intro found matched
    exact (ends.of_ok matched).2

/-- A round whose item has no width moves on all the same if its separator does;
the number of rounds is odd, as it should be. -/
theorem empty_item_between_commas_counts :
    let cursor : Cursor := ⟨.ofLines ["é1,,2;"], ⟨0, 2⟩⟩
    let item := Expr.leaf none "[0-9]?" (Regex.compile? "[0-9]?" false)
    let separator := Expr.leaf none "," (Regex.compile? "," false)
    let odd : Multiplicity := ⟨.every 1 2, false⟩
    let found := Match.composite ⟨⟨0, 2⟩, ⟨0, 6⟩, none, "1,,2"⟩ .repetition
      [.leaf ⟨⟨0, 2⟩, ⟨0, 3⟩, none, "1"⟩ "[0-9]?" [], .leaf ⟨⟨0, 4⟩, ⟨0, 4⟩, none, ""⟩ "[0-9]?" [],
        .leaf ⟨⟨0, 5⟩, ⟨0, 6⟩, none, "2"⟩ "[0-9]?" []]
    cursor.Valid ∧
      ((Expr.repetition none item odd (some separator)).attempt cursor).result = .ok found ∧
      ∃ places after,
        Attempt.Exhausted item.attempt (some separator.attempt) none 0 cursor places found.children
          after ∧ places.length = 3 := by
  intro cursor item separator odd found
  have valid : cursor.Valid := by decide
  have outcome :
      ((Expr.repetition none item odd (some separator)).attempt cursor).result = .ok found := by
    decide +kernel
  rcases repetition_goes_on_while_it_moves none item odd (some separator) cursor valid with
    ⟨places, children, after, exhausted, _, count, _, _, _, _, matched⟩
  have same := (matched found outcome).1
  rw [← same] at exhausted count
  exact ⟨valid, outcome, places, after, exhausted, count⟩

end Expr

end LineGrammar
