import LineGrammar.Expr.Trial
import LineGrammar.Proofs.Match.Nodes

/-!
The contract of an attempt. At a valid cursor an attempt either refuses, says
so in its own name and leaves the cursor alone, or it matches from there on
within the line, and its match tells the text it has passed over. Every
combination of attempts that keep the contract keeps it too; the loops inside
the combinations never come to an error that is more than a refusal.
-/

namespace LineGrammar

/-- What holds at the end of a trial, whether it succeeds or fails. -/
def Trial.Ends {Result : Type} (trial : Trial Result) (accepted : Result → Cursor → Prop)
    (refused : Error → Cursor → Prop) : Prop :=
  match trial.result with
  | .ok value => accepted value trial.cursor
  | .error error => refused error trial.cursor

namespace Trial

variable {Result Other : Type} {trial : Trial Result} {accepted : Result → Cursor → Prop}
  {refused : Error → Cursor → Prop}

theorem Ends.of_ok (ends : trial.Ends accepted refused) {value : Result}
    (outcome : trial.result = .ok value) : accepted value trial.cursor := by
  unfold Ends at ends
  rwa [outcome] at ends

theorem Ends.of_error (ends : trial.Ends accepted refused) {error : Error}
    (outcome : trial.result = .error error) : refused error trial.cursor := by
  unfold Ends at ends
  rwa [outcome] at ends

theorem ends_of_ok {value : Result} (outcome : trial.result = .ok value)
    (holds : accepted value trial.cursor) : trial.Ends accepted refused := by
  unfold Ends
  rwa [outcome]

theorem ends_of_error {error : Error} (outcome : trial.result = .error error)
    (holds : refused error trial.cursor) : trial.Ends accepted refused := by
  unfold Ends
  rwa [outcome]

theorem Ends.imp {accepted' : Result → Cursor → Prop} {refused' : Error → Cursor → Prop}
    (ends : trial.Ends accepted refused)
    (ok : ∀ value cursor, accepted value cursor → accepted' value cursor)
    (error : ∀ cause cursor, refused cause cursor → refused' cause cursor) :
    trial.Ends accepted' refused' := by
  unfold Ends at *
  split at ends
  · exact ok _ _ ends
  · exact error _ _ ends

theorem Ends.after (ends : trial.Ends accepted refused) (notes : List Note) :
    (trial.after notes).Ends accepted refused := ends

theorem Ends.map {accepted : Other → Cursor → Prop} {change : Result → Other}
    (ends : trial.Ends (fun value cursor => accepted (change value) cursor) refused) :
    (trial.map change).Ends accepted refused := by
  cases outcome : trial.result with
  | ok value =>
      refine ends_of_ok ?_ (ends.of_ok outcome)
      simp [Trial.map, outcome, Except.map]
  | error error =>
      refine ends_of_error ?_ (ends.of_error outcome)
      simp [Trial.map, outcome, Except.map]

end Trial

/-- What holds of every node of a match tree by itself: it tells the text of its
span, and its children come in order inside the span. -/
structure Match.Placed (buffer : Buffer) (found : Match) : Prop where
  text : found.text = buffer.between found.start found.stop
  forward : found.start ≤ found.stop
  ordered : Match.Ordered found.start found.stop found.children

/-- What holds when something has matched between two cursors. -/
structure Match.Covers (before after : Cursor) (found : Match) : Prop where
  leads : before.LeadsTo after
  start : found.start = before.position
  stop : found.stop = after.position
  placed : found.Placed before.buffer

namespace Attempt

/-- Whether a match is what one of the attempts gives at a valid cursor. -/
def Made (attempts : List Attempt) (buffer : Buffer) (found : Match) : Prop :=
  ∃ attempt ∈ attempts, ∃ place : Cursor,
    place.Valid ∧ place.buffer = buffer ∧ (attempt place).result = .ok found

/-- What holds of the matches that a loop over attempts has gathered between
two cursors. If `tight`, nothing lies between one match and the next. -/
structure Gathered (tight : Prop) (attempts : List Attempt) (before after : Cursor)
    (children : List Match) : Prop where
  leads : before.LeadsTo after
  ordered : Match.Ordered before.position after.position children
  tiles : tight → Match.Tiles before.position after.position children
  made : ∀ child ∈ children, Made attempts before.buffer child

/-- The contract of an attempt that reports failures as `matcher` and whose
matches have children that `parts` made. -/
def Lawful (matcher : Matcher) (tight : Prop) (parts : List Attempt) (attempt : Attempt) : Prop :=
  ∀ cursor : Cursor, cursor.Valid →
    (attempt cursor).Ends
      (fun found after =>
        found.Covers cursor after ∧ Gathered tight parts cursor after found.children)
      (fun error after => error = .noMatch matcher cursor.position ∧ after = cursor)

def Sound (attempt : Attempt) : Prop := ∃ matcher tight parts, attempt.Lawful matcher tight parts

theorem Sound.refuses {attempt : Attempt} (sound : attempt.Sound) {cursor : Cursor}
    (valid : cursor.Valid) {error : Error} (outcome : (attempt cursor).result = .error error) :
    error.isRecoverable = true ∧ (attempt cursor).cursor = cursor := by
  rcases sound with ⟨matcher, tight, parts, lawful⟩
  rcases (lawful cursor valid).of_error outcome with ⟨rfl, back⟩
  exact ⟨rfl, back⟩

theorem Sound.covers {attempt : Attempt} (sound : attempt.Sound) {cursor : Cursor}
    (valid : cursor.Valid) {found : Match} (outcome : (attempt cursor).result = .ok found) :
    found.Covers cursor (attempt cursor).cursor := by
  rcases sound with ⟨matcher, tight, parts, lawful⟩
  exact ((lawful cursor valid).of_ok outcome).1

theorem gathered_nil {tight : Prop} {attempts : List Attempt} {cursor : Cursor}
    (valid : cursor.Valid) : Gathered tight attempts cursor cursor [] where
  leads := valid.leadsTo_self
  ordered := Position.le_rfl
  tiles := fun _ => rfl
  made := by simp

theorem gathered_cons {tight : Prop} {attempts : List Attempt} {attempt : Attempt}
    {before place after : Cursor} {found : Match} {later : List Match}
    (member : attempt ∈ attempts) (sound : attempt.Sound) (reached : before.LeadsTo place)
    (together : tight → place = before) (outcome : (attempt place).result = .ok found)
    (rest : Gathered tight attempts (attempt place).cursor after later) :
    Gathered tight attempts before after (found :: later) := by
  have covers := sound.covers reached.valid outcome
  refine ⟨reached.trans (covers.leads.trans rest.leads), ⟨?_, covers.placed.forward, ?_⟩, ?_, ?_⟩
  · rw [covers.start]
    exact reached.position_le
  · rw [covers.stop]
    exact rest.ordered
  · intro isTight
    refine ⟨?_, ?_⟩
    · rw [covers.start, together isTight]
    · rw [covers.stop]
      exact rest.tiles isTight
  · intro child isChild
    rcases List.mem_cons.mp isChild with rfl | isLater
    · exact ⟨attempt, member, place, reached.valid, reached.buffer, outcome⟩
    · have made := rest.made child isLater
      rwa [covers.leads.buffer, reached.buffer] at made

theorem Gathered.of_subset {tight : Prop} {attempts more : List Attempt} {before after : Cursor}
    {children : List Match} (gathered : Gathered tight attempts before after children)
    (subset : ∀ attempt ∈ attempts, attempt ∈ more) :
    Gathered tight more before after children where
  leads := gathered.leads
  ordered := gathered.ordered
  tiles := gathered.tiles
  made := by
    intro child isChild
    rcases gathered.made child isChild with ⟨attempt, member, made⟩
    exact ⟨attempt, subset attempt member, made⟩

theorem Gathered.covers {tight : Prop} {attempts : List Attempt} {before after : Cursor}
    {children : List Match} (gathered : Gathered tight attempts before after children)
    (origin : Origin) :
    Match.Covers before after
      (.composite ⟨before.position, after.position, none, after.textFrom before.position⟩ origin
        children) where
  leads := gathered.leads
  start := rfl
  stop := rfl
  placed :=
    { text := by
        unfold Cursor.textFrom
        rw [gathered.leads.buffer]
        rfl
      forward := gathered.leads.position_le
      ordered := gathered.ordered }

theorem leaf_lawful (source : String) (regex : Option Regex) :
    (leaf source regex).Lawful .leaf False [] := by
  intro cursor valid
  cases found : leafText regex cursor with
  | none =>
      simp [Trial.Ends, leaf, found]
  | some pair =>
      rcases pair with ⟨text, groups⟩
      -- either way the text is taken from what follows the cursor
      have taken : ∃ later, cursor.rest = text ++ later := by
        cases regex with
        | none =>
            simp only [leafText, Option.some.injEq, Prod.mk.injEq] at found
            exact ⟨cursor.rest, by rw [← found.1, List.nil_append]⟩
        | some regex =>
            rcases Option.map_eq_some_iff.mp found with ⟨captures, matched, same⟩
            rcases valid.matchRegex_span matched with ⟨start, consumed, later, split, stop⟩
            have slice := valid.boundary.sliceBytes_add split
            rw [← start] at stop slice
            rw [← stop] at slice
            have equal : Text.sliceBytes captures.start captures.stop cursor.text = text :=
              congrArg Prod.fst same
            exact ⟨later, by rw [split, ← equal, slice]⟩
      rcases taken with ⟨later, split⟩
      have leads := valid.leadsTo_skipBytes split
      simp only [Trial.Ends, leaf, found]
      have slice := valid.boundary.sliceBytes_add split
      have between := leads.between_eq valid
      rw [valid.skipBytes_eq split] at between
      refine ⟨⟨leads, rfl, rfl, ⟨?_, leads.position_le, leads.position_le⟩⟩, ?_⟩
      · rw [valid.skipBytes_eq split]
        exact (between.trans (congrArg String.ofList slice)).symm
      · exact ⟨leads, leads.position_le, False.elim, by simp [Match.children]⟩

/-- The items of a sequence lie end to end, and if an item is refused that may
not be left out, the cursor is brought back to where the sequence began. -/
theorem items_ends {attempts : List Attempt} (sound : ∀ attempt ∈ attempts, attempt.Sound)
    (skips : SkipPolicy) (budget index skipped : Nat) {first cursor : Cursor}
    (begun : first.Valid) (valid : cursor.Valid) (buffer : cursor.buffer = first.buffer) :
    (items first.position skips budget index skipped attempts cursor).Ends
      (fun children after => Gathered True attempts cursor after children)
      (fun error after => error = .noMatch .sequence first.position ∧ after = first) := by
  induction attempts generalizing index skipped cursor with
  | nil => exact gathered_nil valid
  | cons item later induction =>
      have soundItem := sound item (by simp)
      have soundLater : ∀ attempt ∈ later, attempt.Sound := by
        intro attempt member
        exact sound attempt (by simp [member])
      have wider : ∀ attempt ∈ later, attempt ∈ item :: later := by
        intro attempt member
        exact List.mem_cons_of_mem item member
      cases outcome : (item cursor).result with
      | ok found =>
          have covers := soundItem.covers valid outcome
          have rest := induction soundLater (index + 1) skipped covers.leads.valid
            (covers.leads.buffer.trans buffer)
          simp only [items, outcome]
          refine ((rest.imp ?_ ?_).map).after _
          · intro children after gathered
            exact gathered_cons (by simp) soundItem valid.leadsTo_self (fun _ => rfl) outcome
              (gathered.of_subset wider)
          · intro error after refused
            exact refused
      | error error =>
          rcases soundItem.refuses valid outcome with ⟨recoverable, back⟩
          simp only [items, outcome]
          split
          · have rest := induction soundLater (index + 1) (skipped + 1) valid buffer
            rw [back]
            refine (rest.imp ?_ ?_).after _
            · intro children after gathered
              exact gathered.of_subset wider
            · intro error after refused
              exact refused
          · rw [back]
            exact ⟨rfl, begun.moveTo_eq buffer⟩

theorem compose_ends {trial : Trial (List Match)} {start : Position} {origin : Origin}
    {accepted : Match → Cursor → Prop} {refused : Error → Cursor → Prop}
    (ends : trial.Ends
      (fun children after => accepted
        (.composite ⟨start, after.position, none, after.textFrom start⟩ origin children) after)
      refused) :
    (compose start origin trial).Ends accepted refused := by
  unfold compose
  refine Trial.Ends.map ?_
  unfold Trial.Ends at *
  exact ends

theorem sequence_lawful {attempts : List Attempt} (sound : ∀ attempt ∈ attempts, attempt.Sound)
    (skips : SkipPolicy) : (sequence skips attempts).Lawful .sequence True attempts := by
  intro cursor valid
  have loop := items_ends sound skips (skips.budget attempts.length) 0 0 valid valid rfl
  refine (compose_ends (loop.imp ?_ ?_)).after _
  · intro children after gathered
    exact ⟨gathered.covers .sequence, gathered⟩
  · intro error after refused
    exact refused

/-- Looking for a member comes to one that matches where the search began, or
finds none and has not moved; it never fails. -/
theorem firstMember_ends {attempts : List Attempt}
    (sound : ∀ attempt ∈ attempts, attempt.Sound) {cursor : Cursor} (valid : cursor.Valid) :
    (firstMember attempts cursor).Ends
      (fun answer after =>
        match answer with
        | none => after = cursor
        | some (found, others) =>
            (∃ member ∈ attempts, (member cursor).result = .ok found ∧
              after = (member cursor).cursor) ∧
              ∀ other ∈ others, other ∈ attempts)
      (fun _ _ => False) := by
  induction attempts with
  | nil => rfl
  | cons member later induction =>
      have soundLater : ∀ attempt ∈ later, attempt.Sound := by
        intro attempt isLater
        exact sound attempt (by simp [isLater])
      cases outcome : (member cursor).result with
      | ok found =>
          simp only [firstMember, outcome, Trial.Ends]
          refine ⟨⟨member, by simp, outcome, rfl⟩, ?_⟩
          intro other isLater
          exact List.mem_cons_of_mem member isLater
      | error error =>
          rcases (sound member (by simp)).refuses valid outcome with ⟨recoverable, back⟩
          simp only [firstMember, outcome, recoverable, if_true]
          rw [back]
          refine (((induction soundLater).imp ?_ ?_).map).after _
          · intro answer after holds
            cases answer with
            | none => exact holds
            | some pair =>
                rcases pair with ⟨found, others⟩
                rcases holds with ⟨⟨taken, isLater, given, moved⟩, remaining⟩
                refine ⟨⟨taken, List.mem_cons_of_mem member isLater, given, moved⟩, ?_⟩
                intro other isOther
                rcases List.mem_cons.mp isOther with rfl | isOther
                · exact List.mem_cons_self
                · exact List.mem_cons_of_mem member (remaining other isOther)
          · intro error after impossible
            exact impossible

theorem members_ends (limit : Nat) {attempts : List Attempt}
    (sound : ∀ attempt ∈ attempts, attempt.Sound) {cursor : Cursor} (valid : cursor.Valid) :
    (members limit attempts cursor).Ends
      (fun children after => Gathered True attempts cursor after children)
      (fun _ _ => False) := by
  induction limit generalizing attempts cursor with
  | zero => exact gathered_nil valid
  | succ limit induction =>
      have search := firstMember_ends sound valid
      cases outcome : (firstMember attempts cursor).result with
      | error error => exact (search.of_error outcome).elim
      | ok answer =>
          have holds := search.of_ok outcome
          cases answer with
          | none =>
              simp only [members, outcome, Trial.Ends]
              rw [show (firstMember attempts cursor).cursor = cursor from holds]
              exact gathered_nil valid
          | some pair =>
              rcases pair with ⟨found, others⟩
              rcases holds with ⟨⟨member, isMember, given, moved⟩, remaining⟩
              have soundOthers : ∀ attempt ∈ others, attempt.Sound := by
                intro attempt isOther
                exact sound attempt (remaining attempt isOther)
              have covers := (sound member isMember).covers valid given
              simp only [members, outcome, moved]
              refine (((induction soundOthers covers.leads.valid).imp ?_ ?_).map).after _
              · intro children after gathered
                exact gathered_cons isMember (sound member isMember) valid.leadsTo_self
                  (fun _ => rfl) given (gathered.of_subset remaining)
              · intro error after impossible
                exact impossible

theorem set_lawful {attempts : List Attempt} (sound : ∀ attempt ∈ attempts, attempt.Sound)
    (bounds : Bounds) : (set bounds attempts).Lawful .set True attempts := by
  intro cursor valid
  simp only [set]
  split
  · rename_i error outcome
    exact (((members_ends _ sound valid).after _).of_error outcome).elim
  · rename_i children outcome
    have gathered := ((members_ends _ sound valid).after _).of_ok outcome
    split
    · exact ⟨rfl, valid.moveTo_eq gathered.leads.buffer⟩
    · exact compose_ends (Trial.ends_of_ok outcome ⟨gathered.covers .set, gathered⟩)

/-- The separator before a round leads on within the line, or is refused. Where
there is none, or before the first round, nothing moves. -/
theorem separate_ends {separator : Option Attempt}
    (sound : ∀ attempt, separator = some attempt → attempt.Sound) (count : Nat) {cursor : Cursor}
    (valid : cursor.Valid) :
    (separate separator count cursor).Ends
      (fun _ after => cursor.LeadsTo after ∧ (separator = none → after = cursor))
      (fun error after => error.isRecoverable = true ∧ after = cursor) := by
  cases separator with
  | none => exact ⟨valid.leadsTo_self, fun _ => rfl⟩
  | some attempt =>
      simp only [separate]
      split
      · exact ⟨valid.leadsTo_self, fun _ => rfl⟩
      · refine Trial.Ends.map ?_
        cases outcome : (attempt cursor).result with
        | ok found =>
            have covers := (sound attempt rfl).covers valid outcome
            exact Trial.ends_of_ok outcome ⟨covers.leads, fun absent => nomatch absent⟩
        | error error =>
            exact Trial.ends_of_error outcome ((sound attempt rfl).refuses valid outcome)

/-- The rounds of a repetition come in order, and without a separator they lie
end to end. A round that is refused after its separator gives the separator
back; the loop never fails. -/
theorem rounds_ends {item : Attempt} (sound : item.Sound) {separator : Option Attempt}
    (soundSeparator : ∀ attempt, separator = some attempt → attempt.Sound) (start : Position)
    (upper : Option Nat) (limit count : Nat) {cursor : Cursor} (valid : cursor.Valid) :
    (rounds start item separator upper limit count cursor).Ends
      (fun children after => Gathered (separator = none) [item] cursor after children)
      (fun _ _ => False) := by
  induction limit generalizing count cursor with
  | zero => exact gathered_nil valid
  | succ limit induction =>
      simp only [rounds]
      split
      · exact gathered_nil valid
      · have lead := separate_ends soundSeparator count valid
        split
        · rename_i error outcome
          rcases lead.of_error outcome with ⟨recoverable, back⟩
          rw [if_pos recoverable, back]
          exact gathered_nil valid
        · rename_i outcome
          rcases lead.of_ok outcome with ⟨reached, together⟩
          split
          · rename_i found matched
            have covers := sound.covers reached.valid matched
            split
            · exact gathered_cons (by simp) sound reached together matched
                (gathered_nil covers.leads.valid)
            · refine (((induction (count + 1) covers.leads.valid).imp ?_ ?_).map).after _
              · intro children after gathered
                exact gathered_cons (by simp) sound reached together matched gathered
              · intro error after impossible
                exact impossible
          · rename_i error refused
            rcases sound.refuses reached.valid refused with ⟨recoverable, back⟩
            rw [if_pos recoverable]
            -- The item gives back only itself; the separator is given back by the jump
            -- to where the round began.
            have restored : (item (separate separator count cursor).cursor).cursor.moveTo
                cursor.position = cursor := by
              rw [back]
              exact valid.moveTo_eq reached.buffer
            simp only [Trial.Ends, Trial.after, restored]
            exact gathered_nil valid

theorem repetition_lawful {item : Attempt} (sound : item.Sound) {separator : Option Attempt}
    (soundSeparator : ∀ attempt, separator = some attempt → attempt.Sound)
    (multiplicity : Multiplicity) :
    (repetition multiplicity item separator).Lawful .repetition (separator = none) [item] := by
  intro cursor valid
  have loop := (rounds_ends sound soundSeparator cursor.position multiplicity.upperBound
    (cursor.rest.length + 1) 0 valid).after [.probed cursor (.repetition multiplicity) .begun]
  simp only [repetition]
  split
  · rename_i error outcome
    exact (loop.of_error outcome).elim
  · rename_i children outcome
    have gathered := loop.of_ok outcome
    split
    · exact compose_ends (Trial.ends_of_ok outcome ⟨gathered.covers .repetition, gathered⟩)
    · exact ⟨rfl, valid.moveTo_eq gathered.leads.buffer⟩

theorem covers_withTag {before after : Cursor} {found : Match} (covers : found.Covers before after)
    (tag : Option String) : (found.withTag tag).Covers before after where
  leads := covers.leads
  start := by rw [Match.start_withTag, covers.start]
  stop := by rw [Match.stop_withTag, covers.stop]
  placed :=
    { text := by simpa using covers.placed.text
      forward := by simpa using covers.placed.forward
      ordered := by simpa using covers.placed.ordered }

theorem tagged_lawful {matcher : Matcher} {tight : Prop} {parts : List Attempt}
    {attempt : Attempt} (lawful : attempt.Lawful matcher tight parts) (tag : Option String) :
    (tagged tag attempt).Lawful matcher tight parts := by
  intro cursor valid
  refine Trial.Ends.map ((lawful cursor valid).imp ?_ ?_)
  · rintro found after ⟨covers, gathered⟩
    refine ⟨covers_withTag covers tag, ?_⟩
    rwa [Match.children_withTag]
  · intro error after refused
    exact refused

end Attempt

end LineGrammar
