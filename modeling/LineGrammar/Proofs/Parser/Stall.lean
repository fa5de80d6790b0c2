import LineGrammar.Proofs.Parser.Cause
import LineGrammar.Proofs.Parser.Loop

/-!
When a parse is reported as stuck. The fuse keeps only one place and one number,
but these tell enough of all the rounds so far: where the last one has ended, and
how many of the last ones have left the cursor there. So it blows at the end of
the first round with which as many rounds in a row have left the cursor in place
as it allows, and at no other time.
-/

namespace LineGrammar

theorem Fuse.of_blown {fuse : Fuse} {limit : Nat} {position : Position}
    (blown : fuse.update? limit position = none) :
    position = fuse.position ∧ limit ≤ fuse.count + 1 := by
  unfold update? at blown
  split at blown
  · rename_i stays
    split at blown
    · cases blown
    · rename_i full
      exact ⟨stays, Nat.le_of_not_lt full⟩
  · cases blown

namespace Session

variable {grammar : Grammar} {session there after final : Session} {fuse later : Fuse}
  {count window : Nat}

theorem Makes.snoc (makes : Makes grammar count session there) (made : Round grammar there after) :
    Makes grammar (count + 1) session after := by
  induction makes with
  | nothing session => exact .first made (.nothing after)
  | first early _ induction => exact .first early (induction made)

theorem Makes.last (makes : Makes grammar (count + 1) session after) :
    ∃ there, Makes grammar count session there ∧ Round grammar there after := by
  induction count generalizing session with
  | zero =>
      cases makes with
      | first made rest =>
          cases rest
          exact ⟨session, .nothing session, made⟩
  | succ count induction =>
      cases makes with
      | first made rest =>
          obtain ⟨there, early, late⟩ := induction rest
          exact ⟨there, .first made early, late⟩

theorem Makes.unique {other : Session} (makes : Makes grammar count session there)
    (again : Makes grammar count session other) : other = there := by
  induction makes with
  | nothing session =>
      cases again
      rfl
  | first made _ induction =>
      cases again with
      | first made' rest' =>
          cases made.unique made'
          exact induction rest'

theorem Makes.along (makes : Makes grammar count session there) (valid : session.cursor.Valid) :
    session.Along Cursor.Within there := by
  induction makes with
  | nothing session => exact along_self valid
  | first made _ induction =>
      have along := round_within grammar valid
      rw [made.2] at along
      exact Along.trans Cursor.way_within along (induction along.cursor.valid)

/-- Whether a round that comes after so many others ends where it began. -/
def Idles (grammar : Grammar) (session : Session) (index : Nat) : Prop :=
  ∃ before after, Makes grammar index session before ∧ Round grammar before after ∧
    after.cursor.position = before.cursor.position

/-- Whether the last `window` of so many rounds all end where they began. -/
def Stalled (grammar : Grammar) (session : Session) (window count : Nat) : Prop :=
  ∃ first, first + window = count ∧ ∀ index < window, Idles grammar session (first + index)

/-- Whether the loop reports at the end of so many rounds, and not before, that
the cursor is stuck. -/
structure StuckAfter (grammar : Grammar) (session : Session) (count : Nat) (final : Session) :
    Prop where
  makes : Makes grammar count session final
  undecided : ∀ limit < count, ∃ there,
    rounds grammar limit ⟨session.cursor.position, 0⟩ session = .error .exhausted there
  reported : ∀ limit, count ≤ limit →
    rounds grammar limit ⟨session.cursor.position, 0⟩ session = stall final

/-- What the fuse knows after so many rounds that have left it intact: where the
last round has ended, and how many of the last rounds have ended where they began. -/
structure Watched (grammar : Grammar) (session : Session) (window count : Nat) (fuse : Fuse)
    (there : Session) : Prop where
  makes : Makes grammar count session there
  here : fuse.position = there.cursor.position
  intact : fuse.count < window
  counted : ∃ first, first + fuse.count = count ∧
    (∀ index < fuse.count, Idles grammar session (first + index)) ∧
    ∀ prior, prior + 1 = first → ¬Idles grammar session prior
  undecided : ∀ limit < count, ∃ there,
    rounds grammar limit ⟨session.cursor.position, 0⟩ session = .error .exhausted there
  goesOn : ∀ limit, rounds grammar (count + limit) ⟨session.cursor.position, 0⟩ session =
    rounds grammar limit fuse there

theorem rounds_zero (inside : session.cursor.atEnd = false) (fuse : Fuse) :
    rounds grammar 0 fuse session = .error .exhausted session := by
  rw [rounds.eq_def]
  simp only [inside, Bool.false_eq_true, if_false]

theorem rounds_succ (made : Round grammar session after) (fuse : Fuse) (limit : Nat) :
    rounds grammar (limit + 1) fuse session =
      match fuse.update? after.context.setting.config.maxStall after.cursor.position with
      | some later => rounds grammar limit later after
      | none => stall after := by
  rw [rounds.eq_def]
  cases updated : fuse.update? after.context.setting.config.maxStall after.cursor.position with
  | none => simp only [made.1, Bool.false_eq_true, if_false, made.2, updated]
  | some later => simp only [made.1, Bool.false_eq_true, if_false, made.2, updated]

theorem watched_start (positive : 0 < window) :
    Watched grammar session window 0 ⟨session.cursor.position, 0⟩ session where
  makes := .nothing session
  here := rfl
  intact := positive
  counted := ⟨0, rfl, fun _ none => absurd none (Nat.not_lt_zero _), fun _ none => nomatch none⟩
  undecided := fun _ none => absurd none (Nat.not_lt_zero _)
  goesOn := fun limit => by rw [Nat.zero_add]

/-- While the fuse is intact the rounds are not stalled: before the ones that it
has counted there was one that moved the cursor, or none. -/
theorem Watched.not_stalled (watched : Watched grammar session window count fuse there) :
    ¬Stalled grammar session window count := by
  rintro ⟨first, rfl, idle⟩
  obtain ⟨first', same, _, moved⟩ := watched.counted
  have intact := watched.intact
  obtain ⟨prior, rfl⟩ : ∃ prior, prior + 1 = first' := ⟨first' - 1, by omega⟩
  have again := idle (prior - first) (by omega)
  rw [Nat.add_sub_cancel' (by omega)] at again
  exact moved prior rfl again

theorem Watched.undecided_next (watched : Watched grammar session window count fuse there)
    (made : Round grammar there after) : ∀ limit < count + 1, ∃ there,
      rounds grammar limit ⟨session.cursor.position, 0⟩ session = .error .exhausted there := by
  intro limit less
  rcases Nat.lt_or_ge limit count with before | last
  · exact watched.undecided limit before
  · obtain rfl : limit = count := by omega
    exact ⟨there, by rw [← Nat.add_zero limit, watched.goesOn, rounds_zero made.1]⟩

theorem Watched.goesOn_next (watched : Watched grammar session window count fuse there)
    (made : Round grammar there after) (limit : Nat) :
    rounds grammar (count + 1 + limit) ⟨session.cursor.position, 0⟩ session =
      match fuse.update? after.context.setting.config.maxStall after.cursor.position with
      | some later => rounds grammar limit later after
      | none => stall after := by
  rw [Nat.add_assoc, Nat.add_comm 1, watched.goesOn, rounds_succ made]

theorem Watched.counted_next (watched : Watched grammar session window count fuse there)
    (made : Round grammar there after) (stays : after.cursor.position = fuse.position) :
    ∃ first, first + (fuse.count + 1) = count + 1 ∧
      (∀ index < fuse.count + 1, Idles grammar session (first + index)) ∧
      ∀ prior, prior + 1 = first → ¬Idles grammar session prior := by
  obtain ⟨first, same, idle, moved⟩ := watched.counted
  refine ⟨first, by omega, ?_, moved⟩
  intro index within
  rcases Nat.lt_or_ge index fuse.count with before | last
  · exact idle index before
  · have now : first + index = count := by omega
    rw [now]
    exact ⟨there, after, watched.makes, made, stays.trans watched.here⟩

theorem Watched.next (watched : Watched grammar session window count fuse there)
    (made : Round grammar there after)
    (full : max 1 after.context.setting.config.maxStall = window)
    (updated : fuse.update? after.context.setting.config.maxStall after.cursor.position = some later) :
    Watched grammar session window (count + 1) later after := by
  obtain ⟨here, intact, change⟩ := Fuse.of_update updated
  rw [full] at intact
  refine ⟨watched.makes.snoc made, here, intact, ?_, watched.undecided_next made, ?_⟩
  · rcases change with ⟨stays, counted⟩ | ⟨moves, counted⟩
    · rw [counted]
      exact watched.counted_next made stays
    · refine ⟨count + 1, by omega, ?_, ?_⟩
      · intro index within
        omega
      · rintro prior same ⟨before, next, makes, again, stays⟩
        obtain rfl : prior = count := by omega
        cases watched.makes.unique makes
        cases made.unique again
        exact moves (stays.trans watched.here.symm)
  · intro limit
    rw [watched.goesOn_next made, updated]

theorem Watched.blown (watched : Watched grammar session window count fuse there)
    (made : Round grammar there after)
    (full : max 1 after.context.setting.config.maxStall = window)
    (blown : fuse.update? after.context.setting.config.maxStall after.cursor.position = none) :
    Stalled grammar session window (count + 1) ∧ StuckAfter grammar session (count + 1) after := by
  obtain ⟨stays, counted⟩ := Fuse.of_blown blown
  have intact := watched.intact
  have same : fuse.count + 1 = window := by omega
  obtain ⟨first, sum, idle, _⟩ := watched.counted_next made stays
  rw [same] at sum idle
  refine ⟨⟨first, sum, idle⟩, watched.makes.snoc made, watched.undecided_next made, ?_⟩
  intro limit enough
  obtain ⟨spare, rfl⟩ := Nat.exists_eq_add_of_le enough
  rw [watched.goesOn_next made, blown]

/-- The fuse allows as many rounds in one place at any time as it did first. -/
theorem Makes.window_eq (makes : Makes grammar count session there)
    (valid : session.cursor.Valid) :
    max 1 there.context.setting.config.maxStall =
      max 1 session.context.setting.config.maxStall := by
  rw [(makes.along valid).setting]

/-- However many rounds are made, up to their end the fuse has watched them, or it
has blown with the first that were stalled. -/
theorem Makes.watched_or_stuck (makes : Makes grammar count session there)
    (valid : session.cursor.Valid) :
    let window := max 1 session.context.setting.config.maxStall
    (∃ earlier ≤ count, ∃ final, Stalled grammar session window earlier ∧
      (∀ less < earlier, ¬Stalled grammar session window less) ∧
      StuckAfter grammar session earlier final) ∨
    (∀ less ≤ count, ¬Stalled grammar session window less) ∧
      ∃ fuse, Watched grammar session window count fuse there := by
  intro window
  induction count generalizing there with
  | zero =>
      cases makes
      have watched := @watched_start grammar session window (Nat.le_max_left 1 _)
      refine .inr ⟨?_, _, watched⟩
      intro less none
      rw [Nat.le_zero.mp none]
      exact watched.not_stalled
  | succ count induction =>
      obtain ⟨before, early, made⟩ := makes.last
      have full := makes.window_eq valid
      rcases induction early with ⟨earlier, within, stuck⟩ | ⟨none, fuse, watched⟩
      · exact .inl ⟨earlier, Nat.le_succ_of_le within, stuck⟩
      · cases updated : fuse.update? there.context.setting.config.maxStall
          there.cursor.position with
        | none =>
            obtain ⟨stalled, stuck⟩ := watched.blown made full updated
            exact .inl ⟨count + 1, Nat.le_refl _, there, stalled,
              fun less before => none less (Nat.le_of_lt_succ before), stuck⟩
        | some later =>
            have next := watched.next made full updated
            refine .inr ⟨?_, later, next⟩
            intro less within
            rcases Nat.lt_or_eq_of_le within with before | rfl
            · exact none less (Nat.le_of_lt_succ before)
            · exact next.not_stalled

theorem stuckAfter_iff (grammar : Grammar) (valid : session.cursor.Valid) (count : Nat) :
    let window := max 1 session.context.setting.config.maxStall
    (∃ final, StuckAfter grammar session count final) ↔
      Stalled grammar session window count ∧
        ∀ earlier < count, ¬Stalled grammar session window earlier := by
  intro window
  constructor
  · rintro ⟨final, stuck⟩
    have reported := stuck.reported count (Nat.le_refl count)
    rcases stuck.makes.watched_or_stuck valid with
      ⟨earlier, within, final', stalled, first, stuck'⟩ | ⟨_, fuse, watched⟩
    · rcases Nat.lt_or_eq_of_le within with before | rfl
      · obtain ⟨there, unfinished⟩ := stuck.undecided earlier before
        rw [stuck'.reported earlier (Nat.le_refl earlier)] at unfinished
        cases unfinished
      · exact ⟨stalled, first⟩
    · -- The fuse is intact, so the loop has nothing to report.
      rw [← Nat.add_zero count, watched.goesOn, rounds.eq_def] at reported
      simp only at reported
      split at reported
      · cases reported
      · cases reported
  · rintro ⟨stalled, first⟩
    have positive : 0 < window := Nat.le_max_left 1 _
    obtain ⟨start, sum, idle⟩ := stalled
    obtain ⟨before, after, makes, made, _⟩ := idle (window - 1) (by omega)
    rw [show start + (window - 1) = count - 1 by omega] at makes
    have all := makes.snoc made
    rw [Nat.sub_add_cancel (by omega)] at all
    rcases all.watched_or_stuck valid with
      ⟨earlier, within, final, stalled, _, stuck⟩ | ⟨none, _⟩
    · rcases Nat.lt_or_eq_of_le within with before | rfl
      · exact absurd stalled (first earlier before)
      · exact ⟨final, stuck⟩
    · exact absurd ⟨start, sum, idle⟩ (none count (Nat.le_refl count))

theorem Watched.rounds_stuck {limit : Nat} {diagnostic : Diagnostic}
    (valid : session.cursor.Valid)
    (watched : Watched grammar session (max 1 session.context.setting.config.maxStall) count fuse
      there)
    (ended : rounds grammar limit fuse there = .error (.stuck diagnostic) after) :
    (∃ count final, StuckAfter grammar session count final ∧
      stall final = .error (.stuck diagnostic) after) ∨
    ∃ count before, Makes grammar count session before ∧
      round grammar before = .error (.stuck diagnostic) after := by
  induction limit generalizing count fuse there with
  | zero =>
      rw [rounds.eq_def] at ended
      simp only at ended
      split at ended
      · cases ended
      · cases ended
  | succ limit induction =>
      cases inside : there.cursor.atEnd with
      | true =>
          rw [rounds.eq_def] at ended
          simp only [inside, if_true] at ended
          cases ended
      | false =>
          cases made : round grammar there with
          | error error last =>
              rw [rounds.eq_def] at ended
              simp only [inside, Bool.false_eq_true, if_false, made] at ended
              exact .inr ⟨count, there, watched.makes, made.trans ended⟩
          | ok value next =>
              have round : Round grammar there next := ⟨inside, made⟩
              have full := (watched.makes.snoc round).window_eq valid
              rw [rounds_succ round] at ended
              cases updated : fuse.update? next.context.setting.config.maxStall
                next.cursor.position with
              | none =>
                  rw [updated] at ended
                  exact .inl ⟨count + 1, next, (watched.blown round full updated).2, ended⟩
              | some later =>
                  rw [updated] at ended
                  exact induction (watched.next round full updated) ended

theorem Stalled.place (stalled : Stalled grammar session window count)
    (makes : Makes grammar count session final) {back : Nat} (within : back ≤ window) :
    ∃ there, Makes grammar (count - back) session there ∧
      there.cursor.position = final.cursor.position := by
  obtain ⟨first, sum, idle⟩ := stalled
  induction back with
  | zero => exact ⟨final, makes, rfl⟩
  | succ back induction =>
      obtain ⟨there, reached, same⟩ := induction (Nat.le_of_succ_le within)
      obtain ⟨before, after, early, made, stays⟩ := idle (window - (back + 1)) (by omega)
      rw [show first + (window - (back + 1)) = count - (back + 1) by omega] at early
      have late := early.snoc made
      rw [show count - (back + 1) + 1 = count - back by omega] at late
      cases reached.unique late
      exact ⟨before, early, stays.symm.trans same⟩

theorem parse_stuck {limit : Nat} {diagnostic : Diagnostic}
    (ended : parse grammar limit session = .error (.stuck diagnostic) after) :
    ∃ entered, enter session = .ok () entered ∧
      rounds grammar limit ⟨entered.cursor.position, 0⟩ entered =
        .error (.stuck diagnostic) after := by
  rw [parse_eq] at ended
  cases entering : enter session with
  | error error last =>
      have ends := (@enter_changing (fun _ => True) (fun _ => True) session).ends
      rw [entering] at ended ends
      cases ended
      exact ends.elim
  | ok value entered =>
      rw [entering] at ended
      refine ⟨entered, rfl, ?_⟩
      cases made : rounds grammar limit ⟨entered.cursor.position, 0⟩ entered with
      | error error last =>
          simp only [made] at ended
          cases ended
          rfl
      | ok value final =>
          simp only [made] at ended
          split at ended
          · rename_i leaving
            cases ended
            obtain ⟨_, same⟩ := leave_error leaving
            cases same
          · cases ended

end Session

/-- The error of an outcome. Unlike a tree, it can be compared. -/
def Outcome.error? (outcome : Outcome) : Option Error :=
  match outcome.result with
  | .ok _ => none
  | .error error => some error

theorem Outcome.result_of_error? {outcome : Outcome} {error : Error}
    (failed : outcome.error? = some error) : outcome.result = .error error := by
  unfold error? at failed
  split at failed
  · cases failed
  · rename_i same
    rw [same, Option.some.inj failed]

/-- The loop of a parse reports that the cursor is stuck at the end of exactly that
iteration with which, for the first time, as many iterations in a row have ended
where they began as the fuse allows, which is one at least. The report names the
place where they all ended and the scopes that are open then. A parse that is
reported as stuck has come to such an iteration, or an iteration has failed with
this report itself, since a script of the host has answered with it. -/
theorem Grammar.stuck_when_last_rounds_stall (grammar : Grammar) (config : Config)
    (extra depth : Nat) (cursor : Cursor) (valid : cursor.Valid) :
    let window := max 1 config.maxStall
    let opening := grammar.opening config extra depth cursor
    let outcome := grammar.drive config extra (depth + 1) cursor
    (∀ entered, Session.enter opening = .ok () entered →
      entered.cursor = cursor ∧
      (∀ count, (∃ final, Session.StuckAfter grammar entered count final) ↔
        Session.Stalled grammar entered window count ∧
          ∀ earlier < count, ¬Session.Stalled grammar entered window earlier) ∧
      ∀ count final, Session.StuckAfter grammar entered count final →
        ∃ diagnostic after, Session.stall final = .error (.stuck diagnostic) after ∧
          diagnostic.complaint = .stalled config.maxStall final.context.scopeName ∧
          diagnostic.trace = final.context.trace ∧
          (∀ back ≤ window, ∃ there, Session.Makes grammar (count - back) entered there ∧
            there.cursor.position = diagnostic.position) ∧
          (count ≤ config.roundLimit cursor.buffer + extra →
            outcome.result = .error (.stuck diagnostic))) ∧
    ∀ diagnostic, outcome.result = .error (.stuck diagnostic) →
      ∃ entered after, Session.enter opening = .ok () entered ∧
        ((∃ count final, Session.StuckAfter grammar entered count final ∧
          Session.stall final = .error (.stuck diagnostic) after) ∨
        ∃ count before, Session.Makes grammar count entered before ∧
          Session.round grammar before = .error (.stuck diagnostic) after ∧
          grammar.HostFails before (.stuck diagnostic) after) := by
  intro window opening outcome
  have standing : ∀ entered, Session.enter opening = .ok () entered →
      entered.cursor = cursor ∧ entered.cursor.Valid ∧
        entered.context.setting.config = config := by
    intro entered entering
    have changes := Session.changes_of_enter (fun _ => True) (fun _ => True) entering
    have same : entered.cursor = cursor := changes.cursor_eq
    exact ⟨same, same ▸ valid, by rw [changes.setting_eq]; rfl⟩
  constructor
  · intro entered entering
    obtain ⟨same, valid', configured⟩ := standing entered entering
    have law := Session.stuckAfter_iff grammar valid'
    rw [configured] at law
    refine ⟨same, law, ?_⟩
    intro count final stuck
    have setting := (stuck.makes.along valid').setting
    refine ⟨_, _, rfl, ?_, rfl, ?_, ?_⟩
    · rw [setting, configured]
      rfl
    · intro back within
      exact ((law count).mp ⟨final, stuck⟩).1.place stuck.makes within
    · intro enough
      simp only [outcome, drive_succ, Session.parse_eq]
      rw [show Session.enter (grammar.opening config extra depth cursor) = _ from entering]
      simp only [stuck.reported _ enough]
      rfl
  · intro diagnostic failed
    simp only [outcome, drive_succ] at failed
    cases done : Session.parse grammar (config.roundLimit cursor.buffer + extra)
      (grammar.opening config extra depth cursor) with
    | ok tree after =>
        rw [done] at failed
        cases failed
    | error error after =>
        rw [done] at failed
        cases failed
        obtain ⟨entered, entering, ended⟩ := Session.parse_stuck done
        obtain ⟨_, valid', _⟩ := standing entered entering
        refine ⟨entered, after, entering, ?_⟩
        rcases (Session.watched_start (Nat.le_max_left 1 _)).rounds_stuck valid' ended with
          blown | ⟨count, before, makes, inside⟩
        · exact .inl blown
        · have causes := Session.round_within grammar (makes.along valid').cursor.valid
          rw [inside] at causes
          exact .inr ⟨count, before, makes, inside, causes.2.resolve_left id⟩

theorem Grammar.first_idle_round_is_stuck :
    let grammar : Grammar := ⟨[⟨"main", [.always], false⟩]⟩
    let cursor : Cursor := ⟨.ofLines ["éa"], ⟨0, 2⟩⟩
    let diagnostic : Diagnostic := ⟨.stalled 0 "main", ⟨0, 2⟩, "éa\n ^", ["main"]⟩
    cursor.Valid ∧
      (grammar.drive { maxStall := 0 } 0 1 cursor).result = .error (.stuck diagnostic) ∧
      ∃ entered count, Session.Stalled grammar entered 1 count ∧
        ∃ there, Session.Makes grammar count entered there ∧
          there.cursor.position = diagnostic.position := by
  intro grammar cursor diagnostic
  have valid : cursor.Valid := by decide
  have reported : (grammar.drive { maxStall := 0 } 0 1 cursor).result =
      .error (.stuck diagnostic) := Outcome.result_of_error? (by decide +kernel)
  obtain ⟨forth, back⟩ := stuck_when_last_rounds_stall grammar { maxStall := 0 } 0 0 cursor valid
  obtain ⟨entered, after, entering, ⟨count, final, stuck, same⟩ | ⟨_, _, _, _, fails⟩⟩ :=
    back diagnostic reported
  · obtain ⟨_, law, report⟩ := forth entered entering
    obtain ⟨diagnostic', after', same', _, _, places, _⟩ := report count final stuck
    cases same.symm.trans same'
    exact ⟨valid, reported, entered, count, ((law count).mp ⟨final, stuck⟩).1,
      places 0 (Nat.zero_le _)⟩
  · -- There is no host to answer with the report.
    obtain ⟨scope, inGrammar, rule, inScope, script, _, _, called, _⟩ := fails
    simp only [grammar, List.mem_singleton] at inGrammar
    rw [inGrammar, List.mem_singleton] at inScope
    rw [inScope] at called
    cases called

/-- A callback parses what is quoted in the line and passes on the report that this
is stuck. So the parse of the line is reported as stuck although none of its own
rounds has ended where it began. -/
theorem Grammar.stuck_quotation_is_passed_on :
    let quoting : Rule :=
      { expr := .leaf none ">(.*)" (Regex.compile? ">(.*)" false)
        callbacks := [.host fun found => .parseThen [(found.group? 1).getD ""] fun _ => .done] }
    let grammar : Grammar := ⟨[⟨"main", [quoting, .always], false⟩]⟩
    let cursor : Cursor := ⟨.ofLines [">x"], .origin⟩
    let entered := grammar.opening { maxStall := 2 } 0 1 cursor
    Session.enter entered = .ok () entered ∧
      (∀ count, ¬Session.Stalled grammar entered 2 count) ∧
      (grammar.drive { maxStall := 2 } 0 2 cursor).result =
        .error (.stuck ⟨.stalled 2 "main", ⟨0, 0⟩, "x\n^", ["main"]⟩) := by
  intro quoting grammar cursor entered
  refine ⟨rfl, ?_, Outcome.result_of_error? (by decide +kernel)⟩
  have fails : (match Session.round grammar entered with
      | .ok _ _ => true
      | .error _ _ => false) = false := by
    decide +kernel
  rintro count ⟨first, _, idle⟩
  obtain ⟨before, after, makes, made, _⟩ := idle 0 (by decide)
  cases makes.snoc made with
  | first round _ =>
      rw [round.2] at fails
      cases fails

end LineGrammar
