import LineGrammar.Proofs.Parser.Way

/-!
The loop of a parse. At the start of a round the fuse stands at the place of the
cursor and has not blown. A round then ends the loop, or moves the cursor back,
or uses up one of the rounds that are left: those of the fuse here, and as many
as it allows for every further character. So a loop that does not come to a
result moves the cursor back before long.
-/

namespace LineGrammar

theorem Fuse.of_update {fuse later : Fuse} {limit : Nat} {position : Position}
    (updated : fuse.update? limit position = some later) :
    later.position = position ∧ later.count < max 1 limit ∧
      (position = fuse.position ∧ later.count = fuse.count + 1 ∨
        position ≠ fuse.position ∧ later.count = 0) := by
  unfold update? at updated
  split at updated
  · rename_i stays
    split at updated
    · rename_i intact
      cases updated
      exact ⟨stays.symm, Nat.lt_of_lt_of_le intact (Nat.le_max_right 1 limit), .inl ⟨stays, rfl⟩⟩
    · cases updated
  · rename_i moves
    cases updated
    exact ⟨rfl, Nat.lt_of_lt_of_le Nat.zero_lt_one (Nat.le_max_left 1 limit), .inr ⟨moves, rfl⟩⟩

/-- A round uses up one of the rounds that are left: those of the fuse here, and
as many as it allows for every further character. -/
theorem Fuse.rounds_left_lt {fuse later : Fuse} {before after : Cursor} {limit : Nat}
    (updated : fuse.update? limit after.position = some later) (onward : before.Onward after)
    (here : fuse.position = before.position) (intact : fuse.count < max 1 limit)
    (left : 0 < before.remaining) :
    after.remaining * max 1 limit - later.count < before.remaining * max 1 limit - fuse.count := by
  rcases Fuse.of_update updated with ⟨_, _, ⟨stays, counted⟩ | ⟨moves, counted⟩⟩
  · have same : after.remaining = before.remaining := by
      simp only [Cursor.remaining, onward.buffer, stays, here]
    have enough : 1 * max 1 limit ≤ before.remaining * max 1 limit := Nat.mul_le_mul_right _ left
    rw [same, counted]
    omega
  · rcases onward.onward with stays | less
    · exact absurd (stays.trans here.symm) moves
    · have fewer : (after.remaining + 1) * max 1 limit ≤ before.remaining * max 1 limit :=
        Nat.mul_le_mul_right _ less
      rw [Nat.add_mul] at fewer
      rw [counted]
      omega

namespace Session

variable {grammar : Grammar} {session before after : Session} {fuse later : Fuse} {limit : Nat}

theorem Round.unique {other : Session} (made : Round grammar before after)
    (again : Round grammar before other) : other = after := by
  have same := made.2.symm.trans again.2
  cases same
  rfl

inductive Makes (grammar : Grammar) : Nat → Session → Session → Prop
  | nothing (session : Session) : Makes grammar 0 session session
  | first {before middle after : Session} {count : Nat} (made : Round grammar before middle)
      (rest : Makes grammar count middle after) : Makes grammar (count + 1) before after

/-- Whether a round that comes after so many others moves the cursor back. -/
def Returns (grammar : Grammar) (count : Nat) (session : Session) : Prop :=
  ∃ before after, Makes grammar count session before ∧ Round grammar before after ∧
    after.cursor.position < before.cursor.position

theorem Returns.first {count : Nat} (made : Round grammar before after)
    (returns : Returns grammar count after) : Returns grammar (count + 1) before := by
  obtain ⟨early, late, makes, back⟩ := returns
  exact ⟨early, late, .first made makes, back⟩

/-- Whether the rounds come to a result, and not after more than so many: to the
end of the buffer, or to an error other than that of a used-up budget. -/
def Results (grammar : Grammar) (limit : Nat) (fuse : Fuse) (session : Session) : Prop :=
  ∃ count ≤ limit, ∃ outcome, Drives grammar count fuse session outcome ∧
    Action.Ends outcome (fun _ _ => True) (fun error _ => error ≠ .exhausted)

theorem Results.mono {more : Nat} (results : Results grammar limit fuse session)
    (enough : limit ≤ more) : Results grammar more fuse session := by
  obtain ⟨count, within, drives⟩ := results
  exact ⟨count, Nat.le_trans within enough, drives⟩

theorem Results.first (made : Round grammar session after)
    (updated : fuse.update? after.context.setting.config.maxStall after.cursor.position = some later)
    (results : Results grammar limit later after) : Results grammar (limit + 1) fuse session := by
  obtain ⟨count, within, outcome, drives, ends⟩ := results
  exact ⟨count + 1, Nat.succ_le_succ within, outcome, .goesOn made updated drives, ends⟩

structure Armed (fuse : Fuse) (session : Session) : Prop where
  valid : session.cursor.Valid
  here : fuse.position = session.cursor.position
  intact : fuse.count < max 1 session.context.setting.config.maxStall

theorem armed_start (valid : session.cursor.Valid) : Armed ⟨session.cursor.position, 0⟩ session :=
  ⟨valid, rfl, Nat.lt_of_lt_of_le Nat.zero_lt_one (Nat.le_max_left 1 _)⟩

theorem Armed.next (goes : grammar.Every (Rule.Goes Cursor.Within)) (armed : Armed fuse session)
    (made : Round grammar session after)
    (updated :
      fuse.update? after.context.setting.config.maxStall after.cursor.position = some later) :
    session.Along Cursor.Within after ∧ Armed later after := by
  have along := round_endsAlong Cursor.way_within goes armed.valid
  rw [made.2] at along
  obtain ⟨here, intact, _⟩ := Fuse.of_update updated
  exact ⟨along, along.cursor.valid, here, intact⟩

/-- What one turn of the loop comes to: a result, or a round after which the fuse
is intact. -/
theorem Armed.turn (goes : grammar.Every (Rule.Goes Cursor.Within)) (armed : Armed fuse session) :
    Results grammar 1 fuse session ∨
      ∃ later after, Round grammar session after ∧
        fuse.update? after.context.setting.config.maxStall after.cursor.position = some later := by
  cases ended : session.cursor.atEnd with
  | true => exact .inl ⟨0, Nat.zero_le 1, _, .finished fuse ended, trivial⟩
  | false =>
      cases made : round grammar session with
      | error error after =>
          have ends := round_endsAlong Cursor.way_within goes armed.valid
          rw [made] at ends
          refine .inl ⟨1, Nat.le_refl 1, _, .failed fuse ended made, ?_⟩
          rintro rfl
          exact ends
      | ok value after =>
          cases updated : fuse.update? after.context.setting.config.maxStall
            after.cursor.position with
          | none =>
              refine .inl ⟨1, Nat.le_refl 1, _, .stuck ⟨ended, made⟩ updated, ?_⟩
              intro same
              cases same
          | some later => exact .inr ⟨later, after, ⟨ended, made⟩, updated⟩

/-- A loop comes to a result, or a round moves the cursor back, before the rounds
that are left are used up. The induction is on their number, which every round
lowers that does not go back. -/
theorem Armed.results_or_returns (goes : grammar.Every (Rule.Goes Cursor.Within)) (bound : Nat)
    (armed : Armed fuse session)
    (left : session.cursor.remaining * max 1 session.context.setting.config.maxStall - fuse.count ≤
      bound) :
    Results grammar bound fuse session ∨ ∃ count < bound, Returns grammar count session := by
  induction bound generalizing session fuse with
  | zero =>
      cases ended : session.cursor.atEnd with
      | true => exact .inl ⟨0, Nat.le_refl 0, _, .finished fuse ended, trivial⟩
      | false =>
          -- A place before the end has a round left, since the fuse is intact.
          have some := Nat.mul_le_mul_right
            (max 1 session.context.setting.config.maxStall) (Cursor.remaining_pos ended)
          have intact := armed.intact
          omega
  | succ bound induction =>
      rcases armed.turn goes with results | ⟨later, after, made, updated⟩
      · exact .inl (results.mono (Nat.succ_le_succ (Nat.zero_le bound)))
      · obtain ⟨along, armed'⟩ := armed.next goes made updated
        by_cases back : after.cursor.position < session.cursor.position
        · exact .inr ⟨0, Nat.succ_pos bound, session, after, .nothing session, made, back⟩
        · -- Either a character was passed, or the fuse has counted one more: what is
          -- left times the stall limit, less the count, is lower.
          have onward := along.cursor.onward armed.valid back
          have fewer : after.cursor.remaining * max 1 after.context.setting.config.maxStall -
              later.count ≤ bound := by
            rw [along.setting] at updated ⊢
            have less := Fuse.rounds_left_lt updated onward armed.here armed.intact
              (Cursor.remaining_pos made.1)
            omega
          rcases induction armed' fewer with results | ⟨count, within, returns⟩
          · exact .inl (results.first made updated)
          · exact .inr ⟨count + 1, Nat.succ_lt_succ within, returns.first made⟩

end Session

end LineGrammar
