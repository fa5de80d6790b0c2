import LineGrammar.Proofs.Expr.Members

/-!
What the members of a set could do in some order, and what the set does. The
set does not try all orders: it is led by the first choice at every place. So
it matches exactly if the members line up in such a way that all of those it
needs, except for the last, are first choices. If it needs one member at most,
or if no two members match at one place, that is no restriction.
-/

namespace LineGrammar

namespace Attempt

/-- Whether members line up in a number that is within the bounds. -/
def LinesUp (attempts : List Attempt) (bounds : Bounds) (eager : Nat) (cursor : Cursor) : Prop :=
  ∃ order children after, Lineup attempts eager [] cursor order children after ∧
    bounds.min ≤ order.length ∧ ∀ most, bounds.max = some most → order.length ≤ most

variable {attempts : List Attempt} {eager : Nat} {taken order order' : List Nat}
  {cursor after after' : Cursor} {children children' : List Match} {max : Option Nat}

theorem Lineup.mono {eager' : Nat}
    (lineup : Lineup attempts eager taken cursor order children after) (fewer : eager' ≤ eager) :
    Lineup attempts eager' taken cursor order children after := by
  induction lineup generalizing eager' with
  | done => exact .done _ _ _
  | take free listed outcome first _ induction =>
      refine .take free listed outcome ?_ (induction (by omega))
      intro some
      exact first (by omega)

/-- A greedy line-up reaches every number of members that can be lined up with
first choices except for the last. -/
theorem Greedy.reaches {count : Nat} (greedy : Greedy attempts max taken cursor order children after)
    (other : Lineup attempts (count - 1) taken cursor order' children' after')
    (long : count ≤ order'.length)
    (room : ∀ most, max = some most → taken.length + count ≤ most) : count ≤ order.length := by
  induction count generalizing taken cursor order children order' children' with
  | zero => exact Nat.zero_le _
  | succ count induction =>
      cases other with
      | done => exact absurd long (by simp)
      | take free' listed' outcome' first' later' =>
          have nonempty : order ≠ [] := by
            apply greedy.nonempty _ free' ⟨_, _, listed', outcome'⟩
            intro most upper
            have fits := room most upper
            omega
          cases lined : greedy.lineup with
          | done => exact absurd rfl nonempty
          | take free listed outcome first later =>
              rw [List.length_cons] at long ⊢
              apply Nat.succ_le_succ
              -- The last of the `count + 1` members need not be the first choice.
              rcases Nat.eq_zero_or_pos count with rfl | some
              · exact Nat.zero_le _
              · obtain rfl := first_choice_unique free free' ⟨_, _, listed, outcome⟩
                  ⟨_, _, listed', outcome'⟩ (first (Nat.succ_pos _)) (first' some)
                obtain rfl := Option.some.inj (listed'.symm.trans listed)
                apply induction (greedy.tail later) later' (Nat.le_of_succ_le_succ long)
                intro most upper
                have fits := room most upper
                rw [List.length_cons]
                omega

/-- Where no two members match at one place of a line, every line-up is one of
first choices. -/
theorem Lineup.eager_of_exclusive (sound : ∀ attempt ∈ attempts, attempt.Sound)
    (lineup : Lineup attempts eager taken cursor order children after) (valid : cursor.Valid)
    (exclusive : ∀ place, cursor.LeadsTo place → ∀ index index', Fits attempts index place →
      Fits attempts index' place → index = index') (eager' : Nat) :
    Lineup attempts eager' taken cursor order children after := by
  induction lineup generalizing eager' with
  | done => exact .done _ _ _
  | take free listed outcome _ _ induction =>
      have leads := ((sound _ (List.mem_of_getElem? listed)).covers valid outcome).leads
      refine .take free listed outcome ?_ (induction leads.valid ?_ _)
      · intro _ earlier before _ fits
        have same := exclusive _ valid.leadsTo_self earlier _ fits ⟨_, _, listed, outcome⟩
        omega
      · intro place further
        exact exclusive place (leads.trans further)

end Attempt

namespace Expr

theorem set_matches_iff_eager (name : Option String) (items : List Expr) (bounds : Bounds)
    {cursor : Cursor} (valid : cursor.Valid) :
    (∃ found, ((Expr.set name items bounds).attempt cursor).result = .ok found) ↔
      Attempt.LinesUp (attempts items) bounds (bounds.min - 1) cursor := by
  obtain ⟨order, children, after, greedy, ends⟩ := set_attempt_greedy name items bounds valid
  have bounded := greedy.bounded
  simp only [List.length_nil, Nat.zero_add] at bounded
  constructor
  · rintro ⟨found, matched⟩
    have enough := (ends.of_ok matched).1
    exact ⟨order, children, after, greedy.lineup.mono (by omega), enough, bounded⟩
  · rintro ⟨order', children', after', lineup, enough, few⟩
    cases outcome : ((Expr.set name items bounds).attempt cursor).result with
    | ok found => exact ⟨found, rfl⟩
    | error error =>
        have reached : bounds.min ≤ order.length := by
          apply greedy.reaches lineup enough
          intro most upper
          have fits := few most upper
          rw [List.length_nil]
          omega
        exact absurd (ends.of_error outcome) (Nat.not_lt.mpr reached)

/-- A set matches exactly if some of its members, as many as its bounds allow and
none twice, match one after the other in some order in which all but the last of
those that are needed are first choices: no member that is declared before, and
not used yet, matches at the same place. If only one member is needed, or none,
every order will do, and so it will where no two members match at one place. -/
theorem set_matches_iff_first_choices_suffice (name : Option String) (items : List Expr)
    (bounds : Bounds) (cursor : Cursor) (valid : cursor.Valid) :
    let trial := (Expr.set name items bounds).attempt cursor
    ((∃ found, trial.result = .ok found) ↔
      Attempt.LinesUp (attempts items) bounds (bounds.min - 1) cursor) ∧
    (bounds.min ≤ 1 →
      ((∃ found, trial.result = .ok found) ↔
        Attempt.LinesUp (attempts items) bounds 0 cursor)) ∧
    ((∀ place, cursor.LeadsTo place → ∀ index index',
        Attempt.Fits (attempts items) index place →
        Attempt.Fits (attempts items) index' place → index = index') →
      ((∃ found, trial.result = .ok found) ↔
        Attempt.LinesUp (attempts items) bounds 0 cursor)) := by
  intro trial
  have law := set_matches_iff_eager name items bounds valid
  refine ⟨law, ?_, ?_⟩
  · intro one
    rwa [show bounds.min - 1 = 0 by omega] at law
  · intro exclusive
    rw [law]
    constructor
    · rintro ⟨order, children, after, lineup, count⟩
      exact ⟨order, children, after, lineup.mono (Nat.zero_le _), count⟩
    · rintro ⟨order, children, after, lineup, count⟩
      have eager := lineup.eager_of_exclusive (attempts_sound items) valid exclusive
      exact ⟨order, children, after, eager (bounds.min - 1), count⟩

/-- The longer of two members is declared first, so both of them match. -/
theorem longer_member_first_lines_up :
    let cursor : Cursor := ⟨.ofLines ["aba"], ⟨0, 0⟩⟩
    let items := [Expr.leaf none "ab" (Regex.compile? "ab" false),
      .leaf none "a" (Regex.compile? "a" false)]
    let bounds : Bounds := { min := 2, max := some 2 }
    cursor.Valid ∧ (∃ found, ((Expr.set none items bounds).attempt cursor).result = .ok found) ∧
      Attempt.LinesUp (attempts items) bounds 1 cursor := by
  intro cursor items bounds
  have valid : cursor.Valid := by decide
  have matched : ∃ found, ((Expr.set none items bounds).attempt cursor).result = .ok found := by
    refine ⟨.composite ⟨⟨0, 0⟩, ⟨0, 3⟩, none, "aba"⟩ .set
      [.leaf ⟨⟨0, 0⟩, ⟨0, 2⟩, none, "ab"⟩ "ab" [], .leaf ⟨⟨0, 2⟩, ⟨0, 3⟩, none, "a"⟩ "a" []], ?_⟩
    decide +kernel
  have law := set_matches_iff_first_choices_suffice none items bounds cursor valid
  exact ⟨valid, matched, law.1.mp matched⟩

/-- The shorter of two members is declared first. It is taken where only the
longer one leaves something for the other, so the set fails although both match
in the other order. -/
theorem shorter_member_first_fails :
    let cursor : Cursor := ⟨.ofLines ["aba"], ⟨0, 0⟩⟩
    let items := [Expr.leaf none "a" (Regex.compile? "a" false),
      .leaf none "ab" (Regex.compile? "ab" false)]
    let bounds : Bounds := { min := 2, max := some 2 }
    cursor.Valid ∧ Attempt.LinesUp (attempts items) bounds 0 cursor ∧
      ((Expr.set none items bounds).attempt cursor).result = .error (.noMatch .set ⟨0, 0⟩) ∧
      ¬∃ found, ((Expr.set none items bounds).attempt cursor).result = .ok found := by
  intro cursor items bounds
  have valid : cursor.Valid := by decide
  have failed : ((Expr.set none items bounds).attempt cursor).result =
      .error (.noMatch .set ⟨0, 0⟩) := by
    decide +kernel
  have long : ((Expr.leaf none "ab" (Regex.compile? "ab" false)).attempt cursor).result =
      .ok (.leaf ⟨⟨0, 0⟩, ⟨0, 2⟩, none, "ab"⟩ "ab" []) := by
    decide +kernel
  have moved : ((Expr.leaf none "ab" (Regex.compile? "ab" false)).attempt cursor).cursor =
      ⟨cursor.buffer, ⟨0, 2⟩⟩ := by
    decide +kernel
  have short : ((Expr.leaf none "a" (Regex.compile? "a" false)).attempt
      ⟨cursor.buffer, ⟨0, 2⟩⟩).result = .ok (.leaf ⟨⟨0, 2⟩, ⟨0, 3⟩, none, "a"⟩ "a" []) := by
    decide +kernel
  refine ⟨valid, ⟨[1, 0], _, _, .take (by simp) rfl long (by simp)
    (.take (by simp) rfl (moved ▸ short) (by simp) (.done _ _ _)), Nat.le_refl _, ?_⟩, failed, ?_⟩
  · intro most upper
    obtain rfl := Option.some.inj upper
    exact Nat.le_refl _
  · rintro ⟨found, matched⟩
    cases failed.symm.trans matched

end Expr

end LineGrammar
