import LineGrammar.Proofs.Cursor.Within
import LineGrammar.Proofs.Expr.Placement

/-!
Searching for the matches of an expression. A search goes from place to place,
one character or line break further each time, up to the first place where the
expression matches, and after a match it goes on behind it. So it passes over no
place at which the expression would match, except for those inside of a match.
Every match brings the search further on, also one without width, and therefore
it comes to the end of the buffer.
-/

namespace LineGrammar

namespace Cursor

variable {cursor place : Cursor}

theorem Valid.remaining_lt (valid : cursor.Valid) (within : cursor.Within place)
    (later : cursor.position < place.position) : place.remaining < cursor.remaining := by
  rcases (within.onward valid (Position.not_lt_of_le (Position.le_of_lt later))).onward with
    stays | less
  · rw [stays] at later
    exact absurd later (Position.not_lt_self _)
  · exact less

theorem Valid.advance_one_le (valid : cursor.Valid) (within : cursor.Within place)
    (later : cursor.position < place.position) :
    (cursor.advance 1).position ≤ place.position := by
  apply Position.le_of_not_lt
  intro before
  have ahead := (valid.onward_advance 1).within
  have back : place.Within (cursor.advance 1) :=
    ⟨ahead.buffer.trans within.buffer.symm, ahead.valid⟩
  have first := valid.remaining_lt within later
  have second := within.valid.remaining_lt back before
  have left := valid.remaining_advance 1
  omega

theorem Valid.lt_advance_one (valid : cursor.Valid) (inside : cursor.atEnd = false) :
    cursor.position < (cursor.advance 1).position := by
  have onward := valid.onward_advance 1
  apply Position.lt_of_le_of_ne (Position.le_of_not_lt (onward.not_back valid))
  intro same
  have some := remaining_pos inside
  have left := valid.remaining_advance 1
  have unmoved : (cursor.advance 1).remaining = cursor.remaining := by
    rw [remaining, ← same, onward.buffer, remaining]
  omega

theorem lt_bufferEnd_iff : cursor.position < bufferEnd cursor.buffer ↔ cursor.atEnd = false := by
  rw [atEnd, decide_eq_false_iff_not]
  constructor
  · rintro (line | ⟨_, column⟩)
    · exact Nat.not_le.mpr line
    · exact absurd column (Nat.not_lt_zero _)
  · intro inside
    exact .inl (Nat.not_le.mp inside)

end Cursor

theorem Match.Covers.cursor_eq {before after : Cursor} {found : Match}
    (covers : found.Covers before after) : after = ⟨before.buffer, found.stop⟩ := by
  rw [covers.stop, ← covers.leads.buffer]

namespace Expr

/-- Whether an expression fails at all places of a buffer from one position on,
up to another that is not counted. -/
def FailsBetween (expr : Expr) (buffer : Buffer) (start stop : Position) : Prop :=
  ∀ place : Cursor, place.buffer = buffer → place.Valid → start ≤ place.position →
    place.position < stop → ∃ error, (expr.attempt place).result = .error error

/-- Where a search goes on after a match: where the match ends, and one character
or line break further if it has no width. -/
def resumption (buffer : Buffer) (found : Match) : Position :=
  let stop : Cursor := ⟨buffer, found.stop⟩
  if found.isEmpty then (stop.advance 1).position else stop.position

/-- Whether a match is that of the first place from a position on, before the end
of the buffer, at which an expression matches. -/
structure FirstHit (expr : Expr) (buffer : Buffer) (start : Position) (found : Match) : Prop where
  reached : start ≤ found.start
  inside : found.start < Cursor.bufferEnd buffer
  valid : (⟨buffer, found.start⟩ : Cursor).Valid
  passed : expr.FailsBetween buffer start found.start
  outcome : (expr.attempt ⟨buffer, found.start⟩).result = .ok found

/-- `Scan expr buffer start found` says that `found` are the matches of a scan
from a position to the end of the buffer: the first hit, the first hit from where
the search goes on after that, and so on, until there is none. -/
inductive Scan (expr : Expr) (buffer : Buffer) : Position → List Match → Prop
  | ended {start : Position} (fails : expr.FailsBetween buffer start (Cursor.bufferEnd buffer)) :
      Scan expr buffer start []
  | hit {start : Position} {found : Match} {later : List Match}
      (first : FirstHit expr buffer start found)
      (rest : Scan expr buffer (resumption buffer found) later) :
      Scan expr buffer start (found :: later)

variable {expr : Expr} {buffer : Buffer} {start : Position} {found : Match} {cursor : Cursor}

theorem FirstHit.unique {other : Match} (hit : FirstHit expr buffer start found)
    (hit' : FirstHit expr buffer start other) : other = found := by
  have notBefore : ∀ {first second : Match}, FirstHit expr buffer start first →
      FirstHit expr buffer start second → ¬first.start < second.start := by
    intro first second early late before
    obtain ⟨error, failed⟩ := late.passed ⟨buffer, first.start⟩ rfl early.valid early.reached before
    rw [early.outcome] at failed
    cases failed
  have same : other.start = found.start :=
    Position.le_antisymm (Position.le_of_not_lt (notBefore hit hit'))
      (Position.le_of_not_lt (notBefore hit' hit))
  have outcome := hit'.outcome
  rw [same, hit.outcome] at outcome
  cases outcome
  rfl

theorem FirstHit.not_fails (hit : FirstHit expr buffer start found) :
    ¬expr.FailsBetween buffer start (Cursor.bufferEnd buffer) := by
  intro fails
  obtain ⟨error, failed⟩ := fails ⟨buffer, found.start⟩ rfl hit.valid hit.reached hit.inside
  rw [hit.outcome] at failed
  cases failed

theorem FailsBetween.of_next {stop : Position} (valid : cursor.Valid)
    (failed : ∃ error, (expr.attempt cursor).result = .error error)
    (later : expr.FailsBetween cursor.buffer (cursor.advance 1).position stop) :
    expr.FailsBetween cursor.buffer cursor.position stop := by
  intro place same standing reached before
  by_cases here : place = cursor
  · rw [here]
    exact failed
  · have ahead : cursor.position < place.position := by
      apply Position.lt_of_le_of_ne reached
      intro position
      apply here
      cases place
      cases cursor
      cases same
      cases position
      rfl
    exact later place same standing (valid.advance_one_le ⟨same, standing⟩ ahead) before

theorem FirstHit.of_next (valid : cursor.Valid)
    (failed : ∃ error, (expr.attempt cursor).result = .error error)
    (hit : FirstHit expr cursor.buffer (cursor.advance 1).position found) :
    FirstHit expr cursor.buffer cursor.position found where
  reached := by
    have onward := Position.le_of_not_lt ((valid.onward_advance 1).not_back valid)
    exact Position.le_trans onward hit.reached
  inside := hit.inside
  valid := hit.valid
  passed := hit.passed.of_next valid failed
  outcome := hit.outcome

theorem firstHit_here (valid : cursor.Valid) (inside : cursor.atEnd = false)
    (outcome : (expr.attempt cursor).result = .ok found) :
    FirstHit expr cursor.buffer cursor.position found := by
  have start := (covers_of_attempt valid outcome).start
  have here : (⟨cursor.buffer, found.start⟩ : Cursor) = cursor := by rw [start]
  refine ⟨start ▸ Position.le_rfl, start ▸ Cursor.lt_bufferEnd_iff.mpr inside, here ▸ valid, ?_,
    here ▸ outcome⟩
  intro place _ _ reached before
  rw [start] at before
  exact absurd before (Position.not_lt_of_le reached)

/-- What a search comes to that may try more places than are left: to the first
hit, behind which it leaves the cursor, or to the end of the buffer. -/
theorem findWithin_cases {limit : Nat} (valid : cursor.Valid) (enough : cursor.remaining < limit) :
    let search := findWithin expr.attempt limit cursor
    (∃ found, search.found = some found ∧ FirstHit expr cursor.buffer cursor.position found ∧
      search.cursor = ⟨cursor.buffer, resumption cursor.buffer found⟩) ∨
    (search.found = none ∧
      expr.FailsBetween cursor.buffer cursor.position (Cursor.bufferEnd cursor.buffer) ∧
      search.cursor = ⟨cursor.buffer, Cursor.bufferEnd cursor.buffer⟩) := by
  induction limit generalizing cursor with
  | zero => exact absurd enough (Nat.not_lt_zero _)
  | succ limit induction =>
      cases ended : cursor.atEnd with
      | true =>
          have place := valid.atEnd_eq ended
          simp only [findWithin, ended, if_true]
          right
          refine ⟨trivial, ?_, by rw [← place]⟩
          intro other same standing reached before
          rw [place] at reached
          exact absurd before (Position.not_lt_of_le reached)
      | false =>
          cases outcome : (expr.attempt cursor).result with
          | ok found =>
              have there := (covers_of_attempt valid outcome).cursor_eq
              simp only [findWithin, ended, Bool.false_eq_true, if_false, outcome, there]
              left
              refine ⟨found, rfl, firstHit_here valid ended outcome, ?_⟩
              cases width : found.isEmpty with
              | true =>
                  simp only [resumption, width, if_true]
                  rfl
              | false => simp only [resumption, width, Bool.false_eq_true, if_false]
          | error error =>
              have back := (expr.attempt_sound.refuses valid outcome).2
              have fewer : (cursor.advance 1).remaining < limit := by
                have left := valid.remaining_advance 1
                have some := Cursor.remaining_pos ended
                omega
              have rest := induction (valid.onward_advance 1).valid fewer
              simp only [findWithin, ended, Bool.false_eq_true, if_false, outcome, back]
              rcases rest with ⟨found, located, hit, behind⟩ | ⟨located, fails, behind⟩
              · exact .inl ⟨found, located, hit.of_next valid ⟨error, outcome⟩, behind⟩
              · exact .inr ⟨located, fails.of_next valid ⟨error, outcome⟩, behind⟩

/-- A search tries enough places: none is left out for want of a trial. -/
theorem find_cases (expr : Expr) (valid : cursor.Valid) :
    (∃ found, (expr.find cursor).found = some found ∧
      FirstHit expr cursor.buffer cursor.position found ∧
      (expr.find cursor).cursor = ⟨cursor.buffer, resumption cursor.buffer found⟩) ∨
    ((expr.find cursor).found = none ∧
      expr.FailsBetween cursor.buffer cursor.position (Cursor.bufferEnd cursor.buffer) ∧
      (expr.find cursor).cursor = ⟨cursor.buffer, Cursor.bufferEnd cursor.buffer⟩) :=
  findWithin_cases valid (Nat.lt_succ_of_le cursor.remaining_le_charCount)

theorem FirstHit.goes_on (hit : FirstHit expr buffer start found) :
    (⟨buffer, resumption buffer found⟩ : Cursor).Valid ∧
      found.start < resumption buffer found ∧ found.stop ≤ resumption buffer found := by
  have covers := covers_of_attempt hit.valid hit.outcome
  have stop : (⟨buffer, found.stop⟩ : Cursor).Valid := covers.cursor_eq ▸ covers.leads.valid
  cases width : found.isEmpty with
  | true =>
      have same : found.start = found.stop := eq_of_beq width
      have inside : (⟨buffer, found.stop⟩ : Cursor).atEnd = false := by
        apply Cursor.lt_bufferEnd_iff.mp
        rw [← same]
        exact hit.inside
      have further := stop.lt_advance_one inside
      simp only [resumption, width, if_true]
      exact ⟨(stop.onward_advance 1).valid, same ▸ further, Position.le_of_lt further⟩
  | false =>
      have apart : found.start ≠ found.stop := ne_of_beq_false width
      simp only [resumption, width, Bool.false_eq_true, if_false]
      exact ⟨stop, Position.lt_of_le_of_ne covers.placed.forward apart, Position.le_rfl⟩

theorem FirstHit.remaining_lt (hit : FirstHit expr cursor.buffer cursor.position found)
    (valid : cursor.Valid) :
    (⟨cursor.buffer, resumption cursor.buffer found⟩ : Cursor).remaining < cursor.remaining := by
  obtain ⟨ahead, further, _⟩ := hit.goes_on
  have place : cursor.Within ⟨cursor.buffer, found.start⟩ := ⟨rfl, hit.valid⟩
  have reached := (place.onward valid (Position.not_lt_of_le hit.reached)).remaining_le
  have behind : (⟨cursor.buffer, found.start⟩ : Cursor).Within
      ⟨cursor.buffer, resumption cursor.buffer found⟩ := ⟨rfl, ahead⟩
  have less := hit.valid.remaining_lt behind further
  exact Nat.lt_of_lt_of_le less reached

theorem exists_scan (expr : Expr) (valid : cursor.Valid) :
    ∃ matched, Scan expr cursor.buffer cursor.position matched ∧
      matched.length ≤ cursor.remaining := by
  -- Every hit uses up something, so the induction is on what is left of the buffer.
  induction left : cursor.remaining using Nat.strongRecOn generalizing cursor with
  | _ count induction =>
      rcases expr.find_cases valid with ⟨found, _, hit, _⟩ | ⟨_, fails, _⟩
      · have less := hit.remaining_lt valid
        rw [left] at less
        obtain ⟨later, rest, few⟩ := induction _ less hit.goes_on.1 rfl
        exact ⟨found :: later, .hit hit rest, Nat.le_trans (Nat.succ_le_succ few) less⟩
      · exact ⟨[], .ended fails, Nat.zero_le _⟩

theorem Scan.findAll_eq {matched : List Match} (scan : Scan expr buffer start matched)
    (valid : (⟨buffer, start⟩ : Cursor).Valid) (limit : Nat) :
    (expr.findAll limit ⟨buffer, start⟩).found = matched.take limit ∧
      (matched.length < limit →
        (expr.findAll limit ⟨buffer, start⟩).cursor = ⟨buffer, Cursor.bufferEnd buffer⟩) := by
  induction scan generalizing limit with
  | ended fails =>
      cases limit with
      | zero => exact ⟨rfl, fun some => absurd some (Nat.not_lt_zero _)⟩
      | succ limit =>
          rcases expr.find_cases valid with ⟨found, _, hit, _⟩ | ⟨located, _, behind⟩
          · exact absurd fails hit.not_fails
          · simp only [findAll, located]
            exact ⟨rfl, fun _ => behind⟩
  | hit first rest induction =>
      cases limit with
      | zero => exact ⟨rfl, fun some => absurd some (Nat.not_lt_zero _)⟩
      | succ limit =>
          rcases expr.find_cases valid with ⟨found, located, hit, behind⟩ | ⟨_, fails, _⟩
          · obtain ⟨later, ends⟩ := induction first.goes_on.1 limit
            rw [first.unique hit] at located behind
            simp only [findAll, located, behind, later]
            exact ⟨rfl, fun enough => ends (Nat.lt_of_succ_lt_succ enough)⟩
          · exact absurd fails first.not_fails

theorem Scan.unique {matched other : List Match} (scan : Scan expr buffer start matched)
    (scan' : Scan expr buffer start other) (valid : (⟨buffer, start⟩ : Cursor).Valid) :
    other = matched := by
  have all := (scan.findAll_eq valid (max matched.length other.length)).1
  have all' := (scan'.findAll_eq valid (max matched.length other.length)).1
  rw [List.take_of_length_le (Nat.le_max_left ..)] at all
  rw [List.take_of_length_le (Nat.le_max_right ..)] at all'
  exact all'.symm.trans all

theorem Scan.reached {matched : List Match} (scan : Scan expr buffer start matched) :
    ∀ found ∈ matched, start ≤ found.start ∧
      (expr.attempt ⟨buffer, found.start⟩).result = .ok found := by
  induction scan with
  | ended => exact fun _ none => absurd none List.not_mem_nil
  | hit first _ induction =>
      intro found member
      rcases List.mem_cons.mp member with rfl | later
      · exact ⟨first.reached, first.outcome⟩
      · obtain ⟨ahead, outcome⟩ := induction found later
        have before := Position.le_of_lt first.goes_on.2.1
        exact ⟨Position.le_trans first.reached (Position.le_trans before ahead), outcome⟩

theorem Scan.pairwise {matched : List Match} (scan : Scan expr buffer start matched) :
    matched.Pairwise fun earlier later =>
      earlier.start < later.start ∧ earlier.stop ≤ later.start := by
  induction scan with
  | ended => exact .nil
  | hit first rest induction =>
      obtain ⟨_, further, behind⟩ := first.goes_on
      apply List.Pairwise.cons _ induction
      intro later member
      have ahead := (rest.reached later member).1
      exact ⟨Position.lt_of_lt_of_le further ahead, Position.le_trans behind ahead⟩

/-- Looking for the matches of an expression comes to an end, at the end of the
buffer, and gives the matches of the one scan from the cursor on: every match is
that of the first place from where the scan goes on at which the expression
matches, and after the last one it matches nowhere. The scan goes on where a
match ends, and one character further after a match without width. So the matches
start one after the other and do not overlap. -/
theorem findAll_gives_matches_of_scan (expr : Expr) (cursor : Cursor) (valid : cursor.Valid) :
    ∃ matched, Scan expr cursor.buffer cursor.position matched ∧
      (∀ other, Scan expr cursor.buffer cursor.position other → other = matched) ∧
      matched.length ≤ cursor.buffer.charCount ∧
      (∀ limit, (expr.findAll limit cursor).found = matched.take limit) ∧
      (∀ limit, matched.length < limit → (expr.findAll limit cursor).found = matched ∧
        (expr.findAll limit cursor).cursor =
          ⟨cursor.buffer, Cursor.bufferEnd cursor.buffer⟩) ∧
      (∀ found ∈ matched, (expr.attempt ⟨cursor.buffer, found.start⟩).result = .ok found) ∧
      matched.Pairwise fun earlier later =>
        earlier.start < later.start ∧ earlier.stop ≤ later.start := by
  obtain ⟨matched, scan, few⟩ := expr.exists_scan valid
  refine ⟨matched, scan, fun other scan' => scan.unique scan' valid,
    Nat.le_trans few cursor.remaining_le_charCount,
    fun limit => (scan.findAll_eq valid limit).1, ?_,
    fun found member => (scan.reached found member).2, scan.pairwise⟩
  intro limit enough
  obtain ⟨taken, ends⟩ := scan.findAll_eq valid limit
  rw [List.take_of_length_le (Nat.le_of_lt enough)] at taken
  exact ⟨taken, ends enough⟩

/-- Any number of letters, also none, are found at the places where there are
none: before and after those of the first line, and in the empty line below. -/
theorem empty_matches_are_found_at_every_place :
    let cursor : Cursor := ⟨.ofLines ["ba", ""], ⟨0, 0⟩⟩
    let expr := Expr.leaf none "a*" (Regex.compile? "a*" false)
    let matched := [Match.leaf ⟨⟨0, 0⟩, ⟨0, 0⟩, none, ""⟩ "a*" [],
      .leaf ⟨⟨0, 1⟩, ⟨0, 2⟩, none, "a"⟩ "a*" [], .leaf ⟨⟨0, 2⟩, ⟨0, 2⟩, none, ""⟩ "a*" [],
      .leaf ⟨⟨1, 0⟩, ⟨1, 0⟩, none, ""⟩ "a*" []]
    cursor.Valid ∧ (expr.findAll 5 cursor).found = matched ∧
      Scan expr cursor.buffer cursor.position matched := by
  intro cursor expr matched
  have valid : cursor.Valid := by decide
  have outcome : (expr.findAll 5 cursor).found = matched := by decide +kernel
  obtain ⟨all, scan, _, _, taken, _⟩ := findAll_gives_matches_of_scan expr cursor valid
  have first : all.take 5 = matched := (taken 5).symm.trans outcome
  have few : all.length ≤ 5 := by
    have length := congrArg List.length first
    rw [List.length_take] at length
    change min 5 all.length = 4 at length
    omega
  rw [List.take_of_length_le few] at first
  exact ⟨valid, outcome, first ▸ scan⟩

end Expr

end LineGrammar
