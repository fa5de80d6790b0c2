import LineGrammar.Expr.Attempt
import LineGrammar.Proofs.Cursor.Bare

/-!
Attempts on bare buffers. No attempt takes notice of line endings: at the same
place of the bare buffer it comes to the same result and leaves the cursor at the
same place. This holds of leaves, every combination keeps it, and so it holds of
all expressions; only the traces differ, since they show the cursors themselves.
-/

namespace LineGrammar

/-- Whether a trial has come to the same as another, on the bare buffer. -/
structure Trial.Mirrors {Result : Type} (mirror trial : Trial Result) : Prop where
  result : mirror.result = trial.result
  cursor : mirror.cursor = trial.cursor.bare

namespace Trial.Mirrors

variable {Result Other : Type} {mirror trial : Trial Result}

theorem after (mirrors : mirror.Mirrors trial) (notes notes' : List Note) :
    (mirror.after notes).Mirrors (trial.after notes') := ⟨mirrors.result, mirrors.cursor⟩

theorem map (mirrors : mirror.Mirrors trial) (change : Result → Other) :
    (mirror.map change).Mirrors (trial.map change) := by
  refine ⟨?_, mirrors.cursor⟩
  simp only [Trial.map, mirrors.result]

theorem moveTo (mirrors : mirror.Mirrors trial) (result : Except Error Other) (place : Position)
    (notes notes' : List Note) :
    Mirrors ⟨result, mirror.cursor.moveTo place, notes⟩
      ⟨result, trial.cursor.moveTo place, notes'⟩ := by
  refine ⟨rfl, ?_⟩
  rw [mirrors.cursor, Cursor.bare_moveTo]

theorem compose {mirror trial : Trial (List Match)} (mirrors : mirror.Mirrors trial)
    (start : Position) (origin : Origin) :
    (Attempt.compose start origin mirror).Mirrors (Attempt.compose start origin trial) := by
  unfold Attempt.compose
  rw [mirrors.cursor, Cursor.bare_position, Cursor.bare_textFrom]
  exact mirrors.map _

end Trial.Mirrors

namespace Attempt

/-- Whether an attempt takes no notice of line endings. -/
def Indifferent (attempt : Attempt) : Prop :=
  ∀ cursor : Cursor, (attempt cursor.bare).Mirrors (attempt cursor)

theorem leafText_bare (regex : Option Regex) (cursor : Cursor) :
    leafText regex cursor.bare = leafText regex cursor := by
  cases regex with
  | none => rfl
  | some regex => simp only [leafText, Cursor.bare_matchRegex, Cursor.bare_text]

theorem leaf_indifferent (source : String) (regex : Option Regex) :
    (leaf source regex).Indifferent := by
  intro cursor
  unfold leaf
  simp only [leafText_bare, Cursor.bare_position, Cursor.bare_skipBytes]
  cases leafText regex cursor with
  | none => exact ⟨rfl, rfl⟩
  | some found => exact ⟨rfl, rfl⟩

theorem items_mirrors {attempts : List Attempt} (every : ∀ item ∈ attempts, item.Indifferent)
    (start : Position) (skips : SkipPolicy) (budget index skipped : Nat) (cursor : Cursor) :
    (items start skips budget index skipped attempts cursor.bare).Mirrors
      (items start skips budget index skipped attempts cursor) := by
  induction attempts generalizing index skipped cursor with
  | nil => exact ⟨rfl, rfl⟩
  | cons item later induction =>
      have tried := every item (by simp) cursor
      have rest := induction fun other member => every other (by simp [member])
      simp only [items, tried.result]
      cases (item cursor).result with
      | ok found =>
          simp only [tried.cursor]
          exact ((rest _ _ _).map _).after _ _
      | error error =>
          simp only
          split
          · rw [tried.cursor]
            exact (rest _ _ _).after _ _
          · exact tried.moveTo _ start _ _

theorem sequence_indifferent {attempts : List Attempt}
    (every : ∀ item ∈ attempts, item.Indifferent) (skips : SkipPolicy) :
    (sequence skips attempts).Indifferent := by
  intro cursor
  have tried := items_mirrors every cursor.position skips (skips.budget attempts.length) 0 0 cursor
  exact (tried.compose cursor.position .sequence).after _ _

theorem firstMember_mirrors {attempts : List Attempt}
    (every : ∀ member ∈ attempts, member.Indifferent) (cursor : Cursor) :
    (firstMember attempts cursor.bare).Mirrors (firstMember attempts cursor) := by
  induction attempts generalizing cursor with
  | nil => exact ⟨rfl, rfl⟩
  | cons member later induction =>
      have tried := every member (by simp) cursor
      have rest := induction fun other isLater => every other (by simp [isLater])
      simp only [firstMember, tried.result]
      cases (member cursor).result with
      | ok found => exact ⟨rfl, tried.cursor⟩
      | error error =>
          simp only
          split
          · rw [tried.cursor]
            exact ((rest _).map _).after _ _
          · exact ⟨rfl, tried.cursor⟩

theorem mem_of_firstMember {attempts others : List Attempt} {cursor : Cursor} {found : Match}
    (taken : (firstMember attempts cursor).result = .ok (some (found, others))) :
    ∀ other ∈ others, other ∈ attempts := by
  induction attempts generalizing cursor found others with
  | nil => cases taken
  | cons member later induction =>
      simp only [firstMember] at taken
      split at taken
      · cases taken
        intro other isLater
        exact List.mem_cons_of_mem member isLater
      · split at taken
        · cases rest : (firstMember later (member cursor).cursor).result with
          | error error => simp [Trial.after, Trial.map, Except.map, rest] at taken
          | ok answer =>
              cases answer with
              | none => simp [Trial.after, Trial.map, Except.map, rest] at taken
              | some pair =>
                  simp only [Trial.after, Trial.map, Except.map, rest, Option.map_some] at taken
                  cases taken
                  intro other isOther
                  rcases List.mem_cons.mp isOther with rfl | isOther
                  · exact List.mem_cons_self
                  · exact List.mem_cons_of_mem member (induction rest other isOther)
        · cases taken

theorem members_mirrors {attempts : List Attempt}
    (every : ∀ member ∈ attempts, member.Indifferent) (limit : Nat) (cursor : Cursor) :
    (members limit attempts cursor.bare).Mirrors (members limit attempts cursor) := by
  induction limit generalizing attempts cursor with
  | zero => exact ⟨rfl, rfl⟩
  | succ limit induction =>
      have tried := firstMember_mirrors every cursor
      simp only [members, tried.result]
      split
      · exact ⟨rfl, tried.cursor⟩
      · rename_i found others taken
        rw [tried.cursor]
        have remaining : ∀ other ∈ others, other.Indifferent := by
          intro other member
          exact every other (mem_of_firstMember taken other member)
        exact ((induction remaining _).map _).after _ _
      · exact ⟨rfl, tried.cursor⟩

theorem set_indifferent {attempts : List Attempt}
    (every : ∀ member ∈ attempts, member.Indifferent) (bounds : Bounds) :
    (set bounds attempts).Indifferent := by
  intro cursor
  have tried := fun limit => (members_mirrors every limit cursor).after
    [.probed cursor.bare (.set bounds.min bounds.max) .begun]
    [.probed cursor (.set bounds.min bounds.max) .begun]
  simp only [set, Cursor.bare_position, (tried _).result]
  split
  · exact (tried _).moveTo _ cursor.position _ _
  · split
    · exact (tried _).moveTo _ cursor.position _ _
    · exact (tried _).compose cursor.position .set

theorem separate_mirrors {separator : Option Attempt}
    (each : ∀ attempt ∈ separator, attempt.Indifferent) (count : Nat) (cursor : Cursor) :
    (separate separator count cursor.bare).Mirrors (separate separator count cursor) := by
  cases separator with
  | none => exact ⟨rfl, rfl⟩
  | some attempt =>
      simp only [separate]
      split
      · exact ⟨rfl, rfl⟩
      · exact (each attempt rfl cursor).map _

theorem rounds_mirrors {item : Attempt} {separator : Option Attempt} (even : item.Indifferent)
    (each : ∀ attempt ∈ separator, attempt.Indifferent) (start : Position) (upper : Option Nat)
    (limit count : Nat) (cursor : Cursor) :
    (rounds start item separator upper limit count cursor.bare).Mirrors
      (rounds start item separator upper limit count cursor) := by
  induction limit generalizing count cursor with
  | zero => exact ⟨rfl, rfl⟩
  | succ limit induction =>
      have lead := separate_mirrors each count cursor
      have tried := even (separate separator count cursor).cursor
      rw [← lead.cursor] at tried
      simp only [rounds, lead.result]
      split
      · exact ⟨rfl, rfl⟩
      · cases (separate separator count cursor).result with
        | error error =>
            simp only
            split
            · exact ⟨rfl, lead.cursor⟩
            · exact lead.moveTo _ start _ _
        | ok nothing =>
            have tried := tried.after (separate separator count cursor.bare).trace
              (separate separator count cursor).trace
            simp only [tried.result]
            split
            · simp only [tried.cursor, Cursor.bare_position]
              split
              · exact ⟨rfl, rfl⟩
              · exact ((induction _ _).map _).after _ _
            · split
              · exact tried.moveTo _ cursor.position _ _
              · exact tried.moveTo _ start _ _

theorem repetition_indifferent {item : Attempt} {separator : Option Attempt}
    (even : item.Indifferent) (each : ∀ attempt ∈ separator, attempt.Indifferent)
    (multiplicity : Multiplicity) : (repetition multiplicity item separator).Indifferent := by
  intro cursor
  simp only [repetition, Cursor.bare_position, Cursor.bare_rest]
  have tried := (rounds_mirrors even each cursor.position multiplicity.upperBound
    (cursor.rest.length + 1) 0 cursor).after
    [.probed cursor.bare (.repetition multiplicity) .begun]
    [.probed cursor (.repetition multiplicity) .begun]
  rw [tried.result]
  split
  · exact ⟨rfl, tried.cursor⟩
  · split
    · exact tried.compose cursor.position .repetition
    · exact tried.moveTo _ cursor.position _ _

theorem tagged_indifferent {attempt : Attempt} (even : attempt.Indifferent) (tag : Option String) :
    (tagged tag attempt).Indifferent := by
  intro cursor
  exact (even cursor).map _

end Attempt

namespace Expr

mutual

/-- No expression takes notice of line endings. -/
theorem attempt_indifferent (expr : Expr) : expr.attempt.Indifferent := by
  match expr with
  | .leaf name source regex =>
      rw [attempt]
      exact Attempt.tagged_indifferent (Attempt.leaf_indifferent source regex) name
  | .sequence name items skips =>
      rw [attempt]
      apply Attempt.tagged_indifferent
      exact Attempt.sequence_indifferent (attempts_indifferent items) skips
  | .set name items bounds =>
      rw [attempt]
      apply Attempt.tagged_indifferent
      exact Attempt.set_indifferent (attempts_indifferent items) bounds
  | .repetition name item multiplicity separator =>
      rw [attempt]
      apply Attempt.tagged_indifferent
      exact Attempt.repetition_indifferent (attempt_indifferent item)
        (attempt?_indifferent separator) multiplicity

theorem attempts_indifferent (items : List Expr) :
    ∀ item ∈ attempts items, item.Indifferent := by
  match items with
  | [] =>
      intro item member
      cases member
  | first :: rest =>
      intro item member
      rw [attempts] at member
      rcases List.mem_cons.mp member with rfl | member
      · exact attempt_indifferent first
      · exact attempts_indifferent rest item member

theorem attempt?_indifferent (expr : Option Expr) :
    ∀ item ∈ attempt? expr, item.Indifferent := by
  match expr with
  | none =>
      intro item member
      cases member
  | some expr =>
      intro item member
      rw [attempt?] at member
      cases member
      exact attempt_indifferent expr

end

end Expr

end LineGrammar
