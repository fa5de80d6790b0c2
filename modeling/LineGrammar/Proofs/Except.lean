import Mathlib.Data.List.Forall2

/-!
Computations that may fail, one after another and for each member of a list. They
succeed together exactly if each of them succeeds with what it is given.
-/

namespace LineGrammar

variable {Input Output Fault : Type}

theorem bind_eq_ok_iff {First Result : Type} (first : Except Fault First)
    (next : First → Except Fault Result) (result : Result) :
    (do next (← first)) = .ok result ↔ ∃ middle, first = .ok middle ∧ next middle = .ok result := by
  cases first with
  | error fault => simp [bind, Except.bind]
  | ok middle => simp [bind, Except.bind]

theorem mapM_eq_ok_iff (convert : Input → Except Fault Output) (inputs : List Input)
    (outputs : List Output) :
    inputs.mapM convert = .ok outputs ↔
      List.Forall₂ (fun input output => convert input = .ok output) inputs outputs := by
  induction inputs generalizing outputs with
  | nil => simp [pure, Except.pure, eq_comm]
  | cons input inputs induction =>
      simp only [List.mapM_cons, bind_eq_ok_iff, induction, List.forall₂_cons_left_iff]
      constructor
      · rintro ⟨output, first, later, rest, ⟨⟩⟩
        exact ⟨output, later, first, rest, rfl⟩
      · rintro ⟨output, later, first, rest, rfl⟩
        exact ⟨output, first, later, rest, rfl⟩

theorem forall₂_ok_iff {convert : Input → Except Fault Output} {inputs : List Input}
    {outputs : List Output} :
    List.Forall₂ (fun input output => convert input = .ok output) inputs outputs ↔
      inputs.map convert = outputs.map .ok := by
  rw [← List.forall₂_eq_eq_eq, List.forall₂_map_left_iff, List.forall₂_map_right_iff]

/-! Lists that are related member by member. -/

variable {related : Input → Output → Prop} {inputs : List Input} {outputs : List Output}

theorem exists_forall₂_iff :
    (∃ outputs, List.Forall₂ related inputs outputs) ↔
      ∀ input ∈ inputs, ∃ output, related input output := by
  induction inputs with
  | nil => exact iff_of_true ⟨[], .nil⟩ (by simp)
  | cons input later induction =>
      rw [List.forall_mem_cons, ← induction]
      constructor
      · rintro ⟨_, all⟩
        obtain ⟨output, others, first, rest, _⟩ := List.forall₂_cons_left_iff.mp all
        exact ⟨⟨output, first⟩, others, rest⟩
      · rintro ⟨⟨output, first⟩, others, rest⟩
        exact ⟨output :: others, .cons first rest⟩

theorem exists_of_mem_right (all : List.Forall₂ related inputs outputs) {output : Output}
    (member : output ∈ outputs) : ∃ input ∈ inputs, related input output := by
  induction all with
  | nil => simp at member
  | @cons input other later others first _ induction =>
      rcases List.mem_cons.mp member with rfl | isOther
      · exact ⟨input, by simp, first⟩
      · obtain ⟨found, isLater, holds⟩ := induction isOther
        exact ⟨found, by simp [isLater], holds⟩

end LineGrammar
