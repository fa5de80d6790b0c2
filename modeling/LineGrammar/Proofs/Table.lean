import LineGrammar.Table
import Mathlib.Data.List.Nodup

/-!
How tables are read after a name was given a value. The name then has that value
and the others have theirs; a name that is new comes last, and no name comes
twice. In a table without repeated names the entries are what looking up finds.
-/

namespace LineGrammar.Table

variable {Value : Type} {table : Table Value}

theorem get?_set (table : Table Value) (name other : String) (value : Value) :
    (table.set name value).get? other = if other = name then some value else table.get? other := by
  induction table with
  | nil =>
      by_cases same : other = name <;>
        simp [set, get?, List.lookup_cons, same, beq_false_of_ne]
  | cons entry rest induction =>
      obtain ⟨first, old⟩ := entry
      unfold get? at induction ⊢
      unfold set
      split
      · rename_i here
        subst here
        by_cases same : other = first <;> simp [List.lookup_cons, same, beq_false_of_ne]
      · rename_i elsewhere
        by_cases same : other = first
        · subst same
          simp [elsewhere]
        · simp only [List.lookup_cons, beq_false_of_ne same, induction]

theorem mem_set {name : String} {value : Value} {entry : String × Value}
    (member : entry ∈ table.set name value) : entry.2 = value ∨ entry ∈ table := by
  induction table with
  | nil =>
      rw [List.mem_singleton.mp member]
      exact .inl rfl
  | cons first rest induction =>
      unfold set at member
      split at member
      · rcases List.mem_cons.mp member with rfl | old
        · exact .inl rfl
        · exact .inr (List.mem_cons_of_mem _ old)
      · rcases List.mem_cons.mp member with rfl | old
        · exact .inr List.mem_cons_self
        · rcases induction old with new | old
          · exact .inl new
          · exact .inr (List.mem_cons_of_mem _ old)

theorem mem_of_get? {name : String} {value : Value} (found : table.get? name = some value) :
    (name, value) ∈ table := by
  obtain ⟨earlier, later, listed, _⟩ := List.lookup_eq_some_iff.mp found
  simp [listed]

theorem mem_names_iff {name : String} : name ∈ table.names ↔ (table.get? name).isSome = true := by
  rw [← Option.ne_none_iff_isSome, get?, ne_eq, List.lookup_eq_none_iff]
  simp [names]

theorem names_set_of_mem {name : String} (value : Value) (there : name ∈ table.names) :
    (table.set name value).names = table.names := by
  induction table with
  | nil => cases there
  | cons entry rest induction =>
      obtain ⟨first, old⟩ := entry
      unfold set
      split
      · rename_i same
        rw [same]
        rfl
      · rename_i different
        have later : name ∈ names rest := by
          rcases List.mem_cons.mp there with same | later
          · exact absurd same.symm different
          · exact later
        exact congrArg (first :: ·) (induction later)

theorem names_set_of_not_mem {name : String} (value : Value) (new : name ∉ table.names) :
    (table.set name value).names = table.names ++ [name] := by
  induction table with
  | nil => rfl
  | cons entry rest induction =>
      obtain ⟨first, old⟩ := entry
      obtain ⟨different, later⟩ := List.ne_and_not_mem_of_not_mem_cons new
      rw [set, if_neg (Ne.symm different)]
      exact congrArg (first :: ·) (induction later)

theorem nodup_names_set {name : String} (value : Value) (distinct : table.names.Nodup) :
    (table.set name value).names.Nodup := by
  by_cases there : name ∈ table.names
  · rw [names_set_of_mem value there]
    exact distinct
  · rw [names_set_of_not_mem value there]
    exact List.nodup_append.mpr ⟨distinct, List.nodup_singleton name, by
      rintro other old _ last rfl
      exact there (List.mem_singleton.mp last ▸ old)⟩

theorem mem_iff_get? {name : String} {value : Value} (distinct : table.names.Nodup) :
    (name, value) ∈ table ↔ table.get? name = some value := by
  constructor
  · intro member
    obtain ⟨given, found⟩ := Option.isSome_iff_exists.mp
      (mem_names_iff.mp (List.mem_map_of_mem member))
    have same := List.inj_on_of_nodup_map distinct member (mem_of_get? found) rfl
    rw [found, (Prod.mk.inj same).2]
  · exact mem_of_get?

end LineGrammar.Table
