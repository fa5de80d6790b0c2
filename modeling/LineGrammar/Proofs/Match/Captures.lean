import LineGrammar.Proofs.Match.Nodes
import LineGrammar.Proofs.Table
import Mathlib.Data.List.Induction

/-!
What is kept under the tags of a match tree. Going over the nodes, each node
changes what is kept under its own tag and nothing else, so under a tag stands
what its nodes alone have made of it: in one table all of them in the order of
the visit, in the other the last of them.
-/

namespace LineGrammar.Match

section Keeping

variable {Kept : Type} {change : Option Kept → Match → Kept}

theorem get?_keep (table : Table Kept) (found : Match) (tag : String) :
    (keep change table found).get? tag =
      if found.tag = some tag then some (change (table.get? tag) found) else table.get? tag := by
  unfold keep
  cases carried : found.tag with
  | none => simp
  | some other =>
      by_cases same : other = tag
      · subst same
        simp [Table.get?_set]
      · simp [Table.get?_set, same, Ne.symm same]

theorem get?_foldl_keep (visited : List Match) (table : Table Kept) (tag : String) :
    (visited.foldl (keep change) table).get? tag =
      (visited.filter (·.tag == some tag)).foldl (fun kept node => some (change kept node))
        (table.get? tag) := by
  induction visited generalizing table with
  | nil => rfl
  | cons node rest induction =>
      rw [List.foldl_cons, induction, get?_keep]
      by_cases carried : node.tag = some tag <;> simp [carried]

theorem nodup_names_foldl_keep (visited : List Match) {table : Table Kept}
    (distinct : table.names.Nodup) : (visited.foldl (keep change) table).names.Nodup := by
  induction visited generalizing table with
  | nil => exact distinct
  | cons node rest induction =>
      refine induction ?_
      unfold keep
      cases node.tag with
      | none => exact distinct
      | some tag => exact Table.nodup_names_set _ distinct

end Keeping

theorem foldl_collect (nodes : List Match) :
    nodes.foldl (fun kept node => some (Option.getD kept [] ++ [node])) none =
      if nodes = [] then none else some nodes := by
  induction nodes using List.reverseRecOn with
  | nil => rfl
  | append_singleton earlier last induction =>
      rw [List.foldl_append, induction]
      by_cases first : earlier = [] <;> simp [first]

theorem foldl_last (nodes : List Match) :
    nodes.foldl (fun _ node => some node) none = nodes.getLast? := by
  induction nodes using List.reverseRecOn with
  | nil => rfl
  | append_singleton earlier last induction => simp

theorem get?_captures (found : Match) (tag : String) :
    found.captures.get? tag = if found.tagged tag = [] then none else some (found.tagged tag) := by
  rw [captures, get?_foldl_keep]
  exact foldl_collect _

theorem get?_lastCaptures (found : Match) (tag : String) :
    found.lastCaptures.get? tag = (found.tagged tag).getLast? := by
  rw [lastCaptures, get?_foldl_keep]
  exact foldl_last _

theorem tagged_ne_nil_iff {found : Match} {tag : String} :
    found.tagged tag ≠ [] ↔ ∃ node ∈ found.flatten, node.tag = some tag := by
  simp [tagged, List.filter_eq_nil_iff]

theorem mem_names_captures {found : Match} {tag : String} :
    tag ∈ found.captures.names ↔ ∃ node ∈ found.flatten, node.tag = some tag := by
  rw [Table.mem_names_iff, get?_captures, ← tagged_ne_nil_iff]
  split <;> simp [*]

theorem mem_names_lastCaptures {found : Match} {tag : String} :
    tag ∈ found.lastCaptures.names ↔ ∃ node ∈ found.flatten, node.tag = some tag := by
  rw [Table.mem_names_iff, get?_lastCaptures, ← tagged_ne_nil_iff, List.getLast?_isSome]

end LineGrammar.Match
