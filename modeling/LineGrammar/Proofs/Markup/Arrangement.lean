import LineGrammar.Parser.Drive
import LineGrammar.Proofs.Session.Trace

/-!
How the scopes of blocks lie in their tree. Paragraphs, fenced code and quotes lie
in the root, and lists also in lists of a smaller indent. A quote that was left
keeps its lines and what they were parsed to.
-/

namespace LineGrammar.Markup.Blocks

/-- The blocks that lie in no other. -/
def blockNames : List String := ["para", "code", "quote"]

/-- Whether a list has an indent, and lies in the root or in a list of a smaller
indent. -/
def Listed (tree : Tree) (id : Nat) : Prop :=
  ∃ indent : Int, tree.valueOf? id "indent" = some (.int indent) ∧
    ∃ parent, tree.parentOf id = some parent ∧
      (parent = Tree.root ∨ tree.nameOf parent = "list" ∧
        ∃ outer : Int, tree.valueOf? parent "indent" = some (.int outer) ∧ outer < indent)

/-- Whether a quote keeps some lines and the tree that they were parsed to. -/
def Requoted (parse : Cursor → Outcome) (tree : Tree) (id : Nat) : Prop :=
  ∃ texts inner, texts ≠ [] ∧ (∀ text ∈ texts, '\n' ∉ text.toList) ∧
    tree.valueOf? id "lines" = some (.list (texts.map .text)) ∧
    (parse ⟨.ofLines texts, .origin⟩).result = .ok inner ∧
    tree.valueOf? id "nested" = some (.text inner.render)

/-- What holds of a scope of blocks when nothing more happens in it itself. -/
structure Settled (parse : Cursor → Outcome) (tree : Tree) (id : Nat) : Prop where
  block : tree.nameOf id ∈ blockNames → tree.parentOf id = some Tree.root
  list : tree.nameOf id = "list" → Listed tree id
  quote : tree.nameOf id = "quote" → Requoted parse tree id

/-- Whether a scope is the same in two trees, and the scope that it lies in has the
same name and indent. -/
structure SameAt (tree tree' : Tree) (id : Nat) : Prop where
  name : tree'.nameOf id = tree.nameOf id
  parent : tree'.parentOf id = tree.parentOf id
  values : ∀ key, tree'.valueOf? id key = tree.valueOf? id key
  around : ∀ outer, tree.parentOf id = some outer → tree'.nameOf outer = tree.nameOf outer ∧
    tree'.valueOf? outer "indent" = tree.valueOf? outer "indent"

variable {parse : Cursor → Outcome} {tree tree' : Tree} {id : Nat} {known : String → Bool}

theorem SameAt.of_unsaved (same : tree'.unsaved = tree.unsaved) (id : Nat) :
    SameAt tree tree' id := by
  have names : ∀ id, tree'.nameOf id = tree.nameOf id := fun id => by
    rw [← Node.erasure_unsaved.nameOf tree', ← Node.erasure_unsaved.nameOf tree]
    exact congrArg (fun tree : Tree => tree.nameOf id) same
  have values : ∀ id key, tree'.valueOf? id key = tree.valueOf? id key := fun id key => by
    rw [← tree'.valueOf?_unsaved, ← tree.valueOf?_unsaved, same]
  refine ⟨names id, ?_, values id, fun outer _ => ⟨names outer, values outer _⟩⟩
  rw [← Node.erasure_unsaved.parentOf tree', ← Node.erasure_unsaved.parentOf tree]
  exact congrArg (fun tree : Tree => tree.parentOf id) same

theorem SameAt.addChild (formed : tree.WellFormed known) (parent : Nat) (name : String)
    (old : id < tree.size) : SameAt tree (tree.addChild parent name) id := by
  have names : ∀ id < tree.size, (tree.addChild parent name).nameOf id = tree.nameOf id := by
    intro id old
    rw [Tree.nameOf_eq, Tree.nameOf_eq, Tree.view_addChild_of_lt (fun _ _ => rfl) parent name old]
  refine ⟨names id old, ?_, fun key => Tree.valueOf?_addChild_of_lt key old, ?_⟩
  · rw [Tree.parentOf_eq, Tree.parentOf_eq,
      Tree.view_addChild_of_lt (fun _ _ => rfl) parent name old]
  · intro outer above
    have older := Nat.lt_trans (formed.parent_lt above).1 old
    exact ⟨names outer older, Tree.valueOf?_addChild_of_lt "indent" older⟩

theorem SameAt.setVariable {target : Nat} {name : String} (value : Value) (other : id ≠ target)
    (apart : name = "indent" → tree.parentOf id ≠ some target) :
    SameAt tree (tree.setVariable target name value) id := by
  refine ⟨Tree.nameOf_setVariable _ _ _ _, Tree.parentOf_setVariable _ _ _ _, ?_, ?_⟩
  · intro key
    exact Tree.valueOf?_setVariable_of_ne fun same => absurd same.symm other
  · intro outer above
    refine ⟨Tree.nameOf_setVariable _ _ _ _, Tree.valueOf?_setVariable_of_ne ?_⟩
    rintro rfl isIndent
    exact apart isIndent.symm above

theorem Listed.congr (listed : Listed tree id) (same : SameAt tree tree' id) : Listed tree' id := by
  obtain ⟨indent, value, parent, above, lies⟩ := listed
  refine ⟨indent, (same.values _).trans value, parent, same.parent.trans above, ?_⟩
  obtain ⟨name, outer⟩ := same.around parent above
  rw [name, outer]
  exact lies

theorem Requoted.congr (requoted : Requoted parse tree id) (same : SameAt tree tree' id) :
    Requoted parse tree' id := by
  simpa only [Requoted, same.values] using requoted

theorem Settled.congr (settled : Settled parse tree id) (same : SameAt tree tree' id) :
    Settled parse tree' id where
  block isBlock := by
    rw [same.name] at isBlock
    exact same.parent.trans (settled.block isBlock)
  list isList := by
    rw [same.name] at isList
    exact (settled.list isList).congr same
  quote isQuote := by
    rw [same.name] at isQuote
    exact (settled.quote isQuote).congr same

end LineGrammar.Markup.Blocks
