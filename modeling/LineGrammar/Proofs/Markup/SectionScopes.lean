import LineGrammar.Markup.Sections
import LineGrammar.Proofs.Parser.Strides
import Mathlib.Data.List.Sort

/-!
The scopes of section documents. A quote, a list or fenced code is opened in the
root and closed before the next one is opened, and items are counted in the root.
So the tree of scopes is known from the blocks opened so far, the one that is open
and the number of items.
-/

namespace LineGrammar

namespace Tree

variable {tree tree' : Tree}

/-- The names of the nodes with the numbers of their parents. -/
def frame (tree : Tree) : List (String × Option Nat) :=
  tree.nodes.toList.map fun node => (node.name, node.parent)

theorem length_frame (tree : Tree) : tree.frame.length = tree.size := by
  simp [frame, size]

theorem frame_update {change : Node → Node} (names : ∀ node, (change node).name = node.name)
    (parents : ∀ node, (change node).parent = node.parent) (id : Nat) :
    (tree.update id change).frame = tree.frame := by
  apply List.ext_getElem?
  intro place
  simp only [frame, List.getElem?_map, Array.getElem?_toList]
  have view := @view_update tree _ (fun node => (node.name, node.parent)) change
    (fun node => by rw [names, parents]) id place
  exact view

theorem frame_addChild (parent : Nat) (name : String) :
    (tree.addChild parent name).frame = tree.frame ++ [(name, some parent)] := by
  have recorded := @frame_update tree (fun node => node.record (.scope tree.size)) (fun _ => rfl)
    (fun _ => rfl) parent
  rw [← recorded]
  simp [frame, addChild, Node.fresh]

theorem frame_setVariable (id : Nat) (name : String) (value : Value) :
    (tree.setVariable id name value).frame = tree.frame := by
  apply frame_update
  · exact fun _ => rfl
  · exact fun _ => rfl

theorem frame_of_unsaved (same : tree'.unsaved = tree.unsaved) : tree'.frame = tree.frame := by
  have kept : ∀ tree : Tree, tree.unsaved.frame = tree.frame := by
    intro tree
    simp [frame, unsaved, mapNodes, Node.unsaved]
  rw [← kept tree', ← kept tree, same]

theorem childrenOf_root {known : String → Bool} {names : List String}
    (formed : tree.WellFormed known)
    (frame : tree.frame = ("main", none) :: names.map fun name => (name, some root)) :
    tree.childrenOf root = List.range' 1 names.length := by
  have size : tree.size = names.length + 1 := by
    rw [← length_frame, frame, List.length_cons, List.length_map]
  have parents : ∀ id, tree.parentOf (id + 1) = some root ↔ id < names.length := by
    intro id
    have place := congrArg (fun frame : List (String × Option Nat) => frame[id + 1]?) frame
    simp only [Tree.frame, List.getElem?_map, Array.getElem?_toList, List.getElem?_cons_succ]
      at place
    rw [parentOf, node?]
    cases found : tree.nodes[id + 1]? with
    | none =>
        have outside : tree.size ≤ id + 1 := Array.getElem?_eq_none_iff.mp found
        simp only [Option.bind_none, reduceCtorEq, false_iff]
        omega
    | some node =>
        rw [found] at place
        obtain ⟨name, given, same⟩ := Option.map_eq_some_iff.mp place.symm
        obtain ⟨inside, _⟩ := List.getElem?_eq_some_iff.mp given
        simpa [inside] using (congrArg Prod.snd same).symm
  apply (formed.increasing root).eq_of_mem_iff List.pairwise_lt_range'
  intro id
  rw [formed.below, List.mem_range'_1]
  cases id with
  | zero => simp [root, show tree.parentOf 0 = none from formed.root_parent]
  | succ id =>
      rw [parents]
      omega

end Tree

end LineGrammar

namespace LineGrammar.Markup.Sections

def leaving : Rule := { Rule.always with callbacks := [.perform (.closeScopes 1)] }

def mainScope : Scope where
  name := "main"
  rules :=
    [ .ofPattern "^(#\x7b1,6\x7d)\\s+(.*)" (some "heading") [.save],
      .ofPattern "^```" none [.perform (.openScope "code")],
      .ofPattern "^>\\s?" none [.perform (.openScope "quote")],
      .ofPattern "^\\s*[-*]\\s+" none [.perform (.openScope "list")],
      .ofPattern "\\S.*" (some "text") [.save] ]
  strict := false

def codeScope : Scope where
  name := "code"
  rules :=
    [ .ofPattern "^```" none [.perform (.closeScopes 1)],
      .ofPattern ".+" (some "code") [.save] ]
  strict := true

def quoteScope : Scope where
  name := "quote"
  rules :=
    [ .ofPattern "^>\\s?" none [], .ofPattern "\\S.*" (some "text") [.save], leaving ]
  strict := false

def listScope : Scope where
  name := "list"
  rules :=
    [ .ofPattern "^\\s*[-*]\\s+" none [],
      .ofPattern "\\S.*" (some "item") [.save, .perform (.add "items" 1 1)],
      leaving ]
  strict := false

def compiled : Grammar := ⟨[mainScope, codeScope, quoteScope, listScope]⟩

theorem grammar_eq : grammar = .ok compiled := rfl

inductive Block where
  | quote
  | list
  | code

def Block.scope : Block → Scope
  | .quote => quoteScope
  | .list => listScope
  | .code => codeScope

/-- What a parse has come to: the block that is open, all blocks opened so far, and
the number of items. -/
structure Status where
  inner : Option Block
  blocks : List Block
  items : Nat

def Status.scope (status : Status) : Scope := (status.inner.map Block.scope).getD mainScope

/-- The variable that counts items, which is absent before the first of them. -/
def itemsValue : Nat → Option Value
  | 0 => none
  | count + 1 => some (.int (count + 1))

theorem itemsValue_eq (count : Nat) :
    itemsValue count = if count = 0 then none else some (.int count) := by
  cases count <;> rfl

structure Shape (parse : Cursor → Outcome) (status : Status) (context : Context) : Prop where
  setting : context.setting = compiled.setting {} parse
  overrides : context.overrides = []
  sound : context.Sound
  trace : context.trace = "main" :: (status.inner.map fun block => block.scope.name).toList
  frame : context.tree.frame =
    ("main", none) :: status.blocks.map fun block => (block.scope.name, some Tree.root)
  items : context.tree.valueOf? Tree.root "items" = itemsValue status.items

namespace Shape

variable {parse : Cursor → Outcome} {status : Status} {context : Context}
  {session after : Session} {block : Block} {blocks : List Block} {items : Nat}

theorem scopeName (shape : Shape parse status context) :
    context.scopeName = status.scope.name := by
  obtain ⟨inner, blocks, items⟩ := status
  cases inner with
  | none => exact @Context.Sound.scopeName_eq _ [] _ shape.sound shape.trace
  | some block => exact @Context.Sound.scopeName_eq _ ["main"] _ shape.sound shape.trace

theorem unmoved (shape : Shape parse status session.context) (same : session.Unmoved after) :
    Shape parse status after.context where
  setting := same.setting.trans shape.setting
  overrides := same.overrides.trans shape.overrides
  sound := same.sound
  trace := same.trace.trans shape.trace
  frame := (Tree.frame_of_unsaved same.tree).trans shape.frame
  items := by
    rw [← Tree.valueOf?_unsaved, same.tree, Tree.valueOf?_unsaved, shape.items]

theorem steady (parse : Cursor → Outcome) (status : Status) :
    Session.Steady compiled status.scope (Shape parse status) := by
  have known : ∀ context, Shape parse status context →
      compiled.scope? context.scopeName = some status.scope := by
    intro context shape
    rw [shape.scopeName]
    obtain ⟨_ | block, blocks, items⟩ := status
    · rfl
    · cases block <;> rfl
  refine ⟨?_, fun _ shape => shape.sound, known, ?_, ?_, fun _ _ shape => shape.unmoved⟩
  · obtain ⟨_ | block, blocks, items⟩ := status
    · simp [Status.scope, mainScope, Rule.isPlain, Rule.ofPattern]
    · cases block <;>
        simp [Status.scope, Block.scope, quoteScope, listScope, codeScope, Rule.isPlain,
          Rule.ofPattern, leaving, Rule.always, Expr.always]
  · intro context shape
    have scopes : (compiled.setting {} parse).scopes = compiled.strictness := rfl
    rw [Context.isStrict, shape.overrides, shape.setting, scopes,
      Grammar.strictness_get? (known context shape)]
    rfl
  · intro context shape
    rw [shape.setting]
    rfl

theorem saves (shape : Shape parse status session.context) (found : Match) :
    Action.Succeeds (Session.save found session) fun after => Shape parse status after.context :=
  (Session.save_here shape.sound found).imp fun _ => shape.unmoved

theorem opens (shape : Shape parse ⟨none, blocks, items⟩ session.context) (block : Block) :
    Action.Succeeds (Session.openScope block.scope.name session) fun after =>
      Shape parse ⟨some block, blocks ++ [block], items⟩ after.context := by
  have root := shape.sound.current_eq_root shape.trace
  have nonempty : Tree.root < session.context.tree.size := shape.sound.formed.nonempty
  have known : session.context.knows block.scope.name = true := by
    rw [Context.knows, shape.setting]
    cases block <;> rfl
  apply (Session.openScope_here shape.sound known).imp
  rintro after ⟨same, trace, tree, _⟩
  refine ⟨same.setting.trans shape.setting, same.overrides.trans shape.overrides, same.sound, ?_,
    ?_, ?_⟩
  · rw [trace, shape.trace]
    rfl
  · rw [tree, Tree.frame_addChild, shape.frame, root]
    simp
  · rw [tree, Tree.valueOf?_addChild_of_lt "items" nonempty]
    exact shape.items

theorem closes (shape : Shape parse ⟨some block, blocks, items⟩ session.context) :
    Action.Succeeds (Session.closeScopes 1 session) fun after =>
      Shape parse ⟨none, blocks, items⟩ after.context := by
  apply (@Session.closeScopes_one _ shape.sound ["main"] block.scope.name shape.trace (by simp)).imp
  rintro after ⟨same, trace, tree, _⟩
  exact ⟨same.setting.trans shape.setting, same.overrides.trans shape.overrides, same.sound, trace,
    tree ▸ shape.frame, tree ▸ shape.items⟩

theorem counts (shape : Shape parse ⟨some block, blocks, items⟩ session.context) :
    Action.Succeeds (Session.add "items" 1 1 session) fun after =>
      Shape parse ⟨some block, blocks, items + 1⟩ after.context := by
  have nonempty : Tree.root < session.context.tree.size := shape.sound.formed.nonempty
  have above : session.context.tree.ancestor? session.context.current 1 = some Tree.root := by
    simp only [Tree.ancestor?, shape.sound.parent_eq_root shape.trace]
  have added : Action.Succeeds (Session.add "items" 1 1 session) fun after =>
      session.Beside after ∧ after.context.trace = session.context.trace ∧
        after.context.tree =
          session.context.tree.setVariable Tree.root "items" (.int (items + 1)) ∧
        after.context.current = session.context.current := by
    apply Session.changeVariable_above shape.sound above
    rw [shape.items]
    cases items <;> rfl
  apply added.imp
  rintro after ⟨same, trace, tree, _⟩
  refine ⟨same.setting.trans shape.setting, same.overrides.trans shape.overrides, same.sound,
    trace.trans shape.trace, ?_, ?_⟩
  · rw [tree, Tree.frame_setVariable]
    exact shape.frame
  · rw [tree, Tree.valueOf?_setVariable nonempty, if_pos rfl]
    rfl

end Shape

end LineGrammar.Markup.Sections
