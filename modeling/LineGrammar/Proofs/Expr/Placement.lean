import LineGrammar.Expr.Attempt
import LineGrammar.Proofs.Expr.Contract
import Mathlib.Data.List.Nodup

/-!
What an attempt at an expression leaves behind. The contract of attempts is
carried over to all expressions by induction over their shape. A failed attempt
is a refusal in the name of the outermost combination, and the cursor stands
where it stood. A successful one gives a match tree in which every node tells
the text of its span and has its children in order inside it; where nothing is
matched between the children, they tile the span.
-/

namespace LineGrammar.Expr

def matcher : Expr → Matcher
  | .leaf .. => .leaf
  | .sequence .. => .sequence
  | .set .. => .set
  | .repetition .. => .repetition

def items : Expr → List Expr
  | .leaf .. => []
  | .sequence _ items _ => items
  | .set _ items _ => items
  | .repetition _ item _ _ => [item]

/-- Whether an expression is a combination that matches nothing between its
items. -/
def Seamless : Expr → Prop
  | .leaf .. => False
  | .sequence .. => True
  | .set .. => True
  | .repetition _ _ _ separator => separator = none

theorem attempts_eq_map (items : List Expr) : attempts items = items.map attempt := by
  induction items with
  | nil => rfl
  | cons first rest induction => rw [attempts, induction, List.map_cons]

theorem attempts_length (items : List Expr) : (attempts items).length = items.length := by
  rw [attempts_eq_map, List.length_map]

mutual

/-- Every expression keeps the contract of attempts. -/
theorem attempt_lawful (expr : Expr) :
    expr.attempt.Lawful expr.matcher expr.Seamless (attempts expr.items) := by
  match expr with
  | .leaf name source regex =>
      rw [attempt]
      exact Attempt.tagged_lawful (Attempt.leaf_lawful source regex) name
  | .sequence name items skips =>
      rw [attempt]
      exact Attempt.tagged_lawful (Attempt.sequence_lawful (attempts_sound items) skips) name
  | .set name items bounds =>
      rw [attempt]
      exact Attempt.tagged_lawful (Attempt.set_lawful (attempts_sound items) bounds) name
  | .repetition name item multiplicity separator =>
      have sound : item.attempt.Sound := ⟨_, _, _, attempt_lawful item⟩
      have lawful := Attempt.repetition_lawful sound (attempt?_sound separator) multiplicity
      have absent : (attempt? separator = none) = (separator = none) := by
        cases separator <;> simp [attempt?]
      rw [absent] at lawful
      rw [attempt]
      exact Attempt.tagged_lawful lawful name

theorem attempts_sound (items : List Expr) :
    ∀ attempt ∈ attempts items, attempt.Sound := by
  match items with
  | [] => simp [attempts]
  | first :: rest =>
      intro attempt member
      rw [attempts] at member
      rcases List.mem_cons.mp member with rfl | member
      · exact ⟨_, _, _, attempt_lawful first⟩
      · exact attempts_sound rest attempt member

theorem attempt?_sound (separator : Option Expr) :
    ∀ attempt, attempt? separator = some attempt → attempt.Sound := by
  match separator with
  | none => simp [attempt?]
  | some expr =>
      intro attempt present
      rw [attempt?, Option.some.injEq] at present
      rw [← present]
      exact ⟨_, _, _, attempt_lawful expr⟩

end

theorem attempt_sound (expr : Expr) : expr.attempt.Sound := ⟨_, _, _, attempt_lawful expr⟩

theorem covers_of_attempt {expr : Expr} {cursor : Cursor} {found : Match} (valid : cursor.Valid)
    (outcome : (expr.attempt cursor).result = .ok found) :
    found.Covers cursor (expr.attempt cursor).cursor :=
  expr.attempt_sound.covers valid outcome

theorem tiles_of_attempt {expr : Expr} {cursor : Cursor} {found : Match} (valid : cursor.Valid)
    (outcome : (expr.attempt cursor).result = .ok found) (seamless : expr.Seamless) :
    Match.Tiles found.start found.stop found.children := by
  rcases (expr.attempt_lawful cursor valid).of_ok outcome with ⟨covers, gathered⟩
  rw [covers.start, covers.stop]
  exact gathered.tiles seamless

theorem child_of_attempt {expr : Expr} {cursor : Cursor} {found child : Match}
    (valid : cursor.Valid) (outcome : (expr.attempt cursor).result = .ok found)
    (member : child ∈ found.children) :
    ∃ item ∈ expr.items, ∃ place : Cursor,
      place.Valid ∧ place.buffer = cursor.buffer ∧ (item.attempt place).result = .ok child := by
  rcases (expr.attempt_lawful cursor valid).of_ok outcome with ⟨_, gathered⟩
  rcases gathered.made child member with ⟨attempt, listed, place, made⟩
  rw [attempts_eq_map] at listed
  rcases List.mem_map.mp listed with ⟨item, isItem, rfl⟩
  exact ⟨item, isItem, place, made⟩

/-- Whether an expression is part of another: the other itself, or part of one
of its items. -/
inductive PartOf : Expr → Expr → Prop
  | whole (expr : Expr) : PartOf expr expr
  | inside {part item expr : Expr} (isItem : item ∈ expr.items) (isPart : PartOf part item) :
      PartOf part expr

mutual

/-- Every node of a match tree is itself what some part of the expression
matched at a valid cursor. -/
theorem node_of_nodes {found node : Match} (member : node ∈ found.nodes) {expr : Expr}
    {cursor : Cursor} (valid : cursor.Valid) (outcome : (expr.attempt cursor).result = .ok found) :
    ∃ part, PartOf part expr ∧ ∃ place : Cursor,
      place.Valid ∧ place.buffer = cursor.buffer ∧ (part.attempt place).result = .ok node := by
  match found with
  | .leaf extent pattern groups =>
      rw [List.mem_singleton.mp member]
      exact ⟨expr, .whole expr, cursor, valid, rfl, outcome⟩
  | .composite extent origin children =>
      rcases List.mem_cons.mp member with rfl | below
      · exact ⟨expr, .whole expr, cursor, valid, rfl, outcome⟩
      · exact node_of_nodesList children below valid
          (fun child isChild => child_of_attempt valid outcome isChild)

theorem node_of_nodesList (children : List Match) {node : Match}
    (member : node ∈ Match.nodesList children) {expr : Expr} {cursor : Cursor}
    (valid : cursor.Valid)
    (made : ∀ child ∈ children, ∃ item ∈ expr.items, ∃ place : Cursor,
      place.Valid ∧ place.buffer = cursor.buffer ∧ (item.attempt place).result = .ok child) :
    ∃ part, PartOf part expr ∧ ∃ place : Cursor,
      place.Valid ∧ place.buffer = cursor.buffer ∧ (part.attempt place).result = .ok node := by
  match children with
  | [] => simp [Match.nodesList] at member
  | first :: rest =>
      rcases List.mem_append.mp member with inFirst | inRest
      · rcases made first (by simp) with ⟨item, isItem, start, validStart, same, outcome⟩
        rcases node_of_nodes inFirst validStart outcome with
          ⟨part, isPart, place, validPlace, buffer, given⟩
        exact ⟨part, .inside isItem isPart, place, validPlace, buffer.trans same, given⟩
      · exact node_of_nodesList rest inRest valid
          (fun child isChild => made child (by simp [isChild]))

end

/-- A failed attempt is a refusal in the name of the outermost combination, and
the cursor stands where it stood. So no loop inside a combination ever meets an
error that is more than a refusal: a sequence ends in a refusal of its own, and
the searches of sets and repetitions always come to an end without an error. -/
theorem failed_attempt_restores_cursor (cursor : Cursor) (valid : cursor.Valid) :
    (∀ (expr : Expr) (error : Error), (expr.attempt cursor).result = .error error →
      (expr.attempt cursor).cursor = cursor ∧
        error = .noMatch expr.matcher cursor.position) ∧
    (∀ (items : List Expr) (first : Cursor) (skips : SkipPolicy) (budget index skipped : Nat)
      (error : Error), first.Valid → cursor.buffer = first.buffer →
      (Attempt.items first.position skips budget index skipped (attempts items) cursor).result =
        .error error → error = .noMatch .sequence first.position) ∧
    (∀ (items : List Expr) (limit : Nat),
      ∃ children, (Attempt.members limit (attempts items) cursor).result = .ok children) ∧
    (∀ (item : Expr) (separator : Option Expr) (start : Position) (upper : Option Nat)
      (limit count : Nat),
      ∃ children, (Attempt.rounds start item.attempt (attempt? separator) upper limit count
        cursor).result = .ok children) := by
  refine ⟨?_, ?_, ?_, ?_⟩
  · intro expr error outcome
    rcases (expr.attempt_lawful cursor valid).of_error outcome with ⟨refusal, back⟩
    exact ⟨back, refusal⟩
  · intro items first skips budget index skipped error begun buffer outcome
    have loop := Attempt.items_ends (attempts_sound items) skips budget index skipped begun valid
      buffer
    exact (loop.of_error outcome).1
  · intro items limit
    have loop := Attempt.members_ends limit (attempts_sound items) valid
    cases outcome : (Attempt.members limit (attempts items) cursor).result with
    | ok children => exact ⟨children, rfl⟩
    | error error => exact (loop.of_error outcome).elim
  · intro item separator start upper limit count
    have loop := Attempt.rounds_ends item.attempt_sound (attempt?_sound separator) start upper limit
      count valid
    cases outcome : (Attempt.rounds start item.attempt (attempt? separator) upper limit count
        cursor).result with
    | ok children => exact ⟨children, rfl⟩
    | error error => exact (loop.of_error outcome).elim

/-- A sequence whose second item is refused gives back what the first matched,
a character of two bytes. -/
theorem sequence_gives_back_first_item :
    let cursor : Cursor := ⟨.ofLines ["aéx"], ⟨0, 1⟩⟩
    let expr := seq [.leaf none "é" (Regex.compile? "é" false),
      .leaf none "b" (Regex.compile? "b" false)]
    cursor.Valid ∧ (expr.attempt cursor).result = .error (.noMatch .sequence ⟨0, 1⟩) ∧
      (expr.attempt cursor).cursor = cursor := by
  intro cursor expr
  have valid : cursor.Valid := by decide
  have refused : (expr.attempt cursor).result = .error (.noMatch .sequence ⟨0, 1⟩) := by rfl
  exact ⟨valid, refused, ((failed_attempt_restores_cursor cursor valid).1 expr _ refused).1⟩

/-- A successful attempt gives a match from the cursor before to the cursor
after, in one line. Every node of its tree tells the text of its span and has
its children in order inside it; it comes from some part of the expression, and
if it comes from a seamless one its children tile it. -/
theorem matched_tree_lies_in_line (expr : Expr) (cursor : Cursor) (valid : cursor.Valid)
    (found : Match) (outcome : (expr.attempt cursor).result = .ok found) :
    found.start = cursor.position ∧ found.stop = (expr.attempt cursor).cursor.position ∧
    found.start.line = found.stop.line ∧ found.start ≤ found.stop ∧
    ∀ node ∈ found.flatten,
      node.start ≤ node.stop ∧
      node.text = cursor.buffer.between node.start node.stop ∧
      Match.Ordered node.start node.stop node.children ∧
      (∀ child ∈ node.children, node.start ≤ child.start ∧ child.stop ≤ node.stop) ∧
      (∃ part, PartOf part expr ∧ ∃ place : Cursor, place.Valid ∧ place.buffer = cursor.buffer ∧
        (part.attempt place).result = .ok node) ∧
      ∀ (part : Expr) (place : Cursor), place.Valid → (part.attempt place).result = .ok node →
        part.Seamless → node.children ≠ [] →
        Match.Tiles node.start node.stop node.children := by
  have covers := covers_of_attempt valid outcome
  refine ⟨covers.start, covers.stop, ?_, covers.placed.forward, ?_⟩
  · rw [covers.start, covers.stop, covers.leads.line]
  · intro node member
    rw [Match.flatten_eq_nodes] at member
    have source := node_of_nodes member valid outcome
    rcases source with ⟨part, isPart, place, validPlace, buffer, made⟩
    have placed := (covers_of_attempt validPlace made).placed
    rw [buffer] at placed
    refine ⟨placed.forward, placed.text, placed.ordered, ?_, ?_, ?_⟩
    · intro child isChild
      exact placed.ordered.inside isChild
    · exact ⟨part, isPart, place, validPlace, buffer, made⟩
    · intro other somewhere validThere given seamless _
      exact tiles_of_attempt validThere given seamless

/-- Digits with commas between them, after which a comma is left over: the match
ends before that comma. -/
theorem list_ends_before_dangling_comma :
    let cursor : Cursor := ⟨.ofLines ["é1,2,x"], ⟨0, 2⟩⟩
    let expr := Expr.repetition (some "list") (.leaf none "[0-9]" (Regex.compile? "[0-9]" false))
      .oneOrMore (some (.leaf none "," (Regex.compile? "," false)))
    let found := Match.composite ⟨⟨0, 2⟩, ⟨0, 5⟩, some "list", "1,2"⟩ .repetition
      [.leaf ⟨⟨0, 2⟩, ⟨0, 3⟩, none, "1"⟩ "[0-9]" [], .leaf ⟨⟨0, 4⟩, ⟨0, 5⟩, none, "2"⟩ "[0-9]" []]
    cursor.Valid ∧ (expr.attempt cursor).result = .ok found ∧
      ∀ node ∈ found.flatten, node.text = cursor.buffer.between node.start node.stop := by
  intro cursor expr found
  have valid : cursor.Valid := by decide
  have outcome : (expr.attempt cursor).result = .ok found := by decide +kernel
  refine ⟨valid, outcome, ?_⟩
  intro node member
  exact ((matched_tree_lies_in_line expr cursor valid found outcome).2.2.2.2 node member).2.1

end LineGrammar.Expr
