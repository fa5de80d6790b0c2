import LineGrammar.Expr.Compose
import LineGrammar.Proofs.Expr.Members

/-!
Joining expressions flatly. A chain of joins gives one combination of all that
were joined, if the first of them does not take up the others itself. Where a
combination does take up what is joined to it, nothing is lost by that: a plain
sequence with one more item, and a choice of one with one more member, match
where the nested combination of two would, and find the same leaves in it.
-/

namespace LineGrammar

theorem SkipPolicy.eq_of_isPlain {skips : SkipPolicy} (plain : skips.isPlain = true) :
    skips = {} := by
  cases skips
  simpa [isPlain] using plain

def Match.leaves (found : Match) : List Match := found.flatten.filter Match.isLeaf

/-- What a trial comes to: the leaves it has found and where it has led to, if it
has matched. -/
def Trial.outline (trial : Trial Match) : Option (List Match × Cursor) :=
  match trial.result with
  | .ok found => some (found.leaves, trial.cursor)
  | .error _ => none

/-- Whether two trials agree: they end at one place, and they both fail for one
reason or both match, over the same extent and with the same leaves. -/
def Trial.Agrees (trial other : Trial Match) : Prop :=
  trial.cursor = other.cursor ∧
    match trial.result, other.result with
    | .ok found, .ok found' => found.extent = found'.extent ∧ found.leaves = found'.leaves
    | .error error, .error error' => error = error'
    | _, _ => False

namespace Match

theorem filter_nodesList (children : List Match) :
    (nodesList children).filter isLeaf = children.flatMap leaves := by
  induction children with
  | nil => rfl
  | cons first rest induction =>
      rw [nodesList, List.filter_append, induction, List.flatMap_cons, leaves, flatten_eq_nodes]

theorem leaves_composite (extent : Extent) (origin : Origin) (children : List Match) :
    (composite extent origin children).leaves = children.flatMap leaves := by
  rw [leaves, flatten_eq_nodes, nodes, List.filter_cons_of_neg (by simp [isLeaf]),
    filter_nodesList]

theorem leaves_of_children {found : Match} (some : found.children ≠ []) :
    found.leaves = found.children.flatMap leaves := by
  cases found with
  | leaf => exact absurd rfl some
  | composite extent origin children => exact leaves_composite extent origin children

theorem extent_eq {found found' : Match} (start : found.start = found'.start)
    (stop : found.stop = found'.stop) (tag : found.tag = found'.tag)
    (text : found.text = found'.text) : found.extent = found'.extent := by
  have same : ∀ extent extent' : Extent, extent.start = extent'.start →
      extent.stop = extent'.stop → extent.tag = extent'.tag → extent.text = extent'.text →
      extent = extent' := by
    rintro ⟨⟩ ⟨⟩ rfl rfl rfl rfl
    rfl
  exact same _ _ start stop tag text

theorem tag_withTag (found : Match) (tag : Option String) : (found.withTag tag).tag = tag := by
  cases found <;> rfl

end Match

theorem Trial.outline_of_ok {trial : Trial Match} {found : Match}
    (outcome : trial.result = .ok found) : trial.outline = some (found.leaves, trial.cursor) := by
  rw [outline, outcome]

theorem Trial.outline_of_error {trial : Trial Match} {error : Error}
    (outcome : trial.result = .error error) : trial.outline = none := by
  rw [outline, outcome]

theorem Trial.Ends.outline_eq {trial : Trial Match} {answer : Option (List Match × Cursor)}
    (ends : trial.Ends (fun found after => answer = some (found.leaves, after))
      (fun _ _ => answer = none)) : trial.outline = answer := by
  cases outcome : trial.result with
  | ok found => rw [outline_of_ok outcome, ends.of_ok outcome]
  | error error => rw [outline_of_error outcome, ends.of_error outcome]

namespace Attempt

/-- What trying items end to end comes to, if none of them fails. -/
def endToEnd : List Attempt → Cursor → Option (List Match × Cursor)
  | [], cursor => some ([], cursor)
  | item :: later, cursor =>
      (item cursor).outline.bind fun (front, middle) =>
        (endToEnd later middle).map fun (back, after) => (front ++ back, after)

/-- What trying members one after the other at one place comes to, up to the first
that matches. -/
def firstOf (members : List Attempt) (cursor : Cursor) : Option (List Match × Cursor) :=
  members.findSome? fun member => (member cursor).outline

theorem endToEnd_cons (item : Attempt) (later : List Attempt) (cursor : Cursor) :
    endToEnd (item :: later) cursor =
      (item cursor).outline.bind fun (front, middle) =>
        (endToEnd later middle).map fun (back, after) => (front ++ back, after) := rfl

theorem endToEnd_append (front back : List Attempt) (cursor : Cursor) :
    endToEnd (front ++ back) cursor =
      (endToEnd front cursor).bind fun (found, middle) =>
        (endToEnd back middle).map fun (more, after) => (found ++ more, after) := by
  induction front generalizing cursor with
  | nil => cases rest : endToEnd back cursor <;> simp [endToEnd, rest]
  | cons item later induction =>
      rw [List.cons_append, endToEnd_cons, endToEnd_cons]
      cases (item cursor).outline with
      | none => rfl
      | some first =>
          simp only [Option.bind_some, induction]
          cases endToEnd later first.2 with
          | none => rfl
          | some second =>
              cases rest : endToEnd back second.2 <;> simp [rest, List.append_assoc]

theorem firstOf_append (front back : List Attempt) (cursor : Cursor) :
    firstOf (front ++ back) cursor = (firstOf front cursor).or (firstOf back cursor) :=
  List.findSome?_append

theorem firstOf_cons (member : Attempt) (later : List Attempt) (cursor : Cursor) :
    firstOf (member :: later) cursor = (member cursor).outline.or (firstOf later cursor) := by
  rw [firstOf, List.findSome?_cons]
  cases (member cursor).outline <;> rfl

theorem items_endToEnd (start : Position) (budget index skipped : Nat) (attempts : List Attempt)
    (cursor : Cursor) :
    (items start {} budget index skipped attempts cursor).Ends
      (fun children after =>
        endToEnd attempts cursor = some (children.flatMap Match.leaves, after))
      (fun _ _ => endToEnd attempts cursor = none) := by
  induction attempts generalizing index cursor with
  | nil => rfl
  | cons item later induction =>
      cases outcome : (item cursor).result with
      | ok found =>
          simp only [items, outcome, endToEnd, Trial.outline_of_ok outcome, Option.bind_some]
          refine (((induction (index + 1) (item cursor).cursor).imp ?_ ?_).map).after _
          · intro children after same
            rw [same]
            rfl
          · intro error after same
            rw [same]
            rfl
      | error error =>
          have required : SkipPolicy.allows {} index = false := rfl
          simp only [items, outcome, required, Bool.and_false, Bool.false_eq_true, if_false,
            endToEnd, Trial.outline_of_error outcome]
          rfl

theorem Greedy.firstOf_eq {attempts : List Attempt} {cursor after : Cursor} {order : List Nat}
    {children : List Match} (greedy : Greedy attempts (some 1) [] cursor order children after) :
    firstOf attempts cursor =
      if order.length < 1 then none else some (children.flatMap Match.leaves, after) := by
  have passed : ∀ {index member}, attempts[index]? = some member →
      ¬Fits attempts index cursor → (member cursor).outline = none := by
    intro index member listed misfit
    cases outcome : (member cursor).result with
    | ok found => exact absurd ⟨member, found, listed, outcome⟩ misfit
    | error error => exact Trial.outline_of_error outcome
  cases lined : greedy.lineup with
  | done =>
      rw [if_pos (by simp), firstOf, List.findSome?_eq_none_iff]
      intro member isMember
      obtain ⟨index, listed⟩ := List.mem_iff_getElem?.mp isMember
      apply passed listed
      apply greedy.stopped _ index List.not_mem_nil List.not_mem_nil
      simp
  | @take _ index _ _ _ _ _ found _ free listed outcome first later =>
      have alone := greedy.bounded 1 rfl
      cases later with
      | take => simp at alone
      | done =>
          rw [if_neg (by simp), firstOf, List.findSome?_eq_some_iff]
          obtain ⟨bound, rfl⟩ := List.getElem?_eq_some_iff.mp listed
          refine ⟨attempts.take index, attempts[index], attempts.drop (index + 1), ?_, ?_, ?_⟩
          · rw [← List.drop_eq_getElem_cons bound, List.take_append_drop]
          · rw [Trial.outline_of_ok outcome, List.flatMap_cons, List.flatMap_nil, List.append_nil]
          · intro member isAhead
            obtain ⟨earlier, before, rfl⟩ := List.mem_take_iff_getElem.mp isAhead
            apply passed (List.getElem?_eq_getElem (by omega))
            exact first Nat.one_pos earlier (by omega) List.not_mem_nil

end Attempt

namespace Expr

theorem tag_of_attempt {expr : Expr} {cursor : Cursor} {found : Match}
    (outcome : (expr.attempt cursor).result = .ok found) : found.tag = expr.name := by
  have tagged : ∀ (tag : Option String) (attempt : Attempt),
      (Attempt.tagged tag attempt cursor).result = .ok found → found.tag = tag := by
    intro tag attempt outcome
    cases given : (attempt cursor).result with
    | error error => simp [Attempt.tagged, Trial.map, given, Except.map] at outcome
    | ok bare =>
        simp only [Attempt.tagged, Trial.map, given, Except.map, Except.ok.injEq] at outcome
        rw [← outcome, Match.tag_withTag]
  cases expr
  all_goals
    rw [attempt] at outcome
    exact tagged _ _ outcome

/-- Two expressions of one kind and name agree where they find the same leaves up
to the same place, or both find none. -/
theorem agrees_of_outline {left right : Expr} {cursor : Cursor} (valid : cursor.Valid)
    (kind : left.matcher = right.matcher) (name : left.name = right.name)
    (same : (left.attempt cursor).outline = (right.attempt cursor).outline) :
    (left.attempt cursor).Agrees (right.attempt cursor) := by
  unfold Trial.Agrees
  cases outcome : (left.attempt cursor).result with
  | ok found =>
      rw [Trial.outline_of_ok outcome] at same
      cases outcome' : (right.attempt cursor).result with
      | error error =>
          rw [Trial.outline_of_error outcome'] at same
          cases same
      | ok found' =>
          rw [Trial.outline_of_ok outcome'] at same
          obtain ⟨leaves, place⟩ := Prod.mk.inj (Option.some.inj same)
          have covers := covers_of_attempt valid outcome
          have covers' := covers_of_attempt valid outcome'
          have start : found.start = found'.start := covers.start.trans covers'.start.symm
          have stop : found.stop = found'.stop := by rw [covers.stop, covers'.stop, place]
          have text : found.text = found'.text := by
            rw [covers.placed.text, covers'.placed.text, start, stop]
          have tag : found.tag = found'.tag := by
            rw [tag_of_attempt outcome, tag_of_attempt outcome', name]
          exact ⟨place, Match.extent_eq start stop tag text, leaves⟩
  | error error =>
      rw [Trial.outline_of_error outcome] at same
      cases outcome' : (right.attempt cursor).result with
      | ok found' =>
          rw [Trial.outline_of_ok outcome'] at same
          cases same
      | error error' =>
          obtain ⟨refusal, back⟩ := (left.attempt_lawful cursor valid).of_error outcome
          obtain ⟨refusal', back'⟩ := (right.attempt_lawful cursor valid).of_error outcome'
          exact ⟨back.trans back'.symm, by rw [refusal, refusal', kind]⟩

theorem outline_seq (items : List Expr) (cursor : Cursor) :
    ((seq items).attempt cursor).outline = Attempt.endToEnd (attempts items) cursor := by
  apply Trial.Ends.outline_eq
  have loop := Attempt.items_endToEnd cursor.position
    (SkipPolicy.budget {} (attempts items).length) 0 0 (attempts items) cursor
  rw [seq, attempt]
  apply Trial.Ends.map
  refine (Attempt.compose_ends (loop.imp ?_ ?_)).after _
  · intro children after same
    rw [same, Match.withTag, Match.mapExtent, Match.leaves_composite]
  · intro error after same
    exact same

theorem outline_oneOf (items : List Expr) {cursor : Cursor} (valid : cursor.Valid) :
    ((oneOf items).attempt cursor).outline = Attempt.firstOf (attempts items) cursor := by
  obtain ⟨order, children, after, greedy, ends⟩ :=
    set_attempt_greedy none items (Bounds.atMost {} 1) valid
  have count := greedy.lineup.length_children
  have least : (Bounds.atMost {} 1).min = 1 := rfl
  rw [least] at ends
  apply Trial.Ends.outline_eq
  rw [greedy.firstOf_eq]
  refine ends.imp ?_ ?_
  · rintro found stop ⟨enough, rfl, rfl⟩
    have some : found.children ≠ [] := List.length_pos_iff.mp (count ▸ enough)
    rw [if_neg (Nat.not_lt.mpr enough), Match.leaves_of_children some]
  · intro error stop tooFew
    exact if_pos tooFew

theorem attempts_cons (first : Expr) (rest : List Expr) :
    attempts (first :: rest) = first.attempt :: attempts rest := by
  rw [attempts]

theorem attempts_append (front back : List Expr) :
    attempts (front ++ back) = attempts front ++ attempts back := by
  simp only [attempts_eq_map, List.map_append]

theorem seq_append_agrees (items : List Expr) (last : Expr) {cursor : Cursor}
    (valid : cursor.Valid) :
    ((seq (items ++ [last])).attempt cursor).Agrees ((seq [seq items, last]).attempt cursor) := by
  have same : ((seq (items ++ [last])).attempt cursor).outline =
      ((seq [seq items, last]).attempt cursor).outline := by
    rw [outline_seq, outline_seq, attempts_append, Attempt.endToEnd_append,
      attempts_cons (seq items), Attempt.endToEnd_cons (seq items).attempt, outline_seq]
  exact agrees_of_outline valid rfl rfl same

theorem oneOf_append_agrees (items : List Expr) (last : Expr) {cursor : Cursor}
    (valid : cursor.Valid) :
    ((oneOf (items ++ [last])).attempt cursor).Agrees
      ((oneOf [oneOf items, last]).attempt cursor) := by
  have same : ((oneOf (items ++ [last])).attempt cursor).outline =
      ((oneOf [oneOf items, last]).attempt cursor).outline := by
    rw [outline_oneOf _ valid, outline_oneOf _ valid, attempts_append, Attempt.firstOf_append,
      attempts_cons (oneOf items), Attempt.firstOf_cons (oneOf items).attempt, outline_oneOf _ valid]
  exact agrees_of_outline valid rfl rfl same

/-- Whether an expression takes up nothing that is joined to it: a leaf, a
repetition, or one with a name. -/
def StaysWhole : Expr → Prop
  | .leaf .. => True
  | .repetition .. => True
  | .sequence name .. => name ≠ none
  | .set name .. => name ≠ none

/-- A chain of joins makes one combination, if a join of two makes one and
everything else is taken up by it. -/
theorem foldl_join {join : Expr → Expr → Expr} {combine : List Expr → Expr} {first : Expr}
    (two : ∀ second, join first second = combine [first, second])
    (more : ∀ items last, join (combine items) last = combine (items ++ [last]))
    {rest : List Expr} (some : rest ≠ []) : rest.foldl join first = combine (first :: rest) := by
  have widened : ∀ later items, later.foldl join (combine items) = combine (items ++ later) := by
    intro later
    induction later with
    | nil =>
        intro items
        rw [List.foldl_nil, List.append_nil]
    | cons last later induction =>
        intro items
        rw [List.foldl_cons, more, induction, List.append_assoc]
        rfl
  cases rest with
  | nil => exact absurd rfl some
  | cons second later =>
      rw [List.foldl_cons, two, widened]
      rfl

theorem StaysWhole.joins {first : Expr} (whole : first.StaysWhole) (second : Expr) :
    first.or second = any [first, second] ∧ first.and second = all [first, second] ∧
      first.xor second = oneOf [first, second] ∧ first.followedBy second = seq [first, second] := by
  cases first with
  | leaf => exact ⟨rfl, rfl, rfl, rfl⟩
  | repetition => exact ⟨rfl, rfl, rfl, rfl⟩
  | sequence name =>
      cases name with
      | none => exact absurd rfl whole
      | some => exact ⟨rfl, rfl, rfl, rfl⟩
  | set name =>
      cases name with
      | none => exact absurd rfl whole
      | some => exact ⟨rfl, rfl, rfl, rfl⟩

theorem or_any (items : List Expr) (last : Expr) :
    (any items).or last = any (items ++ [last]) := rfl

theorem and_all (items : List Expr) (last : Expr) :
    (all items).and last = all (items ++ [last]) := by
  have count : (items ++ [last]).length = items.length + 1 := by simp
  rw [all, all, count]
  exact if_pos ⟨rfl, rfl⟩

theorem xor_oneOf (items : List Expr) (last : Expr) :
    (oneOf items).xor last = oneOf (items ++ [last]) := rfl

theorem followedBy_seq (items : List Expr) (last : Expr) :
    (seq items).followedBy last = seq (items ++ [last]) := rfl

/-- A chain of joins, beginning with an expression that takes up none of the
others, gives the flat combination of all. And a plain sequence without a name,
or a choice of one without a name, takes up what is joined to it without a
difference to the sequence of the two, or the choice between the two: both match
at the same places and lead to the same place, over the same text, with the same
leaves in the same order. -/
theorem joins_are_flat_combinations :
    (∀ (first : Expr) (rest : List Expr), first.StaysWhole → rest ≠ [] →
      rest.foldl or first = any (first :: rest) ∧
      rest.foldl and first = all (first :: rest) ∧
      rest.foldl xor first = oneOf (first :: rest) ∧
      rest.foldl followedBy first = seq (first :: rest)) ∧
    (∀ (items : List Expr) (skips : SkipPolicy) (last : Expr) (cursor : Cursor),
      skips.isPlain = true → cursor.Valid →
      let left := Expr.sequence none items skips
      left.followedBy last = .sequence none (items ++ [last]) skips ∧
      ((left.followedBy last).attempt cursor).Agrees ((seq [left, last]).attempt cursor)) ∧
    (∀ (items : List Expr) (bounds : Bounds) (last : Expr) (cursor : Cursor),
      bounds.min = 1 → bounds.max = some 1 → cursor.Valid →
      let left := Expr.set none items bounds
      left.xor last = .set none (items ++ [last]) bounds ∧
      ((left.xor last).attempt cursor).Agrees ((oneOf [left, last]).attempt cursor)) := by
  refine ⟨?_, ?_, ?_⟩
  · intro first rest whole some
    have joins := whole.joins
    refine ⟨?_, ?_, ?_, ?_⟩
    · exact foldl_join (fun second => (joins second).1) or_any some
    · exact foldl_join (fun second => (joins second).2.1) and_all some
    · exact foldl_join (fun second => (joins second).2.2.1) xor_oneOf some
    · exact foldl_join (fun second => (joins second).2.2.2) followedBy_seq some
  · intro items skips last cursor plain valid left
    have empty : skips = {} := SkipPolicy.eq_of_isPlain plain
    have same : left = seq items := by rw [seq, ← empty]
    rw [same, followedBy_seq, empty]
    exact ⟨rfl, seq_append_agrees items last valid⟩
  · intro items bounds last cursor least most valid left
    have one : bounds = Bounds.atMost {} 1 := by
      cases bounds
      cases least
      cases most
      rfl
    have same : left = oneOf items := by rw [oneOf, ← one]
    rw [same, xor_oneOf, one]
    exact ⟨rfl, oneOf_append_agrees items last valid⟩

/-- A letter is taken up by a sequence of one, and by a choice that has no other
member that matches. -/
theorem letters_are_taken_up :
    let cursor : Cursor := ⟨.ofLines ["éab"], ⟨0, 2⟩⟩
    let a := Expr.leaf none "a" (Regex.compile? "a" false)
    let b := Expr.leaf none "b" (Regex.compile? "b" false)
    cursor.Valid ∧ a.StaysWhole ∧ [b, a].foldl or a = any [a, b, a] ∧
      (((seq [a]).followedBy b).attempt cursor).result =
        .ok (.composite ⟨⟨0, 2⟩, ⟨0, 4⟩, none, "ab"⟩ .sequence
          [.leaf ⟨⟨0, 2⟩, ⟨0, 3⟩, none, "a"⟩ "a" [], .leaf ⟨⟨0, 3⟩, ⟨0, 4⟩, none, "b"⟩ "b" []]) ∧
      (((seq [a]).followedBy b).attempt cursor).Agrees ((seq [seq [a], b]).attempt cursor) ∧
      (((oneOf [b]).xor a).attempt cursor).Agrees ((oneOf [oneOf [b], a]).attempt cursor) := by
  intro cursor a b
  have valid : cursor.Valid := by decide
  obtain ⟨chains, sequences, choices⟩ := joins_are_flat_combinations
  refine ⟨valid, trivial, (chains a [b, a] trivial (by simp)).1, by decide +kernel, ?_, ?_⟩
  · exact (sequences [a] {} b cursor rfl valid).2
  · exact (choices [b] _ a cursor rfl rfl valid).2

end Expr

end LineGrammar
