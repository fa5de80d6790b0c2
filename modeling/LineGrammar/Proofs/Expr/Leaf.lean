import LineGrammar.Proofs.Cursor.Remaining
import LineGrammar.Proofs.Expr.Placement
import LineGrammar.Proofs.Regex.Consume

/-!
How far a pattern leads a cursor. A pattern that consumes leaves less ahead, a
loop over a class that holds all that is left of the line leads to its end, and
the only group of a pattern, if it stands last, tells less than was passed over.
-/

namespace LineGrammar

namespace Cursor

variable {cursor : Cursor}

theorem Valid.remaining_skipBytes {consumed later : List Char} (valid : cursor.Valid)
    (split : cursor.rest = consumed ++ later) :
    (cursor.skipBytes (Text.byteLength consumed)).remaining + consumed.length =
      cursor.remaining := by
  have behind := valid.boundary.dropBytes_add split
  rw [valid.skipBytes_eq split]
  cases found : cursor.line? with
  | none =>
      rw [rest, text_of_none found] at split
      have nothing : consumed = [] := (List.append_eq_nil_iff.mp split.symm).1
      rw [nothing]
      rfl
  | some line =>
      have same : Cursor.line? { cursor with position :=
          ⟨cursor.position.line, cursor.position.column + Text.byteLength consumed⟩ } =
          some line := found
      have ahead : Cursor.rest { cursor with position :=
          ⟨cursor.position.line, cursor.position.column + Text.byteLength consumed⟩ } =
          later := behind
      rw [remaining_of_line found, remaining_of_line same, ahead, split, List.length_append]
      change later.length + 1 + Line.charCount
        (cursor.buffer.lines.toList.drop (cursor.position.line + 1)) + consumed.length = _
      omega

theorem Valid.matchRegex_eq {line : Line} (valid : cursor.Valid) (found : cursor.line? = some line)
    (regex : Regex) :
    ∃ previous, cursor.matchRegex regex =
      regex.matchFrom previous cursor.position.column cursor.rest := by
  have boundary := valid.boundary
  rw [text_of_line found] at boundary
  refine ⟨(Text.takeBytes cursor.position.column line.text).getLast?, ?_⟩
  rw [matchRegex, found, rest, text_of_line found]
  simp only [Option.bind_some, Regex.matchAt, boundary.byteLength_takeBytes]

end Cursor

namespace Expr

variable {cursor : Cursor} {source : String} {regex : Regex} {found : Match}

theorem match_of_leaf (valid : cursor.Valid)
    (outcome : ((Expr.leaf none source (some regex)).attempt cursor).result = .ok found) :
    ∃ previous captures, cursor.matchRegex regex = some captures ∧
      regex.matchFrom previous cursor.position.column cursor.rest = some captures := by
  cases matched : cursor.matchRegex regex with
  | none =>
      simp [attempt, Attempt.tagged, Attempt.leaf, Attempt.leafText, matched, Trial.map,
        Except.map] at outcome
  | some captures =>
      obtain ⟨line, lookup, _⟩ := Option.bind_eq_some_iff.mp matched
      obtain ⟨previous, same⟩ := valid.matchRegex_eq lookup regex
      exact ⟨previous, captures, rfl, same.symm.trans matched⟩

/-- What a pattern that matches gives: the text it takes, with the texts of its groups.
The cursor stands behind. -/
theorem leaf_eq_of_match {captures : Regex.Captures} {consumed later : List Char}
    (valid : cursor.Valid) (matched : cursor.matchRegex regex = some captures)
    (split : cursor.rest = consumed ++ later)
    (stop : captures.stop = cursor.position.column + Text.byteLength consumed) :
    ((Expr.leaf none source (some regex)).attempt cursor).cursor =
        cursor.skipBytes (Text.byteLength consumed) ∧
      ((Expr.leaf none source (some regex)).attempt cursor).result =
        .ok (.leaf
          ⟨cursor.position, (cursor.skipBytes (Text.byteLength consumed)).position, none,
            String.ofList consumed⟩
          source
          (captures.groups.map fun span =>
            span.map fun (start, stop) =>
              String.ofList (Text.sliceBytes start stop cursor.text))) := by
  obtain ⟨start, _⟩ := valid.matchRegex_span matched
  have taken : Text.sliceBytes captures.start captures.stop cursor.text = consumed := by
    rw [start, stop]
    exact valid.boundary.sliceBytes_add split
  simp only [attempt, Attempt.tagged, Attempt.leaf, Attempt.leafText, matched, Trial.map,
    Except.map, Option.map_some, taken]
  exact ⟨trivial, rfl⟩

theorem leaf_of_match {captures : Regex.Captures} {consumed later : List Char}
    (valid : cursor.Valid) (matched : cursor.matchRegex regex = some captures)
    (split : cursor.rest = consumed ++ later)
    (stop : captures.stop = cursor.position.column + Text.byteLength consumed) :
    ((Expr.leaf none source (some regex)).attempt cursor).cursor =
        cursor.skipBytes (Text.byteLength consumed) ∧
      ∃ extent, ((Expr.leaf none source (some regex)).attempt cursor).result =
        .ok (.leaf extent source (captures.groups.map fun span =>
          span.map fun (start, stop) =>
            String.ofList (Text.sliceBytes start stop cursor.text))) := by
  obtain ⟨passes, given⟩ := @leaf_eq_of_match _ source _ _ _ _ valid matched split stop
  exact ⟨passes, _, given⟩

/-- Whether an expression is a pattern that cannot match without consuming. -/
def consumes : Expr → Bool
  | .leaf none _ (some regex) => regex.program.consumes
  | _ => false

theorem remaining_lt_of_consumes {expr : Expr} (consuming : expr.consumes = true)
    (valid : cursor.Valid) (outcome : (expr.attempt cursor).result = .ok found) :
    (expr.attempt cursor).cursor.remaining < cursor.remaining := by
  unfold consumes at consuming
  split at consuming
  · obtain ⟨_, captures, matched, taken⟩ := match_of_leaf valid outcome
    obtain ⟨consumed, later, some, split, stop⟩ := Regex.matchFrom_consumes consuming taken
    have left := valid.remaining_skipBytes split
    have positive := List.length_pos_of_ne_nil some
    rw [(leaf_of_match valid matched split stop).1]
    omega
  · cases consuming

theorem cursor_of_always (valid : cursor.Valid) : (Expr.always.attempt cursor).cursor = cursor :=
  @Cursor.Valid.skipBytes_eq cursor [] cursor.rest valid rfl

/-- A pattern whose only group stands last: the text of the group comes from the
line and is shorter than what was passed over. -/
theorem leaf_group_last {lead body : Regex.Program} (valid : cursor.Valid)
    (consuming : lead.consumes = true) (only : regex.groups = 1)
    (ending : @Regex.Program.run Regex.Captures regex.program =
      Regex.Program.run (.seq lead (.group 1 body)))
    (outcome : ((Expr.leaf none source (some regex)).attempt cursor).result = .ok found) :
    ∃ extent text, found = .leaf extent source [some (String.ofList text)] ∧
      (∀ char ∈ text, char ∈ cursor.rest) ∧
      ((Expr.leaf none source (some regex)).attempt cursor).cursor.remaining + (text.length + 1) ≤
        cursor.remaining := by
  obtain ⟨_, captures, matched, taken⟩ := match_of_leaf valid outcome
  obtain ⟨first, last, later, some, split, stop, groups⟩ :=
    Regex.matchFrom_group_last consuming only ending taken
  obtain ⟨passes, extent, given⟩ := @leaf_of_match _ source _ _ _ _ valid matched split stop
  have left := valid.remaining_skipBytes split
  have positive := List.length_pos_of_ne_nil some
  have begun : cursor.rest = first ++ (last ++ later) := by rw [split, List.append_assoc]
  have slice : Text.sliceBytes (cursor.position.column + Text.byteLength first) captures.stop
      cursor.text = last := by
    rw [stop, Text.byteLength_append, ← Nat.add_assoc]
    exact (valid.boundary.add begun).sliceBytes_add (valid.boundary.dropBytes_add begun)
  refine ⟨extent, last, ?_, ?_, ?_⟩
  · rw [outcome, groups] at given
    cases given
    simp [slice]
  · intro char member
    rw [split]
    simp [member]
  · rw [passes]
    rw [List.length_append] at left
    omega

/-- A loop over a class that holds all that is left of the line matches, and leads
to the end of the line. -/
theorem leaf_take_all {members : Regex.CharClass} {choice : Nat} {line : Line}
    (valid : cursor.Valid) (lookup : cursor.line? = some line)
    (loop : regex.program = .star choice true (.chars members))
    (all : ∀ char ∈ cursor.rest, members.contains char = true) :
    (∃ found, ((Expr.leaf none source (some regex)).attempt cursor).result = .ok found) ∧
      ((Expr.leaf none source (some regex)).attempt cursor).cursor.atLineEnd = true := by
  obtain ⟨previous, same⟩ := valid.matchRegex_eq lookup regex
  obtain ⟨captures, taken, stop⟩ :=
    @Regex.matchFrom_take_all regex previous cursor.position.column cursor.rest members choice loop
      all
  have whole : cursor.rest = cursor.rest ++ [] := (List.append_nil _).symm
  obtain ⟨passes, extent, given⟩ :=
    @leaf_of_match _ source _ _ _ _ valid (same.trans taken) whole stop
  refine ⟨⟨_, given⟩, ?_⟩
  have length : cursor.position.column + Text.byteLength cursor.rest = line.length := by
    rw [Line.length, ← Cursor.text_of_line lookup]
    exact valid.boundary.byteLength_dropBytes
  have found : Cursor.line? { cursor with position :=
      ⟨cursor.position.line, cursor.position.column + Text.byteLength cursor.rest⟩ } =
      some line := lookup
  rw [passes, valid.skipBytes_eq whole, Cursor.atLineEnd, found]
  exact decide_eq_true (Nat.le_of_eq length.symm)

end Expr

end LineGrammar
