import LineGrammar.Expr.Patterns
import LineGrammar.Proofs.Regex.Escaping
import LineGrammar.Proofs.Regex.Reading

/-!
Patterns of texts between boundaries. Such a pattern is read as the opening boundary, a
loop over pieces as the first group, and the closing character, whatever characters the
boundaries are. It matches exactly where the opening boundary stands ahead and behind it
something that the loop takes before a closing character, and the first group is what the
loop has taken.
-/

namespace LineGrammar.Regex

/-- A piece of what stands between boundaries: a character other than the closing one or,
if `escaped`, a backslash with the closing character before that. -/
def fencePiece (escaped : Bool) (right : Char) : Pattern :=
  let other := Pattern.chars (.complement (.single right))
  if escaped then .group 2 (.alt (.seq (.chars (.single '\\')) (.chars (.single right))) other)
  else other

def fenceLoop (escaped empty : Bool) (right : Char) : Pattern :=
  (fencePiece escaped right).times (if empty then 0 else 1) none true

def fence (left : List Char) (right : Char) (escaped empty : Bool) : Pattern :=
  .concat (Pattern.characters left ++ [.group 1 (fenceLoop escaped empty right)] ++
    [.chars (.single right)])

def pieceSource (escaped : Bool) (right : Char) : List Char :=
  let other := '[' :: '^' :: (escape [right] ++ [']'])
  if escaped then ['('] ++ (escape ['\\', right] ++ (['|'] ++ (other ++ [')']))) else other

theorem toList_fencedSource (left : String) (right : Char) (escaped empty : Bool) :
    (Expr.Patterns.fencedSource left right escaped empty).toList =
      escape left.toList ++ (['('] ++ (pieceSource escaped right ++
        ([if empty then '*' else '+'] ++ ([')'] ++ escape [right])))) := by
  have pair : escape ['\\', right] = '\\' :: '\\' :: escape [right] := rfl
  cases escaped <;> cases empty <;> simp [Expr.Patterns.fencedSource, pieceSource, pair]

theorem reads_fencePiece (escaped : Bool) (right : Char)
    (outer : List (Option Nat × Reader.Level)) :
    ∃ groups, Reader.Reads (pieceSource escaped right) ⟨.holding [] [], outer, 1, []⟩
      ⟨.holding [] [fencePiece escaped right], outer, groups, []⟩ := by
  cases escaped with
  | true =>
      refine ⟨2, Reader.reads_open.append ?_ nofun⟩
      refine (Reader.reads_escape ['\\', right]).append ?_ (by simp)
      refine Reader.reads_alternate.append ?_ (by simp)
      refine (Reader.reads_bracket right).append ?_ (by simp)
      exact Reader.reads_close rfl
  | false => exact ⟨1, Reader.reads_bracket right⟩

theorem parse?_fencedSource (left : String) (right : Char) (escaped empty : Bool) :
    Pattern.parse? false (Expr.Patterns.fencedSource left right escaped empty).toList =
      some (fence left.toList right escaped empty) := by
  obtain ⟨groups, piece⟩ := reads_fencePiece escaped right
    [(some 1, .holding [] (Pattern.characters left.toList))]
  have reads : Reader.Reads (Expr.Patterns.fencedSource left right escaped empty).toList
      (.start false)
      ⟨.holding [] (Pattern.characters left.toList ++
        [.group 1 (fenceLoop escaped empty right)] ++ [.chars (.single right)]),
        [], groups, []⟩ := by
    rw [toList_fencedSource]
    refine (@Reader.reads_escape [] [] [] 0 [] left.toList).append ?_ (by simp)
    refine Reader.reads_open.append ?_ (by cases escaped <;> simp [pieceSource])
    refine piece.append ?_ (by cases empty <;> simp)
    refine (@Reader.reads_many [] [] _ _ _ _ empty).append ?_ (by simp)
    refine (Reader.reads_close rfl).append ?_ (head?_escape_ne [right])
    exact Reader.reads_escape_char right
  exact Reader.parse?_of_reads reads

def ofFence (left : String) (right : Char) (escaped empty : Bool) : Regex :=
  let pattern := fence left.toList right escaped empty
  { source := Expr.Patterns.fencedSource left right escaped empty
    program := (pattern.unroll 0).1
    groups := pattern.groupCount }

theorem compile?_fencedSource (left : String) (right : Char) (escaped empty : Bool) :
    compile? (Expr.Patterns.fencedSource left right escaped empty) false =
      some (ofFence left right escaped empty) := by
  rw [compile?, parse?_fencedSource]
  rfl

theorem groups_ofFence (left : String) (right : Char) (escaped empty : Bool) :
    (ofFence left right escaped empty).groups = if escaped then 2 else 1 := by
  change (fence left.toList right escaped empty).groupCount = _
  rw [fence, List.append_assoc, Pattern.groupCount_characters]
  cases escaped <;> cases empty <;> rfl

/-- What pieces make up before the closing character, with what comes behind that. -/
def Inside (escaped : Bool) (right : Char) (inner tail : List Char) : Prop :=
  if escaped then Escaping right inner tail else right ∉ inner

theorem Inside.exists_of_mem {escaped : Bool} {right : Char}
    (apart : escaped = true → right ≠ '\\') {text : List Char} (present : right ∈ text) :
    ∃ inner tail, text = inner ++ right :: tail ∧ Inside escaped right inner tail := by
  cases escaped with
  | true => exact Escaping.exists_of_mem (apart rfl) text present
  | false => exact List.eq_append_cons_of_mem present

theorem fenceLoop_pieces {escaped : Bool} {right : Char}
    (apart : escaped = true → right ≠ '\\') (empty : Bool) :
    ∃ choice body,
      ((fenceLoop escaped empty right).unroll 0).1 = Program.many empty choice body ∧
      ∀ next : State → Verdict Captures, Program.Closing right next →
        Program.Piece right (Inside escaped right) next choice (Program.run body) := by
  cases escaped with
  | false =>
      refine ⟨0, .chars (.complement (.single right)), ?_, fun next _ => Program.others_piece⟩
      cases empty <;> rfl
  | true =>
      have differs := apart rfl
      cases empty with
      | true =>
          exact ⟨0, Program.escapedPiece 1 right, rfl,
            fun next closing => Program.escapedPiece_piece closing differs (by decide)⟩
      | false =>
          exact ⟨1, Program.escapedPiece 0 right, rfl,
            fun next closing => Program.escapedPiece_piece closing differs (by decide)⟩

theorem closing_single (right : Char) (start : Nat) (result : State → Captures) :
    Program.Closing right fun inner =>
      Program.run (.chars (.single right)) (inner.closeGroup 1 start)
        fun final => .accepted (result final) where
  accepts state _ ahead := ⟨_, @Program.run_single _ (state.closeGroup 1 start) _ _ _ ahead⟩
  refuses state differs := @Program.run_single_of_ne _ (state.closeGroup 1 start) _ _ differs

section Match

variable {left : List Char} {right : Char} {escaped empty : Bool} {state : State}
  {result : State → Captures}

theorem run_fence {rest : List Char} (ahead : state.rest = left ++ rest)
    (next : State → Verdict Captures) :
    Program.run ((fence left right escaped empty).unroll 0).1 state next =
      Program.run ((fenceLoop escaped empty right).unroll 0).1 (state.pass left rest) fun inner =>
        Program.run (.chars (.single right))
          (inner.closeGroup 1 (state.offset + Text.byteLength left)) next := by
  rw [fence, List.append_assoc]
  exact Program.run_characters ahead _ 0

theorem run_fence_accepts (apart : escaped = true → right ≠ '\\') {inner tail : List Char}
    (unmarked : state.marks = []) (ahead : state.rest = left ++ (inner ++ right :: tail))
    (inside : Inside escaped right inner tail) (filled : empty = false → inner ≠ []) :
    ∃ final : State, final.offset = state.offset + Text.byteLength (left ++ inner) ∧
      Program.run ((fence left right escaped empty).unroll 0).1 state
          (fun final => .accepted (result final)) =
        .accepted (result ((final.closeGroup 1 (state.offset + Text.byteLength left)).consume
          right tail)) := by
  obtain ⟨choice, body, loop, piece⟩ := fenceLoop_pieces apart empty
  have closing := closing_single right (state.offset + Text.byteLength left) result
  obtain ⟨final, front, behind, given⟩ := @Program.Piece.many_arrives _ _ _ _ _
    (state.pass left (inner ++ right :: tail)) _ (piece _ closing) closing _ _ _ unmarked rfl
    inside filled
  refine ⟨final, ?_, ?_⟩
  · rw [behind, Text.byteLength_append, ← Nat.add_assoc]
    rfl
  · rw [run_fence ahead, loop, given]
    exact Program.run_single front

theorem run_fence_refuses (apart : escaped = true → right ≠ '\\') (unmarked : state.marks = [])
    (absent : ∀ inner tail, state.rest = left ++ (inner ++ right :: tail) →
      Inside escaped right inner tail → empty = false ∧ inner = []) :
    ∃ marks, Program.run ((fence left right escaped empty).unroll 0).1 state
      (fun final => .accepted (result final)) = .refused marks := by
  by_cases stands : left <+: state.rest
  · obtain ⟨rest, ahead⟩ := stands
    obtain ⟨choice, body, loop, piece⟩ := fenceLoop_pieces apart empty
    have closing := closing_single right (state.offset + Text.byteLength left) result
    rw [run_fence ahead.symm, loop]
    apply @Program.Piece.many_refuses _ _ _ _ _ (state.pass left rest) _ (piece _ closing) closing
      _ unmarked
    by_cases present : right ∈ rest
    · obtain ⟨inner, tail, split, inside⟩ := Inside.exists_of_mem apart present
      rw [split] at ahead
      obtain ⟨some, rfl⟩ := absent inner tail ahead.symm inside
      refine .inr ⟨some, ?_⟩
      change rest.head? = _
      rw [split]
      rfl
    · exact .inl present
  · rw [fence, List.append_assoc]
    exact ⟨_, Program.run_characters_of_not stands _ 0⟩

end Match

theorem Captures.ofState_closeGroup (more offset start : Nat) (state : State) (char : Char)
    (rest : List Char) :
    ∃ others, others.length = more ∧
      Captures.ofState (more + 1) offset ((state.closeGroup 1 start).consume char rest) =
        ⟨offset, state.offset + char.utf8Size, some (start, state.offset) :: others⟩ := by
  rw [Captures.ofState, List.range_succ_eq_map, List.map_cons]
  refine ⟨_, ?_, rfl⟩
  rw [List.length_map, List.length_map, List.length_range]

variable {left : String} {right : Char} {escaped empty : Bool} {previous : Option Char}
  {offset : Nat}

theorem matchFrom_ofFence (apart : escaped = true → right ≠ '\\') {inner tail : List Char}
    (inside : Inside escaped right inner tail) (filled : empty = false → inner ≠ []) :
    ∃ others, others.length + 1 = (ofFence left right escaped empty).groups ∧
      (ofFence left right escaped empty).matchFrom previous offset
          (left.toList ++ (inner ++ right :: tail)) =
        some ⟨offset, offset + Text.byteLength (left.toList ++ inner ++ [right]),
          some (offset + Text.byteLength left.toList,
            offset + Text.byteLength (left.toList ++ inner)) :: others⟩ := by
  obtain ⟨more, count⟩ : ∃ more, (ofFence left right escaped empty).groups = more + 1 := by
    rw [groups_ofFence]
    cases escaped <;> exact ⟨_, rfl⟩
  obtain ⟨final, behind, given⟩ := @run_fence_accepts left.toList right escaped empty
    ⟨previous, left.toList ++ (inner ++ right :: tail), offset, [], []⟩
    (.ofState (more + 1) offset) apart inner tail rfl rfl inside filled
  obtain ⟨others, length, closed⟩ := Captures.ofState_closeGroup more offset
    (offset + Text.byteLength left.toList) final right tail
  have stop : final.offset + right.utf8Size =
      offset + Text.byteLength (left.toList ++ inner ++ [right]) := by
    rw [behind, Text.byteLength_append _ [right], Nat.add_assoc]
    rfl
  rw [closed, stop, behind] at given
  refine ⟨others, by rw [length, count], ?_⟩
  rw [matchFrom_eq, count]
  exact congrArg Verdict.result? given

theorem inside_of_matchFrom (apart : escaped = true → right ≠ '\\') {rest : List Char}
    {captures : Captures}
    (matched : (ofFence left right escaped empty).matchFrom previous offset rest = some captures) :
    ∃ inner tail, rest = left.toList ++ (inner ++ right :: tail) ∧
      Inside escaped right inner tail ∧ (empty = false → inner ≠ []) := by
  by_contra absent
  have refuses := @run_fence_refuses left.toList right escaped empty
    ⟨previous, rest, offset, [], []⟩
    (.ofState (ofFence left right escaped empty).groups offset) apart rfl ?_
  · obtain ⟨marks, refused⟩ := refuses
    have nothing := congrArg Verdict.result? refused
    cases nothing.symm.trans matched
  · intro inner tail split inside
    by_contra filled
    exact absent ⟨inner, tail, split, inside, not_and.mp filled⟩

end LineGrammar.Regex
