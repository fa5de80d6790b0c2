import LineGrammar.Proofs.Expr.Literal
import LineGrammar.Proofs.Regex.Fence

/-!
Texts between boundaries. Without escapes, what stands between the boundaries is the text
up to the first closing character. With escapes, a closing character behind a backslash is
passed over as long as another one follows. If none follows, it closes: an escaped closing
character does end the text if it is the last one on the line.
-/

namespace LineGrammar.Expr.Patterns

variable {cursor : Cursor} {left : String} {right : Char} {escaped empty : Bool}

theorem fence_takes {source : String} {inner tail : List Char} (valid : cursor.Valid)
    (before : cursor.atEnd = false) (apart : escaped = true → right ≠ '\\')
    (split : cursor.rest = left.toList ++ (inner ++ right :: tail))
    (inside : Regex.Inside escaped right inner tail) (filled : empty = false → inner ≠ []) :
    ∃ others, others.length + 1 = (Regex.ofFence left right escaped empty).groups ∧
      (Expr.leaf none source (some (Regex.ofFence left right escaped empty))).Takes cursor
        (left ++ String.ofList inner ++ String.singleton right)
        (some (String.ofList inner) :: others) := by
  obtain ⟨line, lookup⟩ := Cursor.line_of_atEnd before
  obtain ⟨previous, same⟩ :=
    valid.matchRegex_eq lookup (Regex.ofFence left right escaped empty)
  obtain ⟨others, count, matched⟩ := @Regex.matchFrom_ofFence left right escaped empty previous
    cursor.position.column apart inner tail inside filled
  rw [split, matched] at same
  have whole : cursor.rest = (left.toList ++ inner ++ [right]) ++ tail := by
    simp [split]
  have taken := @leaf_takes _ source _ _ _ _ valid same whole rfl
  have text : String.ofList (left.toList ++ inner ++ [right]) =
      left ++ String.ofList inner ++ String.singleton right := by
    rw [String.ofList_append, String.ofList_append, String.ofList_toList,
      String.singleton_eq_ofList]
  have between : Text.sliceBytes (cursor.position.column + Text.byteLength left.toList)
      (cursor.position.column + Text.byteLength (left.toList ++ inner)) cursor.text = inner := by
    rw [Text.byteLength_append, ← Nat.add_assoc]
    exact (valid.boundary.add split).sliceBytes_add (valid.boundary.dropBytes_add split)
  simp only [text, List.map_cons, Option.map_some, between] at taken
  exact ⟨_, by rw [List.length_map, count], taken⟩

/-- Every choice of boundaries makes an expression. It matches exactly if a text between
the boundaries stands ahead; it takes this text, with the inside as its first group. -/
theorem fenced_takes (left : String) (right : Char) (escaped empty : Bool)
    (apart : escaped = true → right ≠ '\\') :
    ∃ expr, fenced left right escaped empty = .ok expr ∧
      ∀ cursor : Cursor, cursor.Valid → cursor.atEnd = false →
        ((∃ found, (expr.attempt cursor).result = .ok found) ↔
          ∃ inner tail, cursor.rest = left.toList ++ (inner ++ right :: tail) ∧
            Regex.Inside escaped right inner tail ∧ (empty = false → inner ≠ [])) ∧
        ∀ inner tail, cursor.rest = left.toList ++ (inner ++ right :: tail) →
          Regex.Inside escaped right inner tail → (empty = false → inner ≠ []) →
          ∃ others, others.length + 1 = (if escaped then 2 else 1) ∧
            expr.Takes cursor (left ++ String.ofList inner ++ String.singleton right)
              (some (String.ofList inner) :: others) := by
  refine ⟨.leaf none (fencedSource left right escaped empty)
    (some (Regex.ofFence left right escaped empty)), ?_, ?_⟩
  · rw [fenced, Expr.regex, Regex.compile?_fencedSource]
  · intro cursor valid before
    rw [← Regex.groups_ofFence left right escaped empty]
    refine ⟨⟨?_, ?_⟩, ?_⟩
    · rintro ⟨found, outcome⟩
      obtain ⟨previous, captures, _, taken⟩ := match_of_leaf valid outcome
      exact Regex.inside_of_matchFrom apart taken
    · rintro ⟨inner, tail, split, inside, filled⟩
      obtain ⟨_, _, ⟨pattern, outcome⟩, _⟩ := fence_takes valid before apart split inside filled
      exact ⟨_, outcome⟩
    · intro inner tail split inside filled
      exact fence_takes valid before apart split inside filled

/-- A text between boundaries ends at the first closing character behind the opening
boundary. It may be empty only if this is allowed. -/
theorem fenced_ends_at_first_closing (left : String) (right : Char) (empty : Bool) :
    ∃ expr, fenced left right false empty = .ok expr ∧
      ∀ (buffer : Buffer) (position : Position),
        let cursor := Cursor.near buffer position
        cursor.atEnd = false →
          ((∃ found, (expr.attempt cursor).result = .ok found) ↔
            ∃ inner tail, cursor.rest = left.toList ++ (inner ++ right :: tail) ∧
              right ∉ inner ∧ (empty = false → inner ≠ [])) ∧
          ∀ inner tail, cursor.rest = left.toList ++ (inner ++ right :: tail) →
            right ∉ inner → (empty = false → inner ≠ []) →
            expr.Takes cursor (left ++ String.ofList inner ++ String.singleton right)
              [some (String.ofList inner)] := by
  obtain ⟨expr, built, takes⟩ := fenced_takes left right false empty nofun
  refine ⟨expr, built, ?_⟩
  intro buffer position cursor before
  obtain ⟨exactly, taken⟩ := takes cursor (Cursor.near_valid buffer position) before
  refine ⟨exactly, ?_⟩
  intro inner tail split absent filled
  obtain ⟨others, count, whole⟩ := taken inner tail split absent filled
  obtain rfl : others = [] := List.length_eq_zero_iff.mp (Nat.succ.inj count)
  exact whole

/-- A bracket that has a meaning inside of brackets closes, behind a boundary that
contains it. -/
theorem bracket_closes_at_first :
    let cursor := Cursor.near (.ofLines ["é[]^-]]"]) ⟨0, 2⟩
    ∃ expr, fenced "[]" ']' false false = .ok expr ∧ cursor.atEnd = false ∧
      expr.Takes cursor "[]^-]" [some "^-"] := by
  intro cursor
  obtain ⟨expr, built, taken⟩ := fenced_ends_at_first_closing "[]" ']' false
  have before : cursor.atEnd = false := by decide +kernel
  refine ⟨expr, built, before, ?_⟩
  exact (taken _ _ before).2 ['^', '-'] [']'] (by decide +kernel) (by decide) (by decide)

/-- With escapes, a closing character behind a backslash belongs to the text if another
one follows, and ends it if it is the last one on the line. So the inside of a text may
end in a backslash, but only if the closing character does not come again. -/
theorem escaped_closing_ends_if_last (left : String) (right : Char) (empty : Bool)
    (apart : right ≠ '\\') :
    ∃ expr, fenced left right true empty = .ok expr ∧
      ∀ (buffer : Buffer) (position : Position),
        let cursor := Cursor.near buffer position
        cursor.atEnd = false →
          ((∃ found, (expr.attempt cursor).result = .ok found) ↔
            ∃ inner tail, cursor.rest = left.toList ++ (inner ++ right :: tail) ∧
              Regex.Escaping right inner tail ∧ (empty = false → inner ≠ [])) ∧
          ∀ inner tail, cursor.rest = left.toList ++ (inner ++ right :: tail) →
            Regex.Escaping right inner tail → (empty = false → inner ≠ []) →
            ∃ piece, expr.Takes cursor (left ++ String.ofList inner ++ String.singleton right)
              [some (String.ofList inner), piece] := by
  obtain ⟨expr, built, takes⟩ := fenced_takes left right true empty fun _ => apart
  refine ⟨expr, built, ?_⟩
  intro buffer position cursor before
  obtain ⟨exactly, taken⟩ := takes cursor (Cursor.near_valid buffer position) before
  refine ⟨exactly, ?_⟩
  intro inner tail split escaping filled
  obtain ⟨others, count, whole⟩ := taken inner tail split escaping filled
  obtain ⟨piece, rfl⟩ := List.length_eq_one_iff.mp (Nat.succ.inj count)
  exact ⟨piece, whole⟩

/-- The first escaped parenthesis is passed over, the second one closes. -/
theorem second_escaped_parenthesis_closes :
    let cursor := Cursor.near (.ofLines ["(a\\)b\\)c"]) ⟨0, 0⟩
    ')' ≠ '\\' ∧ ∃ expr piece, fenced "(" ')' true false = .ok expr ∧
      expr.Takes cursor "(a\\)b\\)" [some "a\\)b\\", piece] := by
  intro cursor
  have apart : ')' ≠ '\\' := by decide
  obtain ⟨expr, built, taken⟩ := escaped_closing_ends_if_last "(" ')' false apart
  obtain ⟨piece, whole⟩ := (taken (.ofLines ["(a\\)b\\)c"]) ⟨0, 0⟩ (by decide +kernel)).2
    ['a', '\\', ')', 'b', '\\'] ['c'] (by decide +kernel) (by decide) (by decide)
  exact ⟨apart, expr, piece, built, whole⟩

/-- An escaped quote closes a string if no other quote follows. -/
theorem escaped_quote_closes_string :
    let cursor := Cursor.near (.ofLines ["\"a\\\""]) ⟨0, 0⟩
    ∃ expr piece, doubleQuoted = .ok expr ∧
      expr.Takes cursor "\"a\\\"" [some "a\\", piece] := by
  intro cursor
  obtain ⟨expr, built, takes⟩ := fenced_takes "\"" '"' true true (by decide)
  have valid : cursor.Valid := Cursor.near_valid _ _
  obtain ⟨others, count, whole⟩ := (takes cursor valid (by decide +kernel)).2 ['a', '\\'] []
    (by decide +kernel) (by decide : Regex.Escaping '"' ['a', '\\'] []) (by decide)
  obtain ⟨piece, rfl⟩ := List.length_eq_one_iff.mp (Nat.succ.inj count)
  exact ⟨expr, piece, built, whole⟩

end LineGrammar.Expr.Patterns
