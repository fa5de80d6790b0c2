import LineGrammar.Proofs.Buffer.Lossless
import LineGrammar.Proofs.Expr.Leaf
import LineGrammar.Proofs.Regex.Reading

/-!
Texts as expressions. A text is escaped and the result read as a pattern. Whatever
characters the text has, the pattern takes the text where it stands ahead and takes
nothing else.
-/

namespace LineGrammar

namespace Regex

def ofText (text : List Char) : Regex :=
  let pattern := Pattern.concat (Pattern.characters text)
  { source := String.ofList (escape text)
    program := (pattern.unroll 0).1
    groups := pattern.groupCount }

theorem compile?_escape (text : List Char) :
    compile? (String.ofList (escape text)) false = some (ofText text) := by
  have reads : Reader.Reads (escape text) (.start false) _ :=
    @Reader.reads_escape [] [] [] 0 [] text
  rw [compile?, String.toList_ofList, Reader.parse?_of_reads reads]
  rfl

variable {previous : Option Char} {offset : Nat}

theorem groups_ofText (text : List Char) : (ofText text).groups = 0 := by
  have count := Pattern.groupCount_characters text []
  rwa [List.append_nil] at count

theorem matchFrom_ofText (text rest : List Char) :
    (ofText text).matchFrom previous offset (text ++ rest) =
      some ⟨offset, offset + Text.byteLength text, []⟩ := by
  unfold matchFrom
  simp only [groups_ofText]
  rw [ofText, ← List.append_nil (Pattern.characters text), Program.run_characters rfl]
  rfl

theorem matchFrom_ofText_of_not {text rest : List Char} (differs : ¬text <+: rest) :
    (ofText text).matchFrom previous offset rest = none := by
  unfold matchFrom
  simp only [ofText]
  rw [← List.append_nil (Pattern.characters text), Program.run_characters_of_not differs]
  rfl

end Regex

namespace Expr

/-- Whether an attempt takes a text: it matches the text from the cursor on, with these
groups, and leaves the cursor behind it. -/
def Takes (expr : Expr) (cursor : Cursor) (text : String) (groups : List (Option String)) : Prop :=
  let stop : Position := ⟨cursor.position.line, cursor.position.column + text.utf8ByteSize⟩
  (∃ pattern, (expr.attempt cursor).result =
      .ok (.leaf ⟨cursor.position, stop, none, text⟩ pattern groups)) ∧
    (expr.attempt cursor).cursor = { cursor with position := stop }

variable {cursor : Cursor} {source : String} {regex : Regex}

theorem leaf_takes {captures : Regex.Captures} {consumed later : List Char}
    (valid : cursor.Valid) (matched : cursor.matchRegex regex = some captures)
    (split : cursor.rest = consumed ++ later)
    (stop : captures.stop = cursor.position.column + Text.byteLength consumed) :
    (Expr.leaf none source (some regex)).Takes cursor (String.ofList consumed)
      (captures.groups.map fun span =>
        span.map fun (start, stop) => String.ofList (Text.sliceBytes start stop cursor.text)) := by
  obtain ⟨passes, given⟩ := @leaf_eq_of_match _ source _ _ _ _ valid matched split stop
  have length : Text.byteLength consumed = (String.ofList consumed).utf8ByteSize := by
    rw [← Text.byteLength_toList, String.toList_ofList]
  rw [valid.skipBytes_eq split, length] at passes given
  exact ⟨⟨source, given⟩, passes⟩

theorem ofText_takes {text : String} (valid : cursor.Valid) (before : cursor.atEnd = false)
    (stands : text.toList <+: cursor.rest) :
    (Expr.leaf none source (some (Regex.ofText text.toList))).Takes cursor text [] := by
  obtain ⟨line, lookup⟩ := Cursor.line_of_atEnd before
  obtain ⟨previous, same⟩ := valid.matchRegex_eq lookup (Regex.ofText text.toList)
  obtain ⟨later, split⟩ := stands
  rw [← split, Regex.matchFrom_ofText] at same
  have taken := @leaf_takes _ source _ _ _ _ valid same split.symm rfl
  rwa [String.ofList_toList] at taken

/-- Every text makes an expression. At a place that is not the end of the buffer, the
expression matches exactly if the text stands ahead on the line; it takes the text
itself, without groups. -/
theorem literal_takes_its_text (text : String) :
    ∃ expr, literal text = .ok expr ∧ ∀ (buffer : Buffer) (position : Position),
      let cursor := Cursor.near buffer position
      cursor.atEnd = false →
        ((∃ found, (expr.attempt cursor).result = .ok found) ↔ text.toList <+: cursor.rest) ∧
        (text.toList <+: cursor.rest → expr.Takes cursor text []) := by
  refine ⟨.leaf none (String.ofList (Regex.escape text.toList))
    (some (Regex.ofText text.toList)), ?_, ?_⟩
  · rw [literal, Expr.regex, Regex.compile?_escape]
  · intro buffer position cursor before
    have valid : cursor.Valid := Cursor.near_valid buffer position
    refine ⟨⟨?_, ?_⟩, ofText_takes valid before⟩
    · rintro ⟨found, outcome⟩
      obtain ⟨previous, captures, _, taken⟩ := match_of_leaf valid outcome
      by_contra differs
      rw [Regex.matchFrom_ofText_of_not differs] at taken
      cases taken
    · intro stands
      obtain ⟨⟨pattern, outcome⟩, _⟩ := ofText_takes valid before stands
      exact ⟨_, outcome⟩

theorem operators_are_taken_as_they_stand :
    let cursor := Cursor.near (.ofLines ["é(a|b)*?"]) ⟨0, 2⟩
    ∃ expr, literal "(a|b)*" = .ok expr ∧ cursor.atEnd = false ∧
      expr.Takes cursor "(a|b)*" [] := by
  intro cursor
  obtain ⟨expr, built, taken⟩ := literal_takes_its_text "(a|b)*"
  have before : cursor.atEnd = false := by decide +kernel
  exact ⟨expr, built, before, (taken _ _ before).2 (by decide +kernel)⟩

end Expr

end LineGrammar
