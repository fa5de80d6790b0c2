import LineGrammar.Proofs.Regex.Sequence

/-!
How patterns are read that are put together from texts. A text is escaped before it
becomes part of a pattern. Every escaped character is read as the character itself,
at the top of a pattern and between brackets alike, so an escaped text is read as its
characters one after the other, and a negated bracket around an escaped character as
the class of all other characters.

Reading is put together from pieces: what a piece of a pattern does to the state of
the reader does not depend on what follows, as long as that is no question mark.
-/

namespace LineGrammar.Regex

theorem escape_cons (char : Char) (text : List Char) :
    escape (char :: text) = escape [char] ++ escape text := by
  simp [escape]

theorem escape_of_plain {char : Char} (plain : isMeta char = false) : escape [char] = [char] := by
  simp [escape, plain]

theorem escape_of_meta {char : Char} (special : isMeta char = true) :
    escape [char] = ['\\', char] := by
  simp [escape, special]

theorem ne_of_plain {char : Char} (plain : isMeta char = false) (other : Char)
    (special : isMeta other = true) : char ≠ other := by
  rintro rfl
  cases plain.symm.trans special

theorem isEscapable_of_meta {char : Char} (special : isMeta char = true) :
    isEscapable char = true := by
  simp [isEscapable, special]

theorem head?_escape_ne (text : List Char) : (escape text).head? ≠ some '?' := by
  cases text with
  | nil => exact nofun
  | cons char text =>
      rw [escape_cons]
      cases kind : isMeta char with
      | true => simp [escape_of_meta kind]
      | false => simpa [escape_of_plain kind] using ne_of_plain kind '?' (by decide)

namespace Bracket

theorem readPrimitive?_escape (char : Char) (rest : List Char) :
    readPrimitive? {} (escape [char] ++ rest) = some (.literal char, rest) := by
  cases kind : isMeta char with
  | true =>
      rw [escape_of_meta kind]
      simp [readPrimitive?, readEscape?, isEscapable_of_meta kind]
  | false =>
      rw [escape_of_plain kind]
      exact readPrimitive?.eq_3 {} char rest (ne_of_plain kind '\\' (by decide))

theorem readOperator?_escape (char : Char) (rest : List Char) :
    readOperator? (escape [char] ++ rest) = none := by
  cases kind : isMeta char with
  | true =>
      rw [escape_of_meta kind]
      rfl
  | false =>
      rw [escape_of_plain kind]
      unfold readOperator?
      split
      case h_4 => rfl
      all_goals
        rename_i start
        cases start
        cases kind

theorem escape_eq_cons (char : Char) (rest : List Char) :
    ∃ first later, escape [char] ++ rest = first :: later ∧ first ≠ '[' ∧ first ≠ ']' ∧
      first ≠ '-' := by
  cases kind : isMeta char with
  | true => exact ⟨'\\', char :: rest, by rw [escape_of_meta kind]; rfl, by decide⟩
  | false =>
      refine ⟨char, rest, by rw [escape_of_plain kind]; rfl, ?_, ?_, ?_⟩
      all_goals exact ne_of_plain kind _ (by decide)

theorem readRest?_escape (char : Char) (rest : List Char) (limit : Nat) :
    readRest? {} (limit + 2) [] .nothing (escape [char] ++ ']' :: rest) =
      some (.single char, rest) := by
  have item : readItem? {} (escape [char] ++ ']' :: rest) = some (.single char, ']' :: rest) := by
    simp [readItem?, readPrimitive?_escape, Flags.skip]
  have operator := readOperator?_escape char (']' :: rest)
  obtain ⟨first, later, split, notOpening, notClosing, _⟩ := escape_eq_cons char (']' :: rest)
  rw [split] at item operator ⊢
  rw [readRest?]
  simp [Flags.skip, notOpening, notClosing, operator, item, add, readRest?, complete]

theorem readStart_escape (char : Char) (rest : List Char) :
    readStart {} ('^' :: (escape [char] ++ rest)) = (true, .nothing, escape [char] ++ rest) := by
  obtain ⟨first, later, split, _, notClosing, notHyphen⟩ := escape_eq_cons char rest
  have hyphens : readHyphens {} (first :: later).length .nothing (first :: later) =
      (.nothing, first :: later) := by
    simp [readHyphens, notHyphen]
  rw [split]
  simp only [readStart, Flags.skip, Bool.false_eq_true, if_false, hyphens]
  split
  · rename_i closing
    exact absurd (List.cons.inj closing).1 notClosing
  · rfl

theorem readBracket?_escape (char : Char) (rest : List Char) :
    readBracket? {} ('^' :: (escape [char] ++ ']' :: rest)) =
      some (.complement (.single char), rest) := by
  obtain ⟨first, later, split, _⟩ := escape_eq_cons char (']' :: rest)
  have limit : ∃ limit, (escape [char] ++ ']' :: rest).length + 1 = limit + 2 :=
    ⟨later.length, by rw [split, List.length_cons]⟩
  obtain ⟨limit, enough⟩ := limit
  simp only [readBracket?, readStart_escape, enough, readRest?_escape]
  rfl

end Bracket

namespace Reader

/-- A level without flags that holds the finished alternatives and the parts of the
current one in the order in which they were read. -/
def Level.holding (choices parts : List Pattern) : Level :=
  { flags := {}, choices := choices.reverse, pieces := (parts.map Piece.part).reverse }

theorem concatPieces_parts (parts : List Pattern) :
    concatPieces (parts.map Piece.part).reverse = Pattern.concat parts := by
  rw [concatPieces, List.reverse_reverse, List.filterMap_map]
  exact congrArg Pattern.concat List.filterMap_some

theorem finish_holding (choices parts : List Pattern) :
    (Level.holding choices parts).finish = Pattern.choice (choices ++ [Pattern.concat parts]) := by
  simp [Level.finish, Level.holding, concatPieces_parts]

variable {choices parts : List Pattern} {outer : List (Option Nat × Level)} {groups : Nat}
  {names : List (List Char)}

theorem push_holding (part : Pattern) :
    State.push ⟨.holding choices parts, outer, groups, names⟩ part =
      ⟨.holding choices (parts ++ [part]), outer, groups, names⟩ := by
  simp [State.push, Level.holding]

theorem step?_of_plain {char : Char} (plain : isMeta char = false) (state : State)
    (rest : List Char) :
    step? state char rest = some (state.push (literal state.flags char), rest) := by
  unfold step?
  split
  case h_13 => rfl
  all_goals cases plain

theorem step?_of_meta {char : Char} (special : isMeta char = true) (state : State)
    (rest : List Char) :
    step? state '\\' (char :: rest) = some (state.push (literal state.flags char), rest) := by
  simp [step?, readEscape?, isEscapable_of_meta special, ofPrimitive]

/-- Whether reading a piece of a pattern leads from one state of the reader to
another, whatever follows that is no question mark. -/
def Reads (piece : List Char) (before after : State) : Prop :=
  ∃ steps ≤ piece.length, ∀ limit rest, rest.head? ≠ some '?' →
    readAll? (limit + steps) before (piece ++ rest) = readAll? limit after rest

theorem Reads.append {first second : List Char} {before middle after : State}
    (early : Reads first before middle) (late : Reads second middle after)
    (head : second.head? ≠ some '?') : Reads (first ++ second) before after := by
  obtain ⟨steps, few, reads⟩ := early
  obtain ⟨steps', few', reads'⟩ := late
  refine ⟨steps' + steps, ?_, ?_⟩
  · rw [List.length_append]
    omega
  · intro limit rest follows
    have between : (second ++ rest).head? ≠ some '?' := by
      cases second with
      | nil => exact follows
      | cons char later => exact head
    rw [List.append_assoc, ← Nat.add_assoc, reads _ _ between, reads' _ _ follows]

theorem reads_of_step {char : Char} {later : List Char} {before after : State}
    (bare : before.flags = {})
    (steps : ∀ rest, rest.head? ≠ some '?' →
      step? before char (later ++ rest) = some (after, rest)) :
    Reads (char :: later) before after := by
  refine ⟨1, by simp, ?_⟩
  intro limit rest follows
  have skipped : before.flags.skip (char :: (later ++ rest)) = char :: (later ++ rest) := by
    rw [bare]
    rfl
  rw [List.cons_append, readAll?.eq_def]
  simp only [skipped, steps rest follows]

theorem parse?_of_reads {source : List Char}
    (reads : Reads source (.start false) ⟨.holding choices parts, [], groups, names⟩) :
    Pattern.parse? false source = some (Pattern.choice (choices ++ [Pattern.concat parts])) := by
  obtain ⟨steps, few, leads⟩ := reads
  obtain ⟨limit, enough⟩ := Nat.exists_eq_add_of_le few
  have whole := leads limit [] nofun
  rw [List.append_nil] at whole
  rw [Pattern.parse?, enough, Nat.add_comm, whole, readAll?.eq_def, ← finish_holding]
  rfl

theorem reads_escape_char (char : Char) :
    Reads (escape [char]) ⟨.holding choices parts, outer, groups, names⟩
      ⟨.holding choices (parts ++ [.chars (.single char)]), outer, groups, names⟩ := by
  rw [← push_holding]
  cases kind : isMeta char with
  | true =>
      rw [escape_of_meta kind]
      exact reads_of_step rfl fun rest _ => step?_of_meta kind _ rest
  | false =>
      rw [escape_of_plain kind]
      exact reads_of_step rfl fun rest _ => step?_of_plain kind _ rest

theorem reads_escape (text : List Char) :
    Reads (escape text) ⟨.holding choices parts, outer, groups, names⟩
      ⟨.holding choices (parts ++ Pattern.characters text), outer, groups, names⟩ := by
  induction text generalizing parts with
  | nil =>
      rw [Pattern.characters, List.map_nil, List.append_nil]
      exact ⟨0, Nat.le_refl _, fun limit rest _ => rfl⟩
  | cons char text induction =>
      have later := @induction (parts ++ [.chars (.single char)])
      rw [List.append_assoc] at later
      rw [escape_cons]
      exact (reads_escape_char char).append later (head?_escape_ne text)

theorem reads_open :
    Reads ['('] ⟨.holding choices parts, outer, groups, names⟩
      ⟨.holding [] [], (some (groups + 1), .holding choices parts) :: outer, groups + 1, names⟩ := by
  apply reads_of_step rfl
  intro rest follows
  change readGroup? _ rest = _
  unfold readGroup?
  split
  case h_6 => rfl
  all_goals
    rename_i start
    change rest = _ at start
    rw [start] at follows
    exact absurd rfl follows

theorem reads_close {index : Nat} {inside : Level} (bare : inside.flags = {}) :
    Reads [')'] ⟨inside, (some index, .holding choices parts) :: outer, groups, names⟩
      ⟨.holding choices (parts ++ [.group index inside.finish]), outer, groups, names⟩ := by
  rw [← push_holding]
  exact reads_of_step bare fun rest _ => rfl

theorem reads_alternate :
    Reads ['|'] ⟨.holding choices parts, outer, groups, names⟩
      ⟨.holding (choices ++ [Pattern.concat parts]) [], outer, groups, names⟩ := by
  apply reads_of_step rfl
  intro rest _
  simp [step?, State.alternate, Level.holding, concatPieces_parts]

theorem reads_bracket (char : Char) :
    Reads ('[' :: '^' :: (escape [char] ++ [']']))
      ⟨.holding choices parts, outer, groups, names⟩
      ⟨.holding choices (parts ++ [.chars (.complement (.single char))]), outer, groups,
        names⟩ := by
  rw [← push_holding]
  apply reads_of_step rfl
  intro rest _
  have bracket := Bracket.readBracket?_escape char rest
  have bare : State.flags ⟨.holding choices parts, outer, groups, names⟩ = {} := rfl
  simp [step?, bare, bracket]

theorem reads_many (body : Pattern) (empty : Bool) :
    Reads [if empty then '*' else '+'] ⟨.holding choices (parts ++ [body]), outer, groups, names⟩
      ⟨.holding choices (parts ++ [body.times (if empty then 0 else 1) none true]), outer, groups,
        names⟩ := by
  apply reads_of_step rfl
  intro rest follows
  have eager : readLazy rest = (false, rest) := by
    unfold readLazy
    split
    · exact absurd rfl follows
    · rfl
  cases empty with
  | true => simp [step?, eager, State.iterate?, Level.holding, State.flags]
  | false => simp [step?, eager, State.iterate?, Level.holding, State.flags]

end Reader

end LineGrammar.Regex
