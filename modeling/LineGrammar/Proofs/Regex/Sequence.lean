import LineGrammar.Proofs.Regex.Span

/-!
How concatenations run. The parts of a concatenation run one after the other, and a
part that is a single character passes over that character or refuses. So the
characters of a text, one after the other, pass over the text if it stands ahead and
refuse if it does not; neither makes a choice.
-/

namespace LineGrammar.Regex

theorem contains_single (char other : Char) :
    (CharClass.single char).contains other = (other == char) := by
  simp only [CharClass.single, CharClass.contains, ← Bool.decide_and, Bool.beq_eq_decide_eq]
  congr 1
  exact propext ⟨fun ⟨least, most⟩ => Char.le_antisymm most least,
    fun same => same ▸ ⟨Char.le_refl _, Char.le_refl _⟩⟩

def State.pass (state : State) (text later : List Char) : State :=
  { state with
    previous := text.getLast?.or state.previous
    rest := later
    offset := state.offset + Text.byteLength text }

theorem State.pass_nil {state : State} {later : List Char} (ahead : state.rest = later) :
    state.pass [] later = state := by
  subst ahead
  rfl

theorem State.pass_cons (state : State) (char : Char) (text later : List Char) :
    state.pass (char :: text) later = (state.consume char (text ++ later)).pass text later := by
  simp only [pass, consume, Text.byteLength_cons, Nat.add_assoc]
  cases last : text.getLast? <;> simp [List.getLast?_cons, last]

def Pattern.characters (text : List Char) : List Pattern :=
  text.map fun char => .chars (.single char)

namespace Program

variable {Result : Type} {state : State} {next : State → Verdict Result}

theorem run_concat_cons (first : Pattern) (later : List Pattern) (choice : Nat) :
    @run Result ((Pattern.concat (first :: later)).unroll choice).1 = fun state next =>
      run (first.unroll choice).1 state fun middle =>
        run ((Pattern.concat later).unroll (first.unroll choice).2).1 middle next := by
  cases later with
  | nil => rfl
  | cons second later => rfl

theorem run_single {char : Char} {rest : List Char} (ahead : state.rest = char :: rest) :
    run (.chars (.single char)) state next = next (state.consume char rest) := by
  simp [run, ahead, contains_single]

theorem run_single_of_ne {char : Char} (differs : state.rest.head? ≠ some char) :
    run (.chars (.single char)) state next = .refused state.marks := by
  simp only [run, contains_single]
  split
  · rfl
  · rename_i ahead
    have other := differs
    simp only [ahead, List.head?_cons, ne_eq, Option.some.injEq] at other
    simp [other]

theorem run_characters {text rest : List Char} (ahead : state.rest = text ++ rest)
    (later : List Pattern) (choice : Nat) :
    run ((Pattern.concat (Pattern.characters text ++ later)).unroll choice).1 state next =
      run ((Pattern.concat later).unroll choice).1 (state.pass text rest) next := by
  induction text generalizing state with
  | nil =>
      have here : state.pass [] rest = state := State.pass_nil ahead
      rw [here]
      rfl
  | cons char text induction =>
      rw [State.pass_cons, ← induction rfl]
      exact (congrFun (congrFun (run_concat_cons _ _ choice) state) next).trans (run_single ahead)

theorem run_characters_of_not {text : List Char} (differs : ¬text <+: state.rest)
    (later : List Pattern) (choice : Nat) :
    run ((Pattern.concat (Pattern.characters text ++ later)).unroll choice).1 state next =
      .refused state.marks := by
  induction text generalizing state with
  | nil => exact absurd List.nil_prefix differs
  | cons char text induction =>
      refine (congrFun (congrFun (run_concat_cons _ _ choice) state) next).trans ?_
      by_cases first : state.rest.head? = some char
      · obtain ⟨rest, ahead⟩ := List.head?_eq_some_iff.mp first
        refine (run_single ahead).trans (induction ?_)
        intro stands
        apply differs
        rw [ahead]
        exact List.cons_prefix_cons.mpr ⟨rfl, stands⟩
      · exact run_single_of_ne first

end Program

theorem Pattern.groupCount_concat_cons (first : Pattern) (later : List Pattern) :
    (Pattern.concat (first :: later)).groupCount =
      max first.groupCount (Pattern.concat later).groupCount := by
  cases later with
  | nil => exact (Nat.max_zero _).symm
  | cons second later => rfl

theorem Pattern.groupCount_characters (text : List Char) (later : List Pattern) :
    (Pattern.concat (Pattern.characters text ++ later)).groupCount =
      (Pattern.concat later).groupCount := by
  induction text with
  | nil => rfl
  | cons char text induction =>
      refine (groupCount_concat_cons _ _).trans ?_
      rw [← induction]
      exact Nat.zero_max _

end LineGrammar.Regex
