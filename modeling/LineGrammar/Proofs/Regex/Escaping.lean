import LineGrammar.Proofs.Regex.Closing
import Mathlib.Data.List.Chain

/-!
Loops over escaped pairs. A piece of such a loop is a backslash with the closing
character, if these are ahead, and otherwise a character other than the closing one. The
backslash is such a character too. So a loop that comes to the end of the line without
having met the closing character outside a pair goes back and takes the last pair apart:
its backslash is taken alone, and its closing character closes.
-/

namespace LineGrammar.Regex

/-- What a loop over escaped pairs and other characters takes before the closing
character. The closing character stands in it behind backslashes only. If it ends in a
backslash itself, the closing character does not come again. -/
structure Escaping (right : Char) (inner tail : List Char) : Prop where
  start : inner.head? ≠ some right
  guarded : inner.IsChain fun first second => second = right → first = '\\'
  last : inner.getLast? = some '\\' → right ∉ tail

instance (right : Char) (inner tail : List Char) : Decidable (Escaping right inner tail) :=
  decidable_of_iff (inner.head? ≠ some right ∧
    (inner.IsChain fun first second => second = right → first = '\\') ∧
    (inner.getLast? = some '\\' → right ∉ tail))
  ⟨fun ⟨start, guarded, last⟩ => ⟨start, guarded, last⟩,
    fun escaping => ⟨escaping.start, escaping.guarded, escaping.last⟩⟩

namespace Escaping

variable {right first : Char} {inner tail : List Char}

theorem nil (right : Char) (tail : List Char) : Escaping right [] tail where
  start := nofun
  guarded := .nil
  last := nofun

theorem cons_iff (differs : first ≠ right)
    (unpaired : ¬(first = '\\' ∧ (inner ++ right :: tail).head? = some right)) :
    Escaping right (first :: inner) tail ↔ Escaping right inner tail := by
  cases inner with
  | nil =>
      have plain : first ≠ '\\' := fun pair => unpaired ⟨pair, rfl⟩
      constructor
      · intro _
        exact nil right tail
      · intro _
        exact ⟨by simpa using differs, .singleton first, by simp [plain]⟩
  | cons second inner =>
      have apart : first = '\\' → second ≠ right := fun pair same => unpaired ⟨pair, by simp [same]⟩
      constructor
      · intro escaping
        obtain ⟨pair, guarded⟩ := List.isChain_cons_cons.mp escaping.guarded
        refine ⟨?_, guarded, escaping.last⟩
        intro start
        have same : second = right := by simpa using start
        exact apart (pair same) same
      · intro escaping
        have other : second ≠ right := by simpa using escaping.start
        exact ⟨by simpa using differs,
          List.isChain_cons_cons.mpr ⟨fun same => absurd same other, escaping.guarded⟩,
          escaping.last⟩

theorem pair_iff (differs : right ≠ '\\') :
    Escaping right ('\\' :: right :: inner) tail ↔ Escaping right inner tail := by
  have start : ('\\' :: right :: inner).head? ≠ some right := by simpa using differs.symm
  cases inner with
  | nil =>
      constructor
      · intro _
        exact nil right tail
      · intro _
        exact ⟨start, List.isChain_cons_cons.mpr ⟨fun _ => rfl, .singleton right⟩,
          by simp [differs]⟩
  | cons second inner =>
      constructor
      · intro escaping
        obtain ⟨_, behind⟩ := List.isChain_cons_cons.mp escaping.guarded
        obtain ⟨pair, guarded⟩ := List.isChain_cons_cons.mp behind
        refine ⟨?_, guarded, escaping.last⟩
        intro same
        exact differs (pair (by simpa using same))
      · intro escaping
        have other : second ≠ right := by simpa using escaping.start
        refine ⟨start, List.isChain_cons_cons.mpr ⟨fun _ => rfl, ?_⟩, escaping.last⟩
        exact List.isChain_cons_cons.mpr ⟨fun same => absurd same other, escaping.guarded⟩

theorem lone (differs : right ≠ '\\') (absent : right ∉ tail) : Escaping right ['\\'] tail where
  start := by simpa using differs.symm
  guarded := .singleton '\\'
  last := fun _ => absent

theorem exists_of_mem (differs : right ≠ '\\') :
    ∀ text : List Char, right ∈ text →
      ∃ inner tail, text = inner ++ right :: tail ∧ Escaping right inner tail
  | first :: rest, present => by
      by_cases same : first = right
      · exact ⟨[], rest, by rw [same, List.nil_append], nil right rest⟩
      · have later : right ∈ rest := (List.mem_cons.mp present).resolve_left (Ne.symm same)
        by_cases paired : first = '\\' ∧ rest.head? = some right
        · obtain ⟨rfl, front⟩ := paired
          obtain ⟨behind, rfl⟩ := List.head?_eq_some_iff.mp front
          by_cases again : right ∈ behind
          · obtain ⟨inner, tail, rfl, escaping⟩ := exists_of_mem differs behind again
            exact ⟨'\\' :: right :: inner, tail, rfl, (pair_iff differs).mpr escaping⟩
          · exact ⟨['\\'], behind, rfl, lone differs again⟩
        · obtain ⟨inner, tail, rfl, escaping⟩ := exists_of_mem differs rest later
          exact ⟨first :: inner, tail, rfl, (cons_iff same paired).mpr escaping⟩

end Escaping

namespace Program

variable {Result : Type} {right : Char} {next : State → Verdict Result} {choice : Nat}
  {loop : State → Verdict Result} {state : State}

/-- A backslash with the closing character if possible, else a character other than the
closing one. The second group of the pattern tells which. -/
def escapedPiece (choice : Nat) (right : Char) : Program :=
  .group 2 (.branch choice (.seq (.chars (.single '\\')) (.chars (.single right)))
    (.chars (.complement (.single right))))

theorem run_pair {rest : List Char} (ahead : state.rest = '\\' :: right :: rest) :
    run (.seq (.chars (.single '\\')) (.chars (.single right))) state loop =
      loop ((state.consume '\\' (right :: rest)).consume right rest) := by
  have parts : run (.seq (.chars (.single '\\')) (.chars (.single right))) state loop =
      run (.chars (.single '\\')) state fun middle =>
        run (.chars (.single right)) middle loop := rfl
  rw [parts, run_single ahead, run_single rfl]

theorem run_pair_refused (unpaired : ¬['\\', right] <+: state.rest) :
    run (.seq (.chars (.single '\\')) (.chars (.single right))) state loop =
      .refused state.marks := by
  exact run_characters_of_not unpaired [] 0

theorem run_escapedPiece (unmade : state.hasMade choice = false) :
    run (escapedPiece choice right) state loop =
      (run (.seq (.chars (.single '\\')) (.chars (.single right))) (state.make choice)
        fun inner => loop (inner.closeGroup 2 state.offset)).orTry (state.make choice)
          fun again => run (.chars (.complement (.single right))) again
            fun inner => loop (inner.closeGroup 2 state.offset) := by
  simp [escapedPiece, run, unmade]

theorem run_escapedPiece_unpaired (unmade : state.hasMade choice = false)
    (unpaired : ¬['\\', right] <+: state.rest) :
    run (escapedPiece choice right) state loop =
      run (.chars (.complement (.single right))) (state.make choice)
        fun inner => loop (inner.closeGroup 2 state.offset) := by
  have refused := @run_pair_refused Result right
    (fun inner => loop (inner.closeGroup 2 state.offset)) (state.make choice) unpaired
  rw [run_escapedPiece unmade, refused]
  rfl

theorem escapedPiece_takes_pair {may : List Char → List Char → Prop} {inner tail : List Char}
    (encloses : Encloses right may next state.rest.length loop) (closing : Closing right next)
    (ahead : state.rest = '\\' :: right :: (inner ++ right :: tail)) (allowed : may inner tail)
    (foremost : state.Foremost) (unmade : state.hasMade choice = false) :
    Arrives right next state ('\\' :: right :: inner) tail
      (run (escapedPiece choice right) state loop) := by
  have made := foremost.make choice
  have behind := encloses.closeGroup 2 state.offset
  have arrives := behind.arrives
    (((state.make choice).consume '\\' (right :: (inner ++ right :: tail))).consume right
      (inner ++ right :: tail)) inner tail
    (by simp only [ahead, State.consume, List.length_cons]; omega) rfl allowed
    ((made.fresh_consume '\\' _).foremost.fresh_consume right _)
  obtain ⟨result, accepted⟩ := arrives.accepted closing
  have whole := arrives.of_consume.of_consume
  rw [run_escapedPiece unmade, @run_pair _ _ _ (state.make choice) _ ahead, accepted]
  rw [accepted] at whole
  exact whole

/-- If nothing can be taken behind a pair, its backslash is taken alone, and the closing
character of the pair closes after all. -/
theorem escapedPiece_splits_pair {may : List Char → List Char → Prop} {tail : List Char}
    (encloses : Encloses right may next state.rest.length loop) (differs : right ≠ '\\')
    (ahead : state.rest = '\\' :: right :: tail) (absent : right ∉ tail)
    (foremost : state.Foremost) (unmade : state.hasMade choice = false) :
    Arrives right next state ['\\'] tail (run (escapedPiece choice right) state loop) := by
  have made := foremost.make choice
  have behind := encloses.closeGroup 2 state.offset
  have length : state.rest.length = tail.length + 2 := by simp [ahead]
  rw [length] at behind
  obtain ⟨marks, refused, onward⟩ := behind.gives_up
    (((state.make choice).consume '\\' (right :: tail)).consume right tail)
    (by simp [State.consume]) absent
    ((made.fresh_consume '\\' (right :: tail)).foremost.fresh_consume right tail)
  rw [run_escapedPiece unmade, @run_pair _ _ _ (state.make choice) _ ahead, refused]
  -- All choices were made up to the backslash, or behind the pair, and none between the two.
  have untried : (({ state.make choice with marks := marks } : State).consume '\\'
      (right :: tail)).Untried := by
    intro mark member same
    have wide := right.utf8Size_pos
    change mark.offset = state.offset + '\\'.utf8Size at same
    rcases onward mark member with old | beyond
    · have bound : mark.offset ≤ state.offset := made mark old
      have positive := '\\'.utf8Size_pos
      omega
    · change state.offset + '\\'.utf8Size + right.utf8Size ≤ mark.offset at beyond
      omega
  have single := @run_others _ right (fun inner => loop (inner.closeGroup 2 state.offset))
    { state.make choice with marks := marks } '\\' (right :: tail) ahead differs.symm
  change Arrives right next state ['\\'] tail (run _ { state.make choice with marks := marks } _)
  rw [single]
  exact (behind.here _ tail (by simp [State.consume]) rfl untried).of_consume

/-- A round takes an escaped pair or the first character alone, and the rounds behind it
take what is left. -/
theorem escapedPiece_arrives {first : Char} {inner tail : List Char}
    (encloses : Encloses right (Escaping right) next state.rest.length loop)
    (closing : Closing right next) (differs : right ≠ '\\')
    (ahead : state.rest = first :: inner ++ right :: tail)
    (escaping : Escaping right (first :: inner) tail) (foremost : state.Foremost)
    (unmade : state.hasMade choice = false) :
    Arrives right next state (first :: inner) tail
      (run (escapedPiece choice right) state loop) := by
  have start : first ≠ right := by simpa using escaping.start
  by_cases paired : first = '\\' ∧ (inner ++ right :: tail).head? = some right
  · obtain ⟨rfl, front⟩ := paired
    cases inner with
    | nil =>
        exact escapedPiece_splits_pair encloses differs ahead (escaping.last rfl) foremost unmade
    | cons second inner =>
        obtain rfl : second = right := by simpa using front
        exact escapedPiece_takes_pair encloses closing ahead
          ((Escaping.pair_iff differs).mp escaping) foremost unmade
  · have unpaired : ¬['\\', right] <+: state.rest := by
      rintro ⟨rest, split⟩
      obtain ⟨pair, behind⟩ := List.cons.inj (split.trans ahead)
      exact paired ⟨pair.symm, (congrArg List.head? behind).symm⟩
    rw [run_escapedPiece_unpaired unmade unpaired]
    exact @others_arrive _ _ _ _ _ (state.make choice) _ _ _ (encloses.closeGroup 2 state.offset)
      ahead start ((Escaping.cons_iff start paired).mp escaping) (foremost.make choice)

theorem escapedPiece_piece {other : Nat} (closing : Closing right next) (differs : right ≠ '\\')
    (distinct : choice ≠ other) :
    Piece right (Escaping right) next other (run (escapedPiece choice right)) where
  refuses := by
    intro state loop front chose
    have unpaired : ¬['\\', right] <+: state.rest := by
      rintro ⟨rest, split⟩
      rw [← split] at front
      exact differs (Option.some.inj front).symm
    rw [run_escapedPiece_unpaired (chose.hasMade_eq distinct) unpaired]
    exact ⟨_, run_others_refused (.inl front)⟩
  arrives := by
    intro state loop first inner tail encloses ahead escaping foremost chose
    exact escapedPiece_arrives encloses closing differs ahead escaping foremost
      (chose.hasMade_eq distinct)
  gives_up := by
    intro state loop encloses absent foremost chose
    have unpaired : ¬['\\', right] <+: state.rest := by
      intro pair
      exact absent (pair.subset (by simp))
    rw [run_escapedPiece_unpaired (chose.hasMade_eq distinct) unpaired]
    apply GivesUp.of_make
    exact @others_give_up _ _ _ _ _ (state.make choice) (encloses.closeGroup 2 state.offset)
      absent (foremost.make choice)

end Program

end LineGrammar.Regex
