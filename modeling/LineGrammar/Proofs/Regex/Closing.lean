import LineGrammar.Proofs.Regex.Sequence

/-!
Loops that are followed by a closing character. Such a loop takes pieces as long as it
can. It comes to an end before the closing character, or it has tried in vain and gives
up. What a single piece takes, given that the rounds behind it do what they should,
decides what the whole loop takes; which texts a loop may take before a closing
character is a parameter here.

Choices are made at most once at a place, so the places at which choices have been made
are followed through the loop: at the start of a round they all lie behind, and a round
that gives up has made choices only from its start on.
-/

namespace LineGrammar.Regex

namespace State

/-- Whether all choices were made at earlier places. -/
def Fresh (state : State) : Prop := ∀ mark ∈ state.marks, mark.offset < state.offset

/-- Whether no choice was made here. -/
def Untried (state : State) : Prop := ∀ mark ∈ state.marks, mark.offset ≠ state.offset

/-- Whether at most one choice was made here. -/
def Chose (choice : Nat) (state : State) : Prop :=
  ∀ mark ∈ state.marks, mark.offset = state.offset → mark.choice = choice

/-- Whether no choice was made at a later place. -/
def Foremost (state : State) : Prop := ∀ mark ∈ state.marks, mark.offset ≤ state.offset

variable {state : State} {choice : Nat}

theorem Fresh.untried (fresh : state.Fresh) : state.Untried := fun mark member =>
  Nat.ne_of_lt (fresh mark member)

theorem Fresh.foremost (fresh : state.Fresh) : state.Foremost := fun mark member =>
  Nat.le_of_lt (fresh mark member)

theorem Foremost.make (foremost : state.Foremost) (choice : Nat) :
    (state.make choice).Foremost := by
  intro mark member
  rcases List.mem_cons.mp member with rfl | old
  · exact Nat.le_refl _
  · exact foremost mark old

theorem Untried.chose_make (untried : state.Untried) : (state.make choice).Chose choice := by
  intro mark member here
  rcases List.mem_cons.mp member with rfl | old
  · rfl
  · exact absurd here (untried mark old)

theorem Foremost.fresh_consume (foremost : state.Foremost) (char : Char) (rest : List Char) :
    (state.consume char rest).Fresh := fun mark member =>
  Nat.lt_of_le_of_lt (foremost mark member) (Nat.lt_add_of_pos_right char.utf8Size_pos)

theorem Chose.hasMade_eq {other : Nat} (chose : state.Chose choice) (differs : other ≠ choice) :
    state.hasMade other = false := by
  rw [hasMade, List.contains_eq_mem, decide_eq_false_iff_not]
  intro marked
  exact differs (chose _ marked rfl)

theorem Untried.hasMade_eq (untried : state.Untried) : state.hasMade choice = false := by
  rw [hasMade, List.contains_eq_mem, decide_eq_false_iff_not]
  intro marked
  exact untried _ marked rfl

end State

namespace Program

variable {Result : Type}

/-- Whether what follows a loop accepts exactly where the closing character is ahead. -/
structure Closing (right : Char) (next : State → Verdict Result) : Prop where
  accepts : ∀ state tail, state.rest = right :: tail → ∃ result, next state = .accepted result
  refuses : ∀ state, state.rest.head? ≠ some right → next state = .refused state.marks

/-- Whether a verdict is that of what follows, behind `inner` and before the closing
character. -/
def Arrives (right : Char) (next : State → Verdict Result) (state : State)
    (inner tail : List Char) (verdict : Verdict Result) : Prop :=
  ∃ final : State, final.rest = right :: tail ∧
    final.offset = state.offset + Text.byteLength inner ∧ verdict = next final

/-- Whether all ways were refused, with choices made from the place of a state on only. -/
def GivesUp (state : State) (verdict : Verdict Result) : Prop :=
  ∃ marks, verdict = .refused marks ∧
    ∀ mark ∈ marks, mark ∈ state.marks ∨ state.offset ≤ mark.offset

/-- What the rounds of a loop do where fewer than `bound` characters are ahead. `may` tells
which texts they may take before the closing character and what follows it. -/
structure Encloses (right : Char) (may : List Char → List Char → Prop)
    (next : State → Verdict Result) (bound : Nat) (loop : State → Verdict Result) : Prop where
  here : ∀ state tail, state.rest.length < bound → state.rest = right :: tail →
    state.Untried → Arrives right next state [] tail (loop state)
  arrives : ∀ state inner tail, state.rest.length < bound → state.rest = inner ++ right :: tail →
    may inner tail → state.Fresh → Arrives right next state inner tail (loop state)
  gives_up : ∀ state, state.rest.length < bound → right ∉ state.rest → state.Fresh →
    GivesUp state (loop state)

/-- What a round of a loop does where at most the choice of the loop was made, if the
rounds behind it do what they should. -/
structure Piece (right : Char) (may : List Char → List Char → Prop)
    (next : State → Verdict Result) (choice : Nat)
    (round : State → (State → Verdict Result) → Verdict Result) : Prop where
  refuses : ∀ state loop, state.rest.head? = some right → state.Chose choice →
    ∃ marks, round state loop = .refused marks
  arrives : ∀ state loop first inner tail, Encloses right may next state.rest.length loop →
    state.rest = first :: inner ++ right :: tail → may (first :: inner) tail →
    state.Foremost → state.Chose choice →
    Arrives right next state (first :: inner) tail (round state loop)
  gives_up : ∀ state loop, Encloses right may next state.rest.length loop →
    right ∉ state.rest → state.Foremost → state.Chose choice → GivesUp state (round state loop)

variable {right : Char} {may : List Char → List Char → Prop} {next : State → Verdict Result}
  {choice bound : Nat} {round : State → (State → Verdict Result) → Verdict Result}
  {loop : State → Verdict Result} {state : State}

theorem Encloses.of_le {more : Nat} (encloses : Encloses right may next more loop)
    (fewer : bound ≤ more) : Encloses right may next bound loop where
  here state tail short := encloses.here state tail (Nat.lt_of_lt_of_le short fewer)
  arrives state inner tail short := encloses.arrives state inner tail
    (Nat.lt_of_lt_of_le short fewer)
  gives_up state short := encloses.gives_up state (Nat.lt_of_lt_of_le short fewer)

theorem Arrives.accepted {inner tail : List Char} {verdict : Verdict Result}
    (arrives : Arrives right next state inner tail verdict) (closing : Closing right next) :
    ∃ result, verdict = .accepted result := by
  obtain ⟨final, front, _, same⟩ := arrives
  obtain ⟨result, accepted⟩ := closing.accepts final tail front
  exact ⟨result, same.trans accepted⟩

theorem GivesUp.of_make {verdict : Verdict Result}
    (givesUp : GivesUp (state.make choice) verdict) : GivesUp state verdict := by
  obtain ⟨marks, refused, onward⟩ := givesUp
  refine ⟨marks, refused, ?_⟩
  intro mark member
  rcases onward mark member with old | later
  · rcases List.mem_cons.mp old with rfl | older
    · exact .inr (Nat.le_refl _)
    · exact .inl older
  · exact .inr later

theorem Encloses.closeGroup (encloses : Encloses right may next bound loop) (index start : Nat) :
    Encloses right may next bound fun state => loop (state.closeGroup index start) where
  here state := encloses.here (state.closeGroup index start)
  arrives state := encloses.arrives (state.closeGroup index start)
  gives_up state := encloses.gives_up (state.closeGroup index start)

theorem rounds_succ (untried : state.Untried) (visits : Nat) :
    rounds round choice true next (visits + 1) state =
      (round (state.make choice) (rounds round choice true next visits)).orTry
        (state.make choice) next := by
  simp [rounds, untried.hasMade_eq]

/-- Before the closing character, a round is refused and the loop ends. -/
theorem Piece.succ_here {visits : Nat} {tail : List Char}
    (piece : Piece right may next choice round) (ahead : state.rest = right :: tail)
    (untried : state.Untried) :
    Arrives right next state [] tail (rounds round choice true next (visits + 1) state) := by
  have front : (state.make choice).rest.head? = some right := by
    change state.rest.head? = _
    rw [ahead, List.head?_cons]
  obtain ⟨marks, refused⟩ := piece.refuses _ (rounds round choice true next visits) front
    untried.chose_make
  refine ⟨{ state.make choice with marks := marks }, ahead, rfl, ?_⟩
  rw [rounds_succ untried, refused]
  rfl

theorem Piece.succ_arrives {visits : Nat} {first : Char} {inner tail : List Char}
    (piece : Piece right may next choice round) (closing : Closing right next)
    (behind : Encloses right may next state.rest.length (rounds round choice true next visits))
    (ahead : state.rest = first :: inner ++ right :: tail) (allowed : may (first :: inner) tail)
    (fresh : state.Fresh) :
    Arrives right next state (first :: inner) tail
      (rounds round choice true next (visits + 1) state) := by
  have arrives := piece.arrives (state.make choice) _ first inner tail behind ahead allowed
    (fresh.foremost.make choice) fresh.untried.chose_make
  obtain ⟨result, accepted⟩ := arrives.accepted closing
  rw [accepted] at arrives
  rw [rounds_succ fresh.untried, accepted]
  exact arrives

theorem Piece.succ_gives_up {visits : Nat} (piece : Piece right may next choice round)
    (closing : Closing right next)
    (behind : Encloses right may next state.rest.length (rounds round choice true next visits))
    (absent : right ∉ state.rest) (fresh : state.Fresh) :
    GivesUp state (rounds round choice true next (visits + 1) state) := by
  obtain ⟨marks, refused, onward⟩ := piece.gives_up (state.make choice) _ behind absent
    (fresh.foremost.make choice) fresh.untried.chose_make
  have notHere : state.rest.head? ≠ some right := fun front =>
    absent (List.mem_of_mem_head? front)
  have ended := closing.refuses { state.make choice with marks := marks } notHere
  apply GivesUp.of_make
  refine ⟨marks, ?_, onward⟩
  rw [rounds_succ fresh.untried, refused]
  exact ended

/-- The rounds of a loop do what they should, by induction on their number. -/
theorem Piece.rounds_enclose (piece : Piece right may next choice round)
    (closing : Closing right next) (visits : Nat) :
    Encloses right may next visits (rounds round choice true next visits) := by
  induction visits with
  | zero =>
      constructor
      · intro state tail short
        exact absurd short (Nat.not_lt_zero _)
      · intro state inner tail short
        exact absurd short (Nat.not_lt_zero _)
      · intro state short
        exact absurd short (Nat.not_lt_zero _)
  | succ visits induction =>
      constructor
      · intro state tail _ ahead untried
        exact piece.succ_here ahead untried
      · intro state inner tail short ahead allowed fresh
        have behind := induction.of_le (Nat.le_of_lt_succ short)
        cases inner with
        | nil => exact piece.succ_here ahead fresh.untried
        | cons first inner => exact piece.succ_arrives closing behind ahead allowed fresh
      · intro state short absent fresh
        have behind := induction.of_le (Nat.le_of_lt_succ short)
        exact piece.succ_gives_up closing behind absent fresh

variable {body : Program}

theorem Piece.star_encloses (piece : Piece right may next choice (run body))
    (closing : Closing right next) (bound : Nat) :
    Encloses right may next bound fun state => run (.star choice true body) state next where
  here state tail _ := (piece.rounds_enclose closing _).here state tail (Nat.lt_succ_self _)
  arrives state inner tail _ :=
    (piece.rounds_enclose closing _).arrives state inner tail (Nat.lt_succ_self _)
  gives_up state _ := (piece.rounds_enclose closing _).gives_up state (Nat.lt_succ_self _)

def many (empty : Bool) (choice : Nat) (body : Program) : Program :=
  if empty then .star choice true body else .seq body (.star choice true body)

theorem Piece.many_arrives (piece : Piece right may next choice (run body))
    (closing : Closing right next) {empty : Bool} {inner tail : List Char}
    (unmarked : state.marks = []) (ahead : state.rest = inner ++ right :: tail)
    (allowed : may inner tail) (filled : empty = false → inner ≠ []) :
    Arrives right next state inner tail (run (many empty choice body) state next) := by
  cases empty with
  | true =>
      exact (piece.star_encloses closing _).arrives state inner tail (Nat.lt_succ_self _) ahead
        allowed (by simp [State.Fresh, unmarked])
  | false =>
      cases inner with
      | nil => exact absurd rfl (filled rfl)
      | cons first inner =>
          exact piece.arrives state _ first inner tail (piece.star_encloses closing _) ahead
            allowed (by simp [State.Foremost, unmarked]) (by simp [State.Chose, unmarked])

theorem Piece.many_refuses (piece : Piece right may next choice (run body))
    (closing : Closing right next) {empty : Bool} (unmarked : state.marks = [])
    (absent : right ∉ state.rest ∨ empty = false ∧ state.rest.head? = some right) :
    ∃ marks, run (many empty choice body) state next = .refused marks := by
  have foremost : state.Foremost := by simp [State.Foremost, unmarked]
  have chose : state.Chose choice := by simp [State.Chose, unmarked]
  rcases absent with absent | ⟨rfl, here⟩
  · cases empty with
    | true =>
        obtain ⟨marks, refused, _⟩ := (piece.star_encloses closing _).gives_up state
          (Nat.lt_succ_self _) absent (by simp [State.Fresh, unmarked])
        exact ⟨marks, refused⟩
    | false =>
        obtain ⟨marks, refused, _⟩ := piece.gives_up state _ (piece.star_encloses closing _) absent
          foremost chose
        exact ⟨marks, refused⟩
  · exact piece.refuses state _ here chose

theorem Arrives.of_consume {first : Char} {rest inner tail : List Char} {verdict : Verdict Result}
    (later : Arrives right next (state.consume first rest) inner tail verdict) :
    Arrives right next state (first :: inner) tail verdict := by
  obtain ⟨final, front, behind, same⟩ := later
  refine ⟨final, front, ?_, same⟩
  rw [behind, State.consume, Text.byteLength_cons, Nat.add_assoc]

theorem GivesUp.of_consume {first : Char} {rest : List Char} {verdict : Verdict Result}
    (later : GivesUp (state.consume first rest) verdict) : GivesUp state verdict := by
  obtain ⟨marks, refused, onward⟩ := later
  refine ⟨marks, refused, ?_⟩
  intro mark member
  rcases onward mark member with old | beyond
  · exact .inl old
  · exact .inr (Nat.le_trans (Nat.le_add_right _ _) beyond)

theorem contains_others (char other : Char) :
    (CharClass.complement (.single char)).contains other = (other != char) := by
  rw [CharClass.contains, contains_single]
  rfl

theorem run_others {first : Char} {rest : List Char} (ahead : state.rest = first :: rest)
    (differs : first ≠ right) :
    run (.chars (.complement (.single right))) state loop = loop (state.consume first rest) := by
  simp [run, ahead, contains_others, differs]

theorem run_others_refused (ahead : state.rest.head? = some right ∨ state.rest = []) :
    run (.chars (.complement (.single right))) state loop = .refused state.marks := by
  rcases ahead with front | ended
  · obtain ⟨tail, ahead⟩ := List.head?_eq_some_iff.mp front
    simp [run, ahead, contains_others]
  · simp [run, ended]

theorem others_arrive {first : Char} {inner tail : List Char}
    (encloses : Encloses right may next state.rest.length loop)
    (ahead : state.rest = first :: inner ++ right :: tail) (differs : first ≠ right)
    (allowed : may inner tail) (foremost : state.Foremost) :
    Arrives right next state (first :: inner) tail
      (run (.chars (.complement (.single right))) state loop) := by
  rw [run_others ahead differs]
  apply Arrives.of_consume
  apply encloses.arrives _ inner tail _ rfl allowed (foremost.fresh_consume _ _)
  rw [ahead]
  exact Nat.lt_succ_self _

theorem others_give_up (encloses : Encloses right may next state.rest.length loop)
    (absent : right ∉ state.rest) (foremost : state.Foremost) :
    GivesUp state (run (.chars (.complement (.single right))) state loop) := by
  cases ahead : state.rest with
  | nil =>
      rw [run_others_refused (.inr ahead)]
      exact ⟨state.marks, rfl, fun _ member => .inl member⟩
  | cons first rest =>
      rw [ahead] at absent
      obtain ⟨differs, later⟩ := List.ne_and_not_mem_of_not_mem_cons absent
      rw [run_others ahead (Ne.symm differs)]
      apply GivesUp.of_consume
      apply encloses.gives_up _ _ later (foremost.fresh_consume _ _)
      rw [ahead]
      exact Nat.lt_succ_self _

/-- A piece of one character other than the closing one. A loop over such pieces takes
what does not contain the closing character. -/
theorem others_piece :
    Piece right (fun inner _ => right ∉ inner) next choice
      (run (.chars (.complement (.single right)))) where
  refuses state loop front _ := ⟨_, run_others_refused (.inl front)⟩
  arrives := by
    intro state loop first inner tail encloses ahead allowed foremost _
    obtain ⟨differs, absent⟩ := List.ne_and_not_mem_of_not_mem_cons allowed
    exact others_arrive encloses ahead (Ne.symm differs) absent foremost
  gives_up state loop encloses absent foremost _ := others_give_up encloses absent foremost

end Program

end LineGrammar.Regex
