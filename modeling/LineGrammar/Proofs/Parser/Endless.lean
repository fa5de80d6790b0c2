import LineGrammar.Proofs.Parser.Progress

/-!
Parses without end. Instructions may move the cursor back, and then the fuse is
no safeguard, since it only counts rounds in one place: a cursor that goes back
and forth never stays anywhere. But that is the only way. A parse that comes to
no result moves the cursor back again and again, at least once in as many rounds
as a parse can take without moving back.
-/

namespace LineGrammar

theorem Mnemonic.Issues.goes {mnemonic : Mnemonic} {arguments : List Argument}
    {callback : Callback} (issued : mnemonic.Issues arguments callback)
    (noCall : mnemonic ≠ .call) : callback.Goes Cursor.Within := by
  have moves : ∀ movement : Movement,
      (Callback.perform (.move movement)).Goes Cursor.Within :=
    fun movement => .inr ⟨movement, fun _ valid => movement.within valid, rfl⟩
  cases issued with
  | call script => exact absurd rfl noCall
  | advance arguments count => exact moves (.advance count)
  | reverse arguments count => exact moves (.retreat count)
  | @goto target movement known => exact moves movement
  | _ => exact .inl trivial

theorem Builder.within_of_build {builder : Builder} {grammar : Grammar}
    (confined : builder.Every (Entry.Confined fun mnemonic _ => mnemonic ≠ .call))
    (built : builder.build = .ok grammar) : grammar.Every (Rule.Goes Cursor.Within) := by
  intro scope inGrammar rule inScope callback member
  obtain ⟨mnemonic, arguments, noCall, issued⟩ :=
    issued_of_build confined built scope inGrammar rule inScope callback member
  exact issued.goes noCall

namespace Session

variable {grammar : Grammar} {session there : Session} {fuse : Fuse}

/-- The bound on the rounds without moving back counts from any round on. The
induction is on the rounds before. -/
theorem Armed.results_or_returns_after (goes : grammar.Every (Rule.Goes Cursor.Within))
    (made bound : Nat) (armed : Armed fuse session)
    (fits : session.cursor.buffer.charCount * max 1 session.context.setting.config.maxStall ≤
      bound) :
    Results grammar (made + bound) fuse session ∨
      ∃ count, made ≤ count ∧ count < made + bound ∧ Returns grammar count session := by
  induction made generalizing session fuse with
  | zero =>
      have most := Nat.mul_le_mul_right (max 1 session.context.setting.config.maxStall)
        session.cursor.remaining_le_charCount
      rw [Nat.zero_add]
      rcases armed.results_or_returns goes bound (by omega) with results | ⟨count, within, returns⟩
      · exact .inl results
      · exact .inr ⟨count, Nat.zero_le count, within, returns⟩
  | succ made induction =>
      rw [Nat.add_right_comm]
      rcases armed.turn goes with results | ⟨later, after, round, updated⟩
      · exact .inl (results.mono (Nat.le_add_left 1 _))
      · obtain ⟨along, armed'⟩ := armed.next goes round updated
        rw [← along.cursor.buffer, ← along.setting] at fits
        rcases induction armed' fits with results | ⟨count, least, within, returns⟩
        · exact .inl (results.first round updated)
        · exact .inr ⟨count + 1, Nat.succ_le_succ least, Nat.succ_lt_succ within,
            returns.first round⟩

def Stays (grammar : Grammar) (rounds : Nat) (session : Session) : Prop :=
  ∀ count ≤ rounds, ∃ after, Makes grammar count session after ∧
    after.cursor.position = session.cursor.position

theorem Stays.first {rounds : Nat} (stays : Stays grammar (rounds + 1) session) :
    ∃ after, Round grammar session after ∧ after.cursor.position = session.cursor.position ∧
      Stays grammar rounds after := by
  obtain ⟨after, makes, same⟩ := stays 1 (Nat.succ_le_succ (Nat.zero_le rounds))
  cases makes with
  | first made rest =>
      cases rest
      refine ⟨after, made, same, ?_⟩
      intro count within
      obtain ⟨last, makes, same'⟩ := stays (count + 1) (Nat.succ_le_succ within)
      cases makes with
      | first again rest =>
          cases made.unique again
          exact ⟨last, rest, same'.trans same.symm⟩

theorem Stays.cons {rounds : Nat} {after : Session} (made : Round grammar session after)
    (same : after.cursor.position = session.cursor.position) (stays : Stays grammar rounds after) :
    Stays grammar (rounds + 1) session := by
  intro count within
  cases count with
  | zero => exact ⟨session, .nothing session, rfl⟩
  | succ count =>
      obtain ⟨last, makes, same'⟩ := stays count (Nat.le_of_succ_le_succ within)
      exact ⟨last, .first made makes, same'.trans same⟩

/-- Whether the fuse blows, and not after more than so many rounds. -/
def Stalls (grammar : Grammar) (limit : Nat) (fuse : Fuse) (session : Session) : Prop :=
  ∃ count ≤ limit, ∃ final, Drives grammar count fuse session (stall final)

theorem Armed.stalls_of_stays (goes : grammar.Every (Rule.Goes Cursor.Within)) (rounds : Nat)
    (armed : Armed fuse session)
    (full : max 1 session.context.setting.config.maxStall ≤ fuse.count + rounds)
    (stays : Stays grammar rounds session) : Stalls grammar rounds fuse session := by
  induction rounds generalizing session fuse with
  | zero =>
      have intact := armed.intact
      omega
  | succ rounds induction =>
      obtain ⟨after, made, same, stays'⟩ := stays.first
      cases updated : fuse.update? after.context.setting.config.maxStall after.cursor.position with
      | none => exact ⟨1, Nat.succ_le_succ (Nat.zero_le rounds), after, .stuck made updated⟩
      | some later =>
          obtain ⟨along, armed'⟩ := armed.next goes made updated
          obtain ⟨_, _, ⟨_, counted⟩ | ⟨moves, _⟩⟩ := Fuse.of_update updated
          · have full' : max 1 after.context.setting.config.maxStall ≤ later.count + rounds := by
              rw [along.setting]
              omega
            obtain ⟨count, within, final, drives⟩ := induction armed' full' stays'
            exact ⟨count + 1, Nat.succ_le_succ within, final, .goesOn made updated drives⟩
          · exact absurd (same.trans armed.here.symm) moves

theorem Armed.stalls_of_makes (goes : grammar.Every (Rule.Goes Cursor.Within)) {made rounds : Nat}
    (armed : Armed fuse session) (makes : Makes grammar made session there)
    (full : max 1 session.context.setting.config.maxStall ≤ rounds)
    (stays : Stays grammar rounds there) : Stalls grammar (made + rounds) fuse session := by
  induction makes generalizing fuse with
  | nothing session =>
      rw [Nat.zero_add]
      exact armed.stalls_of_stays goes rounds (Nat.le_add_left_of_le full) stays
  | @first session after there made round rest induction =>
      rw [Nat.add_right_comm]
      cases updated : fuse.update? after.context.setting.config.maxStall after.cursor.position with
      | none => exact ⟨1, Nat.le_add_left 1 _, after, .stuck round updated⟩
      | some later =>
          obtain ⟨along, armed'⟩ := armed.next goes round updated
          rw [← along.setting] at full
          obtain ⟨count, within, final, drives⟩ := induction armed' full stays
          exact ⟨count + 1, Nat.succ_le_succ within, final, .goesOn round updated drives⟩

end Session

/-- If no instruction of a grammar calls the host, then at any time in the loop of
a parse, either the loop comes to a result within as many further iterations as
the fuse allows at every character and line break of the buffer and once more, or
one of these iterations moves the cursor back to an earlier place. And if the
cursor stays in one place for as many iterations as the fuse allows, the parse
is reported as stuck. -/
theorem Grammar.endless_parse_keeps_moving_back (builder : Builder) (grammar : Grammar)
    (built : builder.build = .ok grammar)
    (confined : builder.Every (Entry.Confined fun mnemonic _ => mnemonic ≠ .call))
    (config : Config) (buffer : Buffer) (position : Position) (session : Session)
    (here : session.cursor = .near buffer position)
    (configured : session.context.setting.config = config) :
    let start : Fuse := ⟨session.cursor.position, 0⟩
    let bound := (buffer.charCount + 1) * max 1 config.maxStall
    (∀ made,
      (∃ outcome, Action.Ends outcome (fun _ _ => True) (fun error _ => error ≠ .exhausted) ∧
        ∀ limit, made + bound ≤ limit → Session.rounds grammar limit start session = outcome) ∨
      ∃ count, made ≤ count ∧ count < made + bound ∧ Session.Returns grammar count session) ∧
    ∀ made there, Session.Makes grammar made session there →
      Session.Stays grammar (max 1 config.maxStall) there →
      ∃ final, ∀ limit, made + max 1 config.maxStall ≤ limit →
        Session.rounds grammar limit start session = Session.stall final := by
  intro start bound
  have goes := Builder.within_of_build confined built
  have armed : Session.Armed start session := by
    apply Session.armed_start
    rw [here]
    exact Cursor.near_valid buffer position
  constructor
  · intro made
    have fits : session.cursor.buffer.charCount *
        max 1 session.context.setting.config.maxStall ≤ bound := by
      rw [here, configured]
      exact Nat.mul_le_mul_right _ (Nat.le_succ _)
    rcases armed.results_or_returns_after goes made bound fits with
      ⟨count, within, outcome, drives, ends⟩ | returns
    · refine .inl ⟨outcome, ends, ?_⟩
      intro limit enough
      exact drives.rounds_eq (Nat.le_trans within enough)
    · exact .inr returns
  · intro made there makes stays
    obtain ⟨count, within, final, drives⟩ := armed.stalls_of_makes goes makes
      (Nat.le_of_eq (by rw [configured])) stays
    refine ⟨final, ?_⟩
    intro limit enough
    exact drives.rounds_eq (Nat.le_trans within enough)

/-- A grammar that always goes to the start of the line stays there. -/
theorem Grammar.going_to_line_start_is_stuck :
    let builder := ({} : Builder).scope "main" [RuleSpec.always.instruct "goto" [.text "bol"]]
    let grammar : Grammar :=
      ⟨[⟨"main", [{ Rule.always with callbacks := [.perform (.move .lineStart)] }], false⟩]⟩
    let session := Session.begin (grammar.setting {}
      fun cursor => ⟨.error .exhausted, cursor, #[], #[]⟩) (.near (.ofLines ["ab"]) .origin)
    builder.build = .ok grammar ∧
      builder.Every (Entry.Confined fun mnemonic _ => mnemonic ≠ .call) ∧
      ∃ final, ∀ limit, 1000 ≤ limit →
        Session.rounds grammar limit ⟨session.cursor.position, 0⟩ session = Session.stall final := by
  intro builder grammar session
  have built : builder.build = .ok grammar := rfl
  have confined : builder.Every (Entry.Confined fun mnemonic _ => mnemonic ≠ .call) := by decide
  -- A round in which only events and notes are added can be made again.
  have stays : ∀ rounds next, next.cursor = session.cursor → next.context = session.context →
      Session.Stays grammar rounds next := by
    intro rounds
    induction rounds with
    | zero =>
        intro next _ _ count within
        cases Nat.le_zero.mp within
        exact ⟨next, .nothing next, rfl⟩
    | succ rounds induction =>
        rintro ⟨cursor, context, events, notes⟩ rfl rfl
        exact .cons ⟨rfl, rfl⟩ rfl (induction _ rfl rfl)
  exact ⟨built, confined, (endless_parse_keeps_moving_back builder grammar built confined {}
    (.ofLines ["ab"]) .origin session rfl rfl).2 0 session (.nothing session)
    (stays 1000 session rfl rfl)⟩

/-- If from certain sessions on a round always leads to such a session again, and
leaves the fuse intact, every budget is used up. -/
theorem Session.rounds_exhausted {grammar : Grammar} {holds : Fuse → Session → Prop}
    (restless : ∀ fuse session, holds fuse session → ∃ later after, Round grammar session after ∧
      fuse.update? after.context.setting.config.maxStall after.cursor.position = some later ∧
      holds later after)
    (limit : Nat) {fuse : Fuse} {session : Session} (initial : holds fuse session) :
    ∃ final, rounds grammar limit fuse session = .error .exhausted final := by
  induction limit generalizing fuse session with
  | zero =>
      obtain ⟨later, after, made, _, _⟩ := restless fuse session initial
      refine ⟨session, ?_⟩
      rw [rounds.eq_def]
      simp only [made.1, Bool.false_eq_true, if_false]
  | succ limit induction =>
      obtain ⟨later, after, made, updated, again⟩ := restless fuse session initial
      obtain ⟨final, exhausted⟩ := induction again
      refine ⟨final, ?_⟩
      rw [rounds.eq_def]
      simp only [made.1, Bool.false_eq_true, if_false, made.2, updated]
      exact exhausted

/-! A grammar that goes one character forth and back again, by turns. -/

namespace Swing

def builder : Builder := ({} : Builder)
  |>.scope "main" [RuleSpec.always]
  |>.scope "forth" [(RuleSpec.always.instruct "advance" [.int 1]).instruct "swap" [.text "back"]]
  |>.scope "back" [(RuleSpec.always.instruct "goto" [.text "bol"]).instruct "swap" [.text "forth"]]

def grammar : Grammar :=
  ⟨[⟨"main", [.always], false⟩,
    ⟨"forth", [{ Rule.always with
      callbacks := [.perform (.move (.advance 1)), .perform (.swapScope "back")] }], false⟩,
    ⟨"back", [{ Rule.always with
      callbacks := [.perform (.move .lineStart), .perform (.swapScope "forth")] }], false⟩]⟩

def config (maxStall : Nat) : Config := { start := "forth", maxStall := maxStall }

structure Stands (maxStall : Nat) (parse : Cursor → Outcome) (scope : String) (column : Nat)
    (session : Session) : Prop where
  cursor : session.cursor = ⟨.ofLines ["ab"], ⟨0, column⟩⟩
  context : session.context =
    { Context.initial (grammar.setting (config maxStall) parse) with
      tree := (Tree.ofRoot Context.mainScope).addChild Tree.root scope
      current := 1 }

variable {maxStall : Nat} {parse : Cursor → Outcome} {session : Session}

theorem forth (stands : Stands maxStall parse "forth" 0 session) :
    ∃ after, Session.Round grammar session after ∧ Stands maxStall parse "back" 1 after := by
  obtain ⟨cursor, context, events, notes⟩ := session
  obtain ⟨rfl, rfl⟩ := stands
  exact ⟨_, ⟨rfl, rfl⟩, rfl, rfl⟩

theorem back (stands : Stands maxStall parse "back" 1 session) :
    ∃ after, Session.Round grammar session after ∧ Stands maxStall parse "forth" 0 after := by
  obtain ⟨cursor, context, events, notes⟩ := session
  obtain ⟨rfl, rfl⟩ := stands
  exact ⟨_, ⟨rfl, rfl⟩, rfl, rfl⟩

def Swings (maxStall : Nat) (parse : Cursor → Outcome) (fuse : Fuse) (session : Session) : Prop :=
  fuse.position = ⟨0, 0⟩ ∧ Stands maxStall parse "forth" 0 session ∨
    fuse.position = ⟨0, 1⟩ ∧ Stands maxStall parse "back" 1 session

/-- The fuse never counts a round, since the cursor is never where it was. -/
theorem restless (fuse : Fuse) (session : Session) (swings : Swings maxStall parse fuse session) :
    ∃ later after, Session.Round grammar session after ∧
      fuse.update? after.context.setting.config.maxStall after.cursor.position = some later ∧
      Swings maxStall parse later after := by
  rcases swings with ⟨here, stands⟩ | ⟨here, stands⟩
  · obtain ⟨after, made, stands'⟩ := forth stands
    refine ⟨⟨⟨0, 1⟩, 0⟩, after, made, ?_, .inr ⟨rfl, stands'⟩⟩
    rw [stands'.cursor, Fuse.update?, if_neg (by rw [here]; decide)]
  · obtain ⟨after, made, stands'⟩ := back stands
    refine ⟨⟨⟨0, 0⟩, 0⟩, after, made, ?_, .inl ⟨rfl, stands'⟩⟩
    rw [stands'.cursor, Fuse.update?, if_neg (by rw [here]; decide)]

end Swing

/-- A cursor that goes back and forth between two places uses up every budget,
whatever the fuse allows: the parse comes to no result at all, and is not
reported as stuck. -/
theorem Grammar.swinging_cursor_uses_up_every_budget :
    Swing.builder.build = .ok Swing.grammar ∧
      Swing.builder.Every (Entry.Confined fun mnemonic _ => mnemonic ≠ .call) ∧
      ∀ maxStall extra depth, (Swing.grammar.drive (Swing.config maxStall) extra (depth + 1)
        (.near (.ofLines ["ab"]) .origin)).result = .error .exhausted := by
  refine ⟨rfl, by decide, ?_⟩
  intro maxStall extra depth
  obtain ⟨entered, entering, stands⟩ : ∃ entered,
      Session.enter (Swing.grammar.opening (Swing.config maxStall) extra depth
        (.near (.ofLines ["ab"]) .origin)) = .ok () entered ∧
      Swing.Stands maxStall (Swing.grammar.drive (Swing.config maxStall) extra depth) "forth" 0
        entered := ⟨_, rfl, rfl, rfl⟩
  have swings : Swing.Swings maxStall (Swing.grammar.drive (Swing.config maxStall) extra depth)
      ⟨entered.cursor.position, 0⟩ entered :=
    .inl ⟨congrArg Cursor.position stands.cursor, stands⟩
  obtain ⟨final, exhausted⟩ := Session.rounds_exhausted Swing.restless
    ((Swing.config maxStall).roundLimit (Cursor.near (.ofLines ["ab"]) .origin).buffer + extra)
    swings
  rw [drive_succ, Session.parse_eq, entering]
  simp only [exhausted]
  rfl

end LineGrammar
