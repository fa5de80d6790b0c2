import LineGrammar.Parser.Basic
import LineGrammar.Proofs.Session.Change

/-!
The course of a parse. A parse enters its start scope, makes rounds until the
cursor stands at the end of the buffer, and leaves. The sessions between the
rounds are the ones that the parse visits; the number of rounds it takes does
not depend on its budget, as long as that is large enough.
-/

namespace LineGrammar

namespace Session

variable {grammar : Grammar} {session entered final : Session}

theorem announceStart_cursor (session : Session) : session.announceStart.cursor = session.cursor := by
  unfold announceStart
  split <;> rfl

theorem announceStart_context (session : Session) :
    session.announceStart.context = session.context := by
  unfold announceStart
  split <;> rfl

/-- A round before the end of the buffer that succeeds. -/
def Round (grammar : Grammar) (before after : Session) : Prop :=
  before.cursor.atEnd = false ∧ round grammar before = .ok () after

def Reaches (grammar : Grammar) : Session → Session → Prop :=
  Relation.ReflTransGen (Round grammar)

/-- The rounds that are left to make, how many they are and what they come to. -/
inductive Drives (grammar : Grammar) :
    Nat → Fuse → Session → EStateM.Result Error Session Unit → Prop
  | finished {session : Session} (fuse : Fuse) (ended : session.cursor.atEnd = true) :
      Drives grammar 0 fuse session (.ok () session)
  | failed {session after : Session} {error : Error} (fuse : Fuse)
      (before : session.cursor.atEnd = false) (made : round grammar session = .error error after) :
      Drives grammar 1 fuse session (.error error after)
  | stuck {session after : Session} {fuse : Fuse} (made : Round grammar session after)
      (blown : fuse.update? after.context.setting.config.maxStall after.cursor.position = none) :
      Drives grammar 1 fuse session (stall after)
  | goesOn {session after : Session} {fuse later : Fuse} {count : Nat}
      {outcome : EStateM.Result Error Session Unit} (made : Round grammar session after)
      (updated :
        fuse.update? after.context.setting.config.maxStall after.cursor.position = some later)
      (rest : Drives grammar count later after outcome) :
      Drives grammar (count + 1) fuse session outcome

theorem Drives.rounds_eq {count : Nat} {fuse : Fuse} {outcome : EStateM.Result Error Session Unit}
    (drives : Drives grammar count fuse session outcome) {limit : Nat} (enough : count ≤ limit) :
    rounds grammar limit fuse session = outcome := by
  induction drives generalizing limit with
  | finished fuse ended =>
      rw [rounds.eq_def]
      simp only [ended, if_true]
  | failed fuse before made =>
      rcases Nat.exists_eq_add_of_lt enough with ⟨spare, rfl⟩
      rw [rounds.eq_def]
      simp only [before, Bool.false_eq_true, if_false, made]
  | stuck made blown =>
      rcases Nat.exists_eq_add_of_lt enough with ⟨spare, rfl⟩
      rw [rounds.eq_def]
      simp only [made.1, Bool.false_eq_true, if_false, made.2, blown]
  | @goesOn session after fuse later count outcome made updated rest induction =>
      rcases Nat.exists_eq_add_of_lt enough with ⟨spare, rfl⟩
      rw [rounds.eq_def]
      simp only [made.1, Bool.false_eq_true, if_false, made.2, updated]
      exact induction (Nat.le_add_right count spare)

theorem reaches_of_rounds {limit : Nat} {fuse : Fuse}
    (done : rounds grammar limit fuse session = .ok () final) :
    Reaches grammar session final ∧ final.cursor.atEnd = true := by
  induction limit generalizing fuse session with
  | zero =>
      rw [rounds.eq_def] at done
      simp only at done
      split at done
      · rename_i ended
        cases done
        exact ⟨.refl, ended⟩
      · cases done
  | succ limit induction =>
      rw [rounds.eq_def] at done
      simp only at done
      split at done
      · rename_i ended
        cases done
        exact ⟨.refl, ended⟩
      · rename_i before
        split at done
        · cases done
        · rename_i after made
          split at done
          · rcases induction done with ⟨reaches, ended⟩
            exact ⟨.head ⟨by simpa using before, made⟩ reaches, ended⟩
          · cases done

theorem enter_changing {may : Match → Prop} {sets : Bool → Prop} (session : Session) :
    Changing may sets session (enter session) := by
  unfold enter
  simp only
  split
  · exact Changes.refl session
  · exact openScope_changing _ session

theorem changes_of_enter (may : Match → Prop) (sets : Bool → Prop)
    (entering : enter session = .ok () entered) : Changes may sets session entered :=
  (enter_changing session).changes entering

theorem eq_of_leave (done : leave session = .ok () final) : final = session := by
  unfold leave at done
  split at done
  · cases done
    rfl
  · split at done
    · cases done
      rfl
    · cases done

theorem leave_error {error : Error} (done : leave session = .error error final) :
    ∃ diagnostic, error = .fatal diagnostic := by
  unfold leave at done
  split at done
  · cases done
  · split at done
    · cases done
    · cases done
      exact ⟨_, rfl⟩

theorem parse_eq (grammar : Grammar) (limit : Nat) (session : Session) :
    parse grammar limit session =
      match enter session with
      | .error error after => .error error after
      | .ok () entered =>
          match rounds grammar limit ⟨entered.cursor.position, 0⟩ entered with
          | .error error after => .error error after
          | .ok () final =>
              match leave final with
              | .error error after => .error error after
              | .ok () left =>
                  .ok left.context.tree (left.note (.parseDone left.context.tree.size)) := by
  have taken : ∀ session : Session, (get : Action Session) session = .ok session session :=
    fun _ => rfl
  have put : ∀ next session : Session, (set next : Action PUnit) session = .ok ⟨⟩ next :=
    fun _ _ => rfl
  simp only [parse, bind, EStateM.bind, taken, put]
  cases enter session with
  | error error after => rfl
  | ok value entered =>
      simp only
      cases rounds grammar limit ⟨entered.cursor.position, 0⟩ entered with
      | error error after => rfl
      | ok value final =>
          simp only
          cases leave final with
          | error error after => rfl
          | ok value left => rfl

theorem parse_ok {limit : Nat} {tree : Tree} {after : Session}
    (done : parse grammar limit session = .ok tree after) :
    ∃ entered final, enter session = .ok () entered ∧ Reaches grammar entered final ∧
      final.cursor.atEnd = true ∧ tree = final.context.tree ∧ after.events = final.events := by
  rw [parse_eq] at done
  split at done
  · cases done
  · rename_i entered entering
    split at done
    · cases done
    · rename_i final made
      split at done
      · cases done
      · rename_i left leaving
        cases eq_of_leave leaving
        cases done
        obtain ⟨reaches, ended⟩ := reaches_of_rounds made
        exact ⟨entered, final, entering, reaches, ended, rfl, rfl⟩

/-- Where the error of a parse can come from. -/
inductive FailsWith (grammar : Grammar) (session : Session) : Error → Prop
  | entering {error : Error} {after : Session} (refused : enter session = .error error after) :
      FailsWith grammar session error
  | exhausted : FailsWith grammar session .exhausted
  | stuck (diagnostic : Diagnostic) : FailsWith grammar session (.stuck diagnostic)
  | inRound {entered before after : Session} {error : Error}
      (entering : enter session = .ok () entered) (reaches : Reaches grammar entered before)
      (failed : round grammar before = .error error after) : FailsWith grammar session error
  | leaving (diagnostic : Diagnostic) : FailsWith grammar session (.fatal diagnostic)

theorem rounds_error {limit : Nat} {fuse : Fuse} {error : Error} {after : Session}
    (failed : rounds grammar limit fuse session = .error error after) :
    error = .exhausted ∨ (∃ diagnostic, error = .stuck diagnostic) ∨
      ∃ before, Reaches grammar session before ∧ round grammar before = .error error after := by
  induction limit generalizing fuse session with
  | zero =>
      rw [rounds.eq_def] at failed
      simp only at failed
      split at failed
      · cases failed
      · cases failed
        exact .inl rfl
  | succ limit induction =>
      rw [rounds.eq_def] at failed
      simp only at failed
      split at failed
      · cases failed
      · rename_i inside
        split at failed
        · rename_i made
          cases failed
          exact .inr (.inr ⟨session, .refl, made⟩)
        · rename_i next made
          split at failed
          · rcases induction failed with used | blown | ⟨before, reaches, last⟩
            · exact .inl used
            · exact .inr (.inl blown)
            · exact .inr (.inr ⟨before, .head ⟨by simpa using inside, made⟩ reaches, last⟩)
          · cases failed
            exact .inr (.inl ⟨_, rfl⟩)

theorem parse_error {limit : Nat} {error : Error} {after : Session}
    (failed : parse grammar limit session = .error error after) :
    FailsWith grammar session error := by
  rw [parse_eq] at failed
  split at failed
  · rename_i refused
    cases failed
    exact .entering refused
  · rename_i entered entering
    split at failed
    · rename_i made
      cases failed
      rcases rounds_error made with rfl | ⟨diagnostic, rfl⟩ | ⟨before, reaches, last⟩
      · exact .exhausted
      · exact .stuck diagnostic
      · exact .inRound entering reaches last
    · split at failed
      · rename_i leaving
        cases failed
        obtain ⟨diagnostic, rfl⟩ := leave_error leaving
        exact .leaving diagnostic
      · cases failed

end Session

def Grammar.opening (grammar : Grammar) (config : Config) (extra depth : Nat) (cursor : Cursor) :
    Session :=
  (Session.begin (grammar.setting config (grammar.drive config extra depth)) cursor).note
    (.parseBegun cursor.position cursor.buffer.size)

theorem Grammar.drive_succ (grammar : Grammar) (config : Config) (extra depth : Nat)
    (cursor : Cursor) :
    grammar.drive config extra (depth + 1) cursor =
      Session.conclude (Session.parse grammar (config.roundLimit cursor.buffer + extra)
        (grammar.opening config extra depth cursor)) := rfl

theorem Grammar.drive_of_drives {grammar : Grammar} {config : Config} {extra depth count : Nat}
    {cursor : Cursor} {final : Session}
    (drives : Session.Drives grammar count ⟨cursor.position, 0⟩
      (grammar.opening config extra depth cursor) (.ok () final))
    (within : count ≤ config.roundLimit cursor.buffer + extra)
    (start : config.start = Context.mainScope)
    (stop : final.context.setting.config.stop = none) :
    (grammar.drive config extra (depth + 1) cursor).result = .ok final.context.tree := by
  have entering : Session.enter (grammar.opening config extra depth cursor) =
      .ok () (grammar.opening config extra depth cursor) := if_pos start
  have leaving : Session.leave final = .ok () final := by
    rw [Session.leave, stop]
  have here : (grammar.opening config extra depth cursor).cursor = cursor := rfl
  rw [drive_succ, Session.parse_eq]
  simp only [entering, here, drives.rounds_eq within, leaving]
  rfl

/-- A parse that fails has no levels left, or its error comes from one of its parts. -/
theorem Grammar.drive_error {grammar : Grammar} {config : Config} {extra depth : Nat}
    {cursor : Cursor} {error : Error}
    (failed : (grammar.drive config extra depth cursor).result = .error error) :
    error = .exhausted ∨ ∃ less,
      Session.FailsWith grammar (grammar.opening config extra less cursor) error := by
  cases depth with
  | zero =>
      cases failed
      exact .inl rfl
  | succ less =>
      rw [drive_succ] at failed
      cases done : Session.parse grammar (config.roundLimit cursor.buffer + extra)
        (grammar.opening config extra less cursor) with
      | ok tree after =>
          rw [done] at failed
          cases failed
      | error cause after =>
          rw [done] at failed
          cases failed
          exact .inr ⟨less, Session.parse_error done⟩

namespace Parser

def opening (parser : Parser) (buffer : Buffer) : Session :=
  let budget := Budget.ample buffer
  parser.grammar.opening parser.config budget.extra (budget.depth - 1) ⟨buffer, .origin⟩

/-- Whether the parse of a buffer comes by a session at the start of a round. -/
def Visits (parser : Parser) (buffer : Buffer) (session : Session) : Prop :=
  ∃ entered, Session.enter (parser.opening buffer) = .ok () entered ∧
    Session.Reaches parser.grammar entered session

/-- What holds when the start scope has been entered and through every round
holds of all sessions that a parse comes by. -/
theorem Visits.keep {parser : Parser} {buffer : Buffer} {session : Session} {holds : Session → Prop}
    (visits : parser.Visits buffer session)
    (initial : ∀ entered, Session.enter (parser.opening buffer) = .ok () entered → holds entered)
    (step : ∀ before after, parser.Visits buffer before →
      Session.Round parser.grammar before after → holds before → holds after) :
    holds session := by
  obtain ⟨entered, entering, reaches⟩ := visits
  induction reaches with
  | refl => exact initial entered entering
  | tail reaches made induction => exact step _ _ ⟨entered, entering, reaches⟩ made induction

theorem parseBuffer_eq_drive (parser : Parser) (buffer : Buffer) :
    parser.parseBuffer buffer =
      parser.grammar.drive parser.config (Budget.ample buffer).extra
        ((Budget.ample buffer).depth - 1 + 1) ⟨buffer, .origin⟩ := by
  have positive : 0 < (Budget.ample buffer).depth :=
    Nat.lt_of_lt_of_le (by decide) (Nat.le_add_left 0x10000 _)
  unfold parseBuffer parse
  simp only
  rw [Nat.sub_add_cancel positive]

theorem parseBuffer_eq (parser : Parser) (buffer : Buffer) :
    parser.parseBuffer buffer =
      Session.conclude (Session.parse parser.grammar
        (parser.config.roundLimit buffer + (Budget.ample buffer).extra) (parser.opening buffer)) := by
  rw [parseBuffer_eq_drive, Grammar.drive_succ]
  rfl

theorem visits_of_parseBuffer {parser : Parser} {buffer : Buffer} {tree : Tree}
    (parsed : (parser.parseBuffer buffer).result = .ok tree) :
    ∃ final, parser.Visits buffer final ∧ final.cursor.atEnd = true ∧ tree = final.context.tree ∧
      (parser.parseBuffer buffer).events = final.events := by
  rw [parseBuffer_eq] at parsed ⊢
  cases done : Session.parse parser.grammar
    (parser.config.roundLimit buffer + (Budget.ample buffer).extra) (parser.opening buffer) with
  | error error after =>
      rw [done] at parsed
      cases parsed
  | ok result after =>
      rw [done] at parsed
      cases parsed
      rcases Session.parse_ok done with ⟨entered, final, entering, reaches, ended, same, events⟩
      exact ⟨final, ⟨entered, entering, reaches⟩, ended, same, events⟩

end Parser

end LineGrammar
