import LineGrammar.Proofs.Grammar.FirstMatch
import LineGrammar.Proofs.Parser.Loop
import LineGrammar.Proofs.Parser.Step
import LineGrammar.Proofs.Session.Trace

/-!
Parses that cannot fail. A round succeeds if the callbacks of every rule that
matches do, and if in a strict scope some rule matches. Rounds lead to the end of
the buffer if each of them passes over some of the text or uses up one of a few
steps in place, fewer than the fuse allows.
-/

namespace LineGrammar

/-- Whether the callbacks of a rule succeed wherever it matches at the cursor and
in the context of a session, and what holds then. -/
def Rule.Serves (rule : Rule) (before : Session) (holds : Session → Prop) : Prop :=
  ∀ found, rule.match? before.cursor before.context = some found →
    ∀ behind : Session, behind.cursor = (rule.expr.attempt before.cursor).cursor →
      behind.context = before.context →
      Action.Succeeds (runCallbacks (rule.dress found) rule.callbacks behind) holds

namespace Session

variable {grammar : Grammar} {before session : Session} {holds : Session → Prop}

/-- Whether something holds of sessions in shape, and on as long as the scopes and
their variables are left alone. -/
structure Enduring (holds : Session → Prop) : Prop where
  sound : ∀ session, holds session → session.context.Sound
  unmoved : ∀ before after, holds before → before.Unmoved after → holds after

theorem win_here (sound : session.context.Sound) (scope : String) (index : Nat) (found : Match) :
    ∃ after, win scope index found session = .ok true after ∧ session.Unmoved after := by
  have noted := unmoved_aside sound session.events
    (session.notes.push (.matched scope index found.start found.stop))
  have context : (session.note (.matched scope index found.start found.stop)).context =
      session.context := rfl
  unfold win
  by_cases recorded : (session.context.setting.config.recordAll && !found.isEmpty) = true
  · obtain ⟨last, saved, unmoved⟩ :=
      @save_here (session.note (.matched scope index found.start found.stop)) sound found
    have told := unmoved_aside unmoved.sound
      (last.events.push (.matched scope index found)) last.notes
    refine ⟨_, ?_, noted.trans (unmoved.trans told)⟩
    simp only [context, if_pos recorded, saved]
    rfl
  · have told := unmoved_aside noted.sound (session.events.push (.matched scope index found))
      (session.notes.push (.matched scope index found.start found.stop))
    refine ⟨_, ?_, noted.trans told⟩
    simp only [context, if_neg recorded]
    rfl

theorem tryRules_of_serves {rules : List Rule} (enduring : Enduring holds) (scope : String)
    (index : Nat) (valid : session.cursor.Valid)
    (serves : ∀ rule ∈ rules, rule.Serves session holds) :
    (∃ notes, tryRules scope session.cursor.position index rules session =
        .ok false { session with notes := notes } ∧
      ∀ rule ∈ rules, rule.match? session.cursor session.context = none) ∨
    ∃ after, tryRules scope session.cursor.position index rules session = .ok true after ∧
      holds after := by
  induction rules generalizing session index with
  | nil => exact .inl ⟨session.notes, rfl, by simp⟩
  | cons rule later induction =>
      cases tried : rule.match? session.cursor session.context with
      | some found =>
          obtain ⟨notes, outcome⟩ := Rule.matchAt_of_some tried
          obtain ⟨ran, called, held⟩ := serves rule (by simp) found tried
            { session with cursor := (rule.expr.attempt session.cursor).cursor, notes := notes }
            rfl rfl
          obtain ⟨after, wins, unmoved⟩ := win_here (enduring.sound ran held) scope index
            (rule.dress found)
          refine .inr ⟨after, ?_, enduring.unmoved ran after held unmoved⟩
          simp only [tryRules, outcome, called, wins]
      | none =>
          -- A refused rule leaves nothing behind but notes, so the others are tried
          -- in the same situation.
          obtain ⟨error, notes, outcome, recoverable⟩ := Rule.matchAt_of_none valid tried
          have back := valid.moveTo_eq rfl
          have rest := @induction { session with notes := notes } (index + 1) valid
            (fun other member => serves other (List.mem_cons_of_mem rule member))
          simp only [tryRules, outcome, recoverable, if_true, back]
          rcases rest with ⟨notes', passed, refused⟩ | won
          · refine .inl ⟨notes', passed, ?_⟩
            intro other member
            rcases List.mem_cons.mp member with rfl | isLater
            · exact tried
            · exact refused other isLater
          · exact .inr won

theorem endLine_remaining_lt (valid : session.cursor.Valid)
    (ended : session.cursor.atLineEnd = true) :
    session.endLine.cursor.remaining < session.cursor.remaining := by
  have inside := (valid.column_of_atLineEnd ended).2
  have moves := congrArg Position.line (Cursor.nextLine_position inside)
  simp only [endLine, if_pos ended]
  rcases valid.onward_nextLine.onward with stays | less
  · rw [stays] at moves
    simp at moves
  · exact less

theorem skip_remaining_lt (valid : session.cursor.Valid) (inside : session.cursor.atEnd = false) :
    session.skipChar.endLine.cursor.remaining < session.cursor.remaining := by
  cases ended : session.cursor.atLineEnd with
  | true =>
      rw [skipChar, if_pos ended]
      exact endLine_remaining_lt valid ended
  | false =>
      obtain ⟨char, later, ahead⟩ := valid.char_ahead inside ended
      have wide := char.utf8Size_pos
      have moves := congrArg Position.column (valid.advance_one ahead).2
      have less : (session.cursor.advance 1).remaining < session.cursor.remaining := by
        rcases (valid.onward_advance 1).onward with stays | less
        · rw [stays] at moves
          simp only at moves
          omega
        · exact less
      rw [skipChar, if_neg (by simp [ended])]
      have most := (@endLine_along _ { session with cursor := session.cursor.advance 1 }
        Cursor.way_onward (valid.onward_advance 1).valid).cursor.remaining_le
      exact Nat.lt_of_le_of_lt most less

theorem skip_advances (valid : session.cursor.Valid) (inside : session.cursor.atEnd = false) :
    session.skipChar.endLine.context = session.context ∧
      session.cursor.Onward session.skipChar.endLine.cursor ∧
      session.skipChar.endLine.cursor.remaining < session.cursor.remaining := by
  have early := (skipChar_along Cursor.way_onward valid).cursor
  have late := (endLine_along Cursor.way_onward early.valid).cursor
  have same : session.skipChar.context = session.context := by
    unfold skipChar
    split <;> rfl
  exact ⟨(endLine_context _).trans same, early.trans late, skip_remaining_lt valid inside⟩

/-- A round in which the callbacks of every rule that matches succeed comes to
what they lead to, or passes over a character. -/
theorem round_of_serves {scope : Scope} (enduring : Enduring holds) (valid : before.cursor.Valid)
    (inside : before.cursor.atEnd = false)
    (known : grammar.scope? before.context.scopeName = some scope)
    (serves : ∀ rule ∈ scope.rules, rule.Serves before holds)
    (strict : before.context.isStrict before.context.scopeName = true →
      ∃ rule ∈ scope.rules, rule.match? before.cursor before.context ≠ none) :
    (∃ after, round grammar before = .ok () after ∧ after.context = before.context ∧
      before.cursor.Onward after.cursor ∧ after.cursor.remaining < before.cursor.remaining) ∨
    ∃ after, round grammar before = .ok () after.endLine ∧ holds after := by
  have cursor := announceStart_cursor before
  have context := announceStart_context before
  have tried := @tryRules_of_serves before.announceStart holds scope.rules enduring
    before.context.scopeName 0 (by rwa [cursor]) (by
      intro rule member found
      rw [cursor, context]
      exact serves rule member found)
  rcases tried with ⟨notes, passed, refused⟩ | ⟨after, won, held⟩
  · have relaxed : before.context.isStrict before.context.scopeName = false := by
      rw [Bool.eq_false_iff]
      intro isStrict
      obtain ⟨rule, member, accepted⟩ := strict isStrict
      rw [cursor, context] at refused
      exact accepted (refused rule member)
    have advances := @skip_advances { before.announceStart with notes := notes }
      (by rwa [cursor]) (by rwa [cursor])
    rw [cursor, context] at advances
    refine .inl ⟨_, ?_, advances⟩
    simp only [round, matchAt, context, known, passed, relaxed, Bool.false_eq_true, if_false]
  · refine .inr ⟨after, ?_, held⟩
    simp only [round, matchAt, context, known, won]

/-- Whether rounds lead on from the sessions of which something holds, with so
many steps in place left. A round before the end of the buffer succeeds, and then
some of the text is passed over or fewer steps in place are left. -/
structure Advancing (grammar : Grammar) (bound : Nat) (holds : Nat → Session → Prop) : Prop where
  few : ∀ steps session, holds steps session →
    steps ≤ bound ∧ bound < session.context.setting.config.maxStall
  turn : ∀ steps session, holds steps session → session.cursor.atEnd = false →
    ∃ fewer after, round grammar session = .ok () after ∧ holds fewer after ∧
      session.cursor.Onward after.cursor ∧
      (after.cursor.remaining < session.cursor.remaining ∨ fewer < steps)

namespace Advancing

variable {bound steps : Nat} {stands : Nat → Session → Prop} {fuse : Fuse}

theorem fuse_intact {after : Session} {fewer : Nat} (advancing : Advancing grammar bound stands)
    (here : fuse.position = session.cursor.position) (spare : fuse.count + steps ≤ bound)
    (held : stands fewer after) (onward : session.cursor.Onward after.cursor)
    (gains : after.cursor.remaining < session.cursor.remaining ∨ fewer < steps) :
    ∃ later, fuse.update? after.context.setting.config.maxStall after.cursor.position =
        some later ∧ later.position = after.cursor.position ∧ later.count + fewer ≤ bound ∧
      after.cursor.remaining * (bound + 1) + fewer <
        session.cursor.remaining * (bound + 1) + steps := by
  obtain ⟨within, limit⟩ := advancing.few fewer after held
  have same : after.cursor.position = session.cursor.position →
      after.cursor.remaining = session.cursor.remaining := by
    intro stays
    simp only [Cursor.remaining, onward.buffer, stays]
  rcases onward.onward with stays | less
  -- The fuse counts one more round in place, for which a step was used up.
  · have less : fewer < steps := by
      have left := same stays
      omega
    refine ⟨⟨fuse.position, fuse.count + 1⟩, ?_, ?_, ?_, ?_⟩
    · rw [Fuse.update?, if_pos (stays.trans here.symm), if_pos (by omega)]
    · exact here.trans stays.symm
    · change fuse.count + 1 + fewer ≤ bound
      omega
    · rw [same stays]
      omega
  -- The fuse begins to count anew, and all steps may be left again.
  · have moves : after.cursor.position ≠ fuse.position := by
      intro stays
      have left := same (stays.trans here)
      omega
    refine ⟨⟨after.cursor.position, 0⟩, ?_, rfl, ?_, ?_⟩
    · rw [Fuse.update?, if_neg moves]
    · change 0 + fewer ≤ bound
      omega
    · have lower : (after.cursor.remaining + 1) * (bound + 1) ≤
          session.cursor.remaining * (bound + 1) := Nat.mul_le_mul_right _ less
      rw [Nat.add_mul] at lower
      omega

theorem drives (advancing : Advancing grammar bound stands) (left : Nat)
    (held : stands steps session) (here : fuse.position = session.cursor.position)
    (spare : fuse.count + steps ≤ bound)
    (enough : session.cursor.remaining * (bound + 1) + steps ≤ left) :
    ∃ count ≤ left, ∃ fewer final, Drives grammar count fuse session (.ok () final) ∧
      stands fewer final := by
  -- The induction is on what is left of the buffer, so many times as a round may
  -- stay in place and one time more, together with the steps that are left here.
  induction left generalizing session fuse steps with
  | zero =>
      cases ended : session.cursor.atEnd with
      | true => exact ⟨0, Nat.le_refl 0, steps, session, .finished fuse ended, held⟩
      | false =>
          have positive := Nat.mul_le_mul_right (bound + 1) (Cursor.remaining_pos ended)
          omega
  | succ left induction =>
      cases ended : session.cursor.atEnd with
      | true => exact ⟨0, Nat.zero_le _, steps, session, .finished fuse ended, held⟩
      | false =>
          obtain ⟨fewer, after, made, held', onward, gains⟩ :=
            advancing.turn steps session held ended
          obtain ⟨later, updated, here', spare', less⟩ :=
            advancing.fuse_intact here spare held' onward gains
          obtain ⟨count, within, last, final, drives, standing⟩ :=
            induction held' here' spare' (by omega)
          exact ⟨count + 1, Nat.succ_le_succ within, last, final,
            .goesOn ⟨ended, made⟩ updated drives, standing⟩

theorem reaches {final : Session} (advancing : Advancing grammar bound stands)
    (held : stands steps session) (reaches : Reaches grammar session final) :
    ∃ fewer, stands fewer final := by
  induction reaches with
  | refl => exact ⟨steps, held⟩
  | tail _ made induction =>
      obtain ⟨some, holding⟩ := induction
      obtain ⟨fewer, after, made', held', _⟩ := advancing.turn some _ holding made.1
      cases Round.unique ⟨made.1, made'⟩ made
      exact ⟨fewer, held'⟩

/-- A parse that makes such rounds succeeds, if it begins and may end in the main
scope. It needs no rounds to spare, and fewer than the fuse allows. -/
theorem drive_ok {config : Config} {extra depth : Nat} {cursor : Cursor}
    (advancing : Advancing grammar bound stands)
    (configured : ∀ steps session, stands steps session →
      session.context.setting.config = config)
    (start : config.start = Context.mainScope) (stop : config.stop = none)
    (held : stands steps (grammar.opening config extra depth cursor)) :
    ∃ tree, (grammar.drive config extra (depth + 1) cursor).result = .ok tree := by
  obtain ⟨few, stall⟩ := advancing.few steps _ held
  have enough : cursor.remaining * (bound + 1) + steps ≤
      config.roundLimit cursor.buffer + extra := by
    rw [configured steps _ held] at stall
    have most : cursor.remaining * (bound + 1) ≤ cursor.buffer.charCount * max 1 config.maxStall :=
      Nat.mul_le_mul cursor.remaining_le_charCount
        (Nat.le_trans stall (Nat.le_max_right 1 config.maxStall))
    rw [Config.roundLimit, Nat.add_mul]
    omega
  obtain ⟨count, within, fewer, final, drives, standing⟩ :=
    @drives grammar (grammar.opening config extra depth cursor) bound steps stands
      ⟨(grammar.opening config extra depth cursor).cursor.position, 0⟩ advancing
      (config.roundLimit cursor.buffer + extra) held rfl (by simpa using few) enough
  refine ⟨final.context.tree, Grammar.drive_of_drives drives within start ?_⟩
  rw [configured fewer final standing, stop]

end Advancing

end Session

end LineGrammar
