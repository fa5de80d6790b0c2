import LineGrammar.Parser.Drive
import LineGrammar.Proofs.Scope.Arena

/-!
What a host may ask of a session, and what that comes to. Whatever a host, a
callback or a parse does to a session is a run of elementary acts, each of which
touches the scopes in at most one way and makes that known. The acts also tell
which matches were handed over to be saved, the repeated ones included. All this
holds of a session whose tree is in shape, and acts keep it in shape.
-/

namespace LineGrammar

/-- The session that an action leaves behind, whether it succeeds or fails. -/
def Action.final {Result : Type} : EStateM.Result Error Session Result → Session
  | .ok _ session => session
  | .error _ session => session

inductive Request where
  | perform (operation : Operation)
  | matchRules
  | makeRound
  /-- puts another cursor in place of the one so far -/
  | place (cursor : Cursor)

def Request.serve (grammar : Grammar) : Request → Session → Session
  | .perform operation, session => Action.final (operation.run session)
  | .matchRules, session => Action.final (Session.matchAt grammar session)
  | .makeRound, session => Action.final (Session.round grammar session)
  | .place cursor, session => { session with cursor := cursor }

def Session.serveAll (grammar : Grammar) (session : Session) (requests : List Request) : Session :=
  requests.foldl (fun session request => request.serve grammar session) session

/-! The matches that are handed over to be saved. -/

def Operation.offered : Operation → List Match
  | .save found => [found]
  | _ => []

def Script.offered : Script → Session → List Match
  | .done, _ => []
  | .fail _, _ => []
  | .look next, session => (next session.cursor session.context).offered session
  | .perform operation next, session =>
      operation.offered ++
        match operation.run session with
        | .ok () session => (next (.ok ())).offered session
        | .error error session => (next (.error error)).offered session
  | .parse lines next, session =>
      let nested := session.context.setting.nested lines
      (next nested.result).offered { session with notes := session.notes ++ nested.notes }

def Callback.offered (found : Match) : Callback → Session → List Match
  | .save, _ => [found]
  | .perform operation, _ => operation.offered
  | .host script, session => (script found).offered session

namespace Rule

def offeredByCallbacks (found : Match) : List Callback → Session → List Match
  | [], _ => []
  | callback :: later, session =>
      callback.offered found session ++
        match callback.run found session with
        | .ok () session => offeredByCallbacks found later session
        | .error _ _ => []

def offered (rule : Rule) (session : Session) : List Match :=
  if rule.pre.all fun accepts => accepts session.cursor session.context then
    let trial := rule.expr.attempt session.cursor
    let session :=
      { session with cursor := trial.cursor, notes := session.notes ++ trial.trace.toArray }
    match trial.result with
    | .error _ => []
    | .ok found =>
        if rule.post.all fun check => check.accepts session.cursor session.context found then
          offeredByCallbacks (rule.dress found) rule.callbacks session
        else []
  else []

end Rule

namespace Session

def offeredByWinner (found : Match) (session : Session) : List Match :=
  if session.context.setting.config.recordAll && !found.isEmpty then [found] else []

def offeredByRules (start : Position) : List Rule → Session → List Match
  | [], _ => []
  | rule :: later, session =>
      rule.offered session ++
        match rule.matchAt session with
        | .ok found session => offeredByWinner found session
        | .error error session =>
            if error.isRecoverable then
              offeredByRules start later { session with cursor := session.cursor.moveTo start }
            else []

def offeredByMatching (grammar : Grammar) (session : Session) : List Match :=
  match grammar.scope? session.context.scopeName with
  | none => []
  | some scope => offeredByRules session.cursor.position scope.rules session

end Session

def Request.offered (grammar : Grammar) : Request → Session → List Match
  | .perform operation, _ => operation.offered
  | .matchRules, session => session.offeredByMatching grammar
  | .makeRound, session => session.announceStart.offeredByMatching grammar
  | .place _, _ => []

/-- The matches handed over to be saved in the course of some requests, the
repeated ones included. -/
def Session.offeredByAll (grammar : Grammar) : Session → List Request → List Match
  | _, [] => []
  | session, request :: later =>
      request.offered grammar session ++ offeredByAll grammar (request.serve grammar session) later

def Event.ofScopes : Event → Bool
  | .saved .. | .opened .. | .closed .. | .swapped .. => true
  | .matched .. | .lineBegun _ | .lineEnded _ => false

/-- Whether the tree of a context is in shape, with the names that the grammar
knows, and the current scope is one of its nodes. -/
structure Context.Sound (context : Context) : Prop where
  formed : context.tree.WellFormed context.knows
  current : context.current < context.tree.size

namespace Session

/-- An elementary act, with the match that it hands over to be saved, if any. -/
inductive Act (before : Session) : List Match → Session → Prop
  | aside (cursor : Cursor) (notes : Array Note) :
      Act before [] { before with cursor := cursor, notes := notes }
  | tell (event : Event) (plain : event.ofScopes = false) : Act before [] (before.publish event)
  | save (found : Match) (fresh : before.context.lastSave ≠ some found) :
      Act before [found]
        { before with
          context :=
            { before.context with
              lastSave := some found
              tree := before.context.tree.save before.context.current found }
          events := before.events.push (.saved before.context.scopeName found) }
  | again (found : Match) (last : before.context.lastSave = some found) : Act before [found] before
  | openScope (scope : String) (known : before.context.knows scope = true) :
      Act before []
        { before with
          context :=
            { before.context with
              tree := before.context.tree.addChild before.context.current scope
              current := before.context.tree.size }
          events := before.events.push (.opened scope
            ((before.context.tree.addChild before.context.current scope).depthOf
              before.context.tree.size)) }
  | closeScope (parent : Nat)
      (above : before.context.tree.parentOf before.context.current = some parent) :
      Act before []
        { before with
          context := { before.context with current := parent }
          events := before.events.push (.closed before.context.scopeName before.context.depth) }
  | swapScope (scope : String) (inner : before.context.depth ≠ 0)
      (known : before.context.knows scope = true) :
      Act before []
        { before with
          context :=
            { before.context with
              tree := before.context.tree.rename before.context.current scope }
          events := before.events.push (.swapped before.context.scopeName scope) }
  | setVariable (id : Nat) (name : String) (value : Value) :
      Act before []
        { before with
          context :=
            { before.context with tree := before.context.tree.setVariable id name value } }
  | setStrict (scope : String) (strict : Bool) :
      Act before []
        { before with
          context :=
            { before.context with overrides := before.context.overrides.set scope strict } }

inductive Acts (before : Session) : List Match → Session → Prop
  | refl : Acts before [] before
  | tail {middle after : Session} {offered more : List Match} (acts : Acts before offered middle)
      (act : Act middle more after) : Acts before (offered ++ more) after

variable {before middle after : Session} {offered more : List Match} {session : Session}

theorem Act.acts (act : Act before offered after) : Acts before offered after :=
  Acts.refl.tail act

theorem Acts.trans (first : Acts before offered middle) (second : Acts middle more after) :
    Acts before (offered ++ more) after := by
  induction second with
  | refl =>
      rw [List.append_nil]
      exact first
  | tail _ act induction =>
      rw [← List.append_assoc]
      exact induction.tail act

theorem Acts.andThen (first : Acts before offered middle) (second : Acts middle [] after) :
    Acts before offered after := by
  have both := first.trans second
  rwa [List.append_nil] at both

theorem Acts.keep (holds : Session → Prop)
    (step : ∀ session offered next, Act session offered next → holds session → holds next)
    (acts : Acts before offered after) (initial : holds before) : holds after := by
  induction acts with
  | refl => exact initial
  | tail _ act induction => exact step _ _ _ act induction

theorem Act.sound (act : Act before offered after) (sound : before.context.Sound) :
    after.context.Sound := by
  obtain ⟨formed, current⟩ := sound
  cases act with
  | aside cursor notes => exact ⟨formed, current⟩
  | tell event plain => exact ⟨formed, current⟩
  | save found fresh =>
      refine ⟨formed.save _ found, ?_⟩
      exact (Tree.size_update _ _).symm ▸ current
  | again found last => exact ⟨formed, current⟩
  | openScope scope known =>
      refine ⟨formed.addChild current known, ?_⟩
      exact (Tree.size_addChild _ _).symm ▸ Nat.lt_succ_self _
  | closeScope parent above =>
      exact ⟨formed, Nat.lt_trans (formed.parent_lt above).1 current⟩
  | swapScope scope inner known =>
      have notRoot : before.context.current ≠ Tree.root := by
        intro isRoot
        rw [Context.depth, isRoot] at inner
        exact inner formed.root_depth
      refine ⟨formed.update (fun _ => rfl) (fun _ => rfl) (fun _ => rfl) (.inr ⟨notRoot, ?_⟩), ?_⟩
      · intro _
        exact known
      · exact (Tree.size_update _ _).symm ▸ current
  | setVariable id name value =>
      refine ⟨formed.update (fun _ => rfl) (fun _ => rfl) (fun _ => rfl) (.inl fun _ => rfl), ?_⟩
      exact (Tree.size_update _ _).symm ▸ current
  | setStrict scope strict => exact ⟨formed, current⟩

theorem Acts.sound (acts : Acts before offered after) (sound : before.context.Sound) :
    after.context.Sound :=
  acts.keep (fun session => session.context.Sound) (fun _ _ _ act => act.sound) sound

/-! Operations are made of acts. -/

theorem aside_acts {cursor : Cursor} {notes : Array Note} (session : Session) :
    Acts session [] { session with cursor := cursor, notes := notes } :=
  (Act.aside cursor notes).acts

theorem save_acts (found : Match) (session : Session) :
    Acts session [found] (Action.final (save found session)) := by
  unfold save
  split
  · rename_i last
    exact (Act.again found last).acts
  · rename_i fresh
    exact (Act.save found fresh).acts.andThen (aside_acts _)

theorem openScope_acts (scope : String) (session : Session) :
    Acts session [] (Action.final (openScope scope session)) := by
  unfold openScope
  split
  · rename_i known
    exact (Act.openScope scope known).acts.andThen (aside_acts _)
  · exact .refl

theorem closeOne_acts {parent : Nat}
    (above : session.context.tree.parentOf session.context.current = some parent) :
    Acts session [] session.closeOne ∧
      session.closeOne.context = { session.context with current := parent } := by
  have closed : session.closeOne.context = { session.context with current := parent } := by
    simp only [closeOne, mapContext, note, publish, above, Option.getD_some]
  refine ⟨?_, closed⟩
  have acts := (Act.closeScope parent above).acts.andThen
    (@aside_acts session.cursor session.closeOne.notes _)
  rw [← closed] at acts
  exact acts

/-- Scopes are closed one by one; as long as the depth allows it there is a
parent to go back to. -/
theorem closeTimes_acts {count : Nat} (sound : session.context.Sound)
    (within : count ≤ session.context.depth) : Acts session [] (session.closeTimes count) := by
  induction count generalizing session with
  | zero => exact .refl
  | succ count induction =>
      have deep : session.context.tree.depthOf session.context.current ≠ 0 := by
        intro shallow
        rw [Context.depth, shallow] at within
        exact Nat.not_succ_le_zero count within
      obtain ⟨parent, above⟩ := sound.formed.exists_parent deep sound.current
      obtain ⟨acts, closed⟩ := closeOne_acts above
      obtain ⟨_, _, deeper⟩ := sound.formed.parent_lt above
      refine acts.trans (induction (acts.sound sound) ?_)
      rw [Context.depth, deeper] at within
      rw [closed, Context.depth]
      exact Nat.le_of_succ_le_succ within

theorem closeScopes_acts (count : Nat) (sound : session.context.Sound) :
    Acts session [] (Action.final (closeScopes count session)) := by
  simp only [closeScopes]
  split
  · exact .refl
  · rename_i within
    exact closeTimes_acts sound (Nat.le_of_not_lt within)

theorem swapScope_acts (scope : String) (session : Session) :
    Acts session [] (Action.final (swapScope scope session)) := by
  unfold swapScope
  split
  · exact .refl
  · rename_i inner
    split
    · rename_i known
      exact (Act.swapScope scope inner known).acts.andThen (aside_acts _)
    · exact .refl

theorem nextScope_acts (scope : String) (count : Nat) (sound : session.context.Sound) :
    Acts session [] (Action.final (nextScope scope count session)) := by
  have closing := closeScopes_acts count sound
  simp only [nextScope, bind, EStateM.bind]
  cases outcome : closeScopes count session with
  | ok value closed =>
      rw [outcome] at closing
      exact closing.trans (openScope_acts scope closed)
  | error error closed =>
      rw [outcome] at closing
      exact closing

theorem changeVariable_acts (name : String) (level : Nat)
    (change : Option Value → Except ScopeFault Value) (session : Session) :
    Acts session [] (Action.final (changeVariable name level change session)) := by
  unfold changeVariable
  split
  · exact .refl
  · split
    · exact .refl
    · exact (Act.setVariable _ name _).acts

theorem setStrict_acts (scope : String) (strict : Bool) (session : Session) :
    Acts session [] (Action.final (setStrict scope strict session)) := by
  unfold setStrict
  split
  · exact (Act.setStrict scope strict).acts
  · exact .refl

end Session

open Session

variable {session : Session}

theorem Operation.run_acts (operation : Operation) (sound : session.context.Sound) :
    Acts session operation.offered (Action.final (operation.run session)) := by
  cases operation with
  | save found => exact save_acts found session
  | openScope scope => exact openScope_acts scope session
  | closeScopes count => exact closeScopes_acts count sound
  | swapScope scope => exact swapScope_acts scope session
  | nextScope scope count => exact nextScope_acts scope count sound
  | define name value level =>
      simp only [run, Session.define]
      exact changeVariable_acts name level _ session
  | add name amount level =>
      simp only [run, Session.add]
      exact changeVariable_acts name level _ session
  | append name value level =>
      simp only [run, Session.append]
      exact changeVariable_acts name level _ session
  | setStrict scope strict => exact setStrict_acts scope strict session
  | move movement => exact aside_acts session
  | abandon message => exact aside_acts session

theorem Script.run_acts (script : Script) (sound : session.context.Sound) :
    Acts session (script.offered session) (Action.final (script.run session)) := by
  induction script generalizing session with
  | done => exact .refl
  | fail error => exact .refl
  | look next induction => exact induction session.cursor session.context sound
  | perform operation next induction =>
      have first := operation.run_acts sound
      simp only [offered, run]
      cases outcome : operation.run session with
      | ok value after =>
          rw [outcome] at first
          exact first.trans (induction (.ok ()) (first.sound sound))
      | error error after =>
          rw [outcome] at first
          exact first.trans (induction (.error error) (first.sound sound))
  | parse lines next induction =>
      have noted := @aside_acts session.cursor
        (session.notes ++ (session.context.setting.nested lines).notes) session
      exact noted.trans (induction _ (noted.sound sound))

theorem Callback.run_acts (callback : Callback) (found : Match) (sound : session.context.Sound) :
    Acts session (callback.offered found session) (Action.final (callback.run found session)) := by
  cases callback with
  | save => exact save_acts found session
  | perform operation => exact operation.run_acts sound
  | host script => exact (script found).run_acts sound

namespace Rule

theorem runCallbacks_acts (callbacks : List Callback) (found : Match)
    (sound : session.context.Sound) :
    Acts session (offeredByCallbacks found callbacks session)
      (Action.final (runCallbacks found callbacks session)) := by
  induction callbacks generalizing session with
  | nil => exact .refl
  | cons callback later induction =>
      have first := callback.run_acts found sound
      simp only [offeredByCallbacks, runCallbacks]
      cases outcome : callback.run found session with
      | ok value after =>
          rw [outcome] at first
          exact first.trans (induction (first.sound sound))
      | error error after =>
          rw [outcome] at first
          exact first.trans .refl

theorem matchAt_acts (rule : Rule) (sound : session.context.Sound) :
    Acts session (rule.offered session) (Action.final (rule.matchAt session)) := by
  have tried := @aside_acts (rule.expr.attempt session.cursor).cursor
    (session.notes ++ (rule.expr.attempt session.cursor).trace.toArray) session
  unfold matchAt offered
  simp only
  split
  · cases outcome : (rule.expr.attempt session.cursor).result with
    | error error => exact tried
    | ok found =>
        simp only
        split
        · have calls := runCallbacks_acts rule.callbacks (rule.dress found) (tried.sound sound)
          split
          · rename_i ran
            rw [ran] at calls
            exact tried.trans calls
          · rename_i ran
            rw [ran] at calls
            exact tried.trans calls
        · exact tried.andThen (aside_acts _)
  · exact aside_acts session

end Rule

namespace Session

theorem win_acts (scope : String) (index : Nat) (found : Match) (session : Session) :
    Acts session (session.offeredByWinner found) (Action.final (win scope index found session)) := by
  have noted : Acts session [] (session.note (.matched scope index found.start found.stop)) :=
    aside_acts session
  have context : (session.note (.matched scope index found.start found.stop)).context =
      session.context := rfl
  have told : ∀ session : Session,
      Acts session [] (session.publish (.matched scope index found)) :=
    fun _ => (Act.tell _ rfl).acts
  have saved := noted.trans
    (save_acts found (session.note (.matched scope index found.start found.stop)))
  unfold win offeredByWinner
  by_cases recorded : (session.context.setting.config.recordAll && !found.isEmpty) = true
  · simp only [context, if_pos recorded]
    cases outcome : save found (session.note (.matched scope index found.start found.stop)) with
    | ok value after =>
        rw [outcome] at saved
        exact saved.andThen (told after)
    | error error after =>
        rw [outcome] at saved
        exact saved
  · simp only [context, if_neg recorded]
    exact noted.andThen (told _)

theorem tryRules_acts (scope : String) (start : Position) (index : Nat) (rules : List Rule)
    (sound : session.context.Sound) :
    Acts session (session.offeredByRules start rules)
      (Action.final (tryRules scope start index rules session)) := by
  induction rules generalizing session index with
  | nil => exact .refl
  | cons rule later induction =>
      have first := rule.matchAt_acts sound
      simp only [offeredByRules, tryRules]
      cases outcome : rule.matchAt session with
      | ok found after =>
          rw [outcome] at first
          exact first.trans (win_acts scope index found after)
      | error error after =>
          rw [outcome] at first
          simp only
          split
          · have back := @aside_acts (after.cursor.moveTo start) after.notes after
            exact first.trans (back.trans (induction (index + 1) (back.sound (first.sound sound))))
          · exact first.trans .refl

theorem matchAt_acts (grammar : Grammar) (sound : session.context.Sound) :
    Acts session (session.offeredByMatching grammar) (Action.final (matchAt grammar session)) := by
  simp only [matchAt, offeredByMatching]
  cases grammar.scope? session.context.scopeName with
  | none => exact .refl
  | some scope =>
      have tried := tryRules_acts session.context.scopeName session.cursor.position 0 scope.rules
        sound
      simp only
      split
      · rename_i outcome
        rw [outcome] at tried
        split
        · exact tried.andThen (aside_acts _)
        · exact tried
      · exact tried

theorem announceStart_acts (session : Session) : Acts session [] session.announceStart := by
  unfold announceStart
  split
  · exact (Act.tell _ rfl).acts
  · exact .refl

theorem skipChar_acts (session : Session) : Acts session [] session.skipChar := by
  unfold skipChar
  split
  · exact .refl
  · exact aside_acts session

theorem endLine_acts (session : Session) : Acts session [] session.endLine := by
  unfold endLine
  split
  · exact (Act.tell (.lineEnded session.cursor.position) rfl).acts.andThen (aside_acts _)
  · exact .refl

theorem round_acts (grammar : Grammar) (sound : session.context.Sound) :
    Acts session (session.announceStart.offeredByMatching grammar)
      (Action.final (round grammar session)) := by
  have announced := announceStart_acts session
  have matching := announced.trans (matchAt_acts grammar (announced.sound sound))
  unfold round
  split
  · rename_i outcome
    rw [outcome] at matching
    exact matching.andThen (endLine_acts _)
  · rename_i outcome
    rw [outcome] at matching
    exact (matching.andThen (skipChar_acts _)).andThen (endLine_acts _)
  · rename_i outcome
    rw [outcome] at matching
    exact matching

end Session

theorem Request.serve_acts (grammar : Grammar) (request : Request)
    (sound : session.context.Sound) :
    Acts session (request.offered grammar session) (request.serve grammar session) := by
  cases request with
  | perform operation => exact operation.run_acts sound
  | matchRules => exact matchAt_acts grammar sound
  | makeRound => exact round_acts grammar sound
  | place cursor => exact aside_acts session

namespace Session

theorem serveAll_acts (grammar : Grammar) (requests : List Request)
    (sound : session.context.Sound) :
    Acts session (session.offeredByAll grammar requests) (session.serveAll grammar requests) := by
  induction requests generalizing session with
  | nil => exact .refl
  | cons request later induction =>
      have served := request.serve_acts grammar sound
      exact served.trans (induction (served.sound sound))

theorem begin_sound {setting : Setting} (known : setting.scopes.has Context.mainScope = true)
    (cursor : Cursor) : (begin setting cursor).context.Sound :=
  ⟨Tree.WellFormed.ofRoot known, Nat.zero_lt_one⟩

theorem enter_acts (session : Session) : Acts session [] (Action.final (enter session)) := by
  unfold enter
  simp only
  split
  · exact .refl
  · exact openScope_acts _ session

end Session

end LineGrammar
