import LineGrammar.Parser.Basic
import LineGrammar.Proofs.Grammar.Unwatched
import LineGrammar.Proofs.Parser.Alike
import LineGrammar.Proofs.Session.Outline
import LineGrammar.Proofs.Session.SaveOrder

/-!
Recording matches does not interfere with a parse. A parse that records every
match and one that saves only what its rules save go the same way in lockstep, if
their rules show the session to no function of the host: their sessions differ at
most in what they have saved. What the one hands over to be saved is always part
of what the other hands over, in the same order; and this stays so when runs of
equal matches are saved once, although the runs differ.
-/

namespace LineGrammar

section Runs

variable {Item : Type} [DecidableEq Item]

/-- What has no equal neighbours is not affected when the runs of the list it is
taken from are shortened. -/
theorem sublist_destutter'_of_isChain {part whole : List Item} {first : Item}
    (chain : part.IsChain (· ≠ ·)) (taken : part.Sublist (first :: whole)) :
    part.Sublist (whole.destutter' (· ≠ ·) first) := by
  induction whole generalizing part first with
  | nil => exact taken
  | cons second whole induction =>
      by_cases same : first = second
      · subst same
        rw [List.destutter'_cons_neg _ (by simp)]
        apply induction chain
        cases taken with
        | cons _ later => exact later
        | cons_cons _ later =>
            -- of two equal neighbours at most one was taken
            cases later with
            | cons _ later => exact later.cons_cons first
            | cons_cons _ later => simp at chain
      · rw [List.destutter'_cons_pos _ same]
        cases taken with
        | cons _ later => exact (induction chain later).cons first
        | cons_cons _ later => exact (induction chain.tail later).cons_cons first

theorem sublist_destutter {part whole : List Item} (taken : part.Sublist whole) :
    (part.destutter (· ≠ ·)).Sublist (whole.destutter (· ≠ ·)) := by
  have fewer := (List.destutter_sublist (· ≠ ·) part).trans taken
  cases whole with
  | nil => exact fewer
  | cons first whole =>
      exact sublist_destutter'_of_isChain (List.isChain_destutter (· ≠ ·) part) fewer

end Runs

namespace Session

/-- Whether the tree of a session is in shape and tells what was handed over to be
saved, each run of equal matches once. -/
structure Keeps (log : List Match) (session : Session) : Prop where
  sound : session.context.Sound
  recorded : session.Recorded log
  chronicled : session.Chronicled

theorem Keeps.acts {before after : Session} {log offered : List Match} (keeps : before.Keeps log)
    (acts : Acts before offered after) : after.Keeps (log ++ offered) where
  sound := acts.sound keeps.sound
  recorded := acts.recorded keeps.recorded
  chronicled := acts.keep Chronicled (fun _ _ _ act => act.chronicled) keeps.chronicled

/-- Whether a session that records no matches differs from another one at most in
having saved less. -/
structure Trails (less more : Session) : Prop where
  similar : less.Similar more
  quiet : less.context.setting.config.recordAll = false
  logs : ∃ log log', log.Sublist log' ∧ less.Keeps log ∧ more.Keeps log'

namespace Trails

variable {less more less' more' : Session} {offered offered' : List Match}

theorem after (trails : less.Trails more) (similar : less'.Similar more')
    (acts : Acts less offered less') (acts' : Acts more offered' more')
    (fewer : offered.Sublist offered') : less'.Trails more' := by
  obtain ⟨log, log', part, keeps, keeps'⟩ := trails.logs
  refine ⟨similar, ?_, log ++ offered, log' ++ offered', part.append fewer, keeps.acts acts,
    keeps'.acts acts'⟩
  rw [acts.setting_eq]
  exact trails.quiet

/-- What goes the same way in similar sessions keeps one trailing the other, if
the one hands over part of what the other does. -/
theorem related {Result : Type} {first second : EStateM.Result Error Session Result}
    (trails : less.Trails more) (similar : Action.Related Similar first second)
    (acts : Acts less offered (Action.final first))
    (acts' : Acts more offered' (Action.final second)) (fewer : offered.Sublist offered') :
    Action.Related Trails first second := by
  cases similar with
  | ok value similar => exact .ok value (trails.after similar acts acts' fewer)
  | error error similar => exact .error error (trails.after similar acts acts' fewer)

theorem sound (trails : less.Trails more) : less.context.Sound ∧ more.context.Sound := by
  obtain ⟨_, _, _, keeps, keeps'⟩ := trails.logs
  exact ⟨keeps.sound, keeps'.sound⟩

theorem aside (trails : less.Trails more) {cursor cursor' : Cursor} {notes notes' : Array Note}
    (similar : Similar { less with cursor := cursor, notes := notes }
      { more with cursor := cursor', notes := notes' }) :
    Trails { less with cursor := cursor, notes := notes }
      { more with cursor := cursor', notes := notes' } :=
  trails.after similar (aside_acts less) (aside_acts more) (.refl [])

theorem matches_sublist (trails : less.Trails more) :
    (less.context.tree.matchesOf Tree.root).Sublist (more.context.tree.matchesOf Tree.root) := by
  obtain ⟨log, log', part, keeps, keeps'⟩ := trails.logs
  rw [keeps.chronicled.matchesOf_eq, keeps'.chronicled.matchesOf_eq, keeps.recorded.savings,
    keeps'.recorded.savings]
  exact sublist_destutter part

end Trails

end Session

open Session

variable {less more : Session}

theorem Callback.run_trails {callback : Callback} (free : callback.isHost = false) (found : Match)
    (trails : less.Trails more) :
    Action.Related Trails (callback.run found less) (callback.run found more) := by
  obtain ⟨sound, sound'⟩ := trails.sound
  cases callback with
  | save =>
      exact trails.related (save_related found trails.similar) (save_acts found less)
        (save_acts found more) (.refl _)
  | perform operation =>
      exact trails.related (operation.run_related trails.similar) (operation.run_acts sound)
        (operation.run_acts sound') (.refl _)
  | host script => cases free

namespace Rule

theorem runCallbacks_trails {callbacks : List Callback}
    (free : ∀ callback ∈ callbacks, callback.isHost = false) (found : Match)
    (trails : less.Trails more) :
    Action.Related Trails (runCallbacks found callbacks less)
      (runCallbacks found callbacks more) := by
  induction callbacks generalizing less more with
  | nil => exact .ok () trails
  | cons callback later induction =>
      obtain ⟨_, _, _, here, there, after⟩ | ⟨error, _, _, here, there, after⟩ :=
        (callback.run_trails (free callback (by simp)) found trails).outcomes
      · simp only [runCallbacks, here, there]
        apply induction _ after
        intro other member
        exact free other (by simp [member])
      · simp only [runCallbacks, here, there]
        exact .error error after

theorem Unwatched.post_eq {rule : Rule} (free : rule.Unwatched) (cursor cursor' : Cursor)
    (context context' : Context) (found : Match) :
    (rule.post.all fun check => check.accepts cursor context found) =
      rule.post.all fun check => check.accepts cursor' context' found := by
  apply all_eq
  intro check member
  cases check with
  | validator accepts arguments => rfl
  | host accepts => cases free.post _ member

theorem matchAt_trails {rule : Rule} (free : rule.Unwatched) (trails : less.Trails more) :
    Action.Related Trails (rule.matchAt less) (rule.matchAt more) := by
  have tried : ∀ notes notes' : Array Note, Trails
      { less with cursor := (rule.expr.attempt less.cursor).cursor, notes := notes }
      { more with cursor := (rule.expr.attempt less.cursor).cursor, notes := notes' } := by
    intro notes notes'
    apply trails.aside
    exact congrArg
      (fun outline : Outline => { outline with cursor := (rule.expr.attempt less.cursor).cursor })
      trails.similar
  unfold matchAt
  simp only [free.pre, List.all_nil, if_true, ← trails.similar.cursor]
  cases (rule.expr.attempt less.cursor).result with
  | error error => exact .error error (tried _ _)
  | ok found =>
      have behind := tried (less.notes ++ (rule.expr.attempt less.cursor).trace.toArray)
        (more.notes ++ (rule.expr.attempt less.cursor).trace.toArray)
      simp only [free.post_eq _ (rule.expr.attempt less.cursor).cursor more.context less.context]
      split
      · obtain ⟨_, _, _, here, there, after⟩ | ⟨error, _, _, here, there, after⟩ :=
          (runCallbacks_trails free.callbacks (rule.dress found) behind).outcomes
        · simp only [here, there]
          exact .ok _ after
        · simp only [here, there]
          exact .error error after
      · exact .error _ (behind.aside (behind.similar.move (.to less.cursor.position)))

end Rule

namespace Session

theorem win_similar (scope : String) (index : Nat) (found : Match) (session : Session) :
    ∃ after, win scope index found session = .ok true after ∧
      (session.publish (.matched scope index found)).Similar after := by
  have context : (session.note (.matched scope index found.start found.stop)).context =
      session.context := rfl
  unfold win
  by_cases recorded : (session.context.setting.config.recordAll && !found.isEmpty) = true
  · obtain ⟨after, saved, similar⟩ :=
      save_similar found (session.note (.matched scope index found.start found.stop))
    refine ⟨after.publish (.matched scope index found), ?_, similar.tell _⟩
    simp only [context, if_pos recorded, saved]
  · refine ⟨(session.note (.matched scope index found.start found.stop)).publish
      (.matched scope index found), ?_, (Similar.refl session).tell _⟩
    simp only [context, if_neg recorded]

theorem win_trails (scope : String) (index : Nat) (found : Match) (trails : less.Trails more) :
    Action.Related Trails (win scope index found less) (win scope index found more) := by
  obtain ⟨_, here, told⟩ := win_similar scope index found less
  obtain ⟨_, there, told'⟩ := win_similar scope index found more
  have acts := win_acts scope index found less
  have acts' := win_acts scope index found more
  have nothing : less.offeredByWinner found = [] := by
    simp [offeredByWinner, trails.quiet]
  rw [nothing] at acts
  apply trails.related _ acts acts' (List.nil_sublist _)
  rw [here, there]
  exact .ok true (told.symm.trans ((trails.similar.tell _).trans told'))

theorem lockstep_trails {grammar : Grammar} (free : grammar.Every Rule.Unwatched) :
    Lockstep grammar Trails where
  answers trails := trails.similar.answers
  notes trails _ _ := trails.aside trails.similar
  tell trails event plain :=
    trails.after (trails.similar.tell event) (Act.tell event plain).acts (Act.tell event plain).acts
      (.refl [])
  move trails movement := trails.aside (trails.similar.move movement)
  openScope trails scope :=
    trails.related (openScope_related scope trails.similar) (openScope_acts scope _)
      (openScope_acts scope _) (.refl [])
  rule scope known rule listed _ _ trails :=
    Rule.matchAt_trails (free scope known rule listed) trails
  win trails scope index found := win_trails scope index found trails

end Session

variable {builder : Builder} {grammar : Grammar}

theorem Grammar.opening_trails (built : builder.build = .ok grammar) (config : Config)
    (extra depth : Nat) (cursor : Cursor) :
    (grammar.opening { config with recordAll := false } extra depth cursor).Trails
      (grammar.opening { config with recordAll := true } extra depth cursor) := by
  have keeps : ∀ config, (grammar.opening config extra depth cursor).Keeps [] := by
    intro config
    have begun : (begin (grammar.setting config (grammar.drive config extra depth))
        cursor).Keeps [] :=
      ⟨sound_of_build built, ⟨rfl, rfl⟩, Tree.chronicle_ofRoot Context.mainScope⟩
    exact begun.acts (aside_acts _)
  exact ⟨rfl, rfl, [], [], .refl [], keeps _, keeps _⟩

/-- Of two parses by the same rules and within the same budget, none of which shows
the session to a function of the host, where one records every match and the other
does not: they end at the same place, with the same error or with trees of the same
scopes, in which names, parents, depths, variables and the order of children agree;
they make the same events known, apart from what was saved; and what the tree of the
one tells is part of what the tree of the other tells, in the same order. -/
theorem Parser.recording_does_not_interfere (builder : Builder) (grammar : Grammar)
    (built : builder.build = .ok grammar) (unwatched : builder.Every Entry.Unwatched)
    (config : Config) (extra depth : Nat) (cursor : Cursor) :
    let quiet := grammar.drive { config with recordAll := false } extra depth cursor
    let full := grammar.drive { config with recordAll := true } extra depth cursor
    quiet.cursor = full.cursor ∧
      quiet.events.toList.filter Event.unsaved = full.events.toList.filter Event.unsaved ∧
      ((∃ error, quiet.result = .error error ∧ full.result = .error error) ∨
        ∃ tree tree', quiet.result = .ok tree ∧ full.result = .ok tree' ∧
          tree.unsaved = tree'.unsaved ∧
          (tree.matchesOf Tree.root).Sublist (tree'.matchesOf Tree.root)) := by
  intro quiet full
  cases depth with
  | zero => exact ⟨rfl, rfl, .inl ⟨.exhausted, rfl, rfl⟩⟩
  | succ depth =>
      have lockstep := lockstep_trails (Builder.unwatched_of_build unwatched built)
      have begun := Grammar.opening_trails built config extra depth cursor
      have parsed : ∀ config, grammar.drive config extra (depth + 1) cursor =
          conclude (Session.parse grammar (config.roundLimit cursor.buffer + extra)
            (grammar.opening config extra depth cursor)) := fun config =>
        grammar.drive_succ config extra depth cursor
      obtain ⟨_, _, here, there, ended⟩ | ⟨error, _, _, here, there, ended⟩ :=
        lockstep.parse (config.roundLimit cursor.buffer + extra) begun
      · have first : quiet = _ := (parsed _).trans (congrArg conclude here)
        have second : full = _ := (parsed _).trans (congrArg conclude there)
        rw [first, second]
        exact ⟨ended.similar.cursor, ended.similar.events,
          .inr ⟨_, _, rfl, rfl, ended.similar.tree, ended.matches_sublist⟩⟩
      · have first : quiet = _ := (parsed _).trans (congrArg conclude here)
        have second : full = _ := (parsed _).trans (congrArg conclude there)
        rw [first, second]
        exact ⟨ended.similar.cursor, ended.similar.events, .inl ⟨error, rfl, rfl⟩⟩

/-- A letter is saved, passed over as part of a longer match that no rule saves,
and saved again. The parse that does not record the longer match takes the second
letter for a repetition of the first. -/
theorem Parser.recorded_match_parts_equal_saves :
    let letter := Expr.leaf none "a" (Regex.compile? "a" false)
    let pair := Expr.leaf none "ab" (Regex.compile? "ab" false)
    let builder := ({} : Builder)
      |>.scope "main"
        [⟨.given letter, [⟨"save", []⟩, ⟨"open", [.text "long"]⟩, ⟨"reverse", [.int 1]⟩]⟩]
      |>.scope "long" [⟨.given pair, [⟨"swap", [.text "again"]⟩, ⟨"reverse", [.int 2]⟩]⟩]
      |>.scope "again" [⟨.given letter, [⟨"save", []⟩, ⟨"close", []⟩]⟩]
    let grammar : Grammar :=
      ⟨[⟨"main", [{ expr := letter, callbacks := [.save, .perform (.openScope "long"),
          .perform (.move (.retreat 1))] }], false⟩,
        ⟨"long", [{ expr := pair, callbacks := [.perform (.swapScope "again"),
          .perform (.move (.retreat 2))] }], false⟩,
        ⟨"again", [{ expr := letter, callbacks := [.save, .perform (.closeScopes 1)] }], false⟩]⟩
    let cursor : Cursor := ⟨.ofLines ["ab"], .origin⟩
    let config : Config := {}
    let saved := fun stop text => Element.saved (.leaf ⟨.origin, ⟨0, stop⟩, none, text⟩ text [])
    let tree : Tree := ⟨#[⟨"main", none, 0, #[saved 1 "a", .scope 1], []⟩,
      ⟨"again", some 0, 1, #[], []⟩]⟩
    let tree' : Tree := ⟨#[⟨"main", none, 0, #[saved 1 "a", .scope 1], []⟩,
      ⟨"again", some 0, 1, #[saved 2 "ab", saved 1 "a"], []⟩]⟩
    builder.build = .ok grammar ∧ builder.Every Entry.Unwatched ∧
      (Parser.parse ⟨grammar, { config with recordAll := false }⟩ cursor).result = .ok tree ∧
      (Parser.parse ⟨grammar, { config with recordAll := true }⟩ cursor).result = .ok tree' ∧
      tree.unsaved = tree'.unsaved ∧
      (tree.matchesOf Tree.root).Sublist (tree'.matchesOf Tree.root) := by
  intro letter pair builder grammar cursor config saved tree tree'
  have built : builder.build = .ok grammar := rfl
  have unwatched : builder.Every Entry.Unwatched := by decide +kernel
  have quiet : (Parser.parse ⟨grammar, { config with recordAll := false }⟩ cursor).result =
      .ok tree := by decide +kernel
  have full : (Parser.parse ⟨grammar, { config with recordAll := true }⟩ cursor).result =
      .ok tree' := by decide +kernel
  refine ⟨built, unwatched, quiet, full, ?_⟩
  obtain ⟨_, _, ⟨error, failed, _⟩ | ⟨_, _, here, there, scopes, part⟩⟩ :=
    recording_does_not_interfere builder grammar built unwatched config
      (Budget.ample cursor.buffer).extra (Budget.ample cursor.buffer).depth cursor
  · cases quiet.symm.trans failed
  · cases quiet.symm.trans here
    cases full.symm.trans there
    exact ⟨scopes, part⟩

end LineGrammar
