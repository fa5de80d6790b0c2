import LineGrammar.Proofs.Parser.Lockstep
import LineGrammar.Proofs.Session.Alike

/-!
Parses that run alike. If the host functions of a grammar cannot tell cursors
apart that are alike, its rules go the same way from sessions that are alike, and
so do whole parses, in lockstep.
-/

namespace LineGrammar

variable {like : Cursor → Cursor → Prop} {left right : Session} {rule : Rule} {grammar : Grammar}

theorem Action.Alike.related {Result : Type} {first second : EStateM.Result Error Session Result}
    (alike : Action.Alike like first second) :
    Action.Related (Session.Alike like) first second := by
  cases alike with
  | ok value alike => exact .ok value alike
  | error error alike => exact .error error alike

namespace Rule

theorem all_eq {Check : Type} {checks : List Check} {here there : Check → Bool}
    (same : ∀ check ∈ checks, here check = there check) : checks.all here = checks.all there := by
  rw [Bool.eq_iff_iff, List.all_eq_true, List.all_eq_true]
  apply forall₂_congr
  intro check member
  rw [same check member]

theorem Blind.pre_eq (blind : rule.Blind like) {here there : Cursor} (same : like here there)
    (context : Context) :
    (rule.pre.all fun check => check here context) =
      rule.pre.all fun check => check there context := by
  apply all_eq
  intro check member
  exact blind.pre check member here there same context

theorem Blind.post_eq (blind : rule.Blind like) {here there : Cursor} (same : like here there)
    (context : Context) (found : Match) :
    (rule.post.all fun check => check.accepts here context found) =
      rule.post.all fun check => check.accepts there context found := by
  apply all_eq
  intro check member
  cases check with
  | validator accepts arguments => rfl
  | host accepts => exact blind.post accepts member here there same context found

theorem matchAt_alike (likeness : Cursor.Likeness like) (blind : rule.Blind like)
    (alike : left.Alike like right) :
    Action.Alike like (rule.matchAt left) (rule.matchAt right) := by
  have position := likeness.position _ _ alike.cursor
  obtain ⟨result, behind⟩ := likeness.attempt _ _ alike.cursor rule.expr
  unfold matchAt
  simp only [← alike.context, ← position, ← result, ← blind.pre_eq alike.cursor]
  split
  · cases outcome : (rule.expr.attempt left.cursor).result with
    | error error => exact .error error ⟨behind, rfl, alike.events⟩
    | ok found =>
        simp only [← blind.post_eq behind]
        split
        · have tried : Session.Alike like
              { left with
                cursor := (rule.expr.attempt left.cursor).cursor
                notes := left.notes ++ (rule.expr.attempt left.cursor).trace.toArray }
              { right with
                cursor := (rule.expr.attempt right.cursor).cursor
                context := left.context
                notes := right.notes ++ (rule.expr.attempt right.cursor).trace.toArray } :=
            ⟨behind, rfl, alike.events⟩
          have ran := runCallbacks_alike likeness blind.callbacks (rule.dress found) tried
          obtain ⟨value, _, _, here, there, after⟩ | ⟨error, _, _, here, there, after⟩ :=
            ran.outcomes
          · simp only [here, there]
            exact .ok _ after
          · simp only [here, there]
            exact .error error after
        · exact .error _ ⟨likeness.apply _ _ behind (.to left.cursor.position), rfl, alike.events⟩
  · exact .error _ ⟨alike.cursor, alike.context, alike.events⟩

end Rule

namespace Session

theorem win_alike (scope : String) (index : Nat) (found : Match) (alike : left.Alike like right) :
    Action.Alike like (win scope index found left) (win scope index found right) := by
  have noted : (left.note (.matched scope index found.start found.stop)).Alike like
      (right.note (.matched scope index found.start found.stop)) :=
    ⟨alike.cursor, alike.context, alike.events⟩
  have context : (left.note (.matched scope index found.start found.stop)).context =
      left.context := rfl
  simp only [win, ← noted.context, context]
  by_cases recorded : (left.context.setting.config.recordAll && !found.isEmpty) = true
  · simp only [if_pos recorded]
    obtain ⟨value, _, _, here, there, after⟩ | ⟨error, _, _, here, there, after⟩ :=
      (save_alike found noted).outcomes
    · simp only [here, there]
      exact .ok true (after.publish _)
    · simp only [here, there]
      exact .error error after
  · simp only [if_neg recorded]
    exact .ok true (noted.publish _)

theorem Alike.answers (likeness : Cursor.Likeness like) (alike : left.Alike like right) :
    SameAnswers left right where
  position := likeness.position _ _ alike.cursor
  atEnd := likeness.atEnd _ _ alike.cursor
  atLineEnd := likeness.atLineEnd _ _ alike.cursor
  scopeName := by rw [alike.context]
  isStrict scope := by rw [alike.context]
  fault cause := by rw [alike.context]
  diagnose complaint := diagnose_alike likeness complaint alike
  maxStall := by rw [alike.context]
  start := by rw [alike.context]
  stop := by rw [alike.context]

theorem lockstep_alike (likeness : Cursor.Likeness like) (blind : grammar.Every (Rule.Blind like)) :
    Lockstep grammar (Session.Alike like) where
  answers alike := alike.answers likeness
  notes alike _ _ := ⟨alike.cursor, alike.context, alike.events⟩
  tell alike event _ := alike.publish event
  move alike movement :=
    ⟨likeness.apply _ _ alike.cursor movement, alike.context, alike.events⟩
  openScope alike scope := (openScope_alike scope alike).related
  rule scope known rule listed _ _ alike :=
    (Rule.matchAt_alike likeness (blind scope known rule listed) alike).related
  win alike scope index found := (win_alike scope index found alike).related

theorem parse_alike (likeness : Cursor.Likeness like) (blind : grammar.Every (Rule.Blind like))
    (limit : Nat) (alike : left.Alike like right) :
    Action.Alike like (parse grammar limit left) (parse grammar limit right) := by
  obtain ⟨_, _, here, there, after⟩ | ⟨error, _, _, here, there, after⟩ :=
    (lockstep_alike likeness blind).parse limit alike
  · rw [here, there, ← after.context]
    exact .ok _ after
  · rw [here, there]
    exact .error error after

end Session

end LineGrammar
