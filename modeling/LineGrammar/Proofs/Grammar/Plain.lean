import LineGrammar.Proofs.Cursor.Ahead
import LineGrammar.Proofs.Expr.Leaf
import LineGrammar.Proofs.Parser.Step

/-!
Plain rules: a pattern, or no pattern at all, with nothing to check and nothing to
edit. Which of some plain rules matches, and how much it takes, can be told from
the line alone, of which some lies behind and the rest ahead.
-/

namespace LineGrammar

def Regex.take? (regex : Regex) (behind ahead : List Char) : Option (List Char) :=
  (regex.matchFrom behind.getLast? (Text.byteLength behind) ahead).map fun captures =>
    Text.takeBytes (captures.stop - Text.byteLength behind) ahead

theorem Regex.take?_all {regex : Regex} {behind ahead : List Char}
    (whole : ∃ captures,
      regex.matchFrom behind.getLast? (Text.byteLength behind) ahead = some captures ∧
        captures.stop = Text.byteLength behind + Text.byteLength ahead) :
    regex.take? behind ahead = some ahead := by
  obtain ⟨captures, matched, stop⟩ := whole
  have taken := Text.takeBytes_byteLength_append ahead []
  rw [List.append_nil] at taken
  rw [take?, matched, Option.map_some, stop, Nat.add_sub_cancel_left, taken]

/-- What a pattern takes of the text ahead; without a pattern, nothing is taken. -/
def Expr.take? : Expr → List Char → List Char → Option (List Char)
  | .leaf none _ (some regex), behind, ahead => regex.take? behind ahead
  | .leaf none _ none, _, _ => some []
  | _, _, _ => none

/-- A match without its place: its tag and its text. -/
def Match.label (found : Match) : Option String × List Char := (found.tag, found.text.toList)

namespace Cursor.Faces

variable {cursor : Cursor} {behind ahead : List Char} {later : List (List Char)}

theorem matchRegex_eq (faces : cursor.Faces behind (ahead :: later)) (regex : Regex) :
    cursor.matchRegex regex =
      regex.matchFrom behind.getLast? (Text.byteLength behind) ahead := by
  obtain ⟨line, found, text⟩ := faces.line
  rw [matchRegex, found, Option.bind_some, Regex.matchAt, text, faces.1,
    Text.takeBytes_byteLength_append, Text.dropBytes_byteLength_append]

theorem refuses {source : String} {regex : Regex} (faces : cursor.Faces behind (ahead :: later))
    (refused : regex.take? behind ahead = none) :
    ∃ error, ((Expr.leaf none source (some regex)).attempt cursor).result = .error error := by
  have missed : cursor.matchRegex regex = none := by
    rw [faces.matchRegex_eq]
    exact Option.map_eq_none_iff.mp refused
  simp [Expr.attempt, Attempt.tagged, Attempt.leaf, Attempt.leafText, missed, Trial.map, Except.map]

theorem takes {source : String} {regex : Regex} {taken : List Char}
    (faces : cursor.Faces behind (ahead :: later))
    (accepted : regex.take? behind ahead = some taken) :
    ∃ rest groups, ahead = taken ++ rest ∧
      ((Expr.leaf none source (some regex)).attempt cursor).cursor =
        cursor.skipBytes (Text.byteLength taken) ∧
      ((Expr.leaf none source (some regex)).attempt cursor).result =
        .ok (.leaf
          ⟨cursor.position, (cursor.skipBytes (Text.byteLength taken)).position, none,
            String.ofList taken⟩ source groups) := by
  obtain ⟨captures, matched, isTaken⟩ := Option.map_eq_some_iff.mp accepted
  obtain ⟨_, consumed, rest, split, stop⟩ := Regex.matchFrom_span matched
  have same : consumed = taken := by
    rw [← isTaken, stop, Nat.add_sub_cancel_left, split, Text.takeBytes_byteLength_append]
  subst same
  have here := faces.matchRegex_eq regex
  rw [matched] at here
  have outcome := @Expr.leaf_eq_of_match _ source _ _ consumed rest faces.valid here
    (faces.rest_eq.trans split) (by rw [stop, faces.1])
  exact ⟨rest, _, split, outcome⟩

end Cursor.Faces

namespace Rule

def ofPattern (source : String) (tag : Option String) (callbacks : List Callback) : Rule :=
  { expr := .leaf none source (Regex.compile? source false), tag := tag, callbacks := callbacks }

/-- Whether a rule is a pattern, or no pattern at all, and nothing more is needed
for a match, which is left as it is. -/
def isPlain (rule : Rule) : Bool :=
  rule.pre.isEmpty && rule.post.isEmpty && rule.transforms.isEmpty &&
    match rule.expr with
    | .leaf none _ _ => true
    | _ => false

/-- What the first of some rules to match takes of the text ahead, with the place
of that rule among them. -/
def choose? (behind ahead : List Char) : List Rule → Option (Nat × List Char)
  | [] => none
  | rule :: later =>
      match rule.expr.take? behind ahead with
      | some taken => some (0, taken)
      | none => (choose? behind ahead later).map fun (index, taken) => (index + 1, taken)

variable {rule : Rule} {cursor : Cursor} {context : Context} {behind ahead taken : List Char}
  {later : List (List Char)}

theorem isPlain_iff : rule.isPlain = true ↔
    (rule.pre = [] ∧ rule.post = [] ∧ rule.transforms = []) ∧
      ∃ source regex, rule.expr = .leaf none source regex := by
  unfold isPlain
  split
  · rename_i source regex isLeaf
    simp [isLeaf, and_assoc]
  · rename_i other
    simp only [Bool.and_false, Bool.false_eq_true, false_iff, not_and, not_exists]
    intro _ source regex
    exact other source regex

theorem match?_of_refused (plain : rule.isPlain = true)
    (faces : cursor.Faces behind (ahead :: later))
    (refused : rule.expr.take? behind ahead = none) : rule.match? cursor context = none := by
  obtain ⟨⟨pre, _, _⟩, source, regex, expr⟩ := isPlain_iff.mp plain
  rw [expr] at refused
  cases regex with
  | none => cases refused
  | some regex =>
      obtain ⟨error, outcome⟩ := @Cursor.Faces.refuses _ _ _ _ source regex faces refused
      simp [match?, pre, expr, outcome]

/-- How a plain rule matches that takes some text: it passes over that, and its match
is a single node with the tag of the rule. -/
structure Takes (rule : Rule) (cursor : Cursor) (context : Context) (taken : List Char)
    (found : Match) : Prop where
  accepted : rule.match? cursor context = some found
  passes : (rule.expr.attempt cursor).cursor = cursor.skipBytes (Text.byteLength taken)
  start : (rule.dress found).start = cursor.position
  stop : (rule.dress found).stop = (cursor.skipBytes (Text.byteLength taken)).position
  label : (rule.dress found).label = (rule.tag, taken)
  single : (rule.dress found).flatten = [rule.dress found]

theorem takes_of_leaf {source : String} {regex : Option Regex} {groups : List (Option String)}
    {found : Match} (plain : rule.isPlain = true) (expr : rule.expr = .leaf none source regex)
    (passes : ((Expr.leaf none source regex).attempt cursor).cursor =
      cursor.skipBytes (Text.byteLength taken))
    (outcome : ((Expr.leaf none source regex).attempt cursor).result = .ok found)
    (isLeaf : found = .leaf
      ⟨cursor.position, (cursor.skipBytes (Text.byteLength taken)).position, none,
        String.ofList taken⟩ source groups) : rule.Takes cursor context taken found := by
  obtain ⟨⟨pre, post, transforms⟩, _⟩ := isPlain_iff.mp plain
  rw [← expr] at passes outcome
  constructor
  · simp [match?, pre, post, outcome]
  · exact passes
  · rw [start_dress, isLeaf]
    rfl
  · rw [stop_dress, isLeaf]
    rfl
  · cases tag : rule.tag <;>
      simp [isLeaf, dress, tag, transforms, Match.label, Match.withTag, Match.withText,
        Match.mapExtent, Match.tag, Match.text, Match.extent]
  · cases tag : rule.tag <;>
      simp [isLeaf, dress, tag, Match.withTag, Match.withText, Match.mapExtent, Match.flatten,
        Match.size, Match.walk]

theorem takes_of_accepted (plain : rule.isPlain = true)
    (faces : cursor.Faces behind (ahead :: later))
    (accepted : rule.expr.take? behind ahead = some taken) :
    ∃ rest found, ahead = taken ++ rest ∧ rule.Takes cursor context taken found := by
  obtain ⟨_, source, regex, expr⟩ := isPlain_iff.mp plain
  rw [expr] at accepted
  cases regex with
  | none =>
      cases accepted
      exact ⟨ahead, _, rfl, takes_of_leaf plain expr rfl rfl rfl⟩
  | some regex =>
      obtain ⟨rest, groups, split, passes, outcome⟩ :=
        @Cursor.Faces.takes _ _ _ _ source _ _ faces accepted
      exact ⟨rest, _, split, takes_of_leaf plain expr passes outcome rfl⟩

theorem of_choose? {rules : List Rule} {index : Nat}
    (chosen : choose? behind ahead rules = some (index, taken)) :
    ∃ earlier rule others, rules = earlier ++ rule :: others ∧ rules[index]? = some rule ∧
      (∀ other ∈ earlier, other.expr.take? behind ahead = none) ∧
      rule.expr.take? behind ahead = some taken := by
  induction rules generalizing index with
  | nil => cases chosen
  | cons first rules induction =>
      rw [choose?] at chosen
      split at chosen
      · rename_i accepted
        cases chosen
        exact ⟨[], first, rules, rfl, rfl, by simp, accepted⟩
      · rename_i refused
        obtain ⟨⟨place, text⟩, later, moved⟩ := Option.map_eq_some_iff.mp chosen
        cases moved
        obtain ⟨earlier, rule, others, listed, isRule, before, accepted⟩ := induction later
        refine ⟨first :: earlier, rule, others, by rw [listed]; rfl, isRule, ?_, accepted⟩
        intro other member
        rcases List.mem_cons.mp member with rfl | isEarlier
        · exact refused
        · exact before other isEarlier

theorem refused_of_choose? {rules : List Rule} (chosen : choose? behind ahead rules = none) :
    ∀ rule ∈ rules, rule.expr.take? behind ahead = none := by
  induction rules with
  | nil => simp
  | cons first rules induction =>
      rw [choose?] at chosen
      split at chosen
      · cases chosen
      · rename_i refused
        intro rule member
        rcases List.mem_cons.mp member with rfl | isLater
        · exact refused
        · exact induction (Option.map_eq_none_iff.mp chosen) rule isLater

end Rule

end LineGrammar
