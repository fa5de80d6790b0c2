import LineGrammar.Proofs.Expr.Placement
import Mathlib.Data.List.Nodup
import Mathlib.Data.List.Perm.Subperm

/-!
Sets, whose members may come in any order. Members line up if they match one
after the other and none is used twice. The loop of a set lines up members too,
but at every place it takes the first of those left in the order in which they
are declared, and never goes back on it: so there is only one way it can go,
and it may come to an end where another choice would have led further.
-/

namespace LineGrammar

namespace Bounds

inductive Change where
  | atLeast (count : Nat)
  | atMost (count : Nat)
  deriving DecidableEq, Repr

def change (bounds : Bounds) : Change → Bounds
  | .atLeast count => bounds.atLeast count
  | .atMost count => bounds.atMost count

def changed (changes : List Change) : Bounds := changes.foldl change {}

/-- How many of `count` members may be taken. -/
def limit (bounds : Bounds) (count : Nat) : Nat := bounds.max.elim count (Min.min · count)

def Ordered (bounds : Bounds) : Prop := ∀ most, bounds.max = some most → bounds.min ≤ most

theorem limit_le_max (bounds : Bounds) {count most : Nat} (upper : bounds.max = some most) :
    bounds.limit count ≤ most := by
  rw [limit, upper]
  exact Nat.min_le_left most count

theorem le_of_limit_le (bounds : Bounds) {count taken : Nat} (reached : bounds.limit count ≤ taken)
    (room : ∀ most, bounds.max = some most → taken < most) : count ≤ taken := by
  unfold limit at reached
  cases upper : bounds.max with
  | none => rwa [upper] at reached
  | some most =>
      have below := room most upper
      rw [upper] at reached
      have either : Min.min most count ≤ taken := reached
      omega

theorem Ordered.change {bounds : Bounds} (change : Change) : (bounds.change change).Ordered := by
  intro most upper
  cases change with
  | atLeast count =>
      obtain ⟨max, _, rfl⟩ := Option.map_eq_some_iff.mp upper
      exact Nat.le_max_right max count
  | atMost count =>
      obtain rfl : count = most := Option.some.inj upper
      exact Nat.min_le_right bounds.min count

theorem ordered_changed (changes : List Change) : (changed changes).Ordered := by
  have run : ∀ bounds : Bounds, bounds.Ordered → (changes.foldl change bounds).Ordered := by
    induction changes with
    | nil => exact fun _ ordered => ordered
    | cons first later induction => exact fun _ _ => induction _ (Ordered.change first)
  apply run
  intro most upper
  cases upper

end Bounds

namespace Attempt

def Fits (attempts : List Attempt) (index : Nat) (cursor : Cursor) : Prop :=
  ∃ member found, attempts[index]? = some member ∧ (member cursor).result = .ok found

/-- `Lineup attempts eager taken cursor order children after` says that the
members with the indices `order`, none of which is `taken` before, match one
after the other from `cursor` to `after`, giving `children`. Each of the first
`eager` of them is the first member not yet taken that matches at its place. -/
inductive Lineup (attempts : List Attempt) :
    Nat → List Nat → Cursor → List Nat → List Match → Cursor → Prop where
  | done (eager : Nat) (taken : List Nat) (cursor : Cursor) :
      Lineup attempts eager taken cursor [] [] cursor
  | take {eager index : Nat} {taken order : List Nat} {cursor after : Cursor} {member : Attempt}
      {found : Match} {children : List Match} (free : index ∉ taken)
      (listed : attempts[index]? = some member) (outcome : (member cursor).result = .ok found)
      (first : 0 < eager → ∀ earlier < index, earlier ∉ taken → ¬Fits attempts earlier cursor)
      (later : Lineup attempts (eager - 1) (index :: taken) (member cursor).cursor order children
        after) :
      Lineup attempts eager taken cursor (index :: order) (found :: children) after

/-- A line-up of first choices only, of no more than `max` members with those
taken before, to which no other member could be added. -/
structure Greedy (attempts : List Attempt) (max : Option Nat) (taken : List Nat) (cursor : Cursor)
    (order : List Nat) (children : List Match) (after : Cursor) : Prop where
  lineup : Lineup attempts order.length taken cursor order children after
  bounded : ∀ most, max = some most → taken.length + order.length ≤ most
  stopped : (∀ most, max = some most → taken.length + order.length < most) →
    ∀ index, index ∉ taken → index ∉ order → ¬Fits attempts index after

variable {attempts : List Attempt} {eager : Nat} {taken order order' : List Nat}
  {cursor after after' : Cursor} {children children' : List Match} {max : Option Nat}

theorem Lineup.length_children
    (lineup : Lineup attempts eager taken cursor order children after) :
    children.length = order.length := by
  induction lineup with
  | done => rfl
  | take _ _ _ _ _ induction => rw [List.length_cons, List.length_cons, induction]

theorem Lineup.not_taken (lineup : Lineup attempts eager taken cursor order children after) :
    ∀ index ∈ order, index ∉ taken := by
  induction lineup with
  | done => simp
  | take free _ _ _ _ induction =>
      intro index member
      rcases List.mem_cons.mp member with rfl | member
      · exact free
      · exact fun before => induction index member (List.mem_cons_of_mem _ before)

theorem Lineup.nodup (lineup : Lineup attempts eager taken cursor order children after) :
    order.Nodup := by
  induction lineup with
  | done => exact List.nodup_nil
  | take _ _ _ _ later induction =>
      refine List.nodup_cons.mpr ⟨?_, induction⟩
      intro again
      exact later.not_taken _ again List.mem_cons_self

theorem Lineup.subset_range (lineup : Lineup attempts eager taken cursor order children after) :
    order ⊆ List.range attempts.length := by
  induction lineup with
  | done => simp
  | take _ listed _ _ _ induction =>
      have bound := (List.getElem?_eq_some_iff.mp listed).1
      exact List.cons_subset.mpr ⟨List.mem_range.mpr bound, induction⟩

theorem Lineup.length_le (lineup : Lineup attempts eager taken cursor order children after) :
    order.length ≤ attempts.length := by
  have few := (lineup.nodup.subperm lineup.subset_range).length_le
  rwa [List.length_range] at few

theorem Lineup.mem_of_length (lineup : Lineup attempts eager taken cursor order children after)
    (all : attempts.length ≤ order.length) {index : Nat} (bound : index < attempts.length) :
    index ∈ order := by
  have same := (lineup.nodup.subperm lineup.subset_range).perm_of_length_le
    (by rwa [List.length_range])
  exact same.mem_iff.mpr (List.mem_range.mpr bound)

theorem first_choice_unique {index index' : Nat} (free : index ∉ taken) (free' : index' ∉ taken)
    (fits : Fits attempts index cursor) (fits' : Fits attempts index' cursor)
    (first : ∀ earlier < index, earlier ∉ taken → ¬Fits attempts earlier cursor)
    (first' : ∀ earlier < index', earlier ∉ taken → ¬Fits attempts earlier cursor) :
    index = index' := by
  rcases Nat.lt_trichotomy index index' with before | same | behind
  · exact absurd fits (first' index before free)
  · exact same
  · exact absurd fits' (first index' behind free')

theorem Greedy.tail {index : Nat} {member : Attempt} {found : Match}
    (greedy : Greedy attempts max taken cursor (index :: order) (found :: children) after)
    (later : Lineup attempts order.length (index :: taken) (member cursor).cursor order children
      after) :
    Greedy attempts max (index :: taken) (member cursor).cursor order children after := by
  have count : (index :: taken).length + order.length =
      taken.length + (index :: order).length := by
    simp only [List.length_cons]
    omega
  refine ⟨later, ?_, ?_⟩
  · rw [count]
    exact greedy.bounded
  · intro room other free notLater
    rw [count] at room
    simp only [List.mem_cons, not_or] at free
    exact greedy.stopped room other free.2 (by simp [free.1, notLater])

theorem Greedy.room {index : Nat}
    (greedy : Greedy attempts max taken cursor (index :: order) children after) :
    ∀ most, max = some most → taken.length < most := by
  intro most upper
  have few := greedy.bounded most upper
  rw [List.length_cons] at few
  omega

theorem Greedy.nonempty {index : Nat} (greedy : Greedy attempts max taken cursor order children after)
    (room : ∀ most, max = some most → taken.length < most) (free : index ∉ taken)
    (fits : Fits attempts index cursor) : order ≠ [] := by
  rintro rfl
  obtain ⟨lineup, _, stopped⟩ := greedy
  cases lineup
  exact stopped room index free List.not_mem_nil fits

theorem Greedy.unique (greedy : Greedy attempts max taken cursor order children after)
    (greedy' : Greedy attempts max taken cursor order' children' after') :
    order' = order ∧ children' = children ∧ after' = after := by
  induction order generalizing taken cursor order' children children' with
  | nil =>
      cases greedy.lineup
      cases lined : greedy'.lineup with
      | done => exact ⟨rfl, rfl, rfl⟩
      | take free listed outcome first later =>
          exact absurd rfl (greedy.nonempty greedy'.room free ⟨_, _, listed, outcome⟩)
  | cons index order induction =>
      cases lined : greedy.lineup with
      | take free listed outcome first later =>
          cases lined' : greedy'.lineup with
          | done => exact absurd rfl (greedy'.nonempty greedy.room free ⟨_, _, listed, outcome⟩)
          | take free' listed' outcome' first' later' =>
              obtain rfl := first_choice_unique free free' ⟨_, _, listed, outcome⟩
                ⟨_, _, listed', outcome'⟩ (first (Nat.succ_pos _)) (first' (Nat.succ_pos _))
              obtain rfl := Option.some.inj (listed'.symm.trans listed)
              obtain rfl := Except.ok.inj (outcome'.symm.trans outcome)
              obtain ⟨rfl, rfl, rfl⟩ := induction (greedy.tail later) (greedy'.tail later')
              exact ⟨rfl, rfl, rfl⟩

/-- The members that are not taken, with their indices, in order. -/
structure Untaken (attempts : List Attempt) (taken : List Nat)
    (entries : List (Attempt × Nat)) : Prop where
  sorted : entries.Pairwise fun left right => left.2 < right.2
  listed : ∀ entry, entry ∈ entries ↔ attempts[entry.2]? = some entry.1 ∧ entry.2 ∉ taken

theorem untaken_all (attempts : List Attempt) : Untaken attempts [] attempts.zipIdx where
  sorted := by
    rw [← List.pairwise_map, List.zipIdx_map_snd]
    exact List.pairwise_lt_range'
  listed := by
    intro entry
    simp [List.mem_zipIdx_iff_getElem?]

theorem Untaken.take {front back : List (Attempt × Nat)} {entry : Attempt × Nat}
    (untaken : Untaken attempts taken (front ++ entry :: back)) :
    Untaken attempts (entry.2 :: taken) (front ++ back) where
  sorted := untaken.sorted.sublist ((List.sublist_cons_self entry back).append_left front)
  listed := by
    intro other
    obtain ⟨_, fromEntry, ahead⟩ := List.pairwise_append.mp untaken.sorted
    have behind := (List.pairwise_cons.mp fromEntry).1
    have here := (untaken.listed entry).mp (by simp)
    have there := untaken.listed other
    constructor
    · intro kept
      have different : other.2 ≠ entry.2 := by
        rcases List.mem_append.mp kept with isAhead | isBehind
        · exact Nat.ne_of_lt (ahead other isAhead entry List.mem_cons_self)
        · exact Nat.ne_of_gt (behind other isBehind)
      have known := there.mp (by
        rcases List.mem_append.mp kept with isAhead | isBehind
        · exact List.mem_append_left _ isAhead
        · exact List.mem_append_right _ (List.mem_cons_of_mem _ isBehind))
      exact ⟨known.1, by simp [different, known.2]⟩
    · rintro ⟨known, free⟩
      simp only [List.mem_cons, not_or] at free
      rcases List.mem_append.mp (there.mpr ⟨known, free.2⟩) with isAhead | isBehind
      · exact List.mem_append_left _ isAhead
      · rcases List.mem_cons.mp isBehind with rfl | isBehind
        · exact absurd rfl free.1
        · exact List.mem_append_right _ isBehind

theorem Untaken.ahead {front back : List (Attempt × Nat)} {entry : Attempt × Nat}
    (untaken : Untaken attempts taken (front ++ entry :: back)) {earlier : Nat} {member : Attempt}
    (before : earlier < entry.2) (free : earlier ∉ taken)
    (listed : attempts[earlier]? = some member) : (member, earlier) ∈ front := by
  obtain ⟨_, fromEntry, _⟩ := List.pairwise_append.mp untaken.sorted
  have behind := (List.pairwise_cons.mp fromEntry).1
  have known := (untaken.listed (member, earlier)).mpr ⟨listed, free⟩
  rcases List.mem_append.mp known with isAhead | isBehind
  · exact isAhead
  · rcases List.mem_cons.mp isBehind with rfl | isBehind
    · exact absurd before (Nat.lt_irrefl _)
    · exact absurd (behind _ isBehind) (Nat.lt_asymm before)

theorem firstMember_choice {entries : List (Attempt × Nat)}
    (sound : ∀ entry ∈ entries, entry.1.Sound) (valid : cursor.Valid) :
    (firstMember (entries.map Prod.fst) cursor).Ends
      (fun answer after =>
        match answer with
        | none => after = cursor ∧
            ∀ entry ∈ entries, ∀ found, (entry.1 cursor).result ≠ .ok found
        | some (found, others) => ∃ front entry back, entries = front ++ entry :: back ∧
            others = (front ++ back).map Prod.fst ∧ (entry.1 cursor).result = .ok found ∧
            after = (entry.1 cursor).cursor ∧
            ∀ passed ∈ front, ∀ found, (passed.1 cursor).result ≠ .ok found)
      (fun _ _ => False) := by
  induction entries with
  | nil => exact ⟨rfl, by simp⟩
  | cons entry later induction =>
      have soundLater : ∀ entry ∈ later, entry.1.Sound := by
        intro other isLater
        exact sound other (by simp [isLater])
      rw [List.map_cons]
      cases outcome : (entry.1 cursor).result with
      | ok found =>
          simp only [firstMember, outcome, Trial.Ends]
          exact ⟨[], entry, later, rfl, rfl, outcome, rfl, by simp⟩
      | error error =>
          obtain ⟨recoverable, back⟩ := (sound entry (by simp)).refuses valid outcome
          have refused : ∀ found, (entry.1 cursor).result ≠ .ok found := by simp [outcome]
          simp only [firstMember, outcome, recoverable, if_true]
          rw [back]
          refine (((induction soundLater).imp ?_ ?_).map).after _
          · intro answer after holds
            cases answer with
            | none => exact ⟨holds.1, List.forall_mem_cons.mpr ⟨refused, holds.2⟩⟩
            | some pair =>
                obtain ⟨front, taken, rest, rfl, others, given, moved, passed⟩ := holds
                refine ⟨entry :: front, taken, rest, rfl, ?_, given, moved, ?_⟩
                · simp [others]
                · exact List.forall_mem_cons.mpr ⟨refused, passed⟩
          · intro error after impossible
            exact impossible

/-- The loop of a set lines up first choices, until there are as many as it may
take or none of the members left matches. -/
theorem members_lineup (sound : ∀ attempt ∈ attempts, attempt.Sound) (limit : Nat)
    {entries : List (Attempt × Nat)} (untaken : Untaken attempts taken entries)
    (valid : cursor.Valid) :
    (members limit (entries.map Prod.fst) cursor).Ends
      (fun children after => ∃ order, Lineup attempts order.length taken cursor order children after ∧
        order.length ≤ limit ∧
        (order.length < limit → ∀ index, index ∉ taken → index ∉ order →
          ¬Fits attempts index after))
      (fun _ _ => False) := by
  have soundEntries : ∀ entry ∈ entries, entry.1.Sound := by
    intro entry isEntry
    exact sound entry.1 (List.mem_of_getElem? ((untaken.listed entry).mp isEntry).1)
  induction limit generalizing taken entries cursor with
  | zero => exact ⟨[], .done _ _ _, Nat.le_refl _, fun room => absurd room (Nat.lt_irrefl _)⟩
  | succ limit induction =>
      have search := firstMember_choice soundEntries valid
      cases outcome : (firstMember (entries.map Prod.fst) cursor).result with
      | error error => exact (search.of_error outcome).elim
      | ok answer =>
          have holds := search.of_ok outcome
          cases answer with
          | none =>
              obtain ⟨stays, refused⟩ := holds
              simp only [members, outcome, Trial.Ends]
              rw [stays]
              refine ⟨[], .done _ _ _, Nat.zero_le _, ?_⟩
              rintro _ index free _ ⟨member, found, listed, given⟩
              exact refused (member, index) ((untaken.listed _).mpr ⟨listed, free⟩) found given
          | some pair =>
              obtain ⟨found, others⟩ := pair
              obtain ⟨front, entry, back, rfl, rfl, given, moved, passed⟩ := holds
              obtain ⟨listed, free⟩ := (untaken.listed entry).mp (by simp)
              -- What the search has passed over are the free members declared before.
              have first : ∀ earlier < entry.2, earlier ∉ taken →
                  ¬Fits attempts earlier cursor := by
                rintro earlier before free ⟨member, found, listed, given⟩
                exact passed _ (untaken.ahead before free listed) found given
              have covers := (soundEntries entry (by simp)).covers valid given
              have soundOthers : ∀ other ∈ front ++ back, other.1.Sound := by
                intro other isOther
                exact sound other.1 (List.mem_of_getElem? ((untaken.take.listed other).mp isOther).1)
              have rest := induction untaken.take covers.leads.valid soundOthers
              simp only [members, outcome, moved]
              refine ((rest.imp ?_ ?_).map).after _
              · rintro children after ⟨order, lineup, few, stopped⟩
                refine ⟨entry.2 :: order, .take free listed given (fun _ => first) lineup,
                  Nat.succ_le_succ few, ?_⟩
                intro room index free notTaken
                simp only [List.mem_cons, not_or] at notTaken
                exact stopped (Nat.lt_of_succ_lt_succ room) index (by simp [notTaken.1, free])
                  notTaken.2
              · intro error after impossible
                exact impossible

theorem set_of_members {bounds : Bounds}
    (outcome : (members (bounds.limit attempts.length) attempts cursor).result = .ok children) :
    (set bounds attempts cursor).Ends
      (fun found stop => bounds.min ≤ children.length ∧ found.children = children ∧
        stop = (members (bounds.limit attempts.length) attempts cursor).cursor)
      (fun _ _ => children.length < bounds.min) := by
  unfold Bounds.limit at *
  cases upper : bounds.max
  all_goals
    simp only [upper, Option.elim_none, Option.elim_some] at outcome ⊢
    simp only [set, upper, Trial.after, outcome]
    split
    · rename_i tooFew
      exact tooFew
    · rename_i enough
      exact compose_ends (Trial.ends_of_ok rfl ⟨Nat.le_of_not_lt enough, rfl, rfl⟩)

theorem set_greedy (sound : ∀ attempt ∈ attempts, attempt.Sound) (bounds : Bounds)
    (valid : cursor.Valid) :
    ∃ order children after, Greedy attempts bounds.max [] cursor order children after ∧
      (set bounds attempts cursor).Ends
        (fun found stop => bounds.min ≤ order.length ∧ found.children = children ∧ stop = after)
        (fun _ _ => order.length < bounds.min) := by
  have loop := members_lineup sound (bounds.limit attempts.length) (untaken_all attempts) valid
  rw [List.zipIdx_map_fst] at loop
  cases outcome : (members (bounds.limit attempts.length) attempts cursor).result with
  | error error => exact (loop.of_error outcome).elim
  | ok children =>
      obtain ⟨order, lineup, few, stopped⟩ := loop.of_ok outcome
      refine ⟨order, children, _, ⟨lineup, ?_, ?_⟩, ?_⟩
      · intro most upper
        rw [List.length_nil, Nat.zero_add]
        exact Nat.le_trans few (bounds.limit_le_max upper)
      · intro room index free notTaken fits
        rw [List.length_nil, Nat.zero_add] at room
        by_cases more : order.length < bounds.limit attempts.length
        · exact stopped more index free notTaken fits
        · -- All members are used up.
          have all := bounds.le_of_limit_le (Nat.le_of_not_lt more) room
          obtain ⟨member, found, listed, _⟩ := fits
          exact notTaken (lineup.mem_of_length all (List.getElem?_eq_some_iff.mp listed).1)
      · have count := lineup.length_children
        exact count ▸ set_of_members outcome

end Attempt

namespace Expr

theorem set_attempt_greedy (name : Option String) (items : List Expr) (bounds : Bounds)
    {cursor : Cursor} (valid : cursor.Valid) :
    ∃ order children after,
      Attempt.Greedy (attempts items) bounds.max [] cursor order children after ∧
      ((Expr.set name items bounds).attempt cursor).Ends
        (fun found stop => bounds.min ≤ order.length ∧ found.children = children ∧ stop = after)
        (fun _ _ => order.length < bounds.min) := by
  obtain ⟨order, children, after, greedy, ends⟩ :=
    Attempt.set_greedy (attempts_sound items) bounds valid
  refine ⟨order, children, after, greedy, ?_⟩
  rw [attempt]
  refine Trial.Ends.map (ends.imp ?_ ?_)
  · intro found stop matched
    rwa [Match.children_withTag]
  · intro error stop tooFew
    exact tooFew

/-- However the bounds of a set were changed, they stay in order. The set then
lines up its members in the one greedy way there is: each member once, each
where the one before has ended, always the first of those left that matches,
until there are as many as the upper bound allows or no member left matches. The
set fails exactly if these are fewer than the lower bound says; otherwise their
matches are its children. -/
theorem set_takes_first_that_matches (changes : List Bounds.Change) (name : Option String)
    (items : List Expr) (cursor : Cursor) (valid : cursor.Valid) :
    let bounds := Bounds.changed changes
    let trial := (Expr.set name items bounds).attempt cursor
    (∀ most, bounds.max = some most → bounds.min ≤ most) ∧
    ∃ order children after,
      Attempt.Greedy (attempts items) bounds.max [] cursor order children after ∧
      (∀ order' children' after',
        Attempt.Greedy (attempts items) bounds.max [] cursor order' children' after' →
          order' = order ∧ children' = children ∧ after' = after) ∧
      ((∃ error, trial.result = .error error) ↔ order.length < bounds.min) ∧
      ∀ found, trial.result = .ok found →
        found.children = children ∧ trial.cursor = after ∧ order.Nodup ∧
        Match.Tiles cursor.position after.position children ∧
        children.length = order.length ∧ bounds.min ≤ children.length ∧
        (∀ most, bounds.max = some most → children.length ≤ most) ∧
        children.length ≤ items.length ∧
        ((∀ most, bounds.max = some most → children.length < most) →
          ∀ index, index ∉ order → ¬Attempt.Fits (attempts items) index after) := by
  intro bounds trial
  obtain ⟨order, children, after, greedy, ends⟩ := set_attempt_greedy name items bounds valid
  have count := greedy.lineup.length_children
  refine ⟨Bounds.ordered_changed changes, order, children, after, greedy, ?_, ?_, ?_⟩
  · intro order' children' after' greedy'
    exact greedy.unique greedy'
  · constructor
    · rintro ⟨error, failed⟩
      exact ends.of_error failed
    · intro tooFew
      cases outcome : trial.result with
      | error error => exact ⟨error, rfl⟩
      | ok found => exact absurd (ends.of_ok outcome).1 (Nat.not_le.mpr tooFew)
  · intro found matched
    obtain ⟨enough, same, moved⟩ := ends.of_ok matched
    have covers := covers_of_attempt valid matched
    have tiles := tiles_of_attempt valid matched trivial
    rw [covers.start, covers.stop, same, moved] at tiles
    have bounded := greedy.bounded
    have stopped := greedy.stopped
    simp only [List.length_nil, Nat.zero_add] at bounded stopped
    have most := greedy.lineup.length_le
    rw [attempts_length] at most
    rw [count]
    refine ⟨same, moved, greedy.lineup.nodup, tiles, rfl, enough, bounded, most, ?_⟩
    intro room index notTaken
    exact stopped room index List.not_mem_nil notTaken

/-- The letter that is declared last comes first in the line; when it comes
again it has been used up. -/
theorem second_member_comes_first :
    let cursor : Cursor := ⟨.ofLines ["ébab"], ⟨0, 2⟩⟩
    let items := [Expr.leaf none "a" (Regex.compile? "a" false),
      .leaf none "b" (Regex.compile? "b" false)]
    let found := Match.composite ⟨⟨0, 2⟩, ⟨0, 4⟩, none, "ba"⟩ .set
      [.leaf ⟨⟨0, 2⟩, ⟨0, 3⟩, none, "b"⟩ "b" [], .leaf ⟨⟨0, 3⟩, ⟨0, 4⟩, none, "a"⟩ "a" []]
    cursor.Valid ∧
      ((Expr.set none items (Bounds.changed [.atMost 1, .atLeast 2])).attempt cursor).result =
        .ok found ∧
      ∃ order children after,
        Attempt.Greedy (attempts items) (some 2) [] cursor order children after ∧
          found.children = children := by
  intro cursor items found
  have valid : cursor.Valid := by decide
  have outcome :
      ((Expr.set none items (Bounds.changed [.atMost 1, .atLeast 2])).attempt cursor).result =
        .ok found := by
    decide +kernel
  obtain ⟨_, order, children, after, greedy, _, _, matched⟩ :=
    set_takes_first_that_matches [.atMost 1, .atLeast 2] none items cursor valid
  exact ⟨valid, outcome, order, children, after, greedy, (matched found outcome).1⟩

end Expr

end LineGrammar
