import Mathlib.Data.List.Induction
import Mathlib.Tactic.Common
import SheetFormula.Proofs.Tree.Nodes

/-!
# Tours of a tree

What passes between a walk and its visitor: it is shown nodes as they are entered, answers whether
to go below them, and is shown those nodes again as they are left. Equal nodes may stand at several
places of a tree, so a node is taken together with its address. A list of such visits is a `Tour` of
some places if it goes through them one after the other, and at each place stops where the answer
was to skip, or else goes through the children and leaves.

Main results:
* `Visitor.exists_tour`: every walk makes a tour with the answers of its visitor, whatever these
  depend on.
* `Tour.pairwise_entered`: places are entered in the order of their addresses, each of them once.
* `Tour.close_append` and `Tour.perm_left`: brackets match, and the places that are left are those
  that are entered and not skipped.
* `Tour.explores`: a tour of a whole tree enters a place exactly if it skips none above it.
-/

namespace SheetFormula

/-! ## Places -/

/-- The node at an address: the numbers of the children to go to, from a root down. -/
def Node.at? (root : Node) : List Nat → Option Node
  | [] => some root
  | i :: address => root.children[i]?.bind fun c => c.at? address

/-- An address leads on from where its first part leads. -/
theorem Node.at?_append (root : Node) (a b : List Nat) :
    root.at? (a ++ b) = (root.at? a).bind fun n => n.at? b := by
  induction a generalizing root with
  | nil => rfl
  | cons i a ih =>
    rw [List.cons_append, at?, at?, Option.bind_assoc]
    exact congrArg _ (funext fun c => ih c)

/-- A node of a tree, and where it is. -/
structure Place where
  address : List Nat
  node : Node
  deriving DecidableEq, Repr

namespace Place

/-- The root of a tree. -/
def root (n : Node) : Place := ⟨[], n⟩

/-- The children of a node, and where they are. -/
def children (p : Place) : List Place :=
  p.node.children.mapIdx fun i c => ⟨p.address ++ [i], c⟩

/-- The children of a place are at the next addresses. -/
theorem mem_children {p q : Place} :
    q ∈ p.children ↔ ∃ i, q.address = p.address ++ [i] ∧ p.node.children[i]? = some q.node := by
  rw [children, List.mem_mapIdx]
  constructor
  · rintro ⟨i, inside, rfl⟩
    exact ⟨i, rfl, List.getElem?_eq_getElem inside⟩
  · rintro ⟨i, address, child⟩
    obtain ⟨inside, is⟩ := List.getElem?_eq_some_iff.mp child
    exact ⟨i, inside, by rw [is, ← address]⟩

/-- The nodes of these places are the children of the node. -/
theorem map_node_children (p : Place) : p.children.map node = p.node.children := by
  apply List.ext_getElem <;> simp [children]

/-- The children of what is at an address of a tree are at addresses of the tree. -/
theorem at?_of_mem_children {n : Node} {p q : Place} (there : n.at? p.address = some p.node)
    (child : q ∈ p.children) : n.at? q.address = some q.node := by
  obtain ⟨i, address, is⟩ := mem_children.mp child
  rw [address, Node.at?_append, there, Option.bind_some, Node.at?, is, Option.bind_some, Node.at?]

/-- Whether all that is below one place comes before all that is below another. -/
def Before (p q : Place) : Prop := ∀ a b : List Nat, p.address ++ a < q.address ++ b

/-- The children of a place stand one before the other. -/
theorem pairwise_children (p : Place) : p.children.Pairwise Before := by
  rw [List.pairwise_iff_getElem]
  intro i j _ _ less a b
  simp only [children, List.getElem_mapIdx, List.append_assoc]
  exact List.append_left_lt (List.cons_lt_cons_iff.mpr (.inl less))

end Place

/-! ## Visits -/

/-- What passes between a walk and its visitor. -/
inductive Visit
  /-- The visitor is shown a place that is entered, and answers. -/
  | enter (place : Place) (answer : Descent)
  /-- The visitor is shown a place that is left. -/
  | leave (place : Place)
  deriving DecidableEq, Repr

namespace Visit

/-- The event that the visitor sees. -/
def event : Visit → WalkEvent
  | enter p _ => .enter p.node
  | leave p => .leave p.node

/-- The places that are entered. -/
def entered (visits : List Visit) : List Place :=
  visits.filterMap fun
    | enter p _ => some p
    | leave _ => none

/-- The places that are entered and not skipped. -/
def descended (visits : List Visit) : List Place :=
  visits.filterMap fun
    | enter p .children => some p
    | _ => none

/-- The places that are left. -/
def left (visits : List Visit) : List Place :=
  visits.filterMap fun
    | enter .. => none
    | leave p => some p

/-- Without visits nothing is entered. -/
@[simp] theorem entered_nil : entered [] = [] := rfl

/-- The place of the first visit is entered first. -/
@[simp] theorem entered_enter (p : Place) (answer : Descent) (visits : List Visit) :
    entered (enter p answer :: visits) = p :: entered visits := rfl

/-- Leaving a place enters none. -/
@[simp] theorem entered_leave (p : Place) (visits : List Visit) :
    entered (leave p :: visits) = entered visits := rfl

/-- Visits one behind the other enter their places so. -/
@[simp] theorem entered_append (visits more : List Visit) :
    entered (visits ++ more) = entered visits ++ entered more := List.filterMap_append

/-- A place is entered if there is a visit that enters it. -/
theorem mem_entered {p : Place} {visits : List Visit} :
    p ∈ entered visits ↔ ∃ answer, enter p answer ∈ visits := by
  rw [entered, List.mem_filterMap]
  constructor
  · rintro ⟨q | q, mem, is⟩
    · exact ⟨_, Option.some.inj is ▸ mem⟩
    · cases is
  · rintro ⟨answer, mem⟩
    exact ⟨_, mem, rfl⟩

/-- Closes brackets: a place is open from where it is entered, unless it is skipped, to where it is
left, and only the place opened last can be left. Yields the places that are open in the end. -/
def close : List Visit → (open_ : List Place) → Option (List Place)
  | [], places => some places
  | enter p .children :: visits, places => close visits (p :: places)
  | enter _ .skip :: visits, places => close visits places
  | leave _ :: _, [] => none
  | leave p :: visits, last :: places => if p = last then close visits places else none

end Visit

/-- Visits that go through some places one after the other, and through what is below each of them
that is not skipped. -/
inductive Tour : List Place → List Visit → Prop
  | nothing : Tour [] []
  | skip {p : Place} {places : List Place} {visits : List Visit} (later : Tour places visits) :
    Tour (p :: places) (.enter p .skip :: visits)
  | descend {p : Place} {places : List Place} {inner visits : List Visit}
      (below : Tour p.children inner) (later : Tour places visits) :
    Tour (p :: places) (.enter p .children :: (inner ++ .leave p :: visits))

namespace Tour

variable {p q r : Place} {places more : List Place} {visits others : List Visit}

/-- The places of a tour are entered. -/
theorem enters (tour : Tour places visits) : places ⊆ Visit.entered visits := by
  induction tour with
  | nothing => exact List.nil_subset _
  | skip later ih => exact List.cons_subset_cons _ ih
  | descend below later _ ih =>
    rw [Visit.entered_enter, Visit.entered_append, Visit.entered_leave]
    exact List.cons_subset_cons _ (List.subset_append_of_subset_right _ ih)

/-- If a place is not skipped, its children are entered. -/
theorem enters_below (tour : Tour places visits) (descends : .enter p .children ∈ visits) :
    p.children ⊆ Visit.entered visits := by
  induction tour with
  | nothing => cases descends
  | skip later ih =>
    rcases List.mem_cons.mp descends with same | descends
    · cases same
    · exact List.subset_cons_of_subset _ (ih descends)
  | descend below later ihBelow ihLater =>
    rw [Visit.entered_enter, Visit.entered_append, Visit.entered_leave]
    apply List.subset_cons_of_subset
    rcases List.mem_cons.mp descends with same | descends
    · cases same
      exact List.subset_append_of_subset_left _ below.enters
    rcases List.mem_append.mp descends with inside | descends
    · exact List.subset_append_of_subset_left _ (ihBelow inside)
    rcases List.mem_cons.mp descends with same | descends
    · cases same
    · exact List.subset_append_of_subset_right _ (ihLater descends)

/-- A place that is entered is one of the places, or a child of one that is not skipped. -/
theorem above_of_entered (tour : Tour places visits) (entered : q ∈ Visit.entered visits) :
    q ∈ places ∨ ∃ p, .enter p .children ∈ visits ∧ q ∈ p.children := by
  induction tour with
  | nothing => cases entered
  | @skip p places visits later ih =>
    rcases List.mem_cons.mp entered with rfl | entered
    · exact .inl List.mem_cons_self
    · rcases ih entered with among | ⟨p, descends, child⟩
      · exact .inl (List.mem_cons_of_mem _ among)
      · exact .inr ⟨p, List.mem_cons_of_mem _ descends, child⟩
  | @descend p places inner visits below later ihBelow ihLater =>
    rw [Visit.entered_enter, Visit.entered_append, Visit.entered_leave, List.mem_cons,
      List.mem_append] at entered
    rcases entered with rfl | inside | entered
    · exact .inl List.mem_cons_self
    · rcases ihBelow inside with child | ⟨p, descends, child⟩
      · exact .inr ⟨p, List.mem_cons_self, child⟩
      · exact .inr ⟨p, List.mem_cons_of_mem _ (List.mem_append_left _ descends), child⟩
    · rcases ihLater entered with among | ⟨p, descends, child⟩
      · exact .inl (List.mem_cons_of_mem _ among)
      · exact .inr ⟨p, by simp [descends], child⟩

/-- What is entered on a tour lies at or below one of its places. -/
theorem exists_above_of_entered (tour : Tour places visits) (entered : q ∈ Visit.entered visits) :
    ∃ p ∈ places, ∃ a, q.address = p.address ++ a := by
  induction tour with
  | nothing => cases entered
  | @skip p places visits later ih =>
    rcases List.mem_cons.mp entered with rfl | entered
    · exact ⟨q, List.mem_cons_self, [], (List.append_nil _).symm⟩
    · obtain ⟨r, among, below⟩ := ih entered
      exact ⟨r, List.mem_cons_of_mem _ among, below⟩
  | @descend p places inner visits below later ihBelow ihLater =>
    rw [Visit.entered_enter, Visit.entered_append, Visit.entered_leave, List.mem_cons,
      List.mem_append] at entered
    rcases entered with rfl | inside | entered
    · exact ⟨q, List.mem_cons_self, [], (List.append_nil _).symm⟩
    · obtain ⟨c, child, a, address⟩ := ihBelow inside
      obtain ⟨i, step, -⟩ := Place.mem_children.mp child
      exact ⟨p, List.mem_cons_self, i :: a, by rw [address, step, List.append_assoc]; rfl⟩
    · obtain ⟨r, among, below⟩ := ihLater entered
      exact ⟨r, List.mem_cons_of_mem _ among, below⟩

/-- **Places are entered in the order of their addresses**, and so none is entered twice. -/
theorem pairwise_entered (tour : Tour places visits) (apart : places.Pairwise Place.Before) :
    (Visit.entered visits).Pairwise fun q r => q.address < r.address := by
  induction tour with
  | nothing => exact .nil
  | @skip p places visits later ih =>
    obtain ⟨first, apart⟩ := List.pairwise_cons.mp apart
    refine .cons ?_ (ih apart)
    intro q entered
    obtain ⟨r, among, a, address⟩ := later.exists_above_of_entered entered
    have less := first r among [] a
    rwa [List.append_nil, ← address] at less
  | @descend p places inner visits below later ihBelow ihLater =>
    obtain ⟨first, apart⟩ := List.pairwise_cons.mp apart
    -- What is entered below `p` has its address in front, so it comes behind `p` and before all
    -- later places, which differ from `p` within that address.
    have inside : ∀ q ∈ Visit.entered inner, ∃ i a, q.address = p.address ++ i :: a := by
      intro q entered
      obtain ⟨c, child, a, address⟩ := below.exists_above_of_entered entered
      obtain ⟨i, step, -⟩ := Place.mem_children.mp child
      exact ⟨i, a, by rw [address, step, ← List.append_cons]⟩
    rw [Visit.entered_enter, Visit.entered_append, Visit.entered_leave]
    refine .cons ?_ (List.pairwise_append.mpr ⟨ihBelow p.pairwise_children, ihLater apart, ?_⟩)
    · intro q entered
      rcases List.mem_append.mp entered with below | entered
      · obtain ⟨i, a, address⟩ := inside q below
        have less : p.address ++ [] < p.address ++ i :: a :=
          List.append_left_lt (List.nil_lt_cons i a)
        rwa [List.append_nil, ← address] at less
      · obtain ⟨r, among, a, address⟩ := later.exists_above_of_entered entered
        have less := first r among [] a
        rwa [List.append_nil, ← address] at less
    · intro q below r entered
      obtain ⟨i, a, address⟩ := inside q below
      obtain ⟨r', among, b, address'⟩ := later.exists_above_of_entered entered
      have less := first r' among (i :: a) b
      rwa [← address, ← address'] at less

/-- The places that are left are those that are entered and not skipped. -/
theorem perm_left (tour : Tour places visits) :
    (Visit.left visits).Perm (Visit.descended visits) := by
  induction tour with
  | nothing => exact .nil
  | skip later ih => exact ih
  | @descend p places inner visits below later ihBelow ihLater =>
    have left : Visit.left (.enter p .children :: (inner ++ .leave p :: visits)) =
        Visit.left inner ++ p :: Visit.left visits := List.filterMap_append
    have descended : Visit.descended (.enter p .children :: (inner ++ .leave p :: visits)) =
        p :: (Visit.descended inner ++ Visit.descended visits) :=
      congrArg (p :: ·) List.filterMap_append
    rw [left, descended]
    exact List.perm_middle.trans ((ihBelow.append ihLater).cons _)

/-- **On a tour brackets match**: behind it the same places are open as in front of it. -/
theorem close_append (tour : Tour places visits) (later : List Visit) (open_ : List Place) :
    Visit.close (visits ++ later) open_ = Visit.close later open_ := by
  induction tour generalizing later open_ with
  | nothing => rfl
  | skip _ ih => exact ih later open_
  | @descend p places inner visits _ _ ihBelow ihLater =>
    rw [List.cons_append, List.append_assoc, List.cons_append, Visit.close, ihBelow, Visit.close,
      if_pos rfl]
    exact ihLater later open_

/-- The nodes that are entered on a tour are among all nodes, in the same order. -/
theorem sublist_nodes (tour : Tour places visits) :
    ((Visit.entered visits).map Place.node).Sublist (places.flatMap fun p => p.node.nodes) := by
  induction tour with
  | nothing => exact .slnil
  | @skip p places visits later ih =>
    rw [Visit.entered_enter, List.map_cons, List.flatMap_cons, Node.nodes_eq, List.cons_append]
    exact (ih.trans (List.sublist_append_right ..)).cons_cons _
  | @descend p places inner visits below later ihBelow ihLater =>
    rw [Visit.entered_enter, Visit.entered_append, Visit.entered_leave, List.map_cons,
      List.map_append, List.flatMap_cons, Node.nodes_eq, List.cons_append]
    rw [← List.flatMap_map, Place.map_node_children] at ihBelow
    exact (ihBelow.append ihLater).cons_cons _

/-- Where places are entered in the order of their addresses, there is one answer for each. -/
theorem answer_unique (tour : Tour places visits) (apart : places.Pairwise Place.Before)
    {answer answer' : Descent} (entered : .enter p answer ∈ visits)
    (entered' : .enter q answer' ∈ visits) (same : p.address = q.address) : answer = answer' := by
  have ascends := tour.pairwise_entered apart
  rw [Visit.entered, List.pairwise_filterMap, List.pairwise_iff_getElem] at ascends
  obtain ⟨i, inside, is⟩ := List.getElem_of_mem entered
  obtain ⟨j, inside', is'⟩ := List.getElem_of_mem entered'
  rcases Nat.lt_trichotomy i j with less | rfl | less
  · have apart := ascends i j inside inside' less p (by rw [is]) q (by rw [is'])
    rw [same] at apart
    exact absurd apart (List.lt_irrefl _)
  · exact (Visit.enter.inj (is.symm.trans is')).2
  · have apart := ascends j i inside' inside less q (by rw [is']) p (by rw [is])
    rw [same] at apart
    exact absurd apart (List.lt_irrefl _)

end Tour

/-! ## Tours of whole trees -/

/-- Whether visits go through a tree as they should. -/
structure Explores (n : Node) (visits : List Visit) : Prop where
  /-- A place that is left is the last one that was entered, not skipped and not left since, and in
  the end all of them are left. -/
  closes : Visit.close visits [] = some []
  /-- No place is entered twice, and a node is entered in front of what is below it, and that in the
  order of the children. -/
  ascends : (Visit.entered visits).Pairwise fun p q => p.address < q.address
  /-- The places of the tree without a skipped place above them are entered, and no others. -/
  entered_iff : ∀ q, q ∈ Visit.entered visits ↔ n.at? q.address = some q.node ∧
    ∀ p, .enter p .skip ∈ visits → p.address <+: q.address → p.address = q.address
  /-- The places that are left are those that are entered and not skipped. -/
  left_perm : (Visit.left visits).Perm (Visit.descended visits)

namespace Tour

variable {n : Node} {visits : List Visit}

/-- What is entered on a tour of a tree is in the tree, and nothing above it is skipped. -/
theorem unskipped_of_entered (tour : Tour [.root n] visits) {q : Place}
    (entered : q ∈ Visit.entered visits) : n.at? q.address = some q.node ∧
      ∀ p, .enter p .skip ∈ visits → p.address <+: q.address → p.address = q.address := by
  induction length : q.address.length using Nat.strongRecOn generalizing q with
  | ind length ih =>
    rcases tour.above_of_entered entered with root | ⟨p, descends, child⟩
    · obtain rfl := List.mem_singleton.mp root
      exact ⟨rfl, fun p _ above => List.prefix_nil.mp above⟩
    · obtain ⟨i, address, -⟩ := Place.mem_children.mp child
      have shorter : p.address.length < q.address.length := by
        rw [address, List.length_append, List.length_singleton]
        exact Nat.lt_succ_self _
      obtain ⟨there, free⟩ := ih _ (length ▸ shorter) (Visit.mem_entered.mpr ⟨_, descends⟩) rfl
      refine ⟨Place.at?_of_mem_children there child, ?_⟩
      intro r skips above
      rw [address, List.prefix_concat_iff] at above
      rcases above with same | above
      · exact same.trans address.symm
      · have same := free r skips above
        cases tour.answer_unique (List.pairwise_singleton ..) skips descends same

/-- What is in a tree and has nothing skipped above it is entered on a tour of the tree. -/
theorem entered_of_unskipped (tour : Tour [.root n] visits) {q : Place}
    (there : n.at? q.address = some q.node)
    (free : ∀ p, .enter p .skip ∈ visits → p.address <+: q.address → p.address = q.address) :
    q ∈ Visit.entered visits := by
  obtain ⟨address, m⟩ := q
  -- The induction is on the way down to `q`: its parent is entered, and was not skipped.
  induction address using List.reverseRecOn generalizing m with
  | nil =>
    obtain rfl := Option.some.inj there
    exact tour.enters List.mem_cons_self
  | append_singleton a i ih =>
    rw [Node.at?_append] at there
    obtain ⟨above, is, child⟩ := Option.bind_eq_some_iff.mp there
    have longer : ∀ b, b <+: a → b ≠ a ++ [i] := by
      rintro b shorter rfl
      have short := shorter.length_le
      rw [List.length_append, List.length_singleton] at short
      exact absurd short (Nat.not_succ_le_self _)
    have parent : ⟨a, above⟩ ∈ Visit.entered visits := by
      refine ih above is fun p skips shorter => ?_
      exact absurd (free p skips (shorter.trans (List.prefix_append ..))) (longer _ shorter)
    obtain ⟨answer, entered⟩ := Visit.mem_entered.mp parent
    cases answer with
    | skip =>
      exact absurd (free _ entered (List.prefix_append ..)) (longer _ (List.prefix_refl _))
    | children =>
      refine tour.enters_below entered (Place.mem_children.mpr ⟨i, rfl, ?_⟩)
      simpa [Node.at?] using child

/-- **A tour of a tree goes through it as it should.** -/
theorem explores (tour : Tour [.root n] visits) : Explores n visits where
  closes := by
    have closed := tour.close_append [] []
    rwa [List.append_nil] at closed
  ascends := tour.pairwise_entered (List.pairwise_singleton ..)
  entered_iff _ :=
    ⟨tour.unskipped_of_entered, fun ⟨there, free⟩ => tour.entered_of_unskipped there free⟩
  left_perm := tour.perm_left

end Tour

/-! ## Tours of visitors -/

namespace Visitor

variable {σ : Type} (v : Visitor σ)

/-- Whether the visitor gives just these answers when it is shown these visits one after the other
from the one state on, and comes to the other state. -/
def Meets : σ → List Visit → σ → Prop
  | state, [], last => state = last
  | state, .enter p answer :: visits, last =>
    (v.enter p.node state).1 = answer ∧ Meets (v.enter p.node state).2 visits last
  | state, .leave p :: visits, last => Meets (v.leave p.node state) visits last

variable {v}

/-- Visits one behind the other are met if each part is, the later one from the state that the
earlier one leaves. -/
theorem meets_append {state last : σ} {visits more : List Visit} :
    v.Meets state (visits ++ more) last ↔
      ∃ middle, v.Meets state visits middle ∧ v.Meets middle more last := by
  induction visits generalizing state with
  | nil => simp [Meets]
  | cons visit visits ih =>
    cases visit with
    | enter p answer => simp [Meets, ih, and_assoc]
    | leave p => simp [Meets, ih]

/-- **A walk comes to what a tour comes to** that the visitor meets. -/
theorem walk_of_meets {places : List Place} {visits : List Visit} (tour : Tour places visits)
    {state last : σ} (meets : v.Meets state visits last) :
    places.foldl (fun state p => v.walk p.node state) state = last := by
  induction tour generalizing state last with
  | nothing => exact meets
  | @skip p places visits later ih =>
    obtain ⟨answer, meets⟩ := meets
    have shown : v.walk p.node state = (v.enter p.node state).2 := by
      rw [walk_eq, visit]
      split
      · next is => rw [is]
      · next is => rw [is] at answer; cases answer
    rw [List.foldl_cons, shown]
    exact ih meets
  | @descend p places inner visits below later ihBelow ihLater =>
    obtain ⟨answer, meets⟩ := meets
    obtain ⟨middle, inside, meets⟩ := meets_append.mp meets
    have shown : v.walk p.node state = v.leave p.node middle := by
      have children := ihBelow inside
      rw [← List.foldl_map (g := fun state c => v.walk c state),
        Place.map_node_children] at children
      rw [walk_eq, visit]
      split
      · next is => rw [is] at answer; cases answer
      · next is =>
        rw [is] at children
        rw [children]
    rw [List.foldl_cons, shown]
    exact ihLater meets

/-- A walk through some places makes a tour of them if the walk of each one does. -/
theorem exists_tour_of_each {places : List Place}
    (each : ∀ p ∈ places, ∀ state, ∃ visits last, Tour [p] visits ∧ v.Meets state visits last)
    (state : σ) : ∃ visits last, Tour places visits ∧ v.Meets state visits last := by
  induction places generalizing state with
  | nil => exact ⟨[], state, .nothing, rfl⟩
  | cons p places ih =>
    obtain ⟨first, each⟩ := List.forall_mem_cons.mp each
    obtain ⟨front, middle, tour, meets⟩ := first state
    obtain ⟨visits, last, further, meets'⟩ := ih each middle
    refine ⟨front ++ visits, last, ?_, meets_append.mpr ⟨middle, meets, meets'⟩⟩
    cases tour with
    | skip later =>
      cases later
      exact .skip further
    | descend below later =>
      cases later
      rw [List.cons_append, List.append_assoc]
      exact .descend below further

/-- **Whatever a visitor answers, there is a tour of it**, from any place and any state on. -/
theorem exists_tour (v : Visitor σ) (p : Place) (state : σ) :
    ∃ visits last, Tour [p] visits ∧ v.Meets state visits last := by
  cases answer : (v.enter p.node state).1 with
  | skip => exact ⟨_, _, .skip .nothing, answer, rfl⟩
  | children =>
    have each : ∀ q ∈ p.children, ∀ state, ∃ visits last,
        Tour [q] visits ∧ v.Meets state visits last := fun q child => v.exists_tour q
    obtain ⟨inner, middle, below, meets⟩ := exists_tour_of_each each (v.enter p.node state).2
    exact ⟨_, _, .descend below .nothing, answer, meets_append.mpr ⟨middle, meets, rfl⟩⟩
termination_by sizeOf p.node
decreasing_by
  obtain ⟨i, -, is⟩ := Place.mem_children.mp child
  exact Node.sizeOf_lt_of_mem_children (List.mem_of_getElem? is)

end Visitor

end SheetFormula
