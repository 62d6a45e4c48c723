import ChordRing.Proofs.Fingers

/-!
# Walks

A search goes from peer to peer, each of which answers it or forwards it. `Route.Walk` is that
chain, with the number of forwards. A walk is determined by its start (`Walk.unique`), and one
exists wherever every forward lowers a measure, which then bounds the forwards (`exists_walk`).

On sound tables a forward brings the search closer to its key without passing it
(`findSuccessor_step`, `lookup_step`), so fewer forwards are made than there are members and the
answer is the member nearest to the key, for a successor search and for the lookup of a key alike
(`walks_reach_nearest`).
-/

namespace ChordRing

open RingId

namespace Route

/-- Following the routes from `p`, through `peers` only, the search is answered with `q` after `n`
forwards. -/
inductive Walk (peers : Finset Identifier) (route : Identifier → Route) :
    Identifier → Nat → Identifier → Prop
  | answer {p q : Identifier} : p ∈ peers → route p = .answer q → Walk peers route p 0 q
  | forward {p f q : Identifier} {n : Nat} :
      p ∈ peers → route p = .forward f → Walk peers route f n q → Walk peers route p (n + 1) q

theorem Walk.unique {peers peers' : Finset Identifier} {route : Identifier → Route}
    {p q r : Identifier} {n m : Nat} (hq : Walk peers route p n q) (hr : Walk peers' route p m r) :
    n = m ∧ q = r := by
  induction hq generalizing m with
  | answer _ hp =>
      cases hr with
      | answer _ hp' =>
          rw [hp] at hp'
          exact ⟨rfl, Route.answer.inj hp'⟩
      | forward _ hp' _ =>
          rw [hp] at hp'
          exact Route.noConfusion hp'
  | forward _ hp _ ih =>
      cases hr with
      | answer _ hp' =>
          rw [hp] at hp'
          exact Route.noConfusion hp'
      | forward _ hp' hwalk =>
          rw [hp] at hp'
          obtain rfl := Route.forward.inj hp'
          obtain ⟨rfl, rfl⟩ := ih hwalk
          exact ⟨rfl, rfl⟩

theorem Walk.mono {peers larger : Finset Identifier} (hsub : peers ⊆ larger)
    {route : Identifier → Route} {p q : Identifier} {n : Nat} (h : Walk peers route p n q) :
    Walk larger route p n q := by
  induction h with
  | answer hp hroute => exact .answer (hsub hp) hroute
  | forward hp hroute _ ih => exact .forward (hsub hp) hroute ih

/-- One step of a search at `p`: it is answered with a peer in `good`, or forwarded to one of
`peers` in relation `closer` to `p`. -/
def Steps (peers : Finset Identifier) (good : Identifier → Prop)
    (closer : Identifier → Identifier → Prop) (route : Identifier → Route) (p : Identifier) :
    Prop :=
  (∃ q, route p = .answer q ∧ good q) ∨ ∃ f ∈ peers, route p = .forward f ∧ closer f p

theorem Steps.imp {peers peers' : Finset Identifier} {good good' : Identifier → Prop}
    {closer : Identifier → Identifier → Prop} {route : Identifier → Route} {p : Identifier}
    (h : Steps peers good closer route p) (hsub : peers ⊆ peers')
    (hgood : ∀ q, good q → good' q) : Steps peers' good' closer route p := by
  rcases h with ⟨q, hroute, hq⟩ | ⟨f, hf, hroute, hcloser⟩
  · exact Or.inl ⟨q, hroute, hgood q hq⟩
  · exact Or.inr ⟨f, hsub hf, hroute, hcloser⟩

/-- Where every forward lowers a measure, every search is answered, after no more forwards than the
measure of its start. -/
theorem exists_walk {peers : Finset Identifier} {good : Identifier → Prop}
    {route : Identifier → Route} (measure : Identifier → Nat)
    (step : ∀ p ∈ peers, Steps peers good (fun f p => measure f < measure p) route p) :
    ∀ p ∈ peers, ∃ n ≤ measure p, ∃ q, Walk peers route p n q ∧ good q := by
  -- induction on a bound of the measure, since a forward lowers it by any amount
  suffices key : ∀ m p, measure p ≤ m → p ∈ peers →
      ∃ n ≤ measure p, ∃ q, Walk peers route p n q ∧ good q from
    fun p hp => key (measure p) p (Nat.le_refl _) hp
  intro m
  induction m with
  | zero =>
      intro p hm hp
      rcases step p hp with ⟨q, hroute, hq⟩ | ⟨f, -, -, hlt⟩
      · exact ⟨0, Nat.zero_le _, q, .answer hp hroute, hq⟩
      · omega
  | succ m ih =>
      intro p hm hp
      rcases step p hp with ⟨q, hroute, hq⟩ | ⟨f, hf, hroute, hlt⟩
      · exact ⟨0, Nat.zero_le _, q, .answer hp hroute, hq⟩
      · obtain ⟨n, hn, q, hwalk, hq⟩ := ih f (by omega) hf
        exact ⟨n + 1, by omega, q, .forward hp hroute hwalk, hq⟩

/-! ## Searches on sound tables -/

variable {members : Finset Identifier} {t : FingerTable}

/-- The members that a search for `k` can still visit behind `p`. -/
def ahead (members : Finset Identifier) (k : RingId) (p : Identifier) : Finset Identifier :=
  members.filter fun q => distance q.id k < distance p.id k

theorem card_ahead_lt {p : Identifier} (hp : p ∈ members) (k : RingId) :
    (ahead members k p).card < members.card := by
  refine Finset.card_lt_card ⟨Finset.filter_subset _ _, ?_⟩
  intro h
  exact Nat.lt_irrefl _ (Finset.mem_filter.1 (h hp)).2

theorem card_ahead_lt_of_closer {p f : Identifier} (hf : f ∈ members) {k : RingId}
    (h : distance f.id k < distance p.id k) :
    (ahead members k f).card < (ahead members k p).card := by
  -- what is ahead of `f` is ahead of `p`, and so is `f`, which is not ahead of itself
  apply Finset.card_lt_card
  constructor
  · intro q hq
    obtain ⟨hq, hlt⟩ := Finset.mem_filter.1 hq
    exact Finset.mem_filter.2 ⟨hq, Nat.lt_trans hlt h⟩
  · intro hsub
    exact Nat.lt_irrefl _ (Finset.mem_filter.1 (hsub (Finset.mem_filter.2 ⟨hf, h⟩))).2

/-- The closest preceding entry is closer to the key than the owner. -/
theorem distance_closestPreceding_lt {k : RingId} {f : Identifier}
    (h : t.closestPreceding k = some f) : distance f.id k < distance t.owner.id k := by
  obtain ⟨hpos, hlt⟩ := FingerTable.precedes_iff.1 (FingerTable.closestPreceding_eq_some h).2.1
  rw [distance_of_le (o := t.owner.id) (Nat.le_of_lt hlt)]
  omega

/-- A successor search at a member with a sound table is answered with the member nearest to the
key or gets closer to the key. -/
theorem findSuccessor_step (distinct : DistinctIds members) (table : Identifier → FingerTable)
    {p : Identifier} (hp : p ∈ members) (howner : (table p).owner = p)
    (hsound : (table p).Sound members) (k : RingId) :
    Steps members (Nearest members k) (fun f p => distance f.id k < distance p.id k)
      (fun p => findSuccessor (table p) k) p := by
  have hmem : (table p).owner ∈ members := howner.symm ▸ hp
  -- the entries are members, so the closest preceding one is a member closer to the key
  rcases FingerTable.findSuccessor_of_sound distinct hmem hsound k with ⟨q, hq, hnear⟩ | ⟨f, hf, hc⟩
  · exact Or.inl ⟨q, hq, hnear⟩
  · have hlt := distance_closestPreceding_lt hc
    rw [howner] at hlt
    exact Or.inr ⟨f, hsound.entries f (FingerTable.closestPreceding_eq_some hc).1, hf, hlt⟩

/-- The lookup of a key steps as a successor search does, unless it is answered at once. -/
theorem lookup_step {good : Identifier → Prop} {closer : Identifier → Identifier → Prop}
    (table : Identifier → FingerTable) (predecessor : Identifier → Identifier) {k : RingId}
    {p : Identifier} (howner : (table p).owner = p)
    (howns : owns p (predecessor p) k = true → good p)
    (h : Steps members good closer (fun p => findSuccessor (table p) k) p) :
    Steps members good closer (fun p => lookup (table p) (predecessor p) k) p := by
  by_cases hkeep : owns p (predecessor p) k = true
  · have hroute : lookup (table p) (predecessor p) k = .answer p := by
      rw [lookup, howner, if_pos hkeep]
    exact Or.inl ⟨p, hroute, howns hkeep⟩
  · have hroute : lookup (table p) (predecessor p) k = findSuccessor (table p) k := by
      rw [lookup, howner, if_neg hkeep]
    unfold Steps
    simp only [hroute]
    exact h

/-- **Routing rests on the first finger.** If every member's first entry is its next member, its
other entries are any members at all, and its predecessor is the true one, then from every start
both searches for `k` end, after fewer forwards than there are members, at the one member that is
nearest to `k`. -/
theorem walks_reach_nearest (distinct : DistinctIds members) {table : Identifier → FingerTable}
    {predecessor : Identifier → Identifier} (owner : ∀ p ∈ members, (table p).owner = p)
    (sound : ∀ p ∈ members, (table p).Sound members)
    (previous : ∀ p ∈ members, Previous members p (predecessor p)) {start : Identifier}
    (hstart : start ∈ members) (k : RingId) :
    ∃ q, (∀ r, Nearest members k r ↔ r = q) ∧
      (∃ n < members.card, Walk members (fun p => findSuccessor (table p) k) start n q) ∧
      ∃ n < members.card, Walk members (fun p => lookup (table p) (predecessor p) k) start n q := by
  -- the measure is the number of members still ahead; each forward leaves one of them behind
  have hlower : ∀ p, ∀ f ∈ members, distance f.id k < distance p.id k →
      (ahead members k f).card < (ahead members k p).card :=
    fun p f hf h => card_ahead_lt_of_closer hf h
  have hfind : ∀ p ∈ members, Steps members (Nearest members k)
      (fun f p => (ahead members k f).card < (ahead members k p).card)
      (fun p => findSuccessor (table p) k) p := by
    intro p hp
    rcases findSuccessor_step distinct table hp (owner p hp) (sound p hp) k with
      h | ⟨f, hf, hroute, hlt⟩
    · exact Or.inl h
    · exact Or.inr ⟨f, hf, hroute, hlower p f hf hlt⟩
  have hlookup : ∀ p ∈ members, Steps members (Nearest members k)
      (fun f p => (ahead members k f).card < (ahead members k p).card)
      (fun p => lookup (table p) (predecessor p) k) p := fun p hp =>
    lookup_step table predecessor (owner p hp)
      (FingerTable.nearest_of_owns hp distinct (previous p hp)) (hfind p hp)
  have hcard := card_ahead_lt hstart k
  obtain ⟨n, hn, q, hwalk, hq⟩ := exists_walk _ hfind start hstart
  obtain ⟨m, hm, r, hwalk', hr⟩ := exists_walk _ hlookup start hstart
  obtain rfl := hq.unique distinct hr
  refine ⟨q, fun r => ⟨fun hr => hr.unique distinct hq, fun hr => hr ▸ hq⟩,
    ⟨n, by omega, hwalk⟩, ⟨m, by omega, hwalk'⟩⟩

end Route

namespace Trio

/-! ## Three peers -/

/-- The first of three peers. The second one lies close behind it, the third one far. -/
def first : Identifier := ⟨"10.0.0.1", ⟨0⟩⟩

def second : Identifier := ⟨"10.0.0.2", ⟨100⟩⟩

def third : Identifier := ⟨"10.0.0.3", ⟨65280⟩⟩

/-- A newcomer between the second one and the third. -/
def fourth : Identifier := ⟨"10.0.0.4", ⟨200⟩⟩

def members : Finset Identifier := {first, second, third}

/-- Tables of different sizes that are right in their first entries only. -/
def looseTable (p : Identifier) : FingerTable :=
  if p = first then ⟨p, [second]⟩
  else if p = second then ⟨p, [third, second, first]⟩
  else ⟨p, [first, third, second, second, third]⟩

def predecessor (p : Identifier) : Identifier :=
  if p = first then third else if p = second then first else second

open Route

/-- From the first peer a key just before the third one is reached over the second. -/
theorem walks_reach_nearest_of_loose_tables :
    DistinctIds members ∧ (∀ p ∈ members, (looseTable p).owner = p) ∧
      (∀ p ∈ members, (looseTable p).Sound members) ∧
      (∀ p ∈ members, Previous members p (predecessor p)) ∧ first ∈ members ∧
      ∃ q, (∀ r, Nearest members ⟨65000⟩ r ↔ r = q) ∧
        (∃ n < members.card,
          Walk members (fun p => findSuccessor (looseTable p) ⟨65000⟩) first n q) ∧
        ∃ n < members.card,
          Walk members (fun p => lookup (looseTable p) (predecessor p) ⟨65000⟩) first n q := by
  have distinct : DistinctIds members := by decide +kernel
  have owner : ∀ p ∈ members, (looseTable p).owner = p := by decide +kernel
  have sound : ∀ p ∈ members, (looseTable p).Sound members := by decide +kernel
  have previous : ∀ p ∈ members, Previous members p (predecessor p) := by decide +kernel
  have hstart : first ∈ members := by decide +kernel
  exact ⟨distinct, owner, sound, previous, hstart,
    walks_reach_nearest distinct owner sound previous hstart ⟨65000⟩⟩

end Trio

end ChordRing
