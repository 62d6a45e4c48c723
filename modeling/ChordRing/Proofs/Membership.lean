import ChordRing.Proofs.Enrolment

/-!
# Membership over whole runs

Whom a discovery node knows after any messages (`Discovery.processAll`). A ring id is held by the
identifier that announced its join while the id was free and has not announced its exit since
(`Discovery.Enrolled`); no other message has a part in it. The members are in ascending order of
their ring ids throughout, and from this follow the replies to candidates and to those who ask for
any member (`Discovery.membership_after_messages`).
-/

namespace ChordRing

/-! ## One change of a registry -/

namespace Registry

/-- The members stand in ascending order of their ring ids. -/
def Ascending (r : Registry) : Prop := r.members.Pairwise fun p q => p.id.value < q.id.value

/-- The registry once a message is processed. -/
def noted (r : Registry) : Body → Registry
  | .networkJoinNotification p => r.insert p
  | .networkExitNotification p => r.erase p
  | _ => r

variable {r : Registry} {a p : Identifier} {x : RingId}

theorem ascending_empty : empty.Ascending := List.Pairwise.nil

/-- A registry in order names exactly the identifiers on its list. -/
theorem Ascending.lists (h : r.Ascending) : r.Lists r.members.toFinset :=
  ⟨fun _ => List.mem_toFinset.symm, h⟩

theorem holder?_eq_none : r.holder? x = none ↔ ∀ p ∈ r.members, p.id ≠ x := by
  simp [holder?]

theorem mem_of_holder? (h : r.holder? x = some a) : a ∈ r.members ∧ a.id = x :=
  ⟨List.mem_of_find?_eq_some h, by simpa using List.find?_some h⟩

/-- In a registry in order, no two members share a ring id. -/
theorem Ascending.eq_of_id_eq {b : Identifier} (h : r.Ascending) (ha : a ∈ r.members)
    (hb : b ∈ r.members) (hid : a.id = b.id) : a = b := by
  have hnodup : (r.members.map fun p => p.id.value).Nodup :=
    List.pairwise_map.2 (List.Pairwise.imp UInt16.ne_of_lt h)
  exact List.inj_on_of_nodup_map hnodup ha hb (congrArg RingId.value hid)

/-- In a registry in order, whoever is named under a ring id holds it. -/
theorem Ascending.holder?_eq_some (h : r.Ascending) :
    r.holder? x = some a ↔ a ∈ r.members ∧ a.id = x := by
  refine ⟨mem_of_holder?, ?_⟩
  rintro ⟨ha, rfl⟩
  cases hholder : r.holder? a.id with
  | none => exact absurd rfl (holder?_eq_none.1 hholder a ha)
  | some b =>
      obtain ⟨hb, hid⟩ := mem_of_holder? hholder
      rw [h.eq_of_id_eq hb ha hid]

theorem insert_of_free (h : r.holder? p.id = none) : r.insert p = ⟨place p r.members⟩ := by
  rw [insert, holds, h]
  rfl

theorem insert_of_held (h : r.holder? p.id ≠ none) : r.insert p = r := by
  rw [insert, holds, if_pos (Option.isSome_iff_ne_none.2 h)]

theorem mem_insert : a ∈ (r.insert p).members ↔ a ∈ r.members ∨ a = p ∧ r.holder? p.id = none := by
  by_cases hfree : r.holder? p.id = none
  · rw [insert_of_free hfree, mem_place]
    simp only [hfree, and_true]
    exact or_comm
  · simp only [insert_of_held hfree, hfree, and_false, or_false]

theorem Ascending.insert (h : r.Ascending) (p : Identifier) : (r.insert p).Ascending := by
  by_cases hfree : r.holder? p.id = none
  · rw [insert_of_free hfree]
    exact pairwise_place h (holder?_eq_none.1 hfree)
  · rw [insert_of_held hfree]
    exact h

theorem Ascending.mem_erase (h : r.Ascending) : a ∈ (r.erase p).members ↔ a ≠ p ∧ a ∈ r.members :=
  h.lists.nodup.mem_erase_iff

theorem Ascending.noted (h : r.Ascending) (b : Body) : (r.noted b).Ascending := by
  cases b with
  | networkJoinNotification p => exact h.insert p
  | networkExitNotification p => exact (h.lists.erase p).sorted
  | _ => exact h

/-- A message leaves in the registry who was there and does not leave with it, and whoever joins
with it at a free ring id. -/
theorem Ascending.mem_noted (h : r.Ascending) {b : Body} :
    a ∈ (r.noted b).members ↔
      a ∈ r.members ∧ b ≠ .networkExitNotification a ∨
        b = .networkJoinNotification a ∧ r.holder? a.id = none := by
  cases b with
  | networkJoinNotification p =>
      rw [Registry.noted, mem_insert]
      simp only [ne_eq, reduceCtorEq, not_false_eq_true, and_true,
        Body.networkJoinNotification.injEq]
      refine or_congr_right ⟨?_, ?_⟩ <;> rintro ⟨rfl, hfree⟩ <;> exact ⟨rfl, hfree⟩
  | networkExitNotification p =>
      rw [Registry.noted, h.mem_erase]
      simp only [ne_eq, Body.networkExitNotification.injEq, reduceCtorEq, false_and, or_false]
      rw [and_comm, eq_comm (a := a)]
  | _ => simp [Registry.noted]

/-- A message that neither adds nor removes a member changes nothing. -/
theorem Ascending.noted_eq (h : r.Ascending) {b : Body}
    (hjoin : ∀ p, b = .networkJoinNotification p → r.holder? p.id ≠ none)
    (hexit : ∀ p, b = .networkExitNotification p → r.holder? p.id ≠ some p) : r.noted b = r := by
  cases b with
  | networkJoinNotification p => exact insert_of_held (hjoin p rfl)
  | networkExitNotification p =>
      have hp : p ∉ r.members := fun hmem => hexit p rfl (h.holder?_eq_some.2 ⟨hmem, rfl⟩)
      rw [Registry.noted, erase, List.erase_of_not_mem hp]
  | _ => rfl

/-- Every member is picked by some number. -/
theorem exists_pick?_eq (h : a ∈ r.members) : ∃ lot, r.pick? lot = some a := by
  obtain ⟨lot, hlot, hget⟩ := List.getElem_of_mem h
  refine ⟨lot, ?_⟩
  rw [pick?, size, Nat.mod_eq_of_lt hlot, List.getElem?_eq_getElem hlot, hget]

theorem pick?_of_nil (h : r.members = []) (lot : Nat) : r.pick? lot = none := by
  rw [pick?, h, List.getElem?_nil]

end Registry

/-! ## Messages one after another -/

namespace Discovery

variable {d : Discovery} {a : Identifier} {incoming : List (Nat × Message)}

/-- The node after some messages, each with the lot that was drawn for it. -/
def processAll (d : Discovery) (incoming : List (Nat × Message)) : Discovery :=
  incoming.foldl (fun d e => (d.process e.1 e.2).1) d

/-- Among the messages, `a` announced its join when its ring id was free, and not its exit since. -/
def Enrolled (d : Discovery) (incoming : List (Nat × Message)) (a : Identifier) : Prop :=
  ∃ before after lot h,
    incoming = before ++ (lot, ⟨h, .networkJoinNotification a⟩) :: after ∧
      (d.processAll before).registry.holder? a.id = none ∧
      ∀ e ∈ after, e.2.body ≠ .networkExitNotification a

/-- Whatever lot is drawn, a message changes the registry alone. -/
theorem process_fst (d : Discovery) (lot : Nat) (m : Message) :
    (d.process lot m).1 = { d with registry := d.registry.noted m.body } := by
  rcases m with ⟨h, b⟩
  cases b with
  | getRandomPeerRequest =>
      rw [process]
      cases d.registry.pick? lot <;> rfl
  | _ => rfl

theorem processAll_append_singleton (d : Discovery) (incoming : List (Nat × Message))
    (e : Nat × Message) :
    d.processAll (incoming ++ [e]) =
      { d.processAll incoming with
        registry := (d.processAll incoming).registry.noted e.2.body } := by
  rw [processAll, List.foldl_append, List.foldl_cons, List.foldl_nil, process_fst]
  rfl

theorem header_processAll (d : Discovery) (incoming : List (Nat × Message)) :
    (d.processAll incoming).header = d.header := by
  induction incoming using List.reverseRecOn with
  | nil => rfl
  | append_singleton incoming e ih => rw [processAll_append_singleton, ih]

/-- No message puts the members out of order. -/
theorem ascending_processAll (h : d.registry.Ascending) (incoming : List (Nat × Message)) :
    (d.processAll incoming).registry.Ascending := by
  induction incoming using List.reverseRecOn with
  | nil => exact h
  | append_singleton incoming e ih =>
      rw [processAll_append_singleton]
      exact ih.noted e.2.body

/-- One more message: it does not announce an exit, or it is the announcement itself. -/
theorem enrolled_append_singleton {e : Nat × Message} :
    d.Enrolled (incoming ++ [e]) a ↔
      d.Enrolled incoming a ∧ e.2.body ≠ .networkExitNotification a ∨
        e.2.body = .networkJoinNotification a ∧
          (d.processAll incoming).registry.holder? a.id = none := by
  constructor
  · rintro ⟨before, after, lot, h, heq, hfree, hstays⟩
    rcases after.eq_nil_or_concat with rfl | ⟨after, e', rfl⟩
    · obtain ⟨rfl, he⟩ := List.append_inj' heq rfl
      rw [List.singleton_inj.1 he]
      exact Or.inr ⟨rfl, hfree⟩
    · rw [List.concat_eq_append, ← List.cons_append, ← List.append_assoc] at heq
      obtain ⟨rfl, he⟩ := List.append_inj' heq rfl
      obtain rfl := List.singleton_inj.1 he
      refine Or.inl ⟨⟨before, after, lot, h, rfl, hfree, fun e' he' => hstays e' ?_⟩, hstays e ?_⟩
      · simp [he']
      · simp
  · rintro (⟨⟨before, after, lot, h, rfl, hfree, hstays⟩, hne⟩ | ⟨hbody, hfree⟩)
    · refine ⟨before, after ++ [e], lot, h, by simp, hfree, ?_⟩
      intro e' he'
      rcases List.mem_append.1 he' with he' | he'
      · exact hstays e' he'
      · rw [List.mem_singleton.1 he']
        exact hne
    · obtain ⟨lot, h, b⟩ := e
      obtain rfl : b = .networkJoinNotification a := hbody
      exact ⟨incoming, [], lot, h, rfl, hfree, fun _ h => absurd h List.not_mem_nil⟩

/-- From a node that knows nobody, the members are those who are enrolled. -/
theorem mem_processAll_iff (hnew : d.registry = .empty) :
    a ∈ (d.processAll incoming).registry.members ↔ d.Enrolled incoming a := by
  have hascending : d.registry.Ascending := hnew ▸ Registry.ascending_empty
  induction incoming using List.reverseRecOn with
  | nil =>
      constructor
      · intro h
        rw [processAll, List.foldl_nil, hnew] at h
        exact absurd h List.not_mem_nil
      · rintro ⟨before, after, lot, h, heq, -⟩
        simp at heq
  | append_singleton incoming e ih =>
      have horder := ascending_processAll hascending incoming
      rw [processAll_append_singleton, horder.mem_noted, enrolled_append_singleton]
      exact or_congr_left (and_congr_left fun _ => ih)

/-- What a candidate is told: it is refused if and only if its ring id is held; it is handed back to
itself if it is the first of all, and gets a member with another ring id if it is not. -/
theorem exists_register (d : Discovery) (lot : Nat) (c : Identifier) :
    ∃ accepted contact, d.register lot c = .registerPeerResponse accepted contact ∧
      (accepted = false ↔ d.registry.holder? c.id ≠ none) ∧ (accepted = false → contact = c) ∧
      (accepted = true → (contact = c ↔ d.registry.members = []) ∧
        (d.registry.members ≠ [] → contact ∈ d.registry.members ∧ contact.id ≠ c.id)) := by
  by_cases hempty : d.registry.members = []
  · have hfree : d.registry.holder? c.id = none := by
      rw [Registry.holder?_eq_none, hempty]
      exact fun p hp => absurd hp List.not_mem_nil
    exact ⟨true, c, register_first hempty lot, by simp [hfree], nofun,
      fun _ => ⟨by simp [hempty], fun hne => absurd hempty hne⟩⟩
  by_cases hfree : d.registry.holder? c.id = none
  · have hids := Registry.holder?_eq_none.1 hfree
    obtain ⟨contact, hcontact, hregister⟩ := exists_register_free hempty hids lot
    have hid := hids contact hcontact
    have hne : contact ≠ c := fun heq => hid (congrArg Identifier.id heq)
    exact ⟨true, contact, hregister, by simp [hfree], nofun,
      fun _ => ⟨by simp [hne, hempty], fun _ => ⟨hcontact, hid⟩⟩⟩
  · have hheld : ∃ p ∈ d.registry.members, p.id = c.id := by
      obtain ⟨p, hp⟩ := Option.ne_none_iff_exists'.1 hfree
      exact ⟨p, Registry.mem_of_holder? hp⟩
    exact ⟨false, c, register_taken hheld lot, by simp [hfree], fun _ => rfl, nofun⟩

/-- Who asks for any member gets one, or an error status if and only if there is none. -/
theorem exists_random (d : Discovery) (lot : Nat) (h : Header) :
    ∃ body, d.process lot ⟨h, .getRandomPeerRequest⟩ = (d, .ok (some ⟨d.header, body⟩)) ∧
      ((∃ p ∈ d.registry.members, body = .getRandomPeerResponse p) ∨
        body = .statusResponse .error) ∧
      (body = .statusResponse .error ↔ d.registry.members = []) := by
  by_cases hempty : d.registry.members = []
  · have hpick := Registry.pick?_of_nil hempty lot
    refine ⟨.statusResponse .error, ?_, Or.inr rfl, by simp [hempty]⟩
    simp only [process, hpick, reply]
  · obtain ⟨p, hp, hpick⟩ := Registry.exists_pick? hempty lot
    refine ⟨.getRandomPeerResponse p, ?_, Or.inl ⟨p, hp, rfl⟩, by simp [hempty]⟩
    simp only [process, hpick, reply]

/-- **Membership over whole runs.** After any messages, a ring id is held by exactly the identifier
that announced its join while the id was free and has not announced its exit since. Every message
but such an announcement of a join, or of the exit of a holder, leaves the node as it is, and the
members stand in ascending order of their ring ids. A candidate is refused if and only if its ring
id is held, and is handed back to itself; it is handed back to itself and accepted if and only if
there is no member, and otherwise it gets a member with another ring id. Who asks for any member
gets one, or an error status if and only if there is none; and any member may be the one. -/
theorem membership_after_messages (header : Header) (incoming : List (Nat × Message)) :
    let d := (Discovery.new header).processAll incoming
    (∀ x a, d.registry.holder? x = some a ↔
      a.id = x ∧ (Discovery.new header).Enrolled incoming a) ∧
    (∀ lot m, (∀ a, m.body = .networkJoinNotification a → d.registry.holder? a.id ≠ none) →
      (∀ a, m.body = .networkExitNotification a → d.registry.holder? a.id ≠ some a) →
      (d.process lot m).1 = d) ∧
    d.registry.Ascending ∧
    (∀ lot h c, ∃ accepted contact,
      d.process lot ⟨h, .registerPeerRequest c⟩ =
        (d, .ok (some ⟨header, .registerPeerResponse accepted contact⟩)) ∧
      (accepted = false ↔ d.registry.holder? c.id ≠ none) ∧ (accepted = false → contact = c) ∧
      (accepted = true → (contact = c ↔ d.registry.members = []) ∧
        (d.registry.members ≠ [] → contact ∈ d.registry.members ∧ contact.id ≠ c.id))) ∧
    (∀ lot h, ∃ body,
      d.process lot ⟨h, .getRandomPeerRequest⟩ = (d, .ok (some ⟨header, body⟩)) ∧
      ((∃ p ∈ d.registry.members, body = .getRandomPeerResponse p) ∨
        body = .statusResponse .error) ∧
      (body = .statusResponse .error ↔ d.registry.members = [])) ∧
    ∀ p ∈ d.registry.members, ∃ lot, d.registry.pick? lot = some p := by
  intro d
  have hascending : d.registry.Ascending := ascending_processAll Registry.ascending_empty incoming
  have hheader : d.header = header := header_processAll _ incoming
  refine ⟨?_, ?_, hascending, ?_, ?_, fun p hp => Registry.exists_pick?_eq hp⟩
  · intro x a
    rw [hascending.holder?_eq_some, mem_processAll_iff rfl]
    exact and_comm
  · intro lot m hjoin hexit
    rw [process_fst, hascending.noted_eq hjoin hexit]
  · intro lot h c
    obtain ⟨accepted, contact, hregister, hanswer⟩ := d.exists_register lot c
    refine ⟨accepted, contact, ?_, hanswer⟩
    rw [← hheader, ← hregister]
    rfl
  · intro lot h
    obtain ⟨body, hrandom, hanswer⟩ := d.exists_random lot h
    exact ⟨body, hheader ▸ hrandom, hanswer⟩

end Discovery

end ChordRing
