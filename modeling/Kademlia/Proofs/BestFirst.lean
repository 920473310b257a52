import Kademlia.Proofs.Contacts

/-!
# Kademlia.Proofs.BestFirst

To get a value is a best-first search.  What a search knows depends on nothing
but the peers that the node knew when it began and on the replies that it
accepted (`Lookup.Known`); each contact is the closest known peer that was not
contacted yet, as long as none brought a value or an error that is more than
one bad peer (`Lookup.BestFirst`); and the result of the call can be read off
the contacts (`Lookup.Concluded`).  `Lookup.Explored` ties the session of a
search to them.
-/

namespace Kademlia

/-! ## What comes of a contact -/

namespace Contact

variable {key : Id} {c : Contact} {reply : GetReply} {e : RpcError}

/-- What the node makes of the reply. -/
def outcome (key : Id) (c : Contact) : Except RpcError GetReply :=
  c.reply.bind (Node.checkReply c.peer key)

/-- The peer that was asked replied under its own id, and lists only peers of
the key's overlay. -/
structure Accepts (key : Id) (c : Contact) (reply : GetReply) : Prop where
  reply_eq : c.reply = .ok reply
  responder_eq : reply.responder = c.peer.id
  length_eq : ∀ p ∈ reply.nodes, p.id.length = key.length

/-- The peers that an accepted reply names. -/
def named (key : Id) (c : Contact) : List Peer :=
  match c.outcome key with
  | .ok reply => reply.nodes
  | .error _ => []

/-- The error of a peer that failed: it did not reply, or not acceptably. -/
def failure? (key : Id) (c : Contact) : Option PeerError :=
  match c.outcome key with
  | .ok _ => none
  | .error e => some ⟨c.peer, e⟩

/-- A contact that a search goes on after: it brought neither a value nor an
error that is more than one bad peer. -/
structure Passed (key : Id) (c : Contact) : Prop where
  valueless : ∀ reply, c.Accepts key reply → reply.value = none
  expected : ∀ e, c.reply = .error e → e.isExpected = true

theorem accepts_iff : c.Accepts key reply ↔ c.outcome key = .ok reply := by
  constructor
  · rintro ⟨hreply, hresponder, hl⟩
    rw [outcome, hreply]
    exact Node.checkReply_eq hresponder hl
  · intro h
    obtain ⟨given, hgiven, hcheck⟩ := Except.exists_of_bind_eq_ok h
    obtain ⟨rfl, hresponder, hl⟩ := Node.of_checkReply hcheck
    exact ⟨hgiven, hresponder, hl⟩

theorem Accepts.unique {other : GetReply} (h : c.Accepts key reply) (h' : c.Accepts key other) :
    reply = other := Except.ok.inj (h.reply_eq.symm.trans h'.reply_eq)

/-- A reply that is not accepted is the fault of its peer. -/
theorem reply_eq_of_outcome (h : c.outcome key = .error e) (he : e.isExpected = false) :
    c.reply = .error e := by
  rw [outcome] at h
  cases hreply : c.reply with
  | error e' =>
      rw [hreply] at h
      exact congrArg _ (Except.error.inj h)
  | ok reply =>
      rw [hreply] at h
      have hcheck : Node.checkReply c.peer key reply = .error e := h
      have hexpected := Node.isExpected_of_checkReply hcheck
      rw [he] at hexpected
      contradiction

theorem named_of_ok (h : c.outcome key = .ok reply) : c.named key = reply.nodes := by
  rw [named, h]

theorem named_of_error (h : c.outcome key = .error e) : c.named key = [] := by
  rw [named, h]

theorem failure?_of_ok (h : c.outcome key = .ok reply) : c.failure? key = none := by
  rw [failure?, h]

theorem failure?_of_error (h : c.outcome key = .error e) :
    c.failure? key = some ⟨c.peer, e⟩ := by
  rw [failure?, h]

theorem Passed.of_ok (h : c.outcome key = .ok reply) (hv : reply.value = none) : c.Passed key where
  valueless other hother := by rwa [hother.unique (accepts_iff.mpr h)]
  expected e he := by
    rw [outcome, he] at h
    contradiction

theorem Passed.of_error (h : c.outcome key = .error e) (he : e.isExpected = true) :
    c.Passed key where
  valueless reply hreply := by
    rw [accepts_iff.mp hreply] at h
    contradiction
  expected e' he' := by
    rw [outcome, he'] at h
    obtain rfl : e' = e := Except.error.inj h
    exact he

end Contact

namespace Lookup

variable {own key : Id} {found : List Peer} {cs : List Contact} {c : Contact} {p : Peer}

/-! ## Best-first searches -/

/-- A search that began at a node with this id knows, after these contacts, the
peers that the node found itself and those that accepted replies named.  Of
several peers with one id it knows the first, and it does not count the node. -/
def Known (own key : Id) (found : List Peer) (cs : List Contact) (p : Peer) : Prop :=
  p.id ≠ own ∧ (found ++ cs.flatMap (Contact.named key)).find? (·.id == p.id) = some p

/-- The contact that is made after these: with the closest of the known peers
that were not contacted. -/
structure Next (own key : Id) (found : List Peer) (cs : List Contact) (c : Contact) : Prop where
  known : Known own key found cs c.peer
  fresh : c.peer.id ∉ cs.map (·.peer.id)
  closest : ∀ p, Known own key found cs p → p.id ∉ cs.map (·.peer.id) →
    p = c.peer ∨ key.gap c.peer.id < key.gap p.id

/-- The contacts of a best-first search. -/
inductive BestFirst (own key : Id) (found : List Peer) : List Contact → Prop where
  | start : BestFirst own key found []
  | next {cs : List Contact} (h : BestFirst own key found cs) (hpassed : ∀ c ∈ cs, c.Passed key)
      (c : Contact) (hc : Next own key found cs c) : BestFirst own key found (cs ++ [c])

theorem BestFirst.nodup (h : BestFirst own key found cs) : (cs.map (·.peer.id)).Nodup := by
  induction h with
  | start => exact List.nodup_nil
  | next h hpassed c hc ih =>
      rw [List.map_append, List.nodup_append]
      refine ⟨ih, List.nodup_singleton _, fun a ha b hb hab => ?_⟩
      obtain rfl := List.mem_singleton.mp hb
      rw [hab] at ha
      exact hc.fresh ha

/-- What the contacts of a search say about its result. -/
structure Concluded (own key : Id) (found : List Peer) (cs : List Contact)
    (result : Except Error Bytes) : Prop where
  /-- The last peer had a value. -/
  ok_iff : ∀ value, result = .ok value ↔
    ∃ c reply, cs.getLast? = some c ∧ c.Accepts key reply ∧ reply.value = some value
  /-- The last contact failed with an error that is more than one bad peer. -/
  rpc_iff : ∀ e, result = .error (.rpc e) ↔
    ∃ c, cs.getLast? = some c ∧ c.reply = .error e ∧ e.isExpected = false
  /-- Every known peer was contacted in vain; those that failed are reported. -/
  notFound_iff : ∀ errors, result = .error (.notFound errors) ↔
    (∀ p, Known own key found cs p → p.id ∈ cs.map (·.peer.id)) ∧ (∀ c ∈ cs, c.Passed key) ∧
      errors = cs.filterMap (Contact.failure? key)
  /-- There is no other result. -/
  total : (∃ value, result = .ok value) ∨ (∃ e, result = .error (.rpc e)) ∨
    ∃ errors, result = .error (.notFound errors)

namespace Concluded

theorem of_value {reply : GetReply} {value : Bytes} (hc : c.Accepts key reply)
    (hv : reply.value = some value) : Concluded own key found (cs ++ [c]) (.ok value) where
  ok_iff other := by
    rw [List.getLast?_concat]
    constructor
    · rintro ⟨⟩
      exact ⟨c, reply, rfl, hc, hv⟩
    · rintro ⟨_, reply', ⟨⟩, hc', hv'⟩
      rw [hc.unique hc', hv', Option.some.injEq] at hv
      rw [hv]
  rpc_iff e := by
    rw [List.getLast?_concat]
    refine ⟨by simp, ?_⟩
    rintro ⟨_, ⟨⟩, he, _⟩
    rw [hc.reply_eq] at he
    contradiction
  notFound_iff errors := by
    refine ⟨by simp, ?_⟩
    rintro ⟨_, hpassed, _⟩
    have hnone := (hpassed c (by simp)).valueless reply hc
    rw [hv] at hnone
    contradiction
  total := .inl ⟨value, rfl⟩

theorem of_error {e : RpcError} (hc : c.reply = .error e) (he : e.isExpected = false) :
    Concluded own key found (cs ++ [c]) (.error (.rpc e)) where
  ok_iff value := by
    rw [List.getLast?_concat]
    refine ⟨by simp, ?_⟩
    rintro ⟨_, reply, ⟨⟩, hc', _⟩
    rw [hc'.reply_eq] at hc
    contradiction
  rpc_iff other := by
    rw [List.getLast?_concat]
    constructor
    · rintro ⟨⟩
      exact ⟨c, rfl, hc, he⟩
    · rintro ⟨_, ⟨⟩, hc', _⟩
      rw [Except.error.inj (hc.symm.trans hc')]
  notFound_iff errors := by
    refine ⟨by simp, ?_⟩
    rintro ⟨_, hpassed, _⟩
    have hexpected := (hpassed c (by simp)).expected e hc
    rw [he] at hexpected
    contradiction
  total := .inr (.inl ⟨e, rfl⟩)

theorem of_nobody (hall : ∀ p, Known own key found cs p → p.id ∈ cs.map (·.peer.id))
    (hpassed : ∀ c ∈ cs, c.Passed key) :
    Concluded own key found cs (.error (.notFound (cs.filterMap (Contact.failure? key)))) where
  ok_iff value := by
    refine ⟨by simp, ?_⟩
    rintro ⟨c, reply, hlast, hc, hv⟩
    have hnone := (hpassed c (List.mem_of_getLast? hlast)).valueless reply hc
    rw [hv] at hnone
    contradiction
  rpc_iff e := by
    refine ⟨by simp, ?_⟩
    rintro ⟨c, hlast, hc, he⟩
    have hexpected := (hpassed c (List.mem_of_getLast? hlast)).expected e hc
    rw [he] at hexpected
    contradiction
  notFound_iff errors := by
    constructor
    · rintro ⟨⟩
      exact ⟨hall, hpassed, rfl⟩
    · rintro ⟨_, _, rfl⟩
      rfl
  total := .inr (.inr ⟨_, rfl⟩)

end Concluded

/-! ## What a search knows -/

/-- Only the first peer of an id is known. -/
theorem known_nil_iff : Known own key found [] p ↔
    p.id ≠ own ∧ found.find? (·.id == p.id) = some p := by
  rw [Known, List.flatMap_nil, List.append_nil]

/-- A contact makes those known that it names first. -/
theorem known_append_iff : Known own key found (cs ++ [c]) p ↔ Known own key found cs p ∨
    p.id ≠ own ∧ (∀ q, Known own key found cs q → q.id ≠ p.id) ∧
      (c.named key).find? (·.id == p.id) = some p := by
  -- Nobody of this id was listed before exactly if nobody of it is known.
  have hnone : p.id ≠ own →
      ((found ++ cs.flatMap (Contact.named key)).find? (·.id == p.id) = none ↔
        ∀ q, Known own key found cs q → q.id ≠ p.id) := by
    intro hp
    constructor
    · rintro hnone q ⟨_, hq⟩ hid
      rw [hid, hnone] at hq
      contradiction
    · intro hall
      cases hq : (found ++ cs.flatMap (Contact.named key)).find? (·.id == p.id) with
      | none => rfl
      | some q =>
          have hid : q.id = p.id := by simpa using List.find?_some hq
          exact absurd hid (hall q ⟨hid ▸ hp, hid ▸ hq⟩)
  rw [Known, List.flatMap_append, List.flatMap_singleton, ← List.append_assoc, List.find?_append,
    Option.or_eq_some_iff]
  constructor
  · rintro ⟨hp, hold | ⟨hnew, hnamed⟩⟩
    · exact .inl ⟨hp, hold⟩
    · exact .inr ⟨hp, (hnone hp).mp hnew, hnamed⟩
  · rintro (⟨hp, hold⟩ | ⟨hp, hnew, hnamed⟩)
    · exact ⟨hp, .inl hold⟩
    · exact ⟨hp, .inr ⟨(hnone hp).mpr hnew, hnamed⟩⟩

/-! ## The session of a best-first search -/

variable {S σ : Type} {node : Node RoutingTable S σ} {l l' : Lookup} {s s' : σ}
  {session : Session} {candidate : Candidate}

/-- What the node makes of the reply decides how it goes on. -/
theorem Tracked.outcome_eq [Storage S] (h : l.Tracked node own key cs s)
    (hnext : l.session.next? = some (candidate, session)) {outcome : Except RpcError GetReply}
    (hask : node.ask candidate.peer ⟨l.key, l.k⟩ s = (outcome, s')) :
    (l.contact node candidate s).outcome key = outcome := by
  rw [Node.ask_of_ne (h.next hnext).1] at hask
  rw [← h.key_eq]
  exact (Prod.mk.inj hask).1

/-- A search under way after these contacts: the peers in its session are the
node and those that are known, and of them the node and the contacts were picked. -/
structure Explored (node : Node RoutingTable S σ) (own key : Id) (found : List Peer)
    (cs : List Contact) (l : Lookup) (s : σ) : Prop where
  tracked : l.Tracked node own key cs s
  unbounded : l.session.capacity = none
  known_iff : ∀ p, p.id ≠ own → (p ∈ l.session.peers ↔ Known own key found cs p)
  searched : ∀ c ∈ l.session.candidates, c.searched = true →
    c.peer.id ∈ own :: cs.map (·.peer.id)
  errors_eq : l.errors = cs.filterMap (Contact.failure? key)
  bestFirst : BestFirst own key found cs
  passed : ∀ c ∈ cs, c.Passed key

namespace Explored

theorem exists_candidate (h : Explored node own key found cs l s)
    (hp : Known own key found cs p) : ∃ d ∈ l.session.candidates, d.peer = p :=
  List.mem_map.mp ((h.known_iff p hp.1).mpr hp)

theorem not_mem_ids_iff (h : Explored node own key found cs l s) (hp : p.id ≠ own) :
    p.id ∉ l.session.ids ↔ ∀ q, Known own key found cs q → q.id ≠ p.id := by
  constructor
  · intro hnot q hq hid
    obtain ⟨d, hd, rfl⟩ := h.exists_candidate hq
    exact hnot (hid ▸ Session.mem_ids_of_mem hd)
  · intro hall hmem
    obtain ⟨d, hd, hid⟩ := Session.mem_ids.mp hmem
    have hpeer : d.peer ∈ l.session.peers := List.mem_map_of_mem (f := Candidate.peer) hd
    exact hall d.peer ((h.known_iff d.peer (hid ▸ hp)).mp hpeer) hid

/-- **The candidate that is picked is the contact that comes next.** -/
theorem next (h : Explored node own key found cs l s)
    (hnext : l.session.next? = some (candidate, session)) :
    Next own key found cs (l.contact node candidate s) := by
  obtain ⟨hnew, _, _⟩ := h.tracked.settled.next hnext
  obtain ⟨e, he, _, rfl, rfl, hclosest⟩ := Session.of_next? hnext
  rw [List.mem_cons, not_or] at hnew
  have hpeer : e.peer ∈ l.session.peers := List.mem_map_of_mem (f := Candidate.peer) he
  refine ⟨(h.known_iff e.peer hnew.1).mp hpeer, hnew.2, fun p hp hfresh => ?_⟩
  obtain ⟨d, hd, rfl⟩ := h.exists_candidate hp
  have hwf : l.session.WellFormed key := h.tracked.settled.wellFormed
  have hunsearched : d.searched = false := by
    rw [← Bool.not_eq_true]
    intro hsearched
    rcases List.mem_cons.mp (h.searched d hd hsearched) with hown | hcontacted
    · exact hp.1 hown
    · exact hfresh hcontacted
  have hle := hclosest d hd hunsearched
  rw [hwf.gap_eq hd] at hle
  -- Two ids at one distance from the key are one id.
  by_cases hid : e.peer.id = d.peer.id
  · exact .inl (congrArg Candidate.peer (Session.eq_of_id_eq hwf.nodup he hd hid)).symm
  · have hlt := hwf.gap_lt_of_ne he (hwf.measured d hd).1 hle hid
    rw [hwf.gap_eq he] at hlt
    exact .inr hlt

theorem searched_next (h : Explored node own key found cs l s)
    (hnext : l.session.next? = some (candidate, session)) :
    ∀ d ∈ session.candidates, d.searched = true →
      d.peer.id ∈ own :: (cs ++ [l.contact node candidate s]).map (·.peer.id) := by
  obtain ⟨e, he, _, rfl, rfl, _⟩ := Session.of_next? hnext
  intro d hd hsearched
  rw [List.map_append, ← List.cons_append, List.mem_append]
  rcases Session.mem_markSearched hd with ⟨hd, _⟩ | ⟨e', _, hid, rfl⟩
  · exact .inl (h.searched d hd hsearched)
  · exact .inr (List.mem_singleton.mpr hid)

/-- Without anybody left to pick, all that are known were contacted. -/
theorem exhausted (h : Explored node own key found cs l s) (hnext : l.session.next? = none) :
    Concluded own key found cs (.error (.notFound l.errors)) := by
  rw [h.errors_eq]
  refine .of_nobody (fun p hp => ?_) h.passed
  obtain ⟨d, hd, rfl⟩ := h.exists_candidate hp
  have hsearched := h.searched d hd (Session.next?_eq_none_iff.mp hnext d hd)
  exact (List.mem_cons.mp hsearched).resolve_left hp.1

variable [Storage S]

/-- A step that does not end the search adds one contact. -/
theorem step (hn : node.Lawful) (h : Explored node own key found cs l s)
    (hnext : l.session.next? = some (candidate, session))
    (hstep : l.step node s = (none, l', s')) :
    Explored node own key found (cs ++ [l.contact node candidate s]) l' s' := by
  have htracked := h.tracked.step hn hnext hstep
  have hbest := h.bestFirst.next h.passed _ (h.next hnext)
  have hsearched := h.searched_next hnext
  have hst := stepped hn h.tracked.sound
  rw [hstep] at hst
  have hunbounded := hst.frame.2.2.trans h.unbounded
  have hpassed : ∀ {c : Contact}, c.Passed key → ∀ d ∈ cs ++ [c], d.Passed key :=
    fun hc => List.forall_mem_append.mpr ⟨h.passed, by simpa using hc⟩
  obtain ⟨hpeers, hids, hcapacity⟩ := Session.frame_next? hnext
  cases hst with
  | skipped d session' e s' hnext' hask he =>
      obtain ⟨rfl, rfl⟩ := Session.next?_inj hnext hnext'
      have houtcome := h.tracked.outcome_eq hnext hask
      refine ⟨htracked, hunbounded, fun p hp => ?_, hsearched, ?_, hbest,
        hpassed (.of_error houtcome he)⟩
      · rw [hpeers, h.known_iff p hp, known_append_iff, Contact.named_of_error houtcome]
        simp
      · rw [List.filterMap_append, ← h.errors_eq,
          List.filterMap_cons_some (Contact.failure?_of_error houtcome)]
        rfl
  | widened d session' reply s' hnext' hask hv htaken =>
      obtain ⟨rfl, rfl⟩ := Session.next?_inj hnext hnext'
      have houtcome := h.tracked.outcome_eq hnext hask
      refine ⟨htracked, hunbounded, fun p hp => ?_, fun d hd hs => ?_, ?_, hbest,
        hpassed (.of_ok houtcome hv)⟩
      · rw [Session.mem_peers_merge (hcapacity.trans h.unbounded), hpeers, hids,
          h.known_iff p hp, h.not_mem_ids_iff hp, known_append_iff, Contact.named_of_ok houtcome]
        simp [hp]
      · rcases Session.mem_candidates_merge hd with hd | hd
        · obtain ⟨p, _, rfl⟩ := List.mem_map.mp hd
          contradiction
        · exact hsearched d hd hs
      · rw [List.filterMap_append, ← h.errors_eq,
          List.filterMap_cons_none (Contact.failure?_of_ok houtcome)]
        simp

/-- The step that ends the search says how. -/
theorem last (hn : node.Lawful) (h : Explored node own key found cs l s)
    (hnext : l.session.next? = some (candidate, session)) {ending : Ending}
    (hstep : l.step node s = (some ending, l', s')) :
    Concluded own key found (cs ++ [l.contact node candidate s])
      (Node.searchResult l'.errors ending) := by
  have hst := stepped hn h.tracked.sound
  rw [hstep] at hst
  cases hst with
  | exhausted hnone => simp [hnext] at hnone
  | aborted d session' e s' hnext' hask he =>
      obtain ⟨rfl, rfl⟩ := Session.next?_inj hnext hnext'
      exact .of_error (Contact.reply_eq_of_outcome (h.tracked.outcome_eq hnext hask) he) he
  | found d session' reply value s' hnext' hask hv =>
      obtain ⟨rfl, rfl⟩ := Session.next?_inj hnext hnext'
      exact .of_value (Contact.accepts_iff.mpr (h.tracked.outcome_eq hnext hask)) hv
  | settled d session' reply s' hnext' _ _ hbounded =>
      obtain ⟨rfl, rfl⟩ := Session.next?_inj hnext hnext'
      rw [Session.isBounded, (Session.frame_next? hnext).2.2, h.unbounded] at hbounded
      contradiction

/-- **A search is best-first**, and ends as its contacts say. -/
theorem run (hn : node.Lawful) (h : Explored node own key found [] l s) :
    BestFirst own key found (l.contacts node l.stepBound s) ∧
      Concluded own key found (l.contacts node l.stepBound s)
        (Node.searchResult (l.run node s).2.1.errors (l.run node s).1) := by
  refine h.tracked.history hn (fun cs l s => Explored node own key found cs l s)
    (fun cs ending l _ => BestFirst own key found cs ∧
      Concluded own key found cs (Node.searchResult l.errors ending)) ?_ ?_ ?_ h
  · intro cs l s c session l' s' _ h hnext hstep
    exact h.step hn hnext hstep
  · intro cs l s c session e l' s' _ h hnext hstep
    exact ⟨h.bestFirst.next h.passed _ (h.next hnext), h.last hn hnext hstep⟩
  · intro cs l s _ h hnext
    exact ⟨h.bestFirst, h.exhausted hnext⟩

end Explored

end Lookup

/-! ## Getting a value -/

namespace Node

section

variable {S σ : Type} {node : Node RoutingTable S σ} {key : Id} {k : UInt64} {s : σ}
  {nodes : List Peer}

/-- A search for a value begins with the node itself. -/
theorem peers_opened (node : Node RoutingTable S σ) (key : Id) (s : σ) :
    (node.opened .unbounded key s).peers = [node.self s] := by
  rw [opened, Session.peers_markSearched, Session.merge_cons, Session.merge_nil]
  rfl

variable [Storage S]

/-- What the node finds itself is what a search knows at first. -/
theorem explored_of_begin (hn : node.Lawful)
    (h : node.begin .unbounded key k s =
      (.ok (.lookup (node.openingLookup .unbounded key k nodes s)), s)) :
    Lookup.Explored node (node.id s) key nodes [] (node.openingLookup .unbounded key k nodes s)
      s := by
  have hcapacity := (capacity_opened node .unbounded key s).trans rfl
  have hids : (node.opened .unbounded key s).ids = [node.id s] := by
    have hpeers := congrArg (List.map Peer.id) (peers_opened node key s)
    rwa [Session.peers, List.map_map] at hpeers
  refine ⟨(tracked_of_begin hn h).2.2, (Session.capacity_merge _ _).trans hcapacity,
    fun p hp => ?_, fun c hc hsearched => ?_, rfl, .start, by simp⟩
  · have hself : p ≠ node.self s := fun heq => hp (congrArg Peer.id heq)
    rw [openingLookup, Session.mem_peers_merge hcapacity, peers_opened, hids, Lookup.known_nil_iff]
    simp [hp, hself]
  · rcases mem_openingLookup hc with ⟨p, _, rfl⟩ | hself
    · contradiction
    · exact List.mem_cons.mpr (.inl (congrArg Peer.id hself))

end

/-- **To get a value is a best-first search.**  Whatever the peers of a node
without the value do, it asks the closest known peer that was not asked yet,
again and again, until one has a value, or an error is more than one bad peer,
or all that are known were asked; and its result is the one that this has. -/
theorem getValue_bestFirst {τ : Type} (config : Config) (address : Address) (world : Transport τ)
    (key : Id) (s : Setting MemoryStorage τ) (hwf : s.server.peers.WellFormed)
    (hk : key.length = s.server.id.length) (hnone : s.server.values.get? key.bytes = none) :
    ∃ found contacts, s.server.peers.closest key config.peersReturnedGet.toNat = .ok found ∧
      ((among config address world).getValue key s).2.log =
        s.log ++ contacts.map (Contact.exchange ⟨key, config.peersReturnedGet⟩) ∧
      Lookup.BestFirst s.server.id key (found.map (·.1)) contacts ∧
      (contacts.map (·.peer.id)).Nodup ∧
      Lookup.Concluded s.server.id key (found.map (·.1)) contacts
        ((among config address world).getValue key s).1 := by
  have hn := lawful_among (S := MemoryStorage) config address world
  obtain ⟨found, hfound, _, hmem, _⟩ :=
    RoutingTable.exists_closest hwf hk config.peersReturnedGet.toNat
  have hnodes : ∀ p ∈ found.map (·.1), p.id.length = key.length := by
    intro p hp
    obtain ⟨e, he, rfl⟩ := List.mem_map.mp hp
    exact (hwf.of_mem (hmem e he).1).1.trans hk.symm
  have hbegin := begin_of_lookUp hn .unbounded (s := s) hk.symm
    (Server.lookUp_of_closest hfound hnone) hnodes
  obtain ⟨hbest, hconcluded⟩ := (explored_of_begin hn hbegin).run hn
  have hlog := log_getValue config address world key s
  rw [contacts_of_lookup hbegin] at hlog
  refine ⟨found, _, hfound, hlog, hbest, hbest.nodup, ?_⟩
  have hget := getting hn key s
  generalize (among config address world).getValue key s = result at hget ⊢
  cases hget with
  | refused e hbegin' =>
      have hsame := hbegin.symm.trans hbegin'
      simp at hsame
  | here value hbegin' =>
      have hsame := hbegin.symm.trans hbegin'
      simp at hsame
  | searched l₀ l ending s' hbegin' hrun =>
      have hsame := hbegin.symm.trans hbegin'
      simp only [Prod.mk.injEq, Except.ok.injEq, Opening.lookup.injEq] at hsame
      rw [hsame.1, hrun] at hconcluded
      rw [hsame.1]
      exact hconcluded

/-! One peer is known, and it names the one that has the value. -/

namespace Relay

def peer (byte : UInt8) (port : UInt16) : Peer :=
  ⟨⟨[byte], Id.singleton_ne_nil byte⟩, .ofIPv4 10 0 0 1 port⟩

def world : Transport Unit where
  getValue target _ _ :=
    if target = (peer 4 2).address then (.ok ⟨(peer 4 2).id, none, [peer 1 3]⟩, ())
    else if target = (peer 1 3).address then (.ok ⟨(peer 1 3).id, some [0xaa], []⟩, ())
    else (.error .unreachable, ())
  storeValue _ _ _ := (.error .unreachable, ())

def setting : Setting MemoryStorage Unit where
  server := ⟨(RoutingTable.empty (peer 2 1).id 20).meet (peer 4 2), {}⟩
  world := ()

end Relay

theorem getValue_relayed : ∃ found contacts,
    Relay.setting.server.peers.closest (Relay.peer 0 0).id 10 = .ok found ∧
      Lookup.BestFirst (Relay.peer 2 1).id (Relay.peer 0 0).id (found.map (·.1)) contacts ∧
      ∃ c reply, contacts.getLast? = some c ∧ c.Accepts (Relay.peer 0 0).id reply ∧
        reply.value = some [0xaa] := by
  have hwf : Relay.setting.server.peers.WellFormed :=
    (RoutingTable.wellFormed_empty (Relay.peer 2 1).id 20).meet (Relay.peer 4 2)
  obtain ⟨found, contacts, hfound, _, hbest, _, hconcluded⟩ :=
    getValue_bestFirst {} (Relay.peer 2 1).address Relay.world (Relay.peer 0 0).id Relay.setting hwf
      (by decide) (by decide)
  have hvalue : ((among {} (Relay.peer 2 1).address Relay.world).getValue (Relay.peer 0 0).id
      Relay.setting).1 = .ok [0xaa] := by
    decide +kernel
  exact ⟨found, contacts, hfound, hbest, (hconcluded.ok_iff _).mp hvalue⟩

end Node

end Kademlia
