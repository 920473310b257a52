import Kademlia.Proofs.Acquaintance
import Kademlia.Proofs.Retention

/-!
# Kademlia.Proofs.Hearsay

Whose failure makes a node forget a peer.  Peers are told apart by their ids, so
a search takes up only the first of those that are listed under an id
(`Session.Lists`) and asks nobody but that one, and a failure counts against
whoever is known under the id.  A peer with which the search began is therefore
forgotten only if it failed itself; any other one can be forgotten on hearsay,
when a reply lists its id with another address first
(`Node.forgets_first_listed`, `Node.forgets_on_hearsay`).
-/

namespace Kademlia

/-! ## The first peer of an id -/

namespace Peer

variable {peers more : List Peer} {p q : Peer}

/-- The first of these peers that has its id. -/
def IsFirst (peers : List Peer) (p : Peer) : Prop := peers.find? (·.id == p.id) = some p

theorem IsFirst.mem (h : p.IsFirst peers) : p ∈ peers := List.mem_of_find?_eq_some h

theorem IsFirst.unique (h : p.IsFirst peers) (hq : q.IsFirst peers) (hid : p.id = q.id) :
    p = q := by
  rw [IsFirst, ← hid, h] at hq
  exact Option.some.inj hq

/-- It stays the first, whoever is listed later. -/
theorem IsFirst.append (h : p.IsFirst peers) (more : List Peer) : p.IsFirst (peers ++ more) := by
  rw [IsFirst, List.find?_append, h, Option.some_or]

/-- Without anybody else of the id, whoever is listed next is the first. -/
theorem isFirst_concat (h : ∀ q ∈ peers, q.id ≠ p.id) : p.IsFirst (peers ++ [p]) := by
  have hnone : peers.find? (·.id == p.id) = none := by simpa using h
  simp [IsFirst, List.find?_append, hnone]

theorem IsFirst.of_cons (h : p.IsFirst (q :: peers)) (hne : q.id ≠ p.id) : p.IsFirst peers := by
  rwa [IsFirst, List.find?_cons_of_neg (by simpa using hne)] at h

/-- It is the only one of its id among those that are listed before the others,
if their ids are distinct. -/
theorem IsFirst.eq_of_mem (h : p.IsFirst (peers ++ more)) (hq : q ∈ peers) (hid : p.id = q.id)
    (hdistinct : ∀ a ∈ peers, ∀ b ∈ peers, a.id = b.id → a = b) : p = q := by
  have hsome : (peers.find? (·.id == p.id)).isSome := by
    simpa using ⟨q, hq, hid.symm⟩
  obtain ⟨a, ha⟩ := Option.isSome_iff_exists.mp hsome
  rw [IsFirst, List.find?_append, ha, Option.some_or] at h
  obtain rfl := Option.some.inj h
  exact hdistinct a (List.mem_of_find?_eq_some ha) q hq hid

end Peer

/-! ## Sessions that hold the first ones -/

namespace Session

variable {s s' : Session} {key : Id} {peers more : List Peer} {p : Peer} {c : Candidate}

/-- A session to which these peers were offered, in this order: it takes none of
their ids again, and holds nobody but the first of its id. -/
structure Lists (s : Session) (key : Id) (peers : List Peer) : Prop where
  wellFormed : s.WellFormed key
  barred : ∀ p ∈ peers, s.Barred key p.id
  first : ∀ p ∈ s.peers, p.IsFirst peers

namespace Lists

theorem empty (capacity : Option Nat) (key : Id) : Lists ⟨capacity, []⟩ key [] where
  wellFormed := WellFormed.empty capacity key
  barred := by simp
  first := by simp [Session.peers]

theorem offer (h : s.Lists key peers) (hl : p.id.length = key.length) :
    (s.offer (Candidate.fresh key p)).2.Lists key (peers ++ [p]) where
  wellFormed := h.wellFormed.offer hl rfl
  barred := by
    simp only [List.mem_append, List.mem_singleton]
    rintro q (hq | rfl)
    · exact (h.barred q hq).offer h.wellFormed _
    · exact Barred.of_offer h.wellFormed hl rfl
  first := by
    by_cases hknown : ∃ q ∈ peers, q.id = p.id
    · -- Its id was offered before, so it is not taken.
      obtain ⟨q, hq, hid⟩ := hknown
      have hbarred : s.Barred key (Candidate.fresh key p).peer.id := hid ▸ h.barred q hq
      rw [hbarred.offer_eq rfl]
      exact fun r hr => (h.first r hr).append [p]
    · intro r hr
      obtain ⟨d, hd, rfl⟩ := List.mem_map.mp hr
      obtain rfl | hd := mem_candidates_offer hd
      · exact Peer.isFirst_concat (by simpa using hknown)
      · exact (h.first d.peer (List.mem_map_of_mem hd)).append [p]

theorem merge (h : s.Lists key peers) (hl : ∀ p ∈ more, p.id.length = key.length) :
    (s.merge (more.map (Candidate.fresh key))).2.Lists key (peers ++ more) := by
  induction more generalizing s peers with
  | nil => simpa [merge_nil] using h
  | cons p more ih =>
      have hrest := ih (h.offer (hl p List.mem_cons_self))
        fun q hq => hl q (List.mem_cons_of_mem p hq)
      rwa [List.append_assoc, List.singleton_append, ← merge_cons] at hrest

theorem markSearched (h : s.Lists key peers) (id : Id) : (s.markSearched id).Lists key peers where
  wellFormed := h.wellFormed.markSearched id
  barred p hp := (h.barred p hp).markSearched id
  first := by simpa using h.first

theorem next? (h : s.Lists key peers) (hnext : s.next? = some (c, s')) : s'.Lists key peers := by
  obtain ⟨e, _, _, _, rfl, _⟩ := of_next? hnext
  exact h.markSearched e.peer.id

/-- Whoever is picked is the first of its id. -/
theorem isFirst_next (h : s.Lists key peers) (hnext : s.next? = some (c, s')) :
    c.peer.IsFirst peers := by
  obtain ⟨e, he, _, rfl, _⟩ := of_next? hnext
  exact h.first e.peer (List.mem_map_of_mem (f := Candidate.peer) he)

end Lists

end Session

/-! ## Searches that ask the first ones -/

namespace Lookup

variable {S σ : Type} {node : Node RoutingTable S σ} {l l' : Lookup} {s s' : σ}
  {session : Session} {candidate : Candidate} {home : Peer} {key : Id} {found : List Peer}
  {cs : List Contact}

/-- What a search holds after these contacts, and whom it has asked, are the
first that it has heard of under their ids. -/
structure Orderly (home : Peer) (key : Id) (found : List Peer) (cs : List Contact)
    (l : Lookup) : Prop where
  lists : l.session.Lists key (home :: heard key found cs)
  first : ∀ c ∈ cs, c.peer.IsFirst (home :: heard key found cs)

namespace Orderly

/-- So is the next one that is asked. -/
theorem first_next (h : Orderly home key found cs l)
    (hnext : l.session.next? = some (candidate, session)) :
    ∀ c ∈ cs ++ [l.contact node candidate s],
      c.peer.IsFirst (home :: heard key found (cs ++ [l.contact node candidate s])) := by
  have hpicked : (l.contact node candidate s).peer.IsFirst (home :: heard key found cs) :=
    h.lists.isFirst_next hnext
  intro c hc
  rw [heard_concat, ← List.cons_append]
  simp only [List.mem_append, List.mem_singleton] at hc
  obtain hc | rfl := hc
  · exact (h.first c hc).append _
  · exact hpicked.append _

variable [Storage S]

theorem step (hn : node.Lawful) (htracked : l.Tracked node home.id key cs s)
    (h : Orderly home key found cs l) (hnext : l.session.next? = some (candidate, session))
    (hstep : l.step node s = (none, l', s')) :
    Orderly home key found (cs ++ [l.contact node candidate s]) l' := by
  refine ⟨?_, h.first_next hnext⟩
  have hst := stepped hn htracked.sound
  rw [hstep] at hst
  cases hst with
  | skipped d session' e s' hnext' hask =>
      obtain ⟨rfl, rfl⟩ := Session.next?_inj hnext hnext'
      rw [heard_concat, Contact.named_of_error (htracked.outcome_eq hnext hask), List.append_nil]
      exact h.lists.next? hnext
  | widened d session' reply s' hnext' hask =>
      obtain ⟨rfl, rfl⟩ := Session.next?_inj hnext hnext'
      rw [heard_concat, Contact.named_of_ok (htracked.outcome_eq hnext hask), htracked.key_eq]
      refine (h.lists.next? hnext).merge ?_
      rw [← htracked.key_eq]
      exact Node.length_eq_of_ask hask

/-- The step that ends the search brings nobody into the session. -/
theorem last (hn : node.Lawful) (htracked : l.Tracked node home.id key cs s)
    (h : Orderly home key found cs l) (hnext : l.session.next? = some (candidate, session))
    {ending : Ending} (hstep : l.step node s = (some ending, l', s')) :
    ∀ p ∈ l'.session.peers,
      p.IsFirst (home :: heard key found (cs ++ [l.contact node candidate s])) := by
  have hsession : l'.session = session := by
    have hst := stepped hn htracked.sound
    rw [hstep] at hst
    cases hst with
    | exhausted hnone => simp [hnext] at hnone
    | aborted d session' e s' hnext' => exact (Session.next?_inj hnext hnext').2.symm
    | found d session' reply value s' hnext' => exact (Session.next?_inj hnext hnext').2.symm
    | settled d session' reply s' hnext' => exact (Session.next?_inj hnext hnext').2.symm
  rw [hsession, heard_concat, ← List.cons_append]
  exact fun p hp => ((h.lists.next? hnext).first p hp).append _

/-- **Of several peers with one id a search takes up the one that it has heard of
first**, however it ends. -/
theorem run (hn : node.Lawful) (htracked : l.Tracked node home.id key [] s)
    (h : Orderly home key found [] l) :
    (∀ c ∈ l.contacts node l.stepBound s,
      c.peer.IsFirst (home :: heard key found (l.contacts node l.stepBound s))) ∧
    ∀ p ∈ (l.run node s).2.1.session.peers,
      p.IsFirst (home :: heard key found (l.contacts node l.stepBound s)) := by
  refine htracked.history hn (fun cs l _ => Orderly home key found cs l)
    (fun cs _ l _ => (∀ c ∈ cs, c.peer.IsFirst (home :: heard key found cs)) ∧
      ∀ p ∈ l.session.peers, p.IsFirst (home :: heard key found cs)) ?_ ?_ ?_ h
  · intro cs l s c session l' s' htracked h hnext hstep
    exact h.step hn htracked hnext hstep
  · intro cs l s c session e l' s' htracked h hnext hstep
    exact ⟨h.first_next hnext, h.last hn htracked hnext hstep⟩
  · intro cs l s _ h _
    exact ⟨h.first, h.lists.first⟩

end Orderly

end Lookup

/-- The closest peers of a table are in it. -/
theorem RoutingTable.WellFormed.mem_of_closest {t : RoutingTable} (h : t.WellFormed) {key : Id}
    {k : Nat} {found : List (Peer × Distance)} (hfound : PeerStore.closest t key k = .ok found) :
    ∀ p ∈ found.map (·.1), p ∈ t.peers := by
  have hlift : Error.liftId (t.closest key k) = .ok found := hfound
  by_cases hl : key.length = t.localId.length
  · obtain ⟨nearest, hnearest, _, hmem, _⟩ := RoutingTable.exists_closest h hl k
    rw [hnearest] at hlift
    obtain rfl : nearest = found := Except.ok.inj hlift
    intro p hp
    obtain ⟨e, he, rfl⟩ := List.mem_map.mp hp
    exact (hmem e he).1
  · rw [closest, Id.checkLength, if_neg (Ne.symm hl)] at hlift
    contradiction

/-! ## Who is forgotten -/

/-- Where a request was sent. -/
def Exchange.target : Exchange → Address
  | .get target _ _ | .store target _ _ => target

namespace Node

section

variable {S σ : Type} {node : Node RoutingTable S σ} {key : Id} {k : UInt64} {s : σ}
  {capacity : Option Nat} {nodes : List Peer}

theorem lists_openingLookup (hself : (node.id s).length = key.length)
    (hl : ∀ p ∈ nodes, p.id.length = key.length) :
    (node.openingLookup ⟨capacity, []⟩ key k nodes s).session.Lists key (node.self s :: nodes) := by
  have hown : ∀ p ∈ [node.self s], p.id.length = key.length := by simpa [self] using hself
  exact (((Session.Lists.empty capacity key).merge hown).markSearched (node.id s)).merge hl

variable [Storage S]

/-- A search begins with the closest peers that the node knows. -/
theorem orderly_of_begin (hn : node.Lawful) {l : Lookup}
    (h : node.begin ⟨capacity, []⟩ key k s = (.ok (.lookup l), s)) :
    ∃ found, PeerStore.closest (node.server s).peers key k.toNat = .ok found ∧
      Lookup.Orderly (node.self s) key (found.map (·.1)) [] l := by
  have hopening := beginning hn ⟨capacity, []⟩ key k s
  rw [h] at hopening
  cases hopening with
  | lookup hl responder nodes hlook hnodes =>
      obtain ⟨found, hfound, rfl⟩ := Server.exists_closest_of_lookUp hlook
      exact ⟨found, hfound, by simpa [Lookup.heard] using lists_openingLookup hl hnodes, by simp⟩

/-- Whoever is asked is the first of its id among the node, the closest peers that
it knew, and then those that accepted replies named. -/
theorem isFirst_contacts (hn : node.Lawful) {c : Contact}
    (hc : c ∈ node.contacts ⟨capacity, []⟩ key k s) :
    ∃ found, PeerStore.closest (node.server s).peers key k.toNat = .ok found ∧
      c.peer.IsFirst (node.self s :: Lookup.heard key (found.map (·.1))
        (node.contacts ⟨capacity, []⟩ key k s)) := by
  have hsnd := begin_snd hn ⟨capacity, []⟩ key k s
  cases hbegin : node.begin ⟨capacity, []⟩ key k s with
  | mk opening s₁ =>
      rw [hbegin] at hsnd
      obtain rfl : s₁ = s := hsnd
      match opening with
      | .error e => simp [contacts_of_error hbegin] at hc
      | .ok (.here value) => simp [contacts_of_here hbegin] at hc
      | .ok (.lookup l) =>
          obtain ⟨found, hfound, horderly⟩ := orderly_of_begin hn hbegin
          rw [contacts_of_lookup hbegin] at hc ⊢
          exact ⟨found, hfound, (horderly.run hn (tracked_of_begin hn hbegin).2.2).1 c hc⟩

end

/-- A contact that makes a node forget a peer: somebody of its id failed, and
nobody else was listed under this id before. -/
structure Disproves (key : Id) (found : List Peer) (cs : List Contact) (p : Peer)
    (c : Contact) : Prop where
  mem : c ∈ cs
  failed : c.Failed key
  id_eq : c.peer.id = p.id
  first : c.peer.IsFirst (Lookup.heard key found cs)
  /-- A peer with which the search began is the one that failed. -/
  eq_of_mem : p ∈ found → c.peer = p

section

variable {S τ : Type} [Storage S] {config : Config} {address : Address} {world : Transport τ}
  {s : Setting S τ} {after : Server RoutingTable S} {key : Id} {k : UInt64}
  {capacity : Option Nat} {cs : List Contact} {p : Peer}

/-- A call that forgets those who failed forgets whom a contact disproves. -/
theorem not_mem_iff_disproves (hwf : s.server.peers.WellFormed)
    (hcontacts : (among config address world).contacts ⟨capacity, []⟩ key k s = cs)
    (hchanged : Server.Changed key cs (cs.filterMap (Contact.fault? key)) s.server after)
    (hp : p ∈ s.server.peers.peers) : p ∉ after.peers.peers ↔
      ∃ found, PeerStore.closest s.server.peers key k.toNat = .ok found ∧
        ∃ c, Disproves key (found.map (·.1)) cs p c := by
  constructor
  · intro hgone
    have hid : p.id ∈ Contact.failedIds key cs := by
      by_contra hnot
      exact hgone (hchanged.kept p hp hnot)
    obtain ⟨c, hc, hfailed, hid⟩ := Contact.mem_failedIds.mp hid
    have hn := lawful_among (S := S) config address world
    rw [← hcontacts] at hc
    obtain ⟨found, hfound, hfirst⟩ := isFirst_contacts hn hc
    have hforeign := (hn.asksOnce capacity key k s).once.foreign c hc
    replace hfirst := hfirst.of_cons hforeign.symm
    rw [hcontacts] at hc hfirst
    have hknown := hwf.mem_of_closest hfound
    refine ⟨found, hfound, c, hc, hfailed, hid, hfirst, fun hmem => ?_⟩
    exact hfirst.eq_of_mem hmem hid fun a ha b hb => hwf.eq_of_id_eq (hknown a ha) (hknown b hb)
  · rintro ⟨_, _, c, h⟩ hstays
    exact hchanged.forgotten p hstays (Contact.mem_failedIds.mpr ⟨c, h.mem, h.failed, h.id_eq⟩)

end

/-- **A call forgets a peer exactly if the one that was listed first under its id
failed.**  That is the peer itself if the search began with it, and otherwise the
one of this id that an accepted reply named first, at whatever address.  To set
a value forgets nobody unless it comes to placing it. -/
theorem forgets_first_listed {S τ : Type} [Storage S] (config : Config) (address : Address)
    (world : Transport τ) (key : Id) (s : Setting S τ) (hwf : s.server.peers.WellFormed) :
    (∃ cs, (among config address world).contacts .unbounded key config.peersReturnedGet s = cs ∧
      ((among config address world).getValue key s).2.log =
        s.log ++ cs.map (Contact.exchange ⟨key, config.peersReturnedGet⟩) ∧
      ∀ p ∈ s.server.peers.peers,
        p ∉ ((among config address world).getValue key s).2.server.peers.peers ↔
          ∃ found, PeerStore.closest s.server.peers key config.peersReturnedGet.toNat = .ok found ∧
            ∃ c, Disproves key (found.map (·.1)) cs p c) ∧
    ∃ cs, (among config address world).contacts (.bounded config.maxStores) key
        config.peersReturnedSet s = cs ∧
      ∀ value, ((among config address world).setValue key value s).2.questions =
          s.questions ++ cs.map (Contact.exchange ⟨key, config.peersReturnedSet⟩) ∧
        ∀ p ∈ s.server.peers.peers,
          p ∉ ((among config address world).setValue key value s).2.server.peers.peers ↔
            (among config address world).Places key s ∧
            ∃ found, PeerStore.closest s.server.peers key config.peersReturnedSet.toNat =
                .ok found ∧
              ∃ c, Disproves key (found.map (·.1)) cs p c := by
  refine ⟨⟨_, rfl, log_getValue config address world key s, fun p hp => ?_⟩, _, rfl, fun value =>
    ⟨questions_setValue config address world key value s, fun p hp => ?_⟩⟩
  · have hchanged := Server.Changed.of_peers_eq hwf
      (congrArg Server.peers (server_getValue config address world key s))
    exact not_mem_iff_disproves hwf rfl hchanged hp
  · obtain ⟨hplaces, hnot⟩ := peers_setValue config address world key value s rfl
    by_cases h : (among config address world).Places key s
    · have hiff := not_mem_iff_disproves hwf rfl (Server.Changed.of_peers_eq hwf (hplaces h)) hp
      rwa [and_iff_right h]
    · have hchanged : Server.Changed key _ [] s.server _ := .of_peers_eq hwf (hnot h)
      simp [h, hchanged.kept p hp]

/-! A node with the id 2 knows those with the ids 4 and 8 and asks for one peer at
a time.  The former names the latter at an address where nobody is. -/

namespace Rumour

def config : Config where
  peersReturnedGet := 1

def world : Transport Unit where
  getValue target _ _ :=
    if target = (Relay.peer 4 2).address then
      (.ok ⟨(Relay.peer 4 2).id, none, [Relay.peer 8 9]⟩, ())
    else if target = (Relay.peer 8 3).address then (.ok ⟨(Relay.peer 8 3).id, none, []⟩, ())
    else (.error .unreachable, ())
  storeValue _ _ _ := (.error .unreachable, ())

def setting : Setting MemoryStorage Unit where
  server := ⟨((RoutingTable.empty (Relay.peer 2 1).id 20).meet (Relay.peer 4 2)).meet
    (Relay.peer 8 3), {}⟩
  world := ()

def node : Node RoutingTable MemoryStorage (Setting MemoryStorage Unit) :=
  among config (Relay.peer 2 1).address world

theorem wellFormed : setting.server.peers.WellFormed :=
  ((RoutingTable.wellFormed_empty (Relay.peer 2 1).id 20).meet (Relay.peer 4 2)).meet
    (Relay.peer 8 3)

theorem peers_getValue :
    (node.getValue (Relay.peer 0 0).id setting).2.server.peers.peers = [Relay.peer 4 2] := by
  decide +kernel

end Rumour

/-- **An entry can be dropped on hearsay**: the node 8 is there at its address, and
nobody asked it, but it is not known any more. -/
theorem forgets_on_hearsay :
    Relay.peer 8 3 ∈ Rumour.setting.server.peers.peers ∧
      (∀ e ∈ (Rumour.node.getValue (Relay.peer 0 0).id Rumour.setting).2.log,
        e.target ≠ (Relay.peer 8 3).address) ∧
      Relay.peer 8 3 ∉
        (Rumour.node.getValue (Relay.peer 0 0).id Rumour.setting).2.server.peers.peers := by
  refine ⟨by decide +kernel, by decide +kernel, ?_⟩
  rw [Rumour.peers_getValue]
  decide

/-- What it is dropped for is a failure of the peer that was named in its place;
the node 4, with which the search began, is kept. -/
theorem forgets_first_listed_small : ∃ found cs c,
    PeerStore.closest Rumour.setting.server.peers (Relay.peer 0 0).id 1 = .ok found ∧
      Disproves (Relay.peer 0 0).id (found.map (·.1)) cs (Relay.peer 8 3) c ∧
      ¬ ∃ c, Disproves (Relay.peer 0 0).id (found.map (·.1)) cs (Relay.peer 4 2) c := by
  obtain ⟨⟨cs, _, _, hforgets⟩, _⟩ := forgets_first_listed Rumour.config (Relay.peer 2 1).address
    Rumour.world (Relay.peer 0 0).id Rumour.setting Rumour.wellFormed
  have hgone : Relay.peer 8 3 ∉
      (Rumour.node.getValue (Relay.peer 0 0).id Rumour.setting).2.server.peers.peers := by
    rw [Rumour.peers_getValue]
    decide
  have hstays : Relay.peer 4 2 ∈
      (Rumour.node.getValue (Relay.peer 0 0).id Rumour.setting).2.server.peers.peers := by
    rw [Rumour.peers_getValue]
    decide
  obtain ⟨found, hfound, c, hc⟩ := (hforgets _ (by decide +kernel)).mp hgone
  refine ⟨found, cs, c, hfound, hc, fun hother => ?_⟩
  exact (hforgets _ (by decide +kernel)).mpr ⟨found, hfound, hother⟩ hstays

end Node

end Kademlia
