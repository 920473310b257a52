import Kademlia.Proofs.Hearsay

/-!
# Kademlia.Proofs.Storers

Those who failed, among the storers.  A failure is noted, and makes the node
forget its peer, but nobody is taken out of the session of a search for it: a
peer that was asked is a storer if so few others are closer to the key that it
is one of the nearest, whatever came of asking it (`Node.storers_whoever_failed`).
It counts as one of the storers that are required, and is sent the value
(`Node.stores_at_failed`).
-/

namespace Kademlia

namespace Node

/-- How those who were asked in a search relate to the storers that it comes to,
and to the replicas and the result of the call. -/
structure Retained (config : Config) (key : Id) (known : List Peer) (cs : List Contact)
    (storers : List Peer) (replicas : List Replica) (result : Except Error Unit) : Prop where
  /-- Whoever was asked is a storer exactly if few enough that are known are closer. -/
  mem_iff : ∀ c ∈ cs, c.peer ∈ storers ↔
    (key.closerThan c.peer.id (known.map (·.id))).length < config.maxStores
  /-- Otherwise nothing is stored under its id. -/
  spared : ∀ c ∈ cs, c.peer ∉ storers → ∀ r ∈ replicas, r.peer.id ≠ c.peer.id
  /-- All storers count. -/
  counted : ∀ found required errors,
    result = .error (.settingFailed (.notEnoughStorers found required) errors) ↔
      storers.length < config.minStores ∧ found = storers.length ∧
        required = config.minStores ∧ errors = cs.filterMap (Contact.fault? key)
  /-- If they are enough, all of them are sent the value, unless an error ends the call. -/
  reached : config.minStores ≤ storers.length →
    (∃ e, result = .error (.rpc e)) ∨ replicas.map (·.peer) = storers

section

variable {S σ : Type} [Storage S] {node : Node RoutingTable S σ} {key : Id} {s s' : σ}
  {l : Lookup}

/-- Of several peers with one id, the storer is the one that was listed first. -/
theorem isFirst_of_seek (hn : node.Lawful) (h : node.seek key s = (.ok l, s')) :
    ∃ found, PeerStore.closest (node.server s).peers key node.config.peersReturnedSet.toNat =
        .ok found ∧
      ∀ p ∈ l.session.peers, p.IsFirst (node.self s :: Lookup.heard key (found.map (·.1))
        (node.contacts (.bounded node.config.maxStores) key node.config.peersReturnedSet s)) := by
  have hseek := seeking hn key s
  rw [h] at hseek
  cases hseek with
  | ended _ l₀ l ending s' hbegin _ hrun =>
      obtain ⟨found, hfound, horderly⟩ := orderly_of_begin hn hbegin
      have hfirst := (horderly.run hn (tracked_of_begin hn hbegin).2.2).2
      rw [hrun, ← contacts_of_lookup hbegin] at hfirst
      exact ⟨found, hfound, hfirst⟩

/-- **Whoever was asked is a storer if and only if it is one of the nearest.** -/
theorem contact_mem_storers_iff (hn : node.Lawful) (h : node.seek key s = (.ok l, s'))
    {found : List (Peer × Distance)} (hfound : PeerStore.closest (node.server s).peers key
      node.config.peersReturnedSet.toNat = .ok found) {c : Contact}
    (hc : c ∈ node.contacts (.bounded node.config.maxStores) key node.config.peersReturnedSet s) :
    (c.peer ∈ l.session.peers ↔ c.peer.id ∈ l.session.peers.map (·.id)) ∧
    (c.peer ∈ l.session.peers ↔
      (key.closerThan c.peer.id ((node.self s :: Lookup.heard key (found.map (·.1))
        (node.contacts (.bounded node.config.maxStores) key node.config.peersReturnedSet
          s)).map (·.id))).length < node.config.maxStores) := by
  obtain ⟨_, hsame, hstorers⟩ := isFirst_of_seek hn h
  obtain rfl := Except.ok.inj (hfound.symm.trans hsame)
  obtain ⟨_, hsame, hdraws⟩ := draws_of_seek hn h
  obtain rfl := Except.ok.inj (hfound.symm.trans hsame)
  obtain ⟨_, hsame, hfirst⟩ := isFirst_contacts hn hc
  obtain rfl := Except.ok.inj (hfound.symm.trans hsame)
  have hid : c.peer ∈ l.session.peers ↔ c.peer.id ∈ l.session.peers.map (·.id) := by
    constructor
    · exact fun hmem => List.mem_map_of_mem hmem
    · intro hmem
      obtain ⟨p, hp, heq⟩ := List.mem_map.mp hmem
      rwa [hfirst.unique (hstorers p hp) heq.symm]
  exact ⟨hid, hid.trans (hdraws.nearest.mem_iff (List.mem_map_of_mem hfirst.mem))⟩

end

/-- To place a value fails for want of storers exactly if there are too few. -/
theorem place_eq_notEnoughStorers_iff {P S σ : Type} [PeerStore P] [Storage S] (node : Node P S σ)
    (l : Lookup) (value : Bytes) (s : σ) (found required : Nat) (errors : List PeerError) :
    (node.place l value s).1 =
        .error (.settingFailed (.notEnoughStorers found required) errors) ↔
      l.session.peers.length < node.config.minStores ∧ found = l.session.peers.length ∧
        required = node.config.minStores ∧ errors = l.errors := by
  have hplace := placing node l value s
  generalize node.place l value s = result at hplace ⊢
  cases hplace with
  | few hfew => simp [hfew, eq_comm, and_assoc]
  | aborted henough => simp [Nat.not_lt.mpr henough]
  | short henough => simp [Nat.not_lt.mpr henough]
  | stored henough => simp [Nat.not_lt.mpr henough]

section

variable {S τ : Type} [Storage S] {config : Config} {address : Address} {world : Transport τ}
  {key : Id} {value : Bytes} {s s' : Setting S τ} {l : Lookup} {replicas : List Replica}

/-- With enough storers, all of them are sent the value, unless an error ends the call. -/
theorem reached_of_accounted (h : (among config address world).seek key s = (.ok l, s'))
    (hacc : Accounted config l.session.peers replicas
      ((among config address world).setValue key value s).1)
    (henough : config.minStores ≤ l.session.peers.length) :
    (∃ e, ((among config address world).setValue key value s).1 = .error (.rpc e)) ∨
      replicas.map (·.peer) = l.session.peers := by
  rw [setValue_of_seek_ok h] at hacc ⊢
  have hplace := placing (among config address world) l value s'
  generalize (among config address world).place l value s' = result at hplace hacc ⊢
  cases hplace with
  | few hfew => exact absurd hfew (Nat.not_lt.mpr henough)
  | aborted _ e => exact .inl ⟨e, rfl⟩
  | short => exact .inr (hacc.short _ _ _ rfl).1
  | stored => exact .inr (hacc.set rfl).1

theorem retained (h : (among config address world).seek key s = (.ok l, s'))
    {found : List (Peer × Distance)} (hfound : PeerStore.closest s.server.peers key
      config.peersReturnedSet.toNat = .ok found)
    (hacc : Accounted config l.session.peers replicas
      ((among config address world).setValue key value s).1) {cs : List Contact}
    (hcontacts : (among config address world).contacts (.bounded config.maxStores) key
      config.peersReturnedSet s = cs) :
    Retained config key (⟨s.server.id, address⟩ :: Lookup.heard key (found.map (·.1)) cs) cs
      l.session.peers replicas ((among config address world).setValue key value s).1 where
  mem_iff c hc := by
    subst hcontacts
    exact (contact_mem_storers_iff (lawful_among config address world) h hfound hc).2
  spared c hc hnot r hr hid := by
    subst hcontacts
    have hstorer : r.peer ∈ l.session.peers :=
      hacc.contacted.subset (List.mem_map_of_mem (f := Replica.peer) hr)
    have hiff := (contact_mem_storers_iff (lawful_among config address world) h hfound hc).1
    exact hnot (hiff.mpr (hid ▸ List.mem_map_of_mem (f := Peer.id) hstorer))
  counted found required errors := by
    have herrors := errors_of_seek config address world h
    rw [hcontacts] at herrors
    rw [setValue_of_seek_ok h, place_eq_notEnoughStorers_iff, herrors]
    rfl
  reached := reached_of_accounted h hacc

end

/-- **To fail does not keep a peer from being a storer.**  Without storers nothing
is stored.  Otherwise, whatever the peers do, those who were asked are storers
exactly if they are among the nearest that the search has heard of, whether they
replied or failed; all storers count, and all are sent the value. -/
theorem storers_whoever_failed {S τ : Type} [Storage S] (config : Config) (address : Address)
    (world : Transport τ) (key : Id) (s : Setting S τ) :
    (∀ e, ((among config address world).seek key s).1 = .error e → ∀ value,
      ((among config address world).setValue key value s).2.stores = s.stores ∧
        ((among config address world).setValue key value s).2.server.values = s.server.values) ∧
    ∀ l s', (among config address world).seek key s = (.ok l, s') →
      ∃ found cs, PeerStore.closest s.server.peers key config.peersReturnedSet.toNat = .ok found ∧
        (among config address world).contacts (.bounded config.maxStores) key
          config.peersReturnedSet s = cs ∧
        ∀ value, ∃ replicas,
          Delivered s ((among config address world).setValue key value s).2 ⟨key, value⟩ replicas ∧
          Accounted config l.session.peers replicas
            ((among config address world).setValue key value s).1 ∧
          Retained config key (⟨s.server.id, address⟩ :: Lookup.heard key (found.map (·.1)) cs) cs
            l.session.peers replicas ((among config address world).setValue key value s).1 := by
  constructor
  · intro e he value
    have hseek : Delivered s ((among config address world).seek key s).2 ⟨key, value⟩ [] :=
      seek_delivers_nothing key s
    have hset := setValue_of_seek_error (Prod.ext he rfl) value
    rw [hset]
    exact hseek.of_nil
  · intro l s' hseek
    obtain ⟨found, hfound, _⟩ := isFirst_of_seek (lawful_among config address world) hseek
    refine ⟨found, _, hfound, rfl, fun value => ?_⟩
    obtain ⟨replicas, hdelivered, hacc⟩ := exists_replicas_of_seek hseek value
    exact ⟨replicas, hdelivered, hacc, retained hseek hfound hacc rfl⟩

/-! A node with the id 1 knows the one with the id 2, which cannot be reached. -/

namespace Unreachable

def config : Config where
  maxStores := 2
  minStores := 1

def world : Transport Unit where
  getValue _ _ _ := (.error .unreachable, ())
  storeValue _ _ _ := (.error .unreachable, ())

def setting : Setting MemoryStorage Unit where
  server := ⟨(RoutingTable.empty (Relay.peer 1 1).id 20).meet (Relay.peer 2 2), {}⟩
  world := ()

def node : Node RoutingTable MemoryStorage (Setting MemoryStorage Unit) :=
  among config (Relay.peer 1 1).address world

theorem exists_failed : ∃ c ∈ node.contacts (.bounded 2) (Relay.peer 0 0).id 10 setting,
    c.Failed (Relay.peer 0 0).id ∧ c.peer = Relay.peer 2 2 := by
  have hpeers : (node.contacts (.bounded 2) (Relay.peer 0 0).id 10 setting).map (·.peer) =
      [Relay.peer 2 2] := by
    decide +kernel
  have hfaults : (node.contacts (.bounded 2) (Relay.peer 0 0).id 10 setting).map
      (Contact.fault? (Relay.peer 0 0).id) = [some ⟨Relay.peer 2 2, .unreachable⟩] := by
    decide +kernel
  obtain ⟨c, hcontacts, hpeer⟩ := List.map_eq_singleton_iff.mp hpeers
  rw [hcontacts, List.map_singleton, List.singleton_inj, Contact.fault?_eq_some_iff] at hfaults
  exact ⟨c, by simp [hcontacts], ⟨_, hfaults.1, hfaults.2.1⟩, hpeer⟩

theorem exists_seek : ∃ l s', node.seek (Relay.peer 0 0).id setting = (.ok l, s') ∧
    l.session.peers = [Relay.peer 1 1, Relay.peer 2 2] := by
  have hstorers : node.storers (Relay.peer 0 0).id setting = [Relay.peer 1 1, Relay.peer 2 2] := by
    decide +kernel
  rw [← hstorers]
  exact exists_seek_of_storers (hstorers ▸ List.cons_ne_nil _ _)

end Unreachable

/-- **A peer that failed in the search is stored at**, and counts as a storer: the
node 2 does, and there are two of them. -/
theorem stores_at_failed :
    ∃ c ∈ Unreachable.node.contacts (.bounded 2) (Relay.peer 0 0).id 10 Unreachable.setting,
      c.Failed (Relay.peer 0 0).id ∧
      c.peer ∈ Unreachable.node.storers (Relay.peer 0 0).id Unreachable.setting ∧
      ((Unreachable.node.setValue (Relay.peer 0 0).id [0xaa] Unreachable.setting).2.stores.map
        (·.target)) = [c.peer.address] := by
  obtain ⟨c, hc, hfailed, hpeer⟩ := Unreachable.exists_failed
  obtain ⟨l, s', hseek, hstorers⟩ := Unreachable.exists_seek
  refine ⟨c, hc, hfailed, ?_, ?_⟩
  · simp [storers, hseek, hstorers, hpeer]
  · rw [hpeer]
    decide +kernel

/-- Of all that are known only the node itself is closer than the node 2; that is
few enough for two storers. -/
theorem storers_whoever_failed_small : ∃ (c : Contact) (l : Lookup) (s' : Setting _ _),
    c.Failed (Relay.peer 0 0).id ∧ c.peer = Relay.peer 2 2 ∧
      Unreachable.node.seek (Relay.peer 0 0).id Unreachable.setting = (.ok l, s') ∧
      c.peer ∈ l.session.peers ∧ ∃ found,
        PeerStore.closest Unreachable.setting.server.peers (Relay.peer 0 0).id 10 = .ok found ∧
        ((Relay.peer 0 0).id.closerThan c.peer.id ((Relay.peer 1 1 ::
          Lookup.heard (Relay.peer 0 0).id (found.map (·.1)) (Unreachable.node.contacts
            (.bounded 2) (Relay.peer 0 0).id 10 Unreachable.setting)).map (·.id))).length < 2 := by
  obtain ⟨c, hc, hfailed, hpeer⟩ := Unreachable.exists_failed
  obtain ⟨l, s', hseek, hstorers⟩ := Unreachable.exists_seek
  obtain ⟨found, _, hfound, rfl, hall⟩ :=
    (storers_whoever_failed (S := MemoryStorage) _ _ _ _ _).2 l s' hseek
  obtain ⟨_, _, _, hretained⟩ := hall [0xaa]
  have hmem : c.peer ∈ l.session.peers := by simp [hstorers, hpeer]
  exact ⟨c, l, s', hfailed, hpeer, hseek, hmem, found, hfound, (hretained.mem_iff c hc).mp hmem⟩

end Node

end Kademlia
