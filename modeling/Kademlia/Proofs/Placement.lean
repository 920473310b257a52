import Kademlia.Proofs.Run
import Mathlib.Data.Finset.Max
import Mathlib.Data.Fintype.Card
import Mathlib.Logic.Relation

/-!
# Kademlia.Proofs.Placement

Networks in which every node knows all others and nobody else
(`Network.FullyConnected`).  In such a network the first answer already names
whoever matters.  A value goes to exactly the nodes closest to its key, and
whatever is called afterwards, every node finds it and none can set it again
(`Network.FullyConnected.setValue_places`).

That nobody else is known matters.  A search settles on candidates that never
answered, so one peer that is gone but still remembered can take the place of
the closest node (`Network.not_setValue_places`).
-/

namespace Kademlia

namespace Network

variable {n : Nat} {net net' : Overlay n} {i j : Fin n} {key : Id}

/-! ## Everybody knows everybody -/

/-- A network of nodes with distinct ids of one length, without faults, in which
each node knows all others where they are.  It may remember other peers, too. -/
structure MutuallyKnown (net : Overlay n) : Prop where
  faultless : net.faults = []
  addressed : ∀ i j, (net.seat i).address = (net.seat j).address → i = j
  wellFormed : ∀ i, (net.table i).WellFormed
  listening : net.Listening
  id_inj : ∀ i j, net.id i = net.id j → i = j
  length_eq : ∀ i j, (net.id i).length = (net.id j).length
  complete : ∀ i j, i ≠ j → net.peer j ∈ (net.table i).peers

/-- Such a network in which no table names anybody but the nodes of the network,
each at its address. -/
structure FullyConnected (net : Overlay n) : Prop extends net.MutuallyKnown where
  known : ∀ i, ∀ p ∈ (net.table i).peers, ∃ j, net.peer j = p

theorem FullyConnected.honest (hf : net.FullyConnected) : Honest net :=
  ⟨hf.faultless, hf.addressed, hf.wellFormed, hf.known⟩

theorem Grown.fullyConnected (hg : Grown net net') (hn : Honest net') (hf : net.FullyConnected) :
    net'.FullyConnected where
  faultless := hn.faultless
  addressed := hn.addressed
  wellFormed := hn.wellFormed
  known := hn.known
  listening := hg.listening hf.listening
  id_inj i j h := hf.id_inj i j (by rw [← hg.id_eq, ← hg.id_eq, h])
  length_eq i j := by
    rw [hg.id_eq, hg.id_eq]
    exact hf.length_eq i j
  complete i j hij := by
    rw [hg.peer_eq]
    exact hg.known i _ (hf.complete i j hij)

namespace FullyConnected

/-- A request to a node as its peers see it reaches that node. -/
theorem receives_peer (hf : net.FullyConnected) (i j : Fin n) : net.Receives i (net.peer j) j := by
  by_cases hid : net.id j = net.id i
  · exact .inl ⟨hid, hf.id_inj j i hid⟩
  · exact .inr ⟨hid, rfl⟩

/-- What a node names are the nearest of all nodes but itself. -/
theorem nearest_of_names (hf : net.FullyConnected) {k : Nat} {nodes : List Peer}
    (hnames : net.Names i key k nodes) :
    ∃ offered, Nearest key k offered (nodes.map (·.id)) ∧ (∀ j, j ≠ i → net.id j ∈ offered) ∧
      ∀ a ∈ offered, ∃ j, net.id j = a := by
  obtain ⟨table, hgrown, hknown, _, hnearest⟩ := hnames
  refine ⟨table.peers.map (·.id), hnearest, fun j hj => ?_, fun a ha => ?_⟩
  · exact List.mem_map_of_mem (f := Peer.id) (hgrown _ (hf.complete i j (Ne.symm hj)))
  · obtain ⟨p, hp, rfl⟩ := List.mem_map.mp ha
    obtain ⟨_, j, rfl⟩ := hknown p hp
    exact ⟨j, rfl⟩

/-! ## Placing a value -/

/-- A search for storers begins with the nearest of all nodes. -/
theorem keeps_openingLookup (hf : net.FullyConnected) (hi : (net.id i).length = key.length)
    {m : Nat} {k : UInt64} (hk : m ≤ k.toNat) {nodes : List Peer}
    (hnames : net.Names i key k.toNat nodes) :
    ((net.node i).openingLookup (.bounded m) key k nodes net).session.Keeps key m
      ((List.finRange n).map net.id) := by
  obtain ⟨offered, hnearest, hothers, hoffered⟩ := hf.nearest_of_names hnames
  have hopening : ((net.node i).openingLookup (.bounded m) key k nodes net).session.Keeps key m
      (nodes.map (·.id) ++ [net.id i]) := Node.keeps_openingLookup hi hnames.length_eq
  have hswap : Nearest key m ([net.id i] ++ nodes.map (·.id))
      ((net.node i).openingLookup (.bounded m) key k nodes net).session.ids := by
    refine hopening.nearest.congr fun b => ?_
    simp only [List.mem_append]
    exact or_comm
  refine ⟨hopening.capacity_eq, hopening.wellFormed, (hswap.trans hnearest hk).congr fun b => ?_⟩
  rw [List.mem_map, List.mem_append, List.mem_singleton]
  constructor
  · rintro ⟨j, _, rfl⟩
    by_cases hj : j = i
    · exact .inl (congrArg net.id hj)
    · exact .inr (hothers j hj)
  · rintro (rfl | hb)
    · exact ⟨i, List.mem_finRange i, rfl⟩
    · obtain ⟨j, rfl⟩ := hoffered b hb
      exact ⟨j, List.mem_finRange j, rfl⟩

/-- **A search for storers comes to the nearest of all nodes**, if nobody has a
value: its first step is the last. -/
theorem exists_seek (hf : net.FullyConnected) (hi : (net.id i).length = key.length)
    (hnone : ∀ j, net.value? j key = none) (hmax : 1 ≤ (net.seat i).config.maxStores)
    (hreturned : (net.seat i).config.maxStores ≤ (net.seat i).config.peersReturnedSet.toNat) :
    ∃ l net₁, (net.node i).seek key net = (.ok l, net₁) ∧
      l.session.Keeps key (net.seat i).config.maxStores ((List.finRange n).map net.id) := by
  have hmax' : (net.node i).config.maxStores ≠ 0 := Nat.ne_of_gt hmax
  obtain ⟨nodes, hnames, hbegin, hs⟩ := hf.honest.begin_of_none hi (hnone i)
    (some (net.seat i).config.maxStores) (net.seat i).config.peersReturnedSet
  have hadv := hs.advance hf.honest hf.listening
  generalize hl : (net.node i).openingLookup ⟨some (net.seat i).config.maxStores, []⟩ key
    (net.seat i).config.peersReturnedSet nodes net = l at hbegin hs hadv
  have hkey : l.key = key := by
    rw [← hl]
    rfl
  have hkeeps : l.session.Keeps key (net.seat i).config.maxStores
      ((List.finRange n).map net.id) := by
    rw [← hl]
    exact hf.keeps_openingLookup hi hreturned hnames
  generalize hstep : l.step (net.node i) net = result at hadv
  cases hadv with
  | exhausted hall =>
      exact ⟨_, _, Node.seek_of_run hmax' hbegin (Lookup.run_of_step hstep) (.inr rfl), hkeeps⟩
  | found c j value net' hc hj hv =>
      rw [hkey, hnone] at hv
      contradiction
  | settled c j nodes' net' =>
      exact ⟨_, _, Node.seek_of_run hmax' hbegin (Lookup.run_of_step hstep) (.inl rfl),
        hkeeps.markSearched _⟩
  | widened c j nodes' net' hc hj hnone' hnames' htaken =>
      -- Everybody whom the node names was offered before.
      have hoffered : ∀ p ∈ nodes', p.id ∈ (List.finRange n).map net.id := by
        intro p hp
        obtain ⟨h, rfl⟩ := hnames'.exists_peer p hp
        exact List.mem_map_of_mem (List.mem_finRange h)
      have hagain := (hkeeps.markSearched c.peer.id).merge_again hoffered
      rw [hkey, hagain] at htaken
      have hbounded : l.session.isBounded = true := by
        rw [Session.isBounded, hkeeps.capacity_eq]
        rfl
      exact absurd rfl (htaken hbounded)

/-- The nodes that a lookup has come to. -/
def among (net : Overlay n) (l : Lookup) : Finset (Fin n) :=
  Finset.univ.filter fun j => net.id j ∈ l.session.ids

theorem mem_among {l : Lookup} : j ∈ among net l ↔ net.id j ∈ l.session.ids := by
  rw [among, Finset.mem_filter]
  exact and_iff_right (Finset.mem_univ j)

/-- There are as many of them as there may be. -/
theorem card_among (hf : net.FullyConnected) {l : Lookup} {m : Nat}
    (hk : l.session.Keeps key m ((List.finRange n).map net.id)) :
    (among net l).card = min m n := by
  have himage : (among net l).image net.id = l.session.ids.toFinset := by
    ext id
    rw [Finset.mem_image, List.mem_toFinset]
    constructor
    · rintro ⟨j, hj, rfl⟩
      exact mem_among.mp hj
    · intro hid
      obtain ⟨j, _, rfl⟩ := List.mem_map.mp (hk.nearest.subset hid)
      exact ⟨j, mem_among.mpr hid, rfl⟩
  have hinj : Function.Injective net.id := fun i j => hf.id_inj i j
  have hall : ((List.finRange n).map net.id).Nodup := (List.nodup_finRange n).map hinj
  rw [← Finset.card_image_of_injective _ hinj, himage,
    List.toFinset_card_of_nodup hk.nearest.nodup, hk.nearest.length_kept hall, List.length_map,
    List.length_finRange]

/-- Nobody else is as close. -/
theorem gap_lt_of_among {l : Lookup} {m : Nat}
    (hk : l.session.Keeps key m ((List.finRange n).map net.id)) (hi : i ∈ among net l)
    (hj : j ∉ among net l) : key.gap (net.id i) < key.gap (net.id j) :=
  (hk.nearest.left_out _ (List.mem_map_of_mem (List.mem_finRange j))
    fun h => hj (mem_among.mpr h)).2 _ (mem_among.mp hi)

/-! ## Finding a value -/

end FullyConnected

/-- Exactly the nodes of a set have a value for a key, and they are the ones
closest to it. -/
structure Kept (net : Overlay n) (key : Id) (value : Bytes) (closest : Finset (Fin n)) : Prop where
  stored : ∀ j ∈ closest, net.value? j key = some value
  nowhere : ∀ j ∉ closest, net.value? j key = none
  closer : ∀ i ∈ closest, ∀ j ∉ closest, key.gap (net.id i) < key.gap (net.id j)

namespace FullyConnected

variable {value : Bytes} {closest : Finset (Fin n)}

/-- The value goes to the nodes that the search has come to. -/
theorem kept_of_placed (hf : net.FullyConnected) {l : Lookup} {net₁ : Overlay n} {m : Nat}
    (hk : l.session.Keeps key m ((List.finRange n).map net.id)) (hs : Searching net i l net₁)
    (hplaced : Placed net net' i key value l.session.peers)
    (hnone : ∀ j, net.value? j key = none) : net'.Kept key value (among net l) where
  stored j hj := by
    obtain ⟨c, hc, hid⟩ := Session.mem_ids.mp (mem_among.mp hj)
    obtain ⟨h, hh⟩ := hs.named c hc
    obtain rfl : h = j := hf.id_inj h j ((congrArg Peer.id hh).trans hid)
    refine hplaced.stored c.peer (List.mem_map_of_mem hc) h ?_
    rw [← hh]
    exact hf.receives_peer i h
  nowhere j hj := by
    refine (hplaced.kept j key fun _ p hp hpj => hj (mem_among.mpr ?_)).trans (hnone j)
    obtain ⟨c, hc, rfl⟩ := List.mem_map.mp hp
    rw [← hpj.id_eq]
    exact Session.mem_ids_of_mem hc
  closer a ha b hb := by
    rw [hplaced.id_eq, hplaced.id_eq]
    exact gap_lt_of_among hk ha hb

/-- The node closest to a key is one of those that a node names. -/
theorem mem_nodes_of_closest (hf : net.FullyConnected) {k : Nat} (hk : 0 < k) {nodes : List Peer}
    (hnames : net.Names i key k nodes) (hj : j ≠ i)
    (hmin : ∀ h, key.gap (net.id j) ≤ key.gap (net.id h)) : net.peer j ∈ nodes := by
  obtain ⟨offered, hnearest, hothers, hoffered⟩ := hf.nearest_of_names hnames
  have hmem : net.id j ∈ nodes.map (·.id) := by
    refine hnearest.mem_of_closest hk (hothers j hj) fun b hb => ?_
    obtain ⟨h, rfl⟩ := hoffered b hb
    exact hmin h
  obtain ⟨p, hp, hid⟩ := List.mem_map.mp hmem
  obtain ⟨h, rfl⟩ := hnames.exists_peer p hp
  obtain rfl : h = j := hf.id_inj h j hid
  exact hp

/-- The closest node is a candidate from the start, and not asked yet. -/
theorem exists_candidate (hf : net.FullyConnected) (hi : (net.id i).length = key.length)
    (hj : j ≠ i) (hmin : ∀ h, key.gap (net.id j) ≤ key.gap (net.id h)) {capacity : Option Nat}
    (hcap : ∀ m, capacity = some m → 0 < m) {k : UInt64} (hk : 0 < k.toNat) {nodes : List Peer}
    (hnames : net.Names i key k.toNat nodes) :
    ∃ c ∈ ((net.node i).openingLookup ⟨capacity, []⟩ key k nodes net).session.candidates,
      c.searched = false ∧ c.peer.id = net.id j := by
  have hmem := hf.mem_nodes_of_closest hk hnames hj hmin
  have hid : net.id j ∈
      ((net.node i).openingLookup ⟨capacity, []⟩ key k nodes net).session.ids := by
    cases capacity with
    | none => exact Node.mem_ids_openingLookup hmem
    | some m =>
        have hkeeps : ((net.node i).openingLookup (.bounded m) key k nodes net).session.Keeps key m
            (nodes.map (·.id) ++ [net.id i]) := Node.keeps_openingLookup hi hnames.length_eq
        refine hkeeps.nearest.mem_of_closest (hcap m rfl)
          (List.mem_append_left _ (List.mem_map_of_mem (f := Peer.id) hmem)) fun b hb => ?_
        rcases List.mem_append.mp hb with hb | hb
        · obtain ⟨p, hp, rfl⟩ := List.mem_map.mp hb
          obtain ⟨h, rfl⟩ := hnames.exists_peer p hp
          exact hmin h
        · rw [List.mem_singleton.mp hb]
          exact hmin i
  obtain ⟨c, hc, hcid⟩ := Session.mem_ids.mp hid
  refine ⟨c, hc, ?_, hcid⟩
  rcases Node.mem_openingLookup hc with ⟨p, _, rfl⟩ | hself
  · rfl
  · have hsame : net.id i = net.id j := (congrArg Peer.id hself).symm.trans hcid
    exact absurd (hf.id_inj i j hsame).symm hj

/-- **A search asks the closest node first**, and finds what it has. -/
theorem exists_found (hf : net.FullyConnected) (hi : (net.id i).length = key.length)
    (hnone : net.value? i key = none) (hmin : ∀ h, key.gap (net.id j) ≤ key.gap (net.id h))
    (hv : net.value? j key = some value) {capacity : Option Nat}
    (hcap : ∀ m, capacity = some m → 0 < m) {k : UInt64} (hk : 0 < k.toNat) :
    ∃ l₀ p l net', (net.node i).begin ⟨capacity, []⟩ key k net = (.ok (.lookup l₀), net) ∧
      l₀.run (net.node i) net = (.found p value, l, net') := by
  have hj : j ≠ i := by
    rintro rfl
    rw [hnone] at hv
    contradiction
  obtain ⟨nodes, hnames, hbegin, hs⟩ := hf.honest.begin_of_none hi hnone capacity k
  obtain ⟨c, hc, hunsearched, hid⟩ := hf.exists_candidate hi hj hmin hcap hk hnames
  have hadv := hs.advance hf.honest hf.listening
  have hmeasured := hs.sound.wellFormed.measured
  generalize hl : (net.node i).openingLookup ⟨capacity, []⟩ key k nodes net = l
    at hbegin hc hadv hmeasured
  have hkey : l.key = key := by
    rw [← hl]
    rfl
  have hpicked : ∀ d h, Picked l d → net.Receives i d.peer h → net.value? h l.key = some value := by
    intro d h hd hdh
    have hgap := hd.closest c hc hunsearched
    have hlen : (net.id j).length = key.length := (hf.length_eq j i).trans hi
    have hd' : d.peer.id.length = key.length := hkey ▸ (hmeasured d hd.mem).1
    have hfirst : d.peer.id = net.id j := by
      rw [hkey, hid, hdh.id_eq] at hgap
      rw [hdh.id_eq] at hd' ⊢
      exact Id.eq_of_gap_eq hd' hlen (Nat.le_antisymm hgap (hmin h))
    obtain rfl : h = j := hf.id_inj h j (hdh.id_eq.symm.trans hfirst)
    rw [hkey]
    exact hv
  generalize hstep : l.step (net.node i) net = result at hadv
  cases hadv with
  | exhausted hall =>
      rw [hall c hc] at hunsearched
      contradiction
  | found d h value' net' hd hdh hv' =>
      obtain rfl : value' = value := Option.some.inj (hv'.symm.trans (hpicked d h hd hdh))
      exact ⟨l, d.peer, _, net', hbegin, Lookup.run_of_step hstep⟩
  | settled d h nodes' net' _ hd hdh hnone' =>
      rw [hpicked d h hd hdh] at hnone'
      contradiction
  | widened d h nodes' net' hd hdh hnone' =>
      rw [hpicked d h hd hdh] at hnone'
      contradiction

end FullyConnected

/-! ## Whatever is called afterwards -/

/-- What the nodes of a network may be called to do.  Who sets a value asks for
at least one peer at each step; a call that panics does nothing. -/
inductive Called (net : Overlay n) : Overlay n → Prop where
  | bootstrap (i : Fin n) (target : Address) : Called net ((net.node i).bootstrap target net).2
  | get (i : Fin n) (key : Id) : Called net ((net.node i).getValue key net).2
  | set (i : Fin n) (key : Id) (value : Bytes) (outcome : Except Error Unit × Overlay n)
      (hreturned : 1 ≤ (net.seat i).config.peersReturnedSet.toNat)
      (hset : (net.node i).setValue? key value net = some outcome) : Called net outcome.2

namespace Kept

variable {value : Bytes} {closest : Finset (Fin n)}

theorem congr (h : net.Kept key value closest) (hid : ∀ j, net'.id j = net.id j)
    (hv : ∀ j, net'.value? j key = net.value? j key) : net'.Kept key value closest where
  stored j hj := (hv j).trans (h.stored j hj)
  nowhere j hj := (hv j).trans (h.nowhere j hj)
  closer i hi j hj := by
    rw [hid, hid]
    exact h.closer i hi j hj

/-- The node closest of all is one of those with the value. -/
theorem exists_closest (h : net.Kept key value closest) (hne : closest.Nonempty) :
    ∃ j, (∀ b, key.gap (net.id j) ≤ key.gap (net.id b)) ∧ net.value? j key = some value := by
  obtain ⟨a, ha⟩ := hne
  obtain ⟨j, _, hmin⟩ := Finset.univ.exists_min_image (fun b => key.gap (net.id b))
    ⟨a, Finset.mem_univ a⟩
  refine ⟨j, fun b => hmin b (Finset.mem_univ b), h.stored j ?_⟩
  by_contra hj
  exact absurd (h.closer a ha j hj) (Nat.not_lt.mpr (hmin a (Finset.mem_univ a)))

/-- Every node finds the value. -/
theorem getValue_eq (h : net.Kept key value closest) (hne : closest.Nonempty)
    (hf : net.FullyConnected) (hi : (net.id i).length = key.length)
    (hreturned : 1 ≤ (net.seat i).config.peersReturnedGet.toNat) :
    ((net.node i).getValue key net).1 = .ok value := by
  by_cases hmem : i ∈ closest
  · exact Node.getValue_of_here (hf.honest.begin_of_some hi (h.stored i hmem) none _)
  · obtain ⟨j, hmin, hv⟩ := h.exists_closest hne
    have hcap : ∀ m, (none : Option Nat) = some m → 0 < m := by simp
    obtain ⟨l₀, p, l, net', hbegin, hrun⟩ := hf.exists_found hi (h.nowhere i hmem) hmin hv
      hcap hreturned
    exact Node.getValue_of_found hbegin hrun

/-- No node sets another one. -/
theorem setValue_eq (h : net.Kept key value closest) (hne : closest.Nonempty)
    (hf : net.FullyConnected) (hi : (net.id i).length = key.length)
    (hmax : 1 ≤ (net.seat i).config.maxStores)
    (hreturned : 1 ≤ (net.seat i).config.peersReturnedSet.toNat) (other : Bytes) :
    ((net.node i).setValue key other net).1 = .error .alreadySet := by
  have hmax' : (net.node i).config.maxStores ≠ 0 := Nat.ne_of_gt hmax
  by_cases hmem : i ∈ closest
  · have hbegin := hf.honest.begin_of_some hi (h.stored i hmem)
      (some (net.seat i).config.maxStores) (net.seat i).config.peersReturnedSet
    rw [Node.setValue_of_seek_error (Node.seek_of_here hmax' hbegin)]
  · obtain ⟨j, hmin, hv⟩ := h.exists_closest hne
    have hcap : ∀ m, some (net.seat i).config.maxStores = some m → 0 < m := by
      intro m hm
      rw [← Option.some.inj hm]
      exact hmax
    obtain ⟨l₀, p, l, net', hbegin, hrun⟩ := hf.exists_found hi (h.nowhere i hmem) hmin hv
      hcap hreturned
    rw [Node.setValue_of_seek_error (Node.seek_of_found hmax' hbegin hrun)]

/-- Whatever is called, the value stays where it is. -/
theorem called (h : net.Kept key value closest) (hne : closest.Nonempty) (hf : net.FullyConnected)
    (hlen : ∀ i, (net.id i).length = key.length) (hc : Called net net') :
    net'.FullyConnected ∧ net'.Kept key value closest ∧
      ∀ i, (net'.seat i).config = (net.seat i).config ∧ net'.id i = net.id i := by
  have hquiet : ∀ {net₁}, Honest net₁ → Quiet net net₁ → net₁.FullyConnected ∧
      net₁.Kept key value closest ∧
      ∀ i, (net₁.seat i).config = (net.seat i).config ∧ net₁.id i = net.id i := by
    intro net₁ hn hq
    exact ⟨hq.fullyConnected hn hf, h.congr hq.id_eq fun j => hq.value?_eq j key,
      fun i => ⟨hq.config_eq i, hq.id_eq i⟩⟩
  cases hc with
  | bootstrap i target =>
      obtain ⟨hn, hq⟩ := hf.honest.quiet_bootstrap i target net
      exact hquiet hn hq
  | get i other =>
      obtain ⟨hn, hq, _⟩ := hf.honest.getValue hf.listening i other
      exact hquiet hn hq
  | set i other w outcome hreturned hset =>
      obtain ⟨-, rfl⟩ := Node.setValue?_eq_some_iff.mp hset
      have hout := hf.honest.setOutcome hf.listening i other w
      obtain ⟨hn, hg⟩ := hout.grown
      by_cases hkey : other = key
      · have herror : ∃ e, ((net.node i).setValue other w net).1 = .error e := by
          by_cases hmax : (net.node i).config.maxStores = 0
          · rw [Node.setValue, if_pos hmax]
            exact ⟨_, rfl⟩
          · rw [hkey]
            exact ⟨_, h.setValue_eq hne hf (hlen i) (Nat.pos_of_ne_zero hmax) hreturned w⟩
        obtain ⟨e, he⟩ := herror
        exact hquiet hn (hout.quiet he)
      · refine ⟨hg.fullyConnected hn hf, h.congr hg.id_eq fun j => ?_,
          fun i => ⟨hg.config_eq i, hg.id_eq i⟩⟩
        exact hout.value?_of_ne (Ne.symm hkey) j

end Kept

/-- **Setting a value in a fully connected network stores it at exactly the
nodes closest to its key**, as many as there are to be, if there is room for the
candidates.  Whatever is called afterwards, every node finds it there, and none
sets another one. -/
theorem FullyConnected.setValue_places (hf : net.FullyConnected)
    (hi : (net.id i).length = key.length)
    (hnone : ∀ j, net.value? j key = none) (hmax : 1 ≤ (net.seat i).config.maxStores)
    (hroom : (net.seat i).config.maxStores ≤ Session.maxCapacity)
    (hreturned : (net.seat i).config.maxStores ≤ (net.seat i).config.peersReturnedSet.toNat)
    (hmin : (net.seat i).config.minStores ≤ min (net.seat i).config.maxStores n) (value : Bytes) :
    ∃ net', (net.node i).setValue? key value net = some (.ok (), net') ∧
      ∃ closest : Finset (Fin n), closest.card = min (net.seat i).config.maxStores n ∧
        (∀ a ∈ closest, ∀ b ∉ closest, key.gap (net.id a) < key.gap (net.id b)) ∧
        (∀ j ∈ closest, net'.value? j key = some value) ∧
        (∀ j ∉ closest, net'.value? j key = none) ∧
        ∀ later, Relation.ReflTransGen Called net' later → ∀ h : Fin n,
          (1 ≤ (net.seat h).config.peersReturnedGet.toNat →
            ((later.node h).getValue key later).1 = .ok value) ∧
          (1 ≤ (net.seat h).config.maxStores →
            (net.seat h).config.maxStores ≤ Session.maxCapacity →
            1 ≤ (net.seat h).config.peersReturnedSet.toNat → ∀ other, ∃ later',
              (later.node h).setValue? key other later = some (.error .alreadySet, later') ∧
                ∀ j any, later'.value? j any = later.value? j any) := by
  obtain ⟨l, net₁, hseek, hkeeps⟩ := hf.exists_seek hi hnone hmax hreturned
  have hcard := card_among hf hkeeps
  have henough : (net.seat i).config.minStores ≤ l.session.peers.length := by
    have hall : ((List.finRange n).map net.id).Nodup :=
      (List.nodup_finRange n).map fun i j => hf.id_inj i j
    have hlen := hkeeps.nearest.length_kept hall
    rw [List.length_map, List.length_finRange, Session.ids, List.length_map] at hlen
    rw [Session.peers, List.length_map, hlen]
    exact hmin
  obtain ⟨_, hs⟩ := hf.honest.of_seek hf.listening hseek
  obtain ⟨net', hset, hplaced⟩ := hf.honest.setValue_of_seek hf.listening hseek henough value
  have hkept := hf.kept_of_placed hkeeps hs hplaced hnone
  have hne : (among net l).Nonempty := by
    rw [← Finset.card_pos, hcard]
    have hn : 0 < n := Nat.lt_of_le_of_lt (Nat.zero_le i) i.isLt
    omega
  refine ⟨net', (Node.setValue?_of_le hroom).trans (congrArg some hset), among net l, hcard,
    fun a ha b hb => gap_lt_of_among hkeeps ha hb, hkept.stored, hkept.nowhere,
    fun later hlater h => ?_⟩
  have hinv : later.FullyConnected ∧ later.Kept key value (among net l) ∧
      ∀ i, (later.seat i).config = (net.seat i).config ∧ later.id i = net.id i := by
    induction hlater with
    | refl =>
        exact ⟨hplaced.fullyConnected hplaced.honest hf, hkept,
          fun i => ⟨hplaced.config_eq i, hplaced.id_eq i⟩⟩
    | tail _ hcall ih =>
        obtain ⟨hf₂, hkept₂, hsame₂⟩ := ih
        have hlen : ∀ j, (Network.id _ j).length = key.length := fun j =>
          (congrArg Id.length (hsame₂ j).2).trans ((hf.length_eq j i).trans hi)
        obtain ⟨hf₃, hkept₃, hsame₃⟩ := hkept₂.called hne hf₂ hlen hcall
        exact ⟨hf₃, hkept₃, fun j => ⟨(hsame₃ j).1.trans (hsame₂ j).1,
          (hsame₃ j).2.trans (hsame₂ j).2⟩⟩
  obtain ⟨hfl, hkeptl, hsame⟩ := hinv
  have hlen : (later.id h).length = key.length :=
    (congrArg Id.length (hsame h).2).trans ((hf.length_eq h i).trans hi)
  rw [← (hsame h).1]
  refine ⟨fun hget => hkeptl.getValue_eq hne hfl hlen hget, fun hmax' hroom' hset' other => ?_⟩
  have halready := hkeptl.setValue_eq hne hfl hlen hmax' hset' other
  have hquiet := (hfl.honest.setOutcome hfl.listening h key other).quiet halready
  exact ⟨_, (Node.setValue?_of_le hroom').trans (congrArg some (Prod.ext halready rfl)),
    fun j any => hquiet.value?_eq j any⟩

/-- Three nodes, the last of which joins through both others. -/
def mesh : Overlay 3 :=
  Small.join (Small.join (Small.join Network.empty 1 2 []) 2 4 ["10.0.0.1:1"]) 3 1
    ["10.0.0.1:1", "10.0.0.1:2"]

theorem fullyConnected_mesh : mesh.FullyConnected := by
  have hfirst := Small.run_join Run.start 1 2 [] fun i => i.elim0
  have hpair := Small.run_join hfirst 2 4 ["10.0.0.1:1"] (by decide +kernel)
  have hrun := Small.run_join hpair 3 1 ["10.0.0.1:1", "10.0.0.1:2"] (by decide +kernel)
  obtain ⟨hn, hl, _⟩ := hrun.ready
  exact ⟨⟨hn.faultless, hn.addressed, hn.wellFormed, hl, by decide +kernel, by decide +kernel,
    by decide +kernel⟩, hn.known⟩

/-- The node farthest from the key stores a value at the two others. -/
theorem setValue_mesh :
    ∃ net', (mesh.node 1).setValue? (Small.id 0) [7] mesh = some (.ok (), net') ∧
    ∃ closest : Finset (Fin 3), closest.card = 2 ∧
      (∀ j ∈ closest, net'.value? j (Small.id 0) = some [7]) ∧
      ∀ later, Relation.ReflTransGen Called net' later → ∀ h : Fin 3,
        ((later.node h).getValue (Small.id 0) later).1 = .ok [7] := by
  have hlen : (mesh.id 1).length = (Small.id 0).length := by decide +kernel
  have hnone : ∀ j, mesh.value? j (Small.id 0) = none := by decide +kernel
  obtain ⟨net', hset, closest, hcard, _, hstored, _, hlater⟩ :=
    FullyConnected.setValue_places fullyConnected_mesh hlen hnone (by decide +kernel)
      (by decide +kernel) (by decide +kernel) (by decide +kernel) [7]
  have hcard' : closest.card = 2 := by
    rw [hcard]
    decide +kernel
  have hreturned : ∀ h : Fin 3, 1 ≤ (mesh.seat h).config.peersReturnedGet.toNat := by
    decide +kernel
  exact ⟨net', hset, closest, hcard', hstored,
    fun later hcalls h => (hlater later hcalls h).1 (hreturned h)⟩

namespace Stale

/-- A node that is to store at one node only. -/
def seat (byte : UInt8) (port : UInt16) (known : List Peer) : Seat RoutingTable MemoryStorage where
  config := { Small.config byte [] with maxStores := 1 }
  address := Small.address port
  server := ⟨known.foldl RoutingTable.meet
    (.empty (Small.id byte) RoutingTable.defaultBucketSize), {}⟩

/-- Two nodes that know each other.  The first one remembers a peer that is gone,
and is closer to the key than both. -/
def network : Overlay 2 where
  seats := #v[
    seat 2 1 [⟨Small.id 4, Small.address 2⟩, ⟨Small.id 1, Small.address 9⟩],
    seat 4 2 [⟨Small.id 2, Small.address 1⟩]]

theorem wellFormed_seat (byte : UInt8) (port : UInt16) (known : List Peer) :
    (seat byte port known).server.peers.WellFormed :=
  List.foldlRecOn known _ (RoutingTable.wellFormed_empty _ _) fun _ ht p _ => ht.meet p

theorem mutuallyKnown_network : network.MutuallyKnown where
  faultless := rfl
  addressed := by decide +kernel
  wellFormed i := by
    match i with
    | 0 => exact wellFormed_seat 2 1 _
    | 1 => exact wellFormed_seat 4 2 _
  listening i := by
    revert i
    decide +kernel
  id_inj := by decide +kernel
  length_eq := by decide +kernel
  complete := by decide +kernel

end Stale

/-- It is not enough that all nodes know each other: where the peer closest to
the key is gone, a node that is to store there stores nowhere. -/
theorem not_setValue_places : ¬ ∀ (n : Nat) (net : Overlay n) (i : Fin n) (key : Id)
    (value : Bytes), net.MutuallyKnown → (net.id i).length = key.length →
      (∀ j, net.value? j key = none) → 1 ≤ (net.seat i).config.maxStores →
      (net.seat i).config.maxStores ≤ (net.seat i).config.peersReturnedSet.toNat →
      (net.seat i).config.minStores ≤ min (net.seat i).config.maxStores n →
      ∃ net', (net.node i).setValue? key value net = some (.ok (), net') := by
  intro h
  obtain ⟨net', hset⟩ := h 2 Stale.network 0 (Small.id 0) [0xaa] Stale.mutuallyKnown_network
    (by decide +kernel) (by decide +kernel) (by decide +kernel) (by decide +kernel)
    (by decide +kernel)
  have hok : ((Stale.network.node 0).setValue (Small.id 0) [0xaa] Stale.network).1 = .ok () :=
    congrArg Prod.fst (Node.setValue?_eq_some_iff.mp hset).2
  revert hok
  decide +kernel

end Network
end Kademlia
