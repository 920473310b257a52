import Kademlia.Proofs.Overlay

/-!
# Kademlia.Proofs.OverlaySearch

Searches in honest networks.  No peer is asked in vain, so a step of such a
search finds a value, or learns of peers, or is the last one
(`Network.Searching.advance`); all the while nobody's values change, and
nobody who was asked has one (`Network.Searching`).
-/

namespace Kademlia

namespace Network

variable {n : Nat} {net net₀ net' : Overlay n} {i j h : Fin n} {key : Id} {l l' : Lookup}

/-! ## What carries over -/

theorem Quiet.receives_iff (hq : Quiet net₀ net) {p : Peer} :
    net.Receives i p j ↔ net₀.Receives i p j := by
  rw [Receives, Receives, hq.id_eq, hq.peer_eq]

theorem Quiet.names (hq : Quiet net₀ net) {k : Nat} {nodes : List Peer}
    (hnames : net.Names j key k nodes) : net₀.Names j key k nodes := by
  obtain ⟨table, hgrown, hknown, hmem, hnearest⟩ := hnames
  refine ⟨table, fun p hp => hgrown p (hq.known j p hp), fun p hp => ?_, hmem, hnearest⟩
  obtain ⟨hlen, h, rfl⟩ := hknown p hp
  exact ⟨hlen, h, (hq.peer_eq h).symm⟩

theorem Quiet.answers (hq : Quiet net₀ net) {k : Nat} {reply : GetReply}
    (hans : net.Answers j key k reply) : net₀.Answers j key k reply where
  responder_eq := hans.responder_eq.trans (hq.id_eq j)
  value_eq := hans.value_eq.trans (hq.value?_eq j key)
  length_eq := hans.length_eq
  names hv := hq.names (hans.names hv)

/-- A request to a peer reaches one node. -/
theorem Receives.unique (hn : Honest net) {p : Peer} (hj : net.Receives i p j)
    (hh : net.Receives i p h) : j = h := by
  rcases hj with ⟨hid, rfl⟩ | ⟨hid, hpj⟩ <;> rcases hh with ⟨hid', rfl⟩ | ⟨hid', hph⟩
  · rfl
  · exact absurd hid hid'
  · exact absurd hid' hid
  · exact hn.peer_inj (hpj.trans hph.symm)

/-- A request to a peer reaches a node of its id. -/
theorem Receives.id_eq {p : Peer} (h : net.Receives i p j) : p.id = net.id j := by
  rcases h with ⟨hid, rfl⟩ | ⟨_, rfl⟩
  · exact hid
  · rfl

theorem Names.exists_peer {k : Nat} {nodes : List Peer} (hnames : net.Names j key k nodes) :
    ∀ p ∈ nodes, ∃ h, net.peer h = p := by
  obtain ⟨table, _, hknown, hmem, _⟩ := hnames
  exact fun p hp => (hknown p (hmem p hp)).2

/-- To meet the peers that a node names is honest. -/
theorem Names.meetAll {k : Nat} {nodes : List Peer} (hnames : net₀.Names j key k nodes)
    (hn : Honest net) (hq : Quiet net₀ net) (i : Fin n) :
    Honest (net.meetAll i nodes) ∧ Quiet net₀ (net.meetAll i nodes) := by
  have hpeers : ∀ p ∈ nodes, ∃ h, net.peer h = p := by
    intro p hp
    obtain ⟨h, hh⟩ := hnames.exists_peer p hp
    exact ⟨h, (hq.peer_eq h).trans hh⟩
  exact ⟨hn.meetAll i hpeers, hq.trans (Quiet.meetAll net i nodes)⟩

/-! ## A search under way -/

/-- A search of node `i` that began in `net₀` and has come to `net`: all
candidates are nodes, and nobody who was asked has a value. -/
structure Searching (net₀ : Overlay n) (i : Fin n) (l : Lookup) (net : Overlay n) : Prop where
  honest : net.Honest
  quiet : Quiet net₀ net
  sound : l.Sound (net₀.node i) net
  named : ∀ c ∈ l.session.candidates, ∃ j, net₀.peer j = c.peer
  asked : ∀ c ∈ l.session.candidates, c.searched = true →
    ∀ j, net₀.Receives i c.peer j → net₀.value? j l.key = none
  errors_nil : l.errors = []

/-- The candidate that is asked next: the closest one that was not asked yet. -/
structure Picked (l : Lookup) (c : Candidate) : Prop where
  mem : c ∈ l.session.candidates
  unsearched : c.searched = false
  closest : ∀ d ∈ l.session.candidates, d.searched = false →
    l.key.gap c.peer.id ≤ l.key.gap d.peer.id

/-- What a step of a search in an honest network can come to. -/
inductive Advance (net₀ : Overlay n) (i : Fin n) (l : Lookup) (net : Overlay n) :
    Option Lookup.Ending × Lookup × Overlay n → Prop where
  /-- Everybody was asked. -/
  | exhausted (hall : ∀ c ∈ l.session.candidates, c.searched = true) :
      Advance net₀ i l net (some .exhausted, l, net)
  /-- A node has a value. -/
  | found (c : Candidate) (j : Fin n) (value : Bytes) (net' : Overlay n) (hc : Picked l c)
      (hj : net₀.Receives i c.peer j) (hv : net₀.value? j l.key = some value)
      (hn : Honest net') (hq : Quiet net₀ net') :
      Advance net₀ i l net
        (some (.found c.peer value), { l with session := l.session.markSearched c.peer.id }, net')
  /-- A node has none, and names nobody that a bounded session takes. -/
  | settled (c : Candidate) (j : Fin n) (nodes : List Peer) (net' : Overlay n)
      (hbounded : l.session.isBounded = true) (hc : Picked l c)
      (hj : net₀.Receives i c.peer j) (hnone : net₀.value? j l.key = none)
      (hnames : net₀.Names j l.key l.k.toNat nodes)
      (hs : Searching net₀ i { l with session := l.session.markSearched c.peer.id } net') :
      Advance net₀ i l net
        (some .settled, { l with session := l.session.markSearched c.peer.id }, net')
  /-- A node has none, and names new candidates, or nobody new to a session without bound. -/
  | widened (c : Candidate) (j : Fin n) (nodes : List Peer) (net' : Overlay n) (hc : Picked l c)
      (hj : net₀.Receives i c.peer j) (hnone : net₀.value? j l.key = none)
      (hnames : net₀.Names j l.key l.k.toNat nodes)
      (htaken : l.session.isBounded = true → ((l.session.markSearched c.peer.id).merge
        (nodes.map (Candidate.fresh l.key))).1 ≠ 0)
      (hs : Searching net₀ i { l with session := ((l.session.markSearched c.peer.id).merge
        (nodes.map (Candidate.fresh l.key))).2 } net') :
      Advance net₀ i l net
        (none, { l with session := ((l.session.markSearched c.peer.id).merge
          (nodes.map (Candidate.fresh l.key))).2 }, net')

/-- Nobody who was asked has a value, the one asked just now included. -/
theorem Searching.markSearched (hs : Searching net₀ i l net) {c : Candidate} (hc : Picked l c)
    (hj : net₀.Receives i c.peer j) (hv : net₀.value? j l.key = none)
    (hn : Honest net') (hq : Quiet net₀ net')
    (hsound :
      Lookup.Sound (net₀.node i) { l with session := l.session.markSearched c.peer.id } net')
    (hn₀ : Honest net₀) :
    Searching net₀ i { l with session := l.session.markSearched c.peer.id } net' := by
  refine ⟨hn, hq, hsound, ?_, ?_, hs.errors_nil⟩
  · intro d hd
    rcases Session.mem_markSearched hd with ⟨hd, _⟩ | ⟨e, he, _, rfl⟩
    · exact hs.named d hd
    · exact hs.named e he
  · intro d hd hsearched h hh
    rcases Session.mem_markSearched hd with ⟨hd, _⟩ | ⟨e, he, hid, rfl⟩
    · exact hs.asked d hd hsearched h hh
    · obtain rfl : e = c := Session.eq_of_id_eq hs.sound.wellFormed.nodup he hc.mem hid
      obtain rfl : j = h := hj.unique hn₀ hh
      exact hv

/-- New candidates were not asked. -/
theorem Searching.merge (hs : Searching net₀ i l net) {k : Nat} {nodes : List Peer}
    (hnames : net₀.Names j l.key k nodes)
    (hsound : Lookup.Sound (net₀.node i)
      { l with session := (l.session.merge (nodes.map (Candidate.fresh l.key))).2 } net')
    (hn : Honest net') (hq : Quiet net₀ net') :
    Searching net₀ i
      { l with session := (l.session.merge (nodes.map (Candidate.fresh l.key))).2 } net' := by
  refine ⟨hn, hq, hsound, ?_, ?_, hs.errors_nil⟩
  · intro d hd
    rcases Session.mem_candidates_merge hd with hd | hd
    · obtain ⟨p, hp, rfl⟩ := List.mem_map.mp hd
      exact hnames.exists_peer p hp
    · exact hs.named d hd
  · intro d hd hsearched
    rcases Session.mem_candidates_merge hd with hd | hd
    · obtain ⟨p, _, rfl⟩ := List.mem_map.mp hd
      contradiction
    · exact hs.asked d hd hsearched

/-- The candidate that a session gives out is a closest one that was not asked. -/
theorem Searching.picked (hs : Searching net₀ i l net) {c : Candidate} {session : Session}
    (hnext : l.session.next? = some (c, session)) :
    ∃ e, Picked l e ∧ c.peer = e.peer ∧ session = l.session.markSearched e.peer.id := by
  obtain ⟨e, he, hunsearched, rfl, rfl, hclosest⟩ := Session.of_next? hnext
  refine ⟨e, ⟨he, hunsearched, fun d hd hds => ?_⟩, rfl, rfl⟩
  rw [← hs.sound.wellFormed.gap_eq he, ← hs.sound.wellFormed.gap_eq hd]
  exact hclosest d hd hds

/-- Every candidate answers, with what it kept or knew when the search began. -/
theorem Searching.ask (hs : Searching net₀ i l net) (hl : net₀.Listening) {c : Candidate}
    (hc : c ∈ l.session.candidates) : ∃ j reply net', net₀.Receives i c.peer j ∧
      (net₀.node i).ask c.peer ⟨l.key, l.k⟩ net = (.ok reply, net') ∧
      Honest net' ∧ Quiet net₀ net' ∧ net₀.Answers j l.key l.k.toNat reply := by
  have hpeer : ∃ j, net.peer j = c.peer := by
    obtain ⟨j, hj⟩ := hs.named c hc
    exact ⟨j, (hs.quiet.peer_eq j).trans hj⟩
  obtain ⟨j, reply, net', hj, heq, hn', hq', hans⟩ := hs.honest.ask (hs.quiet.listening hl)
    hs.sound.length_eq hpeer (hs.sound.wellFormed.measured c hc).1 l.k net₀
  exact ⟨j, reply, net', hs.quiet.receives_iff.mp hj, heq, hn', hs.quiet.trans hq',
    hs.quiet.answers hans⟩

/-- **No peer is asked in vain**, and every answer is what a node keeps or knows. -/
theorem Searching.advance (hs : Searching net₀ i l net) (hn₀ : Honest net₀)
    (hl : net₀.Listening) : Advance net₀ i l net (l.step (net₀.node i) net) := by
  have hlaw := lawful_node net₀ i
  have hst := Lookup.stepped hlaw hs.sound
  generalize hstep : l.step (net₀.node i) net = result at hst ⊢
  have hsound := fun ending l' s' (h : Lookup.Stepped (net₀.node i) l net (ending, l', s')) =>
    h.sound hlaw hs.sound
  cases hst with
  | exhausted hnext => exact .exhausted (Session.next?_eq_none_iff.mp hnext)
  | skipped c session e s' hnext ha =>
      obtain ⟨d, hd, hpeer, rfl⟩ := hs.picked hnext
      obtain ⟨j, reply, net', _, heq, _⟩ := hs.ask hl hd.mem
      rw [hpeer, heq] at ha
      simp at ha
  | aborted c session e s' hnext ha =>
      obtain ⟨d, hd, hpeer, rfl⟩ := hs.picked hnext
      obtain ⟨j, reply, net', _, heq, _⟩ := hs.ask hl hd.mem
      rw [hpeer, heq] at ha
      simp at ha
  | found c session reply value s' hnext ha hv =>
      obtain ⟨d, hd, hpeer, rfl⟩ := hs.picked hnext
      obtain ⟨j, reply', net', hj, heq, hn', hq', hans⟩ := hs.ask hl hd.mem
      rw [hpeer, heq] at ha
      obtain ⟨rfl, rfl⟩ : reply' = reply ∧ net' = s' := by simpa using ha
      rw [hpeer]
      exact .found d j value net' hd hj (hans.value_eq.symm.trans hv) hn' hq'
  | settled c session reply s' hnext ha hv hbounded htaken =>
      have hsound' := hsound _ _ _ (.settled c session reply s' hnext ha hv hbounded htaken)
      obtain ⟨d, hd, hpeer, rfl⟩ := hs.picked hnext
      obtain ⟨j, reply', net', hj, heq, hn', hq', hans⟩ := hs.ask hl hd.mem
      rw [hpeer, heq] at ha
      obtain ⟨rfl, rfl⟩ : reply' = reply ∧ net' = s' := by simpa using ha
      have hnames := hans.names hv
      have hnone : net₀.value? j l.key = none := hans.value_eq.symm.trans hv
      obtain ⟨hmet, hquiet⟩ := hnames.meetAll hn' hq' i
      exact .settled d j reply'.nodes _ hbounded hd hj hnone hnames (hs.markSearched hd hj hnone
        hmet hquiet hsound' hn₀)
  | widened c session reply s' hnext ha hv htaken =>
      have hsound' := hsound _ _ _ (.widened c session reply s' hnext ha hv htaken)
      obtain ⟨d, hd, hpeer, rfl⟩ := hs.picked hnext
      obtain ⟨j, reply', net', hj, heq, hn', hq', hans⟩ := hs.ask hl hd.mem
      rw [hpeer, heq] at ha
      obtain ⟨rfl, rfl⟩ : reply' = reply ∧ net' = s' := by simpa using ha
      have hnames := hans.names hv
      have hnone : net₀.value? j l.key = none := hans.value_eq.symm.trans hv
      obtain ⟨hmet, hquiet⟩ := hnames.meetAll hn' hq' i
      have hid : net'.id i = net.id i := (hq'.id_eq i).trans (hs.quiet.id_eq i).symm
      have hmarked := hs.markSearched hd hj hnone hn' hq'
        ⟨(congrArg Id.length hid).trans hs.sound.length_eq, hs.sound.wellFormed.markSearched _⟩ hn₀
      exact .widened d j reply'.nodes _ hd hj hnone hnames htaken
        (hmarked.merge hnames hsound' hmet hquiet)

/-! ## Beginnings and ends -/

/-- A node begins with its own value, or with a search among those it knows. -/
theorem Honest.begin (hn : Honest net) (hi : (net.id i).length = key.length)
    (capacity : Option Nat) (k : UInt64) :
    (∃ value, net.value? i key = some value ∧
      (net.node i).begin ⟨capacity, []⟩ key k net = (.ok (.here value), net)) ∨
    (net.value? i key = none ∧ ∃ nodes, net.Names i key k.toNat nodes ∧
      (net.node i).begin ⟨capacity, []⟩ key k net =
        (.ok (.lookup ((net.node i).openingLookup ⟨capacity, []⟩ key k nodes net)), net) ∧
      Searching net i ((net.node i).openingLookup ⟨capacity, []⟩ key k nodes net) net) := by
  obtain ⟨reply, hlook, hans⟩ := hn.exists_lookUp (Quiet.refl net) hi k
  have hbegin := Node.beginning (lawful_node net i) ⟨capacity, []⟩ key k net
  generalize hresult : (net.node i).begin ⟨capacity, []⟩ key k net = result at hbegin ⊢
  cases hbegin with
  | foreign hl => exact absurd hi hl
  | unable _ code herror =>
      have hsame := hlook.symm.trans herror
      contradiction
  | here _ responder value nodes hok =>
      obtain rfl := Except.ok.inj (hlook.symm.trans hok)
      exact .inl ⟨value, hans.value_eq.symm, rfl⟩
  | unmeasured _ responder nodes hok hnodes =>
      obtain rfl := Except.ok.inj (hlook.symm.trans hok)
      exact absurd hans.length_eq hnodes
  | lookup _ responder nodes hok hnodes =>
      obtain rfl := Except.ok.inj (hlook.symm.trans hok)
      have hnone : net.value? i key = none := hans.value_eq.symm
      have hnames := hans.names rfl
      refine .inr ⟨hnone, nodes, hnames, rfl, ?_⟩
      have hsound := (Node.sound_of_begin (lawful_node net i) hresult).1
      refine ⟨hn, Quiet.refl net, hsound, ?_, ?_, rfl⟩
      · intro c hc
        rcases Node.mem_openingLookup hc with ⟨p, hp, rfl⟩ | hself
        · exact hnames.exists_peer p hp
        · exact ⟨i, hself.symm⟩
      · intro c hc hsearched j hj
        rcases Node.mem_openingLookup hc with ⟨p, _, rfl⟩ | hself
        · contradiction
        · rw [hself] at hj
          rcases hj with ⟨_, rfl⟩ | ⟨hid, _⟩
          · exact hnone
          · exact absurd rfl hid

/-- A node with a value begins with it. -/
theorem Honest.begin_of_some (hn : Honest net) (hi : (net.id i).length = key.length)
    {value : Bytes} (hv : net.value? i key = some value) (capacity : Option Nat) (k : UInt64) :
    (net.node i).begin ⟨capacity, []⟩ key k net = (.ok (.here value), net) := by
  rcases hn.begin hi capacity k with ⟨v, hv', heq⟩ | ⟨hnone, _⟩
  · obtain rfl : v = value := Option.some.inj (hv'.symm.trans hv)
    exact heq
  · rw [hv] at hnone
    contradiction

/-- A node without one begins a search. -/
theorem Honest.begin_of_none (hn : Honest net) (hi : (net.id i).length = key.length)
    (hnone : net.value? i key = none) (capacity : Option Nat) (k : UInt64) :
    ∃ nodes, net.Names i key k.toNat nodes ∧
      (net.node i).begin ⟨capacity, []⟩ key k net =
        (.ok (.lookup ((net.node i).openingLookup ⟨capacity, []⟩ key k nodes net)), net) ∧
      Searching net i ((net.node i).openingLookup ⟨capacity, []⟩ key k nodes net) net := by
  rcases hn.begin hi capacity k with ⟨v, hv, _⟩ | ⟨_, hnodes⟩
  · rw [hnone] at hv
    contradiction
  · exact hnodes

theorem Honest.of_begin_here (hn : Honest net) {capacity : Option Nat} {k : UInt64} {value : Bytes}
    (h : (net.node i).begin ⟨capacity, []⟩ key k net = (.ok (.here value), net')) :
    net.value? i key = some value := by
  have hi : (net.id i).length = key.length := Node.length_eq_of_begin (lawful_node net i) h
  rcases hn.begin hi capacity k with ⟨v, hv, heq⟩ | ⟨_, nodes, _, heq, _⟩
  · rw [heq] at h
    obtain ⟨rfl, _⟩ : v = value ∧ net = net' := by simpa using h
    exact hv
  · rw [heq] at h
    simp at h

theorem Honest.of_begin_lookup (hn : Honest net) {capacity : Option Nat} {k : UInt64}
    (h : (net.node i).begin ⟨capacity, []⟩ key k net = (.ok (.lookup l), net')) :
    (net.id i).length = key.length ∧ net.value? i key = none ∧
      ∃ nodes, net.Names i key k.toNat nodes ∧
        l = (net.node i).openingLookup ⟨capacity, []⟩ key k nodes net ∧ Searching net i l net := by
  have hi : (net.id i).length = key.length := Node.length_eq_of_begin (lawful_node net i) h
  rcases hn.begin hi capacity k with ⟨v, _, heq⟩ | ⟨hnone, nodes, hnames, heq, hs⟩
  · rw [heq] at h
    simp at h
  · rw [heq] at h
    obtain ⟨rfl, _⟩ :
        (net.node i).openingLookup ⟨capacity, []⟩ key k nodes net = l ∧ net = net' := by
      simpa using h
    exact ⟨hi, hnone, nodes, hnames, rfl, hs⟩

/-- How a search for a key ends that node `i` began in `net₀`: with a value that
a node keeps, or among nodes without one. -/
structure Ended (net₀ : Overlay n) (i : Fin n) (key : Id) (ending : Lookup.Ending) (l : Lookup)
    (net : Overlay n) : Prop where
  honest : Honest net
  quiet : Quiet net₀ net
  errors_nil : l.errors = []
  key_eq : l.key = key
  exhausted : ending = .exhausted → ∀ c ∈ l.session.candidates, c.searched = true
  settled : ending = .settled → ∃ c ∈ l.session.candidates, c.searched = true ∧
    ∀ d ∈ l.session.candidates, d.searched = false → key.gap c.peer.id ≤ key.gap d.peer.id
  outcome : (∃ p value j, ending = .found p value ∧ net₀.value? j key = some value) ∨
    ((ending = .settled ∨ ending = .exhausted ∨ ending = .cutOff) ∧ Searching net₀ i l net)

theorem Searching.runFor (hs : Searching net₀ i l net) (hn₀ : Honest net₀) (hl : net₀.Listening)
    {fuel : Nat} {ending : Lookup.Ending}
    (hrun : Lookup.runFor (net₀.node i) fuel l net = (ending, l', net')) :
    Ended net₀ i l.key ending l' net' := by
  have hrule := Lookup.runFor_rule
    (fun l₁ net₁ => Searching net₀ i l₁ net₁ ∧ l₁.key = l.key) (Ended net₀ i l.key)
    ?_ ?_ ⟨hs, rfl⟩ fuel hrun
  · rcases hrule with ⟨rfl, hs', hkey⟩ | hended
    · exact ⟨hs'.honest, hs'.quiet, hs'.errors_nil, hkey, by simp, by simp,
        .inr ⟨.inr (.inr rfl), hs'⟩⟩
    · exact hended
  · rintro l₁ net₁ l₂ net₂ ⟨hs₁, hkey⟩ hstep
    have hadv := hs₁.advance hn₀ hl
    rw [hstep] at hadv
    cases hadv with
    | widened c j nodes net' hc hj hnone hnames htaken hs₂ => exact ⟨hs₂, hkey⟩
  · rintro l₁ net₁ e l₂ net₂ ⟨hs₁, hkey⟩ hstep
    have hadv := hs₁.advance hn₀ hl
    rw [hstep] at hadv
    cases hadv with
    | exhausted hall =>
        exact ⟨hs₁.honest, hs₁.quiet, hs₁.errors_nil, hkey, fun _ => hall, by simp,
          .inr ⟨.inr (.inl rfl), hs₁⟩⟩
    | found c j value net' hc hj hv hn hq =>
        exact ⟨hn, hq, hs₁.errors_nil, hkey, by simp, by simp,
          .inl ⟨c.peer, value, j, rfl, hkey ▸ hv⟩⟩
    | settled c j nodes net' _ hc hj hnone hnames hs₂ =>
        refine ⟨hs₂.honest, hs₂.quiet, hs₂.errors_nil, hkey, by simp,
          fun _ => ⟨_, Session.mem_markSearched_of_mem hc.mem, rfl, ?_⟩, .inr ⟨.inl rfl, hs₂⟩⟩
        intro d hd hunsearched
        rcases Session.mem_markSearched hd with ⟨hd, _⟩ | ⟨e, _, _, rfl⟩
        · exact hkey ▸ hc.closest d hd hunsearched
        · contradiction

/-! ## Getting a value -/

theorem evict_nil (net₀ : Overlay n) (i : Fin n) (net : Overlay n) :
    (net₀.node i).evict [] net = net := setServer_server net i

/-- **To get a value finds one that a node keeps, or nothing**, and changes
nothing but who knows whom. -/
theorem Honest.getValue (hn : Honest net) (hl : net.Listening) (i : Fin n) (key : Id) :
    Honest ((net.node i).getValue key net).2 ∧ Quiet net ((net.node i).getValue key net).2 ∧
      ∀ value, ((net.node i).getValue key net).1 = .ok value →
        ∃ j, net.value? j key = some value := by
  have hget := Node.getting (lawful_node net i) key net
  generalize (net.node i).getValue key net = result at hget ⊢
  cases hget with
  | refused e => exact ⟨hn, Quiet.refl net, by simp⟩
  | here value hbegin =>
      refine ⟨hn, Quiet.refl net, fun v hv => ⟨i, ?_⟩⟩
      rw [← Except.ok.inj hv]
      exact hn.of_begin_here hbegin
  | searched l₀ l ending net' hbegin hrun =>
      obtain ⟨_, _, nodes, _, rfl, hs⟩ := hn.of_begin_lookup hbegin
      have hended := hs.runFor hn hl hrun
      rw [hended.errors_nil, evict_nil]
      refine ⟨hended.honest, hended.quiet, fun v hv => ?_⟩
      rcases hended.outcome with ⟨p, value, j, rfl, hj⟩ | ⟨hending, _⟩
      · obtain rfl : value = v := Except.ok.inj hv
        exact ⟨j, hj⟩
      · rcases hending with rfl | rfl | rfl <;> simp [Node.searchResult] at hv

/-! ## Setting a value -/

/-- Somebody receives each request. -/
theorem exists_receives (i : Fin n) {p : Peer} (hp : ∃ j, net.peer j = p) :
    ∃ j, net.Receives i p j := by
  by_cases hid : p.id = net.id i
  · exact ⟨i, .inl ⟨hid, rfl⟩⟩
  · obtain ⟨j, hj⟩ := hp
    exact ⟨j, .inr ⟨hid, hj⟩⟩

/-- After node `i` stored a value at some peers: whoever they reach keeps it,
and nobody else's values change. -/
structure Placed (net net' : Overlay n) (i : Fin n) (key : Id) (value : Bytes)
    (storers : List Peer) : Prop extends Grown net net' where
  honest : Honest net'
  stored : ∀ p ∈ storers, ∀ j, net.Receives i p j → net'.value? j key = some value
  kept : ∀ j other, (other = key → ∀ p ∈ storers, ¬ net.Receives i p j) →
    net'.value? j other = net.value? j other

/-- **Every replica succeeds.** -/
theorem Honest.replicate (hn : Honest net) (hl : net.Listening)
    (hi : (net.id i).length = key.length) {storers : List Peer}
    (hstorers : ∀ p ∈ storers, (∃ j, net.peer j = p) ∧ p.id.length = key.length)
    (value : Bytes) (net₀ : Overlay n) :
    ∃ net', (net₀.node i).replicate ⟨key, value⟩ storers net = (.ok [], net') ∧
      Placed net net' i key value storers := by
  induction storers generalizing net with
  | nil =>
      exact ⟨net, rfl, Grown.refl net, hn, by simp, fun _ _ _ => rfl⟩
  | cons p ps ih =>
      obtain ⟨hp, hpl⟩ := hstorers p List.mem_cons_self
      obtain ⟨j, net₁, hj, hstore, hn₁, hg₁, hvalue₁⟩ := hn.storeAt hl hi hp hpl value net₀
      have hi₁ : (net₁.id i).length = key.length := (congrArg Id.length (hg₁.id_eq i)).trans hi
      have hreceives : ∀ q h, net₁.Receives i q h ↔ net.Receives i q h := by
        intro q h
        rw [Receives, Receives, hg₁.id_eq, hg₁.peer_eq]
      have hstorers₁ : ∀ q ∈ ps, (∃ h, net₁.peer h = q) ∧ q.id.length = key.length := by
        intro q hq
        obtain ⟨⟨h, hh⟩, hlen⟩ := hstorers q (List.mem_cons_of_mem p hq)
        exact ⟨⟨h, (hg₁.peer_eq h).trans hh⟩, hlen⟩
      obtain ⟨net', hrest, hplaced⟩ := ih hn₁ (hg₁.listening hl) hi₁ hstorers₁
      refine ⟨net', ?_, hg₁.trans hplaced.toGrown, hplaced.honest, ?_, ?_⟩
      · rw [Node.replicate, hstore]
        exact hrest
      · intro q hq h hh
        by_cases hlater : ∃ r ∈ ps, net₁.Receives i r h
        · obtain ⟨r, hr, hrh⟩ := hlater
          exact hplaced.stored r hr h hrh
        · -- Nobody stores there later, so the value of this step is the last one.
          obtain rfl : q = p := (List.mem_cons.mp hq).resolve_right fun hps =>
            hlater ⟨q, hps, (hreceives q h).mpr hh⟩
          obtain rfl : j = h := hj.unique hn hh
          rw [hplaced.kept j key fun _ r hr hrj => hlater ⟨r, hr, hrj⟩, hvalue₁,
            if_pos ⟨rfl, rfl⟩]
      · intro h other hnot
        have hnot₁ : other = key → ∀ q ∈ ps, ¬ net₁.Receives i q h := fun hkey q hq hqh =>
          hnot hkey q (List.mem_cons_of_mem p hq) ((hreceives q h).mp hqh)
        rw [hplaced.kept h other hnot₁, hvalue₁, if_neg]
        rintro ⟨rfl, hkey⟩
        exact hnot hkey p List.mem_cons_self hj

/-- Nothing was stored before the value was placed. -/
theorem Placed.of_quiet {net₁ : Overlay n} {value : Bytes} {storers : List Peer}
    (hq : Quiet net net₁) (hp : Placed net₁ net' i key value storers) :
    Placed net net' i key value storers where
  toGrown := hq.toGrown.trans hp.toGrown
  honest := hp.honest
  stored p hps j hj := hp.stored p hps j (hq.receives_iff.mpr hj)
  kept j other hnot :=
    (hp.kept j other fun hkey p hps hj => hnot hkey p hps (hq.receives_iff.mp hj)).trans
      (hq.value?_eq j other)

/-- What setting a value in an honest network can come to. -/
inductive SetOutcome (net : Overlay n) (i : Fin n) (key : Id) (value : Bytes) :
    Except Error Unit × Overlay n → Prop where
  /-- Nothing is stored. -/
  | refused (e : Error) (net' : Overlay n) (hn : Honest net') (hq : Quiet net net') :
      SetOutcome net i key value (.error e, net')
  /-- The value is stored at every candidate that a search for storers ends with. -/
  | placed (l : Lookup) (net₁ net' : Overlay n)
      (hseek : (net.node i).seek key net = (.ok l, net₁)) (hs : Searching net i l net₁)
      (hplaced : Placed net net' i key value l.session.peers) :
      SetOutcome net i key value (.ok (), net')

/-- How a search for storers ends. -/
theorem Honest.ended_of_seek (hn : Honest net) (hl : net.Listening) {net₁ : Overlay n}
    (hseek : (net.node i).seek key net = (.ok l, net₁)) :
    ∃ ending, (ending = .settled ∨ ending = .exhausted) ∧ Ended net i key ending l net₁ := by
  have hst := Node.seeking (lawful_node net i) key net
  rw [hseek] at hst
  cases hst with
  | ended hmax l₀ l ending net₁ hbegin hending hrun =>
      obtain ⟨_, _, nodes, _, rfl, hs⟩ := hn.of_begin_lookup hbegin
      exact ⟨ending, hending, hs.runFor hn hl hrun⟩

theorem Honest.of_seek (hn : Honest net) (hl : net.Listening) {net₁ : Overlay n}
    (hseek : (net.node i).seek key net = (.ok l, net₁)) :
    l.key = key ∧ Searching net i l net₁ := by
  obtain ⟨ending, hending, hended⟩ := hn.ended_of_seek hl hseek
  refine ⟨hended.key_eq, ?_⟩
  rcases hended.outcome with ⟨p, value, j, rfl, _⟩ | ⟨_, hs⟩
  · rcases hending with h | h <;> contradiction
  · exact hs

/-- If a search came to enough nodes, the value is stored at all of them. -/
theorem Honest.setValue_of_seek (hn : Honest net) (hl : net.Listening) {net₁ : Overlay n}
    (hseek : (net.node i).seek key net = (.ok l, net₁))
    (henough : (net.seat i).config.minStores ≤ l.session.peers.length) (value : Bytes) :
    ∃ net', (net.node i).setValue key value net = (.ok (), net') ∧
      Placed net net' i key value l.session.peers := by
  obtain ⟨rfl, hs⟩ := hn.of_seek hl hseek
  have hstorers : ∀ p ∈ l.session.peers,
      (∃ j, net₁.peer j = p) ∧ p.id.length = l.key.length := by
    intro p hp
    obtain ⟨c, hc, rfl⟩ := List.mem_map.mp hp
    obtain ⟨j, hj⟩ := hs.named c hc
    exact ⟨⟨j, (hs.quiet.peer_eq j).trans hj⟩, (hs.sound.wellFormed.measured c hc).1⟩
  obtain ⟨net', hreplicate, hplaced⟩ := hs.honest.replicate (hs.quiet.listening hl)
    hs.sound.length_eq hstorers value net
  refine ⟨net', ?_, hplaced.of_quiet hs.quiet⟩
  have hmany : ¬ l.session.peers.length < (net.node i).config.minStores := Nat.not_lt.mpr henough
  rw [Node.setValue_eq, hseek]
  simp only [Node.place, hs.errors_nil, evict_nil, hreplicate]
  rw [if_neg hmany, List.length_nil, Nat.sub_zero, if_neg hmany]

theorem Honest.setOutcome (hn : Honest net) (hl : net.Listening) (i : Fin n) (key : Id)
    (value : Bytes) : SetOutcome net i key value ((net.node i).setValue key value net) := by
  cases hseek : (net.node i).seek key net with
  | mk outcome net₁ =>
      cases outcome with
      | error e =>
          have hst := Node.seeking (lawful_node net i) key net
          rw [hseek] at hst
          have hends : ∀ l₀ ending l,
              (net.node i).begin (.bounded (net.node i).config.maxStores) key
                (net.node i).config.peersReturnedSet net = (.ok (.lookup l₀), net) →
              l₀.run (net.node i) net = (ending, l, net₁) → Honest net₁ ∧ Quiet net net₁ := by
            intro l₀ ending l hbegin hrun
            obtain ⟨_, _, nodes, _, rfl, hs⟩ := hn.of_begin_lookup hbegin
            have hended := hs.runFor hn hl hrun
            exact ⟨hended.honest, hended.quiet⟩
          have hquiet : Honest net₁ ∧ Quiet net net₁ := by
            cases hst with
            | noStores => exact ⟨hn, Quiet.refl net⟩
            | refused => exact ⟨hn, Quiet.refl net⟩
            | here => exact ⟨hn, Quiet.refl net⟩
            | found _ l₀ l p v _ hbegin hrun => exact hends l₀ _ l hbegin hrun
            | failed _ l₀ l e _ hbegin hrun => exact hends l₀ _ l hbegin hrun
            | cutOff _ l₀ l _ hbegin hrun => exact hends l₀ _ l hbegin hrun
          rw [Node.setValue_eq, hseek]
          exact .refused e net₁ hquiet.1 hquiet.2
      | ok l =>
          by_cases hfew : l.session.peers.length < (net.node i).config.minStores
          · obtain ⟨_, hs⟩ := hn.of_seek hl hseek
            rw [Node.setValue_eq, hseek]
            simp only [Node.place]
            rw [if_pos hfew]
            exact .refused _ net₁ hs.honest hs.quiet
          · obtain ⟨net', hset, hplaced⟩ :=
              hn.setValue_of_seek hl hseek (Nat.le_of_not_lt hfew) value
            obtain ⟨_, hs⟩ := hn.of_seek hl hseek
            rw [hset]
            exact .placed l net₁ net' hseek hs hplaced

namespace SetOutcome

variable {value : Bytes} {result : Except Error Unit × Overlay n}

/-- Setting a value is honest, and nobody is forgotten. -/
theorem grown (h : SetOutcome net i key value result) : Honest result.2 ∧ Grown net result.2 := by
  cases h with
  | refused e net' hn hq => exact ⟨hn, hq.toGrown⟩
  | placed l net₁ net' hseek hs hplaced => exact ⟨hplaced.honest, hplaced.toGrown⟩

/-- What was not set is not stored. -/
theorem quiet {e : Error} (h : SetOutcome net i key value result) (he : result.1 = .error e) :
    Quiet net result.2 := by
  cases h with
  | refused e net' hn hq => exact hq
  | placed => contradiction

/-- The values for other keys do not change. -/
theorem value?_of_ne {other : Id} (h : SetOutcome net i key value result) (hne : other ≠ key)
    (j : Fin n) : result.2.value? j other = net.value? j other := by
  cases h with
  | refused e net' hn hq => exact hq.value?_eq j other
  | placed l net₁ net' _ _ hplaced => exact hplaced.kept j other fun h => absurd h hne

end SetOutcome

end Network
end Kademlia
