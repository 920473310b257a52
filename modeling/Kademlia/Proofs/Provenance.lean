import Kademlia.Proofs.Search

/-!
# Kademlia.Proofs.Provenance

What the operations of a node do to the values that are kept, and where the
values come from that they return.  It is said for any node, any transport and
any invariant of the state:

* questions put to servers change no values, so a node that joins or gets a
  value keeps up each invariant that is only about values (`Node.Upholds`);
* a value that comes back was given out by a server (`Node.Vouches`);
* only stores write values, all of them the same one (`Node.Writes`).

Each operation has one lemma for each of these.
-/

namespace Kademlia

/-! ## Servers -/

namespace Server

variable {P S : Type} [PeerStore P] {srv srv' : Server P S} {requester : Option Peer}

theorem values_of_accept {key : Id} (h : srv.accept requester key = .ok srv') :
    srv'.values = srv.values := by
  unfold accept at h
  split at h
  · contradiction
  · cases requester with
    | none => rw [← Except.ok.inj h]
    | some peer =>
      simp only [remember] at h
      split at h <;> grind

theorem values_learn (key : Id) (peers : List Peer) (srv : Server P S) :
    (srv.learn key peers).2.values = srv.values := by
  induction peers generalizing srv with
  | nil => rfl
  | cons peer rest ih =>
    simp only [learn]
    grind

variable [Storage S]

/-- A question changes no values. -/
theorem values_handleGet (requester : Option Peer) (request : GetRequest) (srv : Server P S) :
    (Server.handleGet requester request srv).2.values = srv.values := by
  unfold handleGet
  split
  · rfl
  · next h => exact values_of_accept h

/-- A value that is given out is kept. -/
theorem get_of_handleGet {request : GetRequest} {reply : GetReply} {value : Bytes}
    (h : (Server.handleGet requester request srv).1 = .ok reply) (hv : reply.value = some value) :
    Storage.get srv.values request.key.bytes = .ok (some value) := by
  unfold handleGet at h
  split at h
  · contradiction
  · next srv' haccept =>
    rw [← values_of_accept haccept]
    simp only [lookUp] at h
    grind

/-- A store writes its value or nothing. -/
theorem values_handleStore (requester : Option Peer) (request : StoreRequest) (srv : Server P S) :
    (Server.handleStore requester request srv).2.values = srv.values ∨
      Storage.set srv.values request.key.bytes request.value =
        .ok (Server.handleStore requester request srv).2.values := by
  unfold handleStore
  split
  · exact .inl rfl
  · next srv' haccept =>
    have hvalues := values_of_accept haccept
    split
    · exact .inl hvalues
    · next values hset => exact .inr (hvalues ▸ hset)

end Server

/-! ## Lookups -/

namespace Lookup

variable {P S σ : Type} [PeerStore P] {node : Node P S σ} {s : σ}

theorem key_absorb (l : Lookup) (nodes : List Peer) : (l.absorb node nodes s).2.1.key = l.key := by
  unfold absorb
  grind

/-- What comes of the peers that a reply names is not a value. -/
theorem absorb_ne_found {l : Lookup} {nodes : List Peer} {peer : Peer} {value : Bytes} :
    (l.absorb node nodes s).1 ≠ some (.found peer value) := by
  unfold absorb
  grind

variable [Storage S]

theorem key_step (l : Lookup) : (l.step node s).2.1.key = l.key := by
  unfold step
  grind [key_absorb]

/-- A lookup is for one key. -/
theorem key_runFor (fuel : Nat) (l : Lookup) : (l.runFor node fuel s).2.1.key = l.key := by
  induction fuel generalizing l s with
  | zero => rfl
  | succ fuel ih =>
    have hstep : (l.step node s).2.1.key = l.key := key_step l
    unfold runFor
    grind

end Lookup

namespace Node

variable {P S σ : Type} {node : Node P S σ} {I : σ → Prop} {s : σ}

/-! ## Questions -/

/-- An invariant of the state that is kept up whatever a node asks, and whomever it gets to
know or forgets. -/
structure Upholds (node : Node P S σ) (I : σ → Prop) : Prop where
  setServer : ∀ s srv, I s → srv.values = (node.server s).values → I (node.setServer srv s)
  getValue : ∀ s target request, I s → I (node.transport.getValue target request s).2

namespace Upholds

variable [PeerStore P]

theorem evict (h : node.Upholds I) (hs : I s) (errors : List PeerError) :
    I (node.evict errors s) :=
  h.setServer _ _ hs (Server.values_evict _ _)

theorem bootstrap (h : node.Upholds I) (hs : I s) (target : Address) :
    I (node.bootstrap target s).2 := by
  have hasked := h.getValue s target ⟨node.id s, 0⟩ hs
  unfold Node.bootstrap
  split
  · next heq => rwa [heq] at hasked
  · next reply s' heq =>
    rw [heq] at hasked
    split
    · exact hasked
    · dsimp only
      split
      · exact h.setServer _ _ hasked rfl
      · exact hasked

theorem bootstrapAll (h : node.Upholds I) (hs : I s) : I (node.bootstrapAll s) := by
  unfold Node.bootstrapAll
  induction node.config.bootstrap.filterMap Address.parseNumeric? generalizing s with
  | nil => exact hs
  | cons target rest ih => exact ih (h.bootstrap hs target)

theorem absorb (h : node.Upholds I) (hs : I s) (l : Lookup) (nodes : List Peer) :
    I (l.absorb node nodes s).2.2 := by
  have hlearnt : I (node.locally (Server.learn l.key nodes) s).2 :=
    h.setServer _ _ hs (Server.values_learn _ _ _)
  unfold Lookup.absorb
  split
  · next heq => rwa [heq] at hlearnt
  · next heq => rwa [heq] at hlearnt

variable [Storage S]

theorem locally_handleGet (h : node.Upholds I) (hs : I s) (request : GetRequest) :
    I (node.locally (Server.handleGet none request) s).2 :=
  h.setServer _ _ hs (Server.values_handleGet _ _ _)

theorem ask (h : node.Upholds I) (hs : I s) (peer : Peer) (request : GetRequest) :
    I (node.ask peer request s).2 := by
  unfold Node.ask
  by_cases hself : peer.id = node.id s
  · rw [if_pos hself]
    exact h.locally_handleGet hs request
  · rw [if_neg hself]
    exact h.getValue _ _ _ hs

theorem begin (h : node.Upholds I) (hs : I s) (session : Session) (key : Id) (k : UInt64) :
    I (node.begin session key k s).2 := by
  have hasked := h.locally_handleGet hs ⟨key, k⟩
  unfold Node.begin
  grind

theorem step (h : node.Upholds I) (hs : I s) (l : Lookup) : I (l.step node s).2.2 := by
  unfold Lookup.step
  split
  · exact hs
  · next candidate session _ =>
    have hasked := h.ask hs candidate.peer ⟨l.key, l.k⟩
    have habsorb := h.absorb hasked
    grind

theorem runFor (h : node.Upholds I) (hs : I s) (fuel : Nat) (l : Lookup) :
    I (l.runFor node fuel s).2.2 := by
  induction fuel generalizing l s with
  | zero => exact hs
  | succ fuel ih =>
    have hstep := h.step hs l
    unfold Lookup.runFor
    split
    · next heq => rwa [heq] at hstep
    · next heq =>
      rw [heq] at hstep
      exact ih hstep _

/-- **To get a value keeps up the invariant.** -/
theorem getValue_snd (h : node.Upholds I) (hs : I s) (key : Id) : I (node.getValue key s).2 := by
  have hbegun := h.begin hs .unbounded key node.config.peersReturnedGet
  unfold Node.getValue
  split
  · next heq => rwa [heq] at hbegun
  · next heq => rwa [heq] at hbegun
  · next l s' heq =>
    rw [heq] at hbegun
    exact h.evict (h.runFor hbegun _ l) _

end Upholds

/-! ## Values that come back -/

variable [Storage S]

/-- A node begins with its own answer. -/
theorem of_begin_ok [PeerStore P] {session : Session} {key : Id} {k : UInt64} {opening : Opening}
    {s' : σ} (h : node.begin session key k s = (.ok opening, s')) :
    ∃ reply, node.locally (Server.handleGet none ⟨key, k⟩) s = (.ok reply, s') ∧
      ((∃ value, reply.value = some value ∧ opening = .here value) ∨
        ∃ l : Lookup, l.key = key ∧ opening = .lookup l) := by
  unfold Node.begin at h
  dsimp only at h
  split at h
  · cases h
  · split at h
    · cases h
    · next heq =>
      cases h
      exact ⟨_, heq, .inl ⟨_, rfl, rfl⟩⟩
    · next heq =>
      obtain ⟨_, -, hlookup⟩ := Except.exists_of_bind_eq_ok (congrArg Prod.fst h)
      cases hlookup
      obtain rfl := congrArg Prod.snd h
      exact ⟨_, heq, .inr ⟨_, rfl, rfl⟩⟩

/-- While the invariant holds, every value that a server gives out for a key is vouched for. -/
structure Vouches (node : Node P S σ) (I : σ → Prop) (key : Id) (V : Bytes → Prop) : Prop
    extends node.Upholds I where
  own : ∀ s value, I s → Storage.get (node.server s).values key.bytes = .ok (some value) → V value
  others : ∀ s target k reply value, I s →
    (node.transport.getValue target ⟨key, k⟩ s).1 = .ok reply → reply.value = some value → V value

namespace Vouches

variable [PeerStore P] {key : Id} {V : Bytes → Prop} {value : Bytes}

theorem of_locally (h : node.Vouches I key V) (hs : I s) (k : UInt64) {reply : GetReply}
    (hreply : (node.locally (Server.handleGet none ⟨key, k⟩) s).1 = .ok reply)
    (hv : reply.value = some value) : V value :=
  h.own s value hs (Server.get_of_handleGet hreply hv)

theorem of_ask (h : node.Vouches I key V) (hs : I s) {peer : Peer} {k : UInt64} {reply : GetReply}
    (hreply : (node.ask peer ⟨key, k⟩ s).1 = .ok reply) (hv : reply.value = some value) :
    V value := by
  unfold ask at hreply
  obtain ⟨given, hgiven, hcheck⟩ := Except.exists_of_bind_eq_ok hreply
  obtain ⟨rfl, -, -⟩ := of_checkReply hcheck
  by_cases hself : peer.id = node.id s
  · rw [if_pos hself] at hgiven
    refine h.of_locally hs k ?_ hv
    cases hown : (node.locally (Server.handleGet none ⟨key, k⟩) s).1 <;> simp_all [Except.mapError]
  · rw [if_neg hself] at hgiven
    exact h.others _ _ _ _ _ hs hgiven hv

theorem of_step (h : node.Vouches I key V) (hs : I s) {l : Lookup} (hkey : l.key = key)
    {peer : Peer} (hfound : (l.step node s).1 = some (.found peer value)) : V value := by
  subst hkey
  unfold Lookup.step at hfound
  split at hfound
  · simp at hfound
  · dsimp only at hfound
    split at hfound
    · split at hfound <;> simp at hfound
    · next heq =>
      split at hfound
      · next hv =>
        obtain ⟨rfl, rfl⟩ : _ = peer ∧ _ = value := by simpa using hfound
        exact h.of_ask hs (congrArg Prod.fst heq) hv
      · exact absurd hfound Lookup.absorb_ne_found

theorem of_runFor (h : node.Vouches I key V) (hs : I s) (fuel : Nat) {l : Lookup}
    (hkey : l.key = key) {peer : Peer} (hfound : (l.runFor node fuel s).1 = .found peer value) :
    V value := by
  induction fuel generalizing l s with
  | zero => cases hfound
  | succ fuel ih =>
    have hstep := h.toUpholds.step hs l
    unfold Lookup.runFor at hfound
    split at hfound
    · next ending _ _ heq =>
      obtain rfl : ending = .found peer value := hfound
      exact h.of_step hs hkey (congrArg Prod.fst heq)
    · next l' s' heq =>
      rw [heq] at hstep
      exact ih hstep ((congrArg (·.2.1.key) heq).symm.trans ((Lookup.key_step l).trans hkey)) hfound

/-- **A value that a node gets is vouched for.** -/
theorem of_getValue (h : node.Vouches I key V) (hs : I s)
    (hget : (node.getValue key s).1 = .ok value) : V value := by
  have hbegun := h.toUpholds.begin hs .unbounded key node.config.peersReturnedGet
  unfold Node.getValue at hget
  split at hget
  · cases hget
  · next heq =>
    cases hget
    obtain ⟨reply, hreply, ⟨_, hv, ⟨⟩⟩ | ⟨_, _, ⟨⟩⟩⟩ := of_begin_ok heq
    exact h.of_locally hs _ (congrArg Prod.fst hreply) hv
  · next l s' heq =>
    rw [heq] at hbegun
    obtain ⟨_, -, ⟨_, _, ⟨⟩⟩ | ⟨_, hkey, ⟨⟩⟩⟩ := of_begin_ok heq
    dsimp only at hget
    split at hget
    · next hfound =>
      cases hget
      exact h.of_runFor hbegun _ hkey hfound
    all_goals cases hget

end Vouches

/-! ## Stores -/

/-- An invariant that is kept up, too, when a value is stored. -/
structure Writes (node : Node P S σ) (I : σ → Prop) (request : StoreRequest) : Prop
    extends node.Upholds I where
  own : ∀ s srv, I s → Storage.set (node.server s).values request.key.bytes request.value =
    .ok srv.values → I (node.setServer srv s)
  others : ∀ s target, I s → I (node.transport.storeValue target request s).2

namespace Writes

variable [PeerStore P] {request : StoreRequest}

theorem storeAt (h : node.Writes I request) (hs : I s) (peer : Peer) :
    I (node.storeAt peer request s).2 := by
  unfold Node.storeAt
  by_cases hself : peer.id = node.id s
  · rw [if_pos hself]
    exact (Server.values_handleStore none request (node.server s)).elim (h.setServer _ _ hs)
      (h.own _ _ hs)
  · rw [if_neg hself]
    exact h.others _ _ hs

theorem place {l : Lookup} {value : Bytes} (h : node.Writes I ⟨l.key, value⟩) (hs : I s) :
    I (node.place l value s).2 :=
  place_rule (fun errors _ hs => h.toUpholds.evict hs errors)
    (fun peer _ hs => h.storeAt hs peer) hs

/-- **To set a value keeps up the invariant.** -/
theorem setValue_snd {key : Id} {value : Bytes} (h : node.Writes I ⟨key, value⟩) (hs : I s) :
    I (node.setValue key value s).2 := by
  have hbegun := h.toUpholds.begin hs (.bounded node.config.maxStores) key
    node.config.peersReturnedSet
  unfold Node.setValue
  split
  · exact hs
  · unfold Node.setValueIn
    split
    · next heq => rwa [heq] at hbegun
    · next heq => rwa [heq] at hbegun
    · next l s' heq =>
      rw [heq] at hbegun
      obtain ⟨_, -, ⟨_, _, ⟨⟩⟩ | ⟨_, hkey, ⟨⟩⟩⟩ := of_begin_ok heq
      subst hkey
      have hrun : I (l.run node s').2.2 := h.toUpholds.runFor hbegun l.stepBound l
      have hsame : (l.run node s').2.1.key = l.key := Lookup.key_runFor l.stepBound l
      generalize l.run node s' = result at hrun hsame
      obtain ⟨ending, l', s''⟩ := result
      have hplaced : l'.key = l.key → I (node.place l' value s'').2 := fun hsame =>
        place (by rwa [hsame]) hrun
      cases ending with
      | settled | exhausted => exact hplaced hsame
      | _ => exact hrun

end Writes

end Node

end Kademlia
