import Kademlia.Proofs.Contacts
import Kademlia.Proofs.Run

/-!
# Kademlia.Proofs.Lossless

Networks without faults never lose or accuse a peer (`Network.Run.lossless`).
Whatever the calls, everybody that a node knows exists, is where the node
believes it to be, and stays known (`Network.Later`); and a call that fails
does so for a reason of its own, since no request of it does.
-/

namespace Kademlia

namespace Network

variable {n m : Nat} {net net₁ : Overlay n} {i j : Fin n} {key : Id} {l : Lookup} {e : Error}
  {calls : List Call}

/-! ## Later networks -/

/-- The networks that calls can lead to from a given one. -/
inductive Later {n : Nat} (net : Overlay n) : {m : Nat} → Overlay m → Prop where
  | refl : Later net net
  | step {m k : Nat} {net₁ : Overlay m} {net₂ : Overlay k} (h : Later net net₁)
      (hstep : net₁.Step net₂) : Later net net₂

theorem Extends.refl (net : Overlay n) : Extends net net := (Grown.refl net).extends

/-- **Nobody is ever forgotten.** -/
theorem Ready.later {net' : Overlay m} (h : net.Ready) (hlater : net.Later net') :
    net'.Ready ∧ Extends net net' := by
  induction hlater with
  | refl => exact ⟨h, .refl net⟩
  | step _ hstep ih =>
      obtain ⟨hready, hext⟩ := ih.1.step hstep
      exact ⟨hready, ih.2.trans hext⟩

/-! ## Errors of calls -/

/-- A node that cannot begin is of another overlay than the key. -/
theorem Honest.begin_error (hn : Honest net) {capacity : Option Nat} {k : UInt64}
    (h : (net.node i).begin ⟨capacity, []⟩ key k net = (.error e, net₁)) :
    e = .id (.lengthMismatch (net.id i).length key.length) := by
  by_cases hi : (net.id i).length = key.length
  · rcases hn.begin hi capacity k with ⟨value, _, heq⟩ | ⟨_, nodes, _, heq, _⟩ <;>
      simp [heq] at h
  · have hbegin := Node.beginning (lawful_node net i) ⟨capacity, []⟩ key k net
    rw [h] at hbegin
    cases hbegin with
    | foreign => rfl
    | unable hl => exact absurd hl hi
    | unmeasured hl => exact absurd hl hi

/-- A search of a node ends with a value, or among nodes without one. -/
theorem Honest.run_ending (hn : Honest net) (hl : net.Listening) {capacity : Option Nat}
    {k : UInt64} {l₀ : Lookup} {ending : Lookup.Ending}
    (hbegin : (net.node i).begin ⟨capacity, []⟩ key k net = (.ok (.lookup l₀), net))
    (hrun : l₀.run (net.node i) net = (ending, l, net₁)) :
    l.errors = [] ∧ ((∃ p value, ending = .found p value) ∨ ending = .settled ∨
      ending = .exhausted) := by
  have hends := (((lawful_node net i).asksOnce capacity key k net).ends l₀ hbegin).1
  rw [hrun] at hends
  obtain ⟨_, _, _, _, rfl, hs⟩ := hn.of_begin_lookup hbegin
  have hended := hs.runFor hn hl hrun
  refine ⟨hended.errors_nil, ?_⟩
  rcases hended.outcome with ⟨p, value, _, hfound, _⟩ | ⟨hrest, _⟩
  · exact .inl ⟨p, value, hfound⟩
  · simp_all

/-- Who gets no value is told that nobody has it, and accuses nobody. -/
theorem Honest.getValue_error (hn : Honest net) (hl : net.Listening)
    (h : ((net.node i).getValue key net).1 = .error e) :
    e = .notFound [] ∨ e = .id (.lengthMismatch (net.id i).length key.length) := by
  have hget := Node.getting (lawful_node net i) key net
  generalize (net.node i).getValue key net = result at hget h
  cases hget with
  | refused e' hbegin =>
      obtain rfl : e' = e := Except.error.inj h
      exact .inr (hn.begin_error hbegin)
  | here => contradiction
  | searched l₀ l ending net' hbegin hrun =>
      obtain ⟨hnil, ⟨p, value, rfl⟩ | rfl | rfl⟩ := hn.run_ending hl hbegin hrun
      · contradiction
      · simp_all [Node.searchResult]
      · simp_all [Node.searchResult]

/-- A search for storers fails for want of a place, or because there is a value. -/
theorem Honest.seek_error (hn : Honest net) (hl : net.Listening)
    (h : ((net.node i).seek key net).1 = .error e) :
    e = .invalidConfig .noStores ∨ e = .id (.lengthMismatch (net.id i).length key.length) ∨
      e = .alreadySet := by
  have hseek := Node.seeking (lawful_node net i) key net
  generalize (net.node i).seek key net = result at hseek h
  cases hseek with
  | noStores => exact .inl (Except.error.inj h).symm
  | refused _ e' hbegin =>
      obtain rfl : e' = e := Except.error.inj h
      exact .inr (.inl (hn.begin_error hbegin))
  | here => exact .inr (.inr (Except.error.inj h).symm)
  | found => exact .inr (.inr (Except.error.inj h).symm)
  | failed _ l₀ l e' net' hbegin hrun =>
      have hending := (hn.run_ending hl hbegin hrun).2
      simp at hending
  | cutOff _ l₀ l net' hbegin hrun =>
      have hending := (hn.run_ending hl hbegin hrun).2
      simp at hending
  | ended => contradiction

/-- Who cannot set a value found too few nodes at most, and accuses nobody. -/
theorem Honest.setValue_error (hn : Honest net) (hl : net.Listening) {value : Bytes}
    (h : ((net.node i).setValue key value net).1 = .error e) :
    e = .invalidConfig .noStores ∨ e = .id (.lengthMismatch (net.id i).length key.length) ∨
      e = .alreadySet ∨
      ∃ found required, e = .settingFailed (.notEnoughStorers found required) [] := by
  cases hseek : (net.node i).seek key net with
  | mk outcome net₁ =>
      cases outcome with
      | error e' =>
          rw [Node.setValue_of_seek_error hseek] at h
          obtain rfl : e' = e := Except.error.inj h
          have hfailed := hn.seek_error hl (e := e') (by rw [hseek])
          tauto
      | ok l =>
          by_cases hfew : l.session.peers.length < (net.node i).config.minStores
          · obtain ⟨_, hs⟩ := hn.of_seek hl hseek
            rw [Node.setValue_eq, hseek] at h
            simp only [Node.place, if_pos hfew, hs.errors_nil] at h
            exact .inr (.inr (.inr ⟨_, _, (Except.error.inj h).symm⟩))
          · obtain ⟨net', hset, _⟩ := hn.setValue_of_seek hl hseek (Nat.le_of_not_lt hfew) value
            rw [hset] at h
            contradiction

/-- **Networks without faults never lose or accuse a peer.**  Whatever the calls,
everybody that a node knows is another node of its overlay, at its address, and
is known ever after; no call fails because a request did, and none reports the
error of a peer. -/
theorem Run.lossless (hrun : Run calls net) :
    (∀ i, ∀ p ∈ (net.table i).peers,
      (∃ j, net.peer j = p) ∧ p.id.length = (net.id i).length ∧ p.id ≠ net.id i) ∧
    (∀ {m : Nat} (net' : Overlay m), net.Later net' → Extends net net') ∧
    (∀ i key e, ((net.node i).getValue key net).1 = .error e →
      e = .notFound [] ∨ e = .id (.lengthMismatch (net.id i).length key.length)) ∧
    ∀ i key value e, ((net.node i).setValue key value net).1 = .error e →
      e = .invalidConfig .noStores ∨ e = .id (.lengthMismatch (net.id i).length key.length) ∨
        e = .alreadySet ∨
        ∃ found required, e = .settingFailed (.notEnoughStorers found required) [] := by
  have hready := hrun.ready
  refine ⟨fun i p hp => ⟨hready.honest.known i p hp, ?_⟩,
    fun net' hlater => (hready.later hlater).2,
    fun i key e h => hready.honest.getValue_error hready.listening h,
    fun i key value e h => hready.honest.setValue_error hready.listening h⟩
  exact (hready.honest.wellFormed i).of_mem hp

/-- The last node of a chain knows the one before it, also after it looked for a
value that nobody has. -/
theorem lossless_chain : Small.chain.peer 1 ∈
    ((((Small.chain.node 2).getValue (Small.id 7) Small.chain).2).table 2).peers := by
  have hknows : Small.chain.peer 1 ∈ (Small.chain.table 2).peers := by decide +kernel
  exact ((Run.lossless Small.run_chain).2.1 _ (.step .refl (.get 2 (Small.id 7)))).known 2 _ hknows

end Network
end Kademlia
