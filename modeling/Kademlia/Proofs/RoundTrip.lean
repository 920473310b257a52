import Kademlia.Proofs.Exhaustive
import Kademlia.Proofs.Run

/-!
# Kademlia.Proofs.RoundTrip

Networks that grow by bootstrapping: every node but the first joins through an
earlier one (`Network.Bootstrapped`).  If all tables have space, the nodes stay
linked to each other (`Network.Run.linked`), so a search that asks everybody it
can reach asks everybody.  A value that was set once is found from everywhere
ever after (`Network.Run.getValue_of_set`).
-/

namespace Kademlia

namespace Network

variable {n size : Nat} {net net₀ net' : Overlay n} {i j : Fin n} {key : Id} {l : Lookup}
  {calls : List Call}

/-! ## Linked networks -/

/-- Every node but the first knows an earlier one, which knows it as well. -/
def Linked (net : Overlay n) : Prop := ∀ j : Fin n, j.val ≠ 0 → ∃ i < j, net.Acquainted j i

theorem Grown.linked (hg : Grown net net') (h : net.Linked) : net'.Linked := by
  intro j hj
  obtain ⟨i, hlt, hacquainted⟩ := h j hj
  exact ⟨i, hlt, hg.acquainted hacquainted⟩

/-- **Whoever is reached reaches everybody.** -/
theorem Linked.covers (h : net.Linked) {reached : Fin n → Prop}
    (hclosed : ∀ a b, reached a → net.peer b ∈ (net.table a).peers → reached b)
    (hi : reached i) (j : Fin n) : reached j := by
  -- From any node down to the first one, and from there up to every other.
  have hfirst : ∀ m, ∀ a : Fin n, a.val = m → reached a →
      reached ⟨0, Nat.lt_of_le_of_lt (Nat.zero_le _) i.isLt⟩ := by
    intro m
    induction m using Nat.strongRecOn with
    | ind m ih =>
        intro a ha hreached
        by_cases hzero : a.val = 0
        · have hfirst : a = ⟨0, Nat.lt_of_le_of_lt (Nat.zero_le _) i.isLt⟩ := Fin.ext hzero
          rw [← hfirst]
          exact hreached
        · obtain ⟨b, hlt, hacquainted⟩ := h a hzero
          exact ih b.val (ha ▸ hlt) b rfl (hclosed a b hreached hacquainted.1)
  have hall : ∀ m, ∀ a : Fin n, a.val = m → reached a := by
    intro m
    induction m using Nat.strongRecOn with
    | ind m ih =>
        intro a ha
        by_cases hzero : a.val = 0
        · have hfirst' : a = ⟨0, Nat.lt_of_le_of_lt (Nat.zero_le _) i.isLt⟩ := Fin.ext hzero
          rw [hfirst']
          exact hfirst i.val i rfl hi
        · obtain ⟨b, hlt, hacquainted⟩ := h a hzero
          exact hclosed b a (ih b.val (ha ▸ hlt) b rfl) hacquainted.2
  exact hall j.val j rfl

theorem Linked.reaches (h : net.Linked) (i j : Fin n) : net.Reaches i j :=
  h.covers (fun _ _ ha hb => ha.tail hb) .refl j

/-- A node of a linked network finds a value if anybody has one. -/
theorem Linked.exists_getValue (hlinked : net.Linked) (hn : Honest net) (hl : net.Listening)
    (hs : net.Spacious) (hi : (net.id i).length = key.length)
    (hreturned : n ≤ (net.seat i).config.peersReturnedGet.toNat)
    (hv : net.value? j key ≠ none) : ∃ value, ((net.node i).getValue key net).1 = .ok value := by
  cases hown : net.value? i key with
  | some value =>
      exact ⟨value, Node.getValue_of_here (hn.begin_of_some hi hown none _)⟩
  | none =>
      obtain ⟨l₀, ending, l, net', hbegin, hrun, hending⟩ := hn.exhaustive hl hi hown hreturned
      rcases hending with ⟨p, value, rfl⟩ | ⟨_, rfl, hw, hall⟩
      · exact ⟨value, Node.getValue_of_found hbegin hrun⟩
      · exact absurd (hw.value?_eq_none hs.id_inj hall (hlinked.reaches i j)) hv

/-! ## Growing by bootstrapping -/

/-- At most `size` nodes with distinct ids of one length.  All settings make
space for so many, and every node but the first has the address of an earlier
one to join through. -/
structure Bootstrapped (net : Overlay n) (size : Nat) : Prop where
  size_le : n ≤ size
  id_inj : ∀ i j, net.id i = net.id j → i = j
  length_eq : ∀ i j, (net.id i).length = (net.id j).length
  bucketSize_le : ∀ i, size ≤ (net.seat i).config.bucketSize
  returned_le : ∀ i, size ≤ (net.seat i).config.peersReturnedGet.toNat
  rooted : ∀ j : Fin n, j.val ≠ 0 → ∃ i < j, ∃ text ∈ (net.seat j).config.bootstrap,
    Address.parseNumeric? text = some (net.seat i).address

theorem Bootstrapped.spacious (h : net.Bootstrapped size) (hr : net.Ready) : net.Spacious where
  id_inj := h.id_inj
  length_eq := h.length_eq
  le_bucketSize i := by
    rw [hr.bucketSize_eq]
    exact h.size_le.trans (h.bucketSize_le i)

/-- A network was bootstrapped before a call if it is afterwards. -/
theorem Grown.bootstrapped (hg : Grown net net') (h : net'.Bootstrapped size) :
    net.Bootstrapped size where
  size_le := h.size_le
  id_inj i j hij := h.id_inj i j (by rw [hg.id_eq, hg.id_eq, hij])
  length_eq i j := by
    rw [← hg.id_eq, ← hg.id_eq]
    exact h.length_eq i j
  bucketSize_le i := by
    rw [← hg.config_eq]
    exact h.bucketSize_le i
  returned_le i := by
    rw [← hg.config_eq]
    exact h.returned_le i
  rooted j hj := by
    obtain ⟨i, hlt, text, htext, hparse⟩ := h.rooted j hj
    rw [hg.config_eq] at htext
    rw [hg.address_eq] at hparse
    exact ⟨i, hlt, text, htext, hparse⟩

/-- And before a node joined. -/
theorem Joined.bootstrapped {address : Address} {config : Config} {net' : Overlay (n + 1)}
    (hj : Joined net address config net') (h : net'.Bootstrapped size) : net.Bootstrapped size where
  size_le := Nat.le_of_succ_le h.size_le
  id_inj i j hij := by
    have heq := h.id_inj i.castSucc j.castSucc (by rw [hj.id_eq, hj.id_eq, hij])
    exact Fin.castSucc_inj.mp heq
  length_eq i j := by
    rw [← hj.id_eq, ← hj.id_eq]
    exact h.length_eq i.castSucc j.castSucc
  bucketSize_le i := by
    rw [← hj.config_eq]
    exact h.bucketSize_le i.castSucc
  returned_le i := by
    rw [← hj.config_eq]
    exact h.returned_le i.castSucc
  rooted j hj' := by
    obtain ⟨i, hlt, text, htext, hparse⟩ := h.rooted j.castSucc hj'
    obtain ⟨i, rfl⟩ := Fin.exists_castSucc_eq.mpr
      (Fin.ne_of_lt (Fin.lt_of_lt_of_le hlt (Fin.le_last _)))
    rw [hj.config_eq] at htext
    rw [hj.address_eq] at hparse
    exact ⟨i, hlt, text, htext, hparse⟩

/-- Nodes that know each other still do after another one joined. -/
theorem Joined.acquainted_castSucc {address : Address} {config : Config} {net' : Overlay (n + 1)}
    (hj : Joined net address config net') (h : net.Acquainted i j) :
    net'.Acquainted i.castSucc j.castSucc := by
  rw [Acquainted, hj.peer_eq, hj.peer_eq]
  exact ⟨hj.known i _ h.1, hj.known j _ h.2⟩

/-- The node that joins is linked to the one it joins through. -/
theorem Joined.linked {address : Address} {config : Config} {net' : Overlay (n + 1)}
    (hj : Joined net address config net') (hs : net'.Spacious) (h : net'.Bootstrapped size)
    (hlinked : net.Linked) : net'.Linked := by
  intro j hne
  induction j using Fin.lastCases with
  | last =>
      obtain ⟨i, hlt, text, htext, hparse⟩ := h.rooted (Fin.last n) hne
      obtain ⟨i, rfl⟩ := Fin.exists_castSucc_eq.mpr (Fin.ne_of_lt hlt)
      rw [hj.bootstrap_last] at htext
      rw [hj.address_eq] at hparse
      exact ⟨i.castSucc, hlt, hj.acquainted hs i text htext hparse⟩
  | cast j =>
      obtain ⟨i, hlt, hacquainted⟩ := hlinked j hne
      exact ⟨i.castSucc, hlt, hj.acquainted_castSucc hacquainted⟩

/-- **Whatever the calls, a bootstrapped network is linked.** -/
theorem Run.linked (hrun : Run calls net) (h : net.Bootstrapped size) : net.Linked := by
  induction hrun with
  | start => exact fun j => j.elim0
  | join hrun address config fresh hfree hjoin ih =>
      have hready := hrun.ready
      have hj := hready.honest.joined hready.listening hfree hjoin
      exact hj.linked (h.spacious (hready.joined hj)) h (ih (hj.bootstrapped h))
  | bootstrap hrun i target ih =>
      obtain ⟨_, hq⟩ := hrun.ready.honest.quiet_bootstrap i target _
      exact hq.toGrown.linked (ih (hq.toGrown.bootstrapped h))
  | get hrun i key ih =>
      obtain ⟨_, hq, _⟩ := hrun.ready.honest.getValue hrun.ready.listening i key
      exact hq.toGrown.linked (ih (hq.toGrown.bootstrapped h))
  | set hrun i key value ih =>
      obtain ⟨_, hg⟩ := (hrun.ready.honest.setOutcome hrun.ready.listening i key value).grown
      exact hg.linked (ih (hg.bootstrapped h))

/-! ## One value for a key -/

/-- A value that was stored is all that anybody has, if nobody had one. -/
theorem SetOutcome.of_ok {value : Bytes} {result : Except Error Unit × Overlay n}
    (h : SetOutcome net i key value result) (hok : result.1 = .ok ())
    (hnone : ∀ j, net.value? j key = none) :
    (∀ j v, result.2.value? j key = some v → v = value) ∧ ∃ j, result.2.value? j key ≠ none := by
  cases h with
  | refused => contradiction
  | placed l net₁ net' hseek hs hplaced =>
      constructor
      · intro j v hv
        by_cases hstorer : ∃ p ∈ l.session.peers, net.Receives i p j
        · obtain ⟨p, hp, hj⟩ := hstorer
          exact Option.some.inj (hv.symm.trans (hplaced.stored p hp j hj))
        · have hkept := hplaced.kept j key fun _ p hp hj => hstorer ⟨p, hp, hj⟩
          have hv' : net'.value? j key = some v := hv
          rw [hkept, hnone] at hv'
          contradiction
      · obtain ⟨c, hc⟩ :=
          List.exists_mem_of_ne_nil _ (Node.ne_nil_of_seek (lawful_node net i) hseek)
        obtain ⟨j, hj⟩ := exists_receives i (hs.named c hc)
        have hstored := hplaced.stored c.peer (List.mem_map_of_mem hc) j hj
        exact ⟨j, by simp [hstored]⟩

/-- What nodes keep for a key after it was never set, or set once. -/
structure Reflects (net : Overlay n) (key : Id) (sets : List Call) : Prop where
  unset : sets = [] → ∀ j, net.value? j key = none
  once : ∀ m value, sets = [.set m key value (.ok ())] →
    (∀ j v, net.value? j key = some v → v = value) ∧ ∃ j, net.value? j key ≠ none

theorem Reflects.congr {sets : List Call} (h : net.Reflects key sets)
    (hv : ∀ j, net'.value? j key = net.value? j key) : net'.Reflects key sets := by
  constructor
  · intro hsets j
    rw [hv]
    exact h.unset hsets j
  · intro m value hsets
    simp only [hv]
    exact h.once m value hsets

/-- A node that joins has no values. -/
theorem Joined.reflects {address : Address} {config : Config} {net' : Overlay (n + 1)}
    {sets : List Call} (hj : Joined net address config net') (h : net.Reflects key sets) :
    net'.Reflects key sets := by
  constructor
  · intro hsets j
    induction j using Fin.lastCases with
    | last => exact hj.value?_last key
    | cast j => exact (hj.value?_eq j key).trans (h.unset hsets j)
  · intro m value hsets
    obtain ⟨hall, j, hv⟩ := h.once m value hsets
    refine ⟨fun h v hv => ?_, j.castSucc, by rw [hj.value?_eq]; exact hv⟩
    induction h using Fin.lastCases with
    | last =>
        rw [hj.value?_last] at hv
        contradiction
    | cast h =>
        rw [hj.value?_eq] at hv
        exact hall h v hv

/-- **What nodes keep for a key is what was set for it.** -/
theorem Run.reflects (hrun : Run calls net) (key : Id) :
    net.Reflects key (calls.filter (·.sets key)) := by
  induction hrun with
  | start => exact ⟨fun _ j => j.elim0, by simp⟩
  | join hrun address config fresh hfree hjoin ih =>
      rw [Call.filter_sets_append, if_neg (by simp [Call.sets])]
      exact (hrun.ready.honest.joined hrun.ready.listening hfree hjoin).reflects ih
  | bootstrap hrun i target ih =>
      obtain ⟨_, hq⟩ := hrun.ready.honest.quiet_bootstrap i target _
      rw [Call.filter_sets_append, if_neg (by simp [Call.sets])]
      exact ih.congr fun j => hq.value?_eq j key
  | get hrun i other ih =>
      obtain ⟨_, hq, _⟩ := hrun.ready.honest.getValue hrun.ready.listening i other
      rw [Call.filter_sets_append, if_neg (by simp [Call.sets])]
      exact ih.congr fun j => hq.value?_eq j key
  | set hrun i other w ih =>
      have hout := hrun.ready.honest.setOutcome hrun.ready.listening i other w
      rw [Call.filter_sets_append]
      by_cases hkey : other = key
      · subst hkey
        rw [if_pos (by simp [Call.sets])]
        refine ⟨by simp, fun m value honce => ?_⟩
        -- There was no call before that set the key.
        rcases List.append_eq_singleton_iff.mp honce with ⟨hunset, hcall⟩ | ⟨_, hnil⟩
        · simp only [List.cons.injEq, Call.set.injEq, and_true, true_and] at hcall
          obtain ⟨_, rfl, hok⟩ := hcall
          exact hout.of_ok hok (ih.unset hunset)
        · contradiction
      · rw [if_neg (by simp [Call.sets, hkey])]
        exact ih.congr (hout.value?_of_ne (Ne.symm hkey))

/-- **A value that was set once is found from everywhere ever after.**  The
network may have grown to `size` nodes before and after. -/
theorem Run.getValue_of_set (hrun : Run calls net) (h : net.Bootstrapped size) {m : Nat}
    {value : Bytes} (hset : calls.filter (·.sets key) = [.set m key value (.ok ())])
    (hkey : ∀ i, (net.id i).length = key.length) (i : Fin n) :
    ((net.node i).getValue key net).1 = .ok value := by
  have hready := hrun.ready
  obtain ⟨hall, j, hv⟩ := (hrun.reflects key).once m value hset
  obtain ⟨v, hget⟩ := (hrun.linked h).exists_getValue hready.honest hready.listening
    (h.spacious hready) (hkey i) (h.size_le.trans (h.returned_le i)) hv
  obtain ⟨_, _, hkept⟩ := hready.honest.getValue hready.listening i key
  obtain ⟨a, ha⟩ := hkept v hget
  rw [hget, hall a v ha]

theorem bootstrapped_chain : Small.chain.Bootstrapped 3 where
  size_le := Nat.le_refl 3
  id_inj := by decide +kernel
  length_eq := by decide +kernel
  bucketSize_le := by decide +kernel
  returned_le := by decide +kernel
  rooted := by decide +kernel

/-- The last node of a chain finds the value that the first one keeps. -/
theorem getValue_chain :
    ((Small.chain.node 2).getValue (Small.id 0) Small.chain).1 = .ok [0xaa] := by
  have hlen : ∀ i, (Small.chain.id i).length = (Small.id 0).length := by decide +kernel
  exact Run.getValue_of_set Small.run_chain bootstrapped_chain rfl hlen 2

end Network
end Kademlia
