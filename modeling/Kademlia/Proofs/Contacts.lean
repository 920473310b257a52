import Kademlia.Proofs.Picking
import Kademlia.Proofs.Quorum

/-!
# Kademlia.Proofs.Contacts

Whom a search asks, in order, and what comes back (`Lookup.contacts`).
`Lookup.runFor_history` carries an invariant that may speak of all contacts so
far through a whole search.  With it, what sessions guarantee holds of
searches: nobody is asked twice, the node does not ask itself, and so every
search ends (`Node.asks_once`).
-/

namespace Kademlia

/-- A peer that was asked for a value, and what came back. -/
structure Contact where
  peer : Peer
  reply : Except RpcError GetReply

/-- The exchange that a contact is. -/
def Contact.exchange (request : GetRequest) (c : Contact) : Exchange :=
  .get c.peer.address request c.reply

namespace Lookup

variable {S σ : Type} [Storage S] {node : Node RoutingTable S σ} {l l' : Lookup} {s s' : σ}
  {c : Candidate} {session : Session} {cs : List Contact} {own key : Id} {fuel : Nat}

/-! ## The history of a search -/

/-- To ask a candidate is this contact. -/
def contact (node : Node RoutingTable S σ) (l : Lookup) (c : Candidate) (s : σ) : Contact :=
  ⟨c.peer, (node.transport.getValue c.peer.address ⟨l.key, l.k⟩ s).1⟩

/-- Whom a search asks in at most `fuel` steps, in order. -/
def contacts (node : Node RoutingTable S σ) : (fuel : Nat) → Lookup → σ → List Contact
  | 0, _, _ => []
  | fuel + 1, l, s =>
    match l.session.next? with
    | none => []
    | some (c, _) =>
      l.contact node c s ::
        match l.step node s with
        | (some _, _, _) => []
        | (none, l, s) => contacts node fuel l s

/-- **What every step keeps up, a search does**, where the invariant may speak
of the contacts so far.  If it bounds their number, so many steps are enough. -/
theorem runFor_history (Inv : List Contact → Lookup → σ → Prop)
    (Post : List Contact → Ending → Lookup → σ → Prop) (bound : Nat)
    (hmore : ∀ cs l s c session l' s', Inv cs l s → l.session.next? = some (c, session) →
      l.step node s = (none, l', s') → Inv (cs ++ [l.contact node c s]) l' s')
    (hlast : ∀ cs l s c session e l' s', Inv cs l s → l.session.next? = some (c, session) →
      l.step node s = (some e, l', s') → Post (cs ++ [l.contact node c s]) e l' s')
    (hexhausted : ∀ cs l s, Inv cs l s → l.session.next? = none → Post cs .exhausted l s)
    (hbound : ∀ cs l s, Inv cs l s → cs.length < bound)
    (h : Inv [] l s) (hfuel : bound ≤ fuel) :
    Post (l.contacts node fuel s) (runFor node fuel l s).1 (runFor node fuel l s).2.1
      (runFor node fuel l s).2.2 := by
  have hall : ∀ cs, Inv cs l s → bound ≤ cs.length + fuel →
      Post (cs ++ l.contacts node fuel s) (runFor node fuel l s).1 (runFor node fuel l s).2.1
        (runFor node fuel l s).2.2 := by
    -- The bound has to leave a step for every contact that is still to come.
    clear h hfuel
    induction fuel generalizing l s with
    | zero => exact fun cs h hfuel => absurd (hbound cs l s h) (Nat.not_lt.mpr hfuel)
    | succ fuel ih =>
        intro cs h hfuel
        rw [runFor, contacts]
        cases hnext : l.session.next? with
        | none =>
            have hstep : l.step node s = (some .exhausted, l, s) := by rw [step, hnext]
            simp only [hstep, List.append_nil]
            exact hexhausted cs l s h hnext
        | some picked =>
            obtain ⟨c, session⟩ := picked
            cases hstep : l.step node s with
            | mk outcome next =>
                obtain ⟨l₁, s₁⟩ := next
                cases outcome with
                | some e => exact hlast cs l s c session e l₁ s₁ h hnext hstep
                | none =>
                    have hrest := ih _ (hmore cs l s c session l₁ s₁ h hnext hstep) (by
                      rw [List.length_append, List.length_singleton]
                      omega)
                    rwa [List.append_assoc, List.singleton_append] at hrest
  exact hall [] h (by simpa using hfuel)

/-- A search that has ended goes no further. -/
theorem runFor_eq_of_le {fuel' : Nat} (h : (runFor node fuel l s).1 ≠ .cutOff)
    (hle : fuel ≤ fuel') : runFor node fuel' l s = runFor node fuel l s := by
  induction fuel generalizing l s fuel' with
  | zero => exact absurd rfl h
  | succ fuel ih =>
      obtain ⟨more, rfl⟩ := Nat.exists_eq_add_of_le' hle
      rw [← Nat.add_assoc, runFor, runFor]
      rw [runFor] at h
      cases hstep : l.step node s with
      | mk outcome next =>
          obtain ⟨l₁, s₁⟩ := next
          rw [hstep] at h
          cases outcome with
          | some e => rfl
          | none => exact ih h (Nat.le_add_left fuel more)

/-! ## Nobody is asked twice -/

/-- A search under way after these contacts: neither the node itself nor
anybody that was contacted will be asked again. -/
structure Tracked (node : Node RoutingTable S σ) (own key : Id) (cs : List Contact) (l : Lookup)
    (s : σ) : Prop where
  sound : l.Sound node s
  id_eq : node.id s = own
  key_eq : l.key = key
  settled : l.session.Settled key (own :: cs.map (·.peer.id))
  distinct : (own :: cs.map (·.peer.id)).Nodup

/-- Whom a search asks: nobody twice, and not the node itself. -/
structure Once (own key : Id) (cs : List Contact) : Prop where
  distinct : (cs.map (·.peer.id)).Nodup
  foreign : ∀ c ∈ cs, c.peer.id ≠ own
  length_eq : ∀ c ∈ cs, c.peer.id.length = key.length
  bounded : cs.length < 256 ^ key.length

theorem Once.of_settled (h : session.Settled key (own :: cs.map (·.peer.id)))
    (hd : (own :: cs.map (·.peer.id)).Nodup) : Once own key cs := by
  obtain ⟨hself, hdistinct⟩ := List.nodup_cons.mp hd
  refine ⟨hdistinct, fun c hc heq => ?_, fun c hc => ?_, ?_⟩
  · exact hself (heq ▸ List.mem_map_of_mem (f := fun c : Contact => c.peer.id) hc)
  · exact h.length_eq _
      (List.mem_cons_of_mem _ (List.mem_map_of_mem (f := fun c : Contact => c.peer.id) hc))
  · have hle := Id.length_le_of_nodup hd h.length_eq
    rwa [List.length_cons, List.length_map] at hle

namespace Tracked

omit [Storage S]

theorem stepBound_eq (h : l.Tracked node own key cs s) : l.stepBound = 256 ^ key.length := by
  rw [stepBound, h.key_eq]
  rfl

theorem once (h : l.Tracked node own key cs s) : Once own key cs := .of_settled h.settled h.distinct

/-- Whoever is picked is somebody new. -/
theorem next (h : l.Tracked node own key cs s) (hnext : l.session.next? = some (c, session)) :
    c.peer.id ≠ node.id s ∧
      session.Settled key (own :: (cs ++ [l.contact node c s]).map (·.peer.id)) ∧
      (own :: (cs ++ [l.contact node c s]).map (·.peer.id)).Nodup := by
  obtain ⟨hnew, _, hsettled⟩ := h.settled.next hnext
  have hids : own :: (cs ++ [l.contact node c s]).map (·.peer.id) =
      (own :: cs.map (·.peer.id)) ++ [c.peer.id] := by
    simp [contact]
  rw [hids, List.nodup_append]
  refine ⟨fun heq => hnew ?_, hsettled, h.distinct, List.nodup_singleton _, ?_⟩
  · rw [heq, h.id_eq]
    exact List.mem_cons_self
  · intro a ha b hb hab
    rw [List.mem_singleton.mp hb] at hab
    exact hnew (hab ▸ ha)

theorem once_next (h : l.Tracked node own key cs s)
    (hnext : l.session.next? = some (c, session)) : Once own key (cs ++ [l.contact node c s]) :=
  .of_settled (h.next hnext).2.1 (h.next hnext).2.2

end Tracked

/-- Only the bound on the number of steps cuts a search off. -/
theorem Stepped.ne_cutOff {ending : Ending} (h : Stepped node l s (some ending, l', s')) :
    ending ≠ .cutOff := by
  cases h <;> simp

/-- New candidates do not bring back anybody. -/
theorem Tracked.step (hn : node.Lawful) (h : l.Tracked node own key cs s)
    (hnext : l.session.next? = some (c, session)) (hstep : l.step node s = (none, l', s')) :
    l'.Tracked node own key (cs ++ [l.contact node c s]) s' := by
  have hst := stepped hn h.sound
  rw [hstep] at hst
  obtain ⟨_, hsettled, hdistinct⟩ := h.next hnext
  refine ⟨hst.sound hn h.sound, (hst.id_eq hn).trans h.id_eq, hst.frame.1.trans h.key_eq, ?_,
    hdistinct⟩
  cases hst with
  | skipped d session' e s' hnext' =>
      obtain ⟨rfl, rfl⟩ := Session.next?_inj hnext hnext'
      exact hsettled
  | widened d session' reply s' hnext' ha =>
      obtain ⟨rfl, rfl⟩ := Session.next?_inj hnext hnext'
      refine hsettled.merge fun e he => ?_
      obtain ⟨p, hp, rfl⟩ := List.mem_map.mp he
      rw [← h.key_eq]
      exact ⟨Node.length_eq_of_ask ha p hp, rfl⟩

/-- **What every step keeps up, a search that asks nobody twice does**: it has
enough steps to come to its end. -/
theorem Tracked.history (hn : node.Lawful) (h : l.Tracked node own key [] s)
    (Inv : List Contact → Lookup → σ → Prop) (Post : List Contact → Ending → Lookup → σ → Prop)
    (hmore : ∀ cs l s c session l' s', l.Tracked node own key cs s → Inv cs l s →
      l.session.next? = some (c, session) → l.step node s = (none, l', s') →
      Inv (cs ++ [l.contact node c s]) l' s')
    (hlast : ∀ cs l s c session e l' s', l.Tracked node own key cs s → Inv cs l s →
      l.session.next? = some (c, session) → l.step node s = (some e, l', s') →
      Post (cs ++ [l.contact node c s]) e l' s')
    (hexhausted : ∀ cs l s, l.Tracked node own key cs s → Inv cs l s →
      l.session.next? = none → Post cs .exhausted l s)
    (hstart : Inv [] l s) :
    Post (l.contacts node l.stepBound s) (l.run node s).1 (l.run node s).2.1
      (l.run node s).2.2 := by
  refine runFor_history (fun cs l s => l.Tracked node own key cs s ∧ Inv cs l s) Post
    (256 ^ key.length) ?_ ?_ ?_ ?_ ⟨h, hstart⟩ h.stepBound_eq.ge
  · rintro cs l s c session l' s' ⟨h, hinv⟩ hnext hstep
    exact ⟨h.step hn hnext hstep, hmore cs l s c session l' s' h hinv hnext hstep⟩
  · rintro cs l s c session e l' s' ⟨h, hinv⟩ hnext hstep
    exact hlast cs l s c session e l' s' h hinv hnext hstep
  · rintro cs l s ⟨h, hinv⟩ hnext
    exact hexhausted cs l s h hinv hnext
  · rintro cs l s ⟨h, _⟩
    exact h.once.bounded

/-- **A search asks nobody twice, and ends.** -/
theorem Tracked.runFor (hn : node.Lawful) (h : l.Tracked node own key [] s)
    (hfuel : 256 ^ key.length ≤ fuel) :
    Once own key (l.contacts node fuel s) ∧ (runFor node fuel l s).1 ≠ .cutOff := by
  refine runFor_history (fun cs l s => l.Tracked node own key cs s)
    (fun cs ending _ _ => Once own key cs ∧ ending ≠ .cutOff) (256 ^ key.length) ?_ ?_ ?_ ?_ h hfuel
  · intro cs l s c session l' s' h hnext hstep
    exact h.step hn hnext hstep
  · intro cs l s c session e l' s' h hnext hstep
    have hst := stepped hn h.sound
    rw [hstep] at hst
    exact ⟨h.once_next hnext, hst.ne_cutOff⟩
  · intro cs l s h _
    exact ⟨h.once, by simp⟩
  · intro cs l s h
    exact h.once.bounded

end Lookup

namespace Node

variable {S σ : Type} [Storage S] {node : Node RoutingTable S σ} {key : Id} {k : UInt64}
  {capacity : Option Nat} {l : Lookup} {s s' : σ}

/-- A search begins with the node itself settled: it was asked first. -/
theorem tracked_of_begin (hn : node.Lawful)
    (h : node.begin ⟨capacity, []⟩ key k s = (.ok (.lookup l), s')) :
    s' = s ∧ l.k = k ∧ l.Tracked node (node.id s) key [] s := by
  have hsound := (sound_of_begin hn h).1
  have hbegin := beginning hn ⟨capacity, []⟩ key k s
  rw [h] at hbegin
  cases hbegin with
  | lookup hl responder nodes _ hnodes =>
      refine ⟨rfl, rfl, hsound, rfl, rfl, ?_, List.nodup_singleton _⟩
      have hempty := Session.Settled.empty capacity key
      have hself : (Session.merge ⟨capacity, []⟩ [Candidate.fresh key (node.self s)]).2 =
          (Session.offer ⟨capacity, []⟩ (Candidate.fresh key (node.self s))).2 := by
        rw [Session.merge_cons, Session.merge_nil]
      have hopened := (hempty.offer (c := Candidate.fresh key (node.self s)) hl rfl).settle hl
        (Session.Barred.of_offer hempty.wellFormed hl rfl)
      rw [← hself] at hopened
      refine hopened.merge fun c hc => ?_
      obtain ⟨p, hp, rfl⟩ := List.mem_map.mp hc
      exact ⟨hnodes p hp, rfl⟩

/-- Whom a lookup asks that begins in an empty session. -/
def contacts (node : Node RoutingTable S σ) (session : Session) (key : Id) (k : UInt64) (s : σ) :
    List Contact :=
  match node.begin session key k s with
  | (.ok (.lookup l), s) => l.contacts node l.stepBound s
  | _ => []

section

variable {opening : Session}

theorem contacts_of_error {e : Error} (h : node.begin opening key k s = (.error e, s)) :
    node.contacts opening key k s = [] := by
  rw [contacts, h]

theorem contacts_of_here {value : Bytes}
    (h : node.begin opening key k s = (.ok (.here value), s)) :
    node.contacts opening key k s = [] := by
  rw [contacts, h]

theorem contacts_of_lookup (h : node.begin opening key k s = (.ok (.lookup l), s)) :
    node.contacts opening key k s = l.contacts node l.stepBound s := by
  rw [contacts, h]

end

/-- A session of no candidates has nobody to ask. -/
theorem contacts_bounded_zero (hn : node.Lawful) (key : Id) (k : UInt64) (s : σ) :
    node.contacts (.bounded 0) key k s = [] := by
  have hsnd := begin_snd hn (.bounded 0) key k s
  cases hbegin : node.begin (.bounded 0) key k s with
  | mk opening s₁ =>
      rw [hbegin] at hsnd
      obtain rfl : s₁ = s := hsnd
      cases opening with
      | error e => exact contacts_of_error hbegin
      | ok opening =>
          cases opening with
          | here value => exact contacts_of_here hbegin
          | lookup l =>
              obtain ⟨hsound, _, hcapacity⟩ := sound_of_begin hn hbegin
              have hle := hsound.wellFormed.bounded 0 hcapacity
              have hempty : l.session.candidates = [] :=
                List.eq_nil_of_length_eq_zero (Nat.le_zero.mp hle)
              have hnext : l.session.next? = none := by
                simp [Session.next?, Session.closestUnsearched?, hempty]
              rw [contacts_of_lookup hbegin]
              cases l.stepBound with
              | zero => rfl
              | succ fuel => rw [Lookup.contacts, hnext]

/-- **Whatever a search leaves that begins with the node, getting a value does**,
once it has forgotten those who failed. -/
theorem getValue_history (hn : node.Lawful) (J : List Contact → σ → Prop) (hnobody : J [] s)
    (hsearched : ∀ l, node.begin .unbounded key node.config.peersReturnedGet s =
      (.ok (.lookup l), s) →
      J (l.contacts node l.stepBound s) (node.evict (l.run node s).2.1.errors (l.run node s).2.2)) :
    J (node.contacts .unbounded key node.config.peersReturnedGet s) (node.getValue key s).2 := by
  have hget := getting hn key s
  generalize node.getValue key s = result at hget ⊢
  cases hget with
  | refused e hbegin => rwa [contacts_of_error hbegin]
  | here value hbegin => rwa [contacts_of_here hbegin]
  | searched l₀ l ending s' hbegin hrun =>
      have hleft := hsearched l₀ hbegin
      rw [hrun] at hleft
      rwa [contacts_of_lookup hbegin]

/-- **Whatever a search leaves that begins with the node, a search for storers does.** -/
theorem seek_history (hn : node.Lawful) (J : List Contact → σ → Prop) (hnobody : J [] s)
    (hsearched : ∀ l, node.begin (.bounded node.config.maxStores) key
        node.config.peersReturnedSet s = (.ok (.lookup l), s) →
      J (l.contacts node l.stepBound s) (l.run node s).2.2) :
    J (node.contacts (.bounded node.config.maxStores) key node.config.peersReturnedSet s)
      (node.seek key s).2 := by
  have hran : ∀ {l₀ l ending s'}, node.begin (.bounded node.config.maxStores) key
      node.config.peersReturnedSet s = (.ok (.lookup l₀), s) → l₀.run node s = (ending, l, s') →
      J (node.contacts (.bounded node.config.maxStores) key node.config.peersReturnedSet s) s' := by
    intro l₀ l ending s' hbegin hrun
    have hleft := hsearched l₀ hbegin
    rw [hrun] at hleft
    rwa [contacts_of_lookup hbegin]
  have hseek := seeking hn key s
  generalize node.seek key s = result at hseek ⊢
  cases hseek with
  | noStores hmax => rwa [hmax, contacts_bounded_zero hn]
  | refused _ e hbegin => rwa [contacts_of_error hbegin]
  | here _ value hbegin => rwa [contacts_of_here hbegin]
  | found _ l₀ l peer value s' hbegin hrun => exact hran hbegin hrun
  | failed _ l₀ l e s' hbegin hrun => exact hran hbegin hrun
  | cutOff _ l₀ l s' hbegin hrun => exact hran hbegin hrun
  | ended _ l₀ l ending s' hbegin _ hrun => exact hran hbegin hrun

/-- A lookup that begins in an empty session asks nobody twice and not the node
itself, and it has ended after as many steps as there are ids: more of them
change nothing. -/
structure AsksOnce (node : Node RoutingTable S σ) (capacity : Option Nat) (key : Id) (k : UInt64)
    (s : σ) : Prop where
  once : Lookup.Once (node.id s) key (node.contacts ⟨capacity, []⟩ key k s)
  ends : ∀ l, node.begin ⟨capacity, []⟩ key k s = (.ok (.lookup l), s) →
    (l.run node s).1 ≠ .cutOff ∧
      ∀ fuel, 256 ^ key.length ≤ fuel → Lookup.runFor node fuel l s = l.run node s

theorem Lawful.asksOnce (hn : node.Lawful) (capacity : Option Nat) (key : Id) (k : UInt64) (s : σ) :
    node.AsksOnce capacity key k s := by
  constructor
  · rw [contacts]
    split
    next l s' h =>
      obtain ⟨rfl, _, ht⟩ := tracked_of_begin hn h
      exact (ht.runFor hn ht.stepBound_eq.ge).1
    · exact ⟨List.nodup_nil, by simp, by simp, Nat.pow_pos (by decide)⟩
  · intro l h
    obtain ⟨_, _, ht⟩ := tracked_of_begin hn h
    have hend : (l.run node s).1 ≠ .cutOff := (ht.runFor hn ht.stepBound_eq.ge).2
    exact ⟨hend, fun fuel hfuel => Lookup.runFor_eq_of_le hend (ht.stepBound_eq.le.trans hfuel)⟩

end Node

/-! ## What is sent -/

section

variable {S τ : Type} [Storage S] {config : Config} {address : Address} {world : Transport τ}
  {s s' : Setting S τ} {l l' : Lookup} {c : Candidate} {session : Session} {cs : List Contact}
  {own key : Id} {k : UInt64}

/-- The questions that were sent, in order, with what came of each. -/
def Setting.questions (s : Setting S τ) : List Exchange := s.log.filter (!·.isStore)

namespace Lookup

/-- With each step the question to the next candidate is sent, and nothing else. -/
theorem Tracked.log_step (h : l.Tracked (.among config address world) own key cs s)
    (hnext : l.session.next? = some (c, session)) {ending : Option Ending}
    (hstep : l.step (.among config address world) s = (ending, l', s')) :
    s'.log = s.log ++ [(l.contact (.among config address world) c s).exchange ⟨l.key, l.k⟩] := by
  have hn := Node.lawful_among (S := S) config address world
  have hask : ∀ d session' outcome s₁, l.session.next? = some (d, session') →
      (Node.among config address world).ask d.peer ⟨l.key, l.k⟩ s = (outcome, s₁) →
      s₁.log = s.log ++
        [(l.contact (.among config address world) c s).exchange ⟨l.key, l.k⟩] := by
    intro d session' outcome s₁ hnext' ha
    obtain ⟨rfl, rfl⟩ := Session.next?_inj hnext hnext'
    rw [Node.ask_of_ne (h.next hnext).1] at ha
    obtain ⟨_, rfl⟩ := Prod.mk.inj ha
    rfl
  have hst := stepped hn h.sound
  rw [hstep] at hst
  cases hst with
  | exhausted hnone => simp [hnext] at hnone
  | skipped d session' e s' hnext' ha => exact hask _ _ _ _ hnext' ha
  | aborted d session' e s' hnext' ha => exact hask _ _ _ _ hnext' ha
  | found d session' reply value s' hnext' ha => exact hask _ _ _ _ hnext' ha
  | settled d session' reply s' hnext' ha => exact hask d session' _ s' hnext' ha
  | widened d session' reply s' hnext' ha => exact hask d session' _ s' hnext' ha

/-- A search sends one question to each of its contacts. -/
theorem Tracked.log_run (h : l.Tracked (.among config address world) own key [] s) (hk : l.k = k) :
    (l.run (.among config address world) s).2.2.log =
      s.log ++ (l.contacts (.among config address world) l.stepBound s).map
        (Contact.exchange ⟨key, k⟩) := by
  have hn := Node.lawful_among (S := S) config address world
  refine h.history hn
    (fun cs l t => l.k = k ∧ t.log = s.log ++ cs.map (Contact.exchange ⟨key, k⟩))
    (fun cs _ _ t => t.log = s.log ++ cs.map (Contact.exchange ⟨key, k⟩)) ?_ ?_ ?_ ⟨hk, by simp⟩
  · rintro cs l t c session l' t' h ⟨hk, hlog⟩ hnext hstep
    have hst := stepped hn h.sound
    rw [hstep] at hst
    refine ⟨hst.frame.2.1.trans hk, ?_⟩
    rw [h.log_step hnext hstep, hlog, h.key_eq, hk, List.map_append, List.append_assoc]
    rfl
  · rintro cs l t c session e l' t' h ⟨hk, hlog⟩ hnext hstep
    rw [h.log_step hnext hstep, hlog, h.key_eq, hk, List.map_append, List.append_assoc]
    rfl
  · rintro cs l t _ ⟨_, hlog⟩ _
    exact hlog

end Lookup

namespace Node

theorem log_run_of_begin {capacity : Option Nat}
    (h : (among config address world).begin ⟨capacity, []⟩ key k s = (.ok (.lookup l), s)) :
    (l.run (among config address world) s).2.2.log =
      s.log ++ (l.contacts (among config address world) l.stepBound s).map
        (Contact.exchange ⟨key, k⟩) := by
  obtain ⟨_, hk, ht⟩ := tracked_of_begin (lawful_among config address world) h
  exact ht.log_run hk

variable (config address world)

/-- To get a value sends one question to each contact. -/
theorem log_getValue (key : Id) (s : Setting S τ) :
    ((among config address world).getValue key s).2.log =
      s.log ++ ((among config address world).contacts .unbounded key config.peersReturnedGet s).map
        (Contact.exchange ⟨key, config.peersReturnedGet⟩) :=
  getValue_history (lawful_among config address world)
    (fun cs s' => s'.log = s.log ++ cs.map (Contact.exchange ⟨key, config.peersReturnedGet⟩))
    (by simp) fun _ hbegin => log_run_of_begin hbegin

/-- To store a value is to send no question. -/
theorem questions_storeAt (peer : Peer) (request : StoreRequest) (s : Setting S τ) :
    ((among config address world).storeAt peer request s).2.questions = s.questions := by
  by_cases hid : peer.id = (among (S := S) config address world).id s
  · rw [storeAt_self hid]
    rfl
  · rw [storeAt_of_ne hid]
    have hlog : ((among (S := S) config address world).transport.storeValue peer.address
        request s).2.log = s.log ++ [.store peer.address request
          (world.storeValue peer.address request s.world).1] := rfl
    rw [Setting.questions, hlog, List.filter_append]
    exact List.append_nil _

theorem questions_place (l : Lookup) (value : Bytes) (s : Setting S τ) :
    ((among config address world).place l value s).2.questions = s.questions :=
  place_rule (J := fun s' : Setting S τ => s'.questions = s.questions) (fun _ _ h => h)
    (fun peer s' h => (questions_storeAt config address world peer ⟨l.key, value⟩ s').trans h) rfl

/-- To search for storers is to send one question to each contact. -/
theorem log_seek (key : Id) (s : Setting S τ) :
    ((among config address world).seek key s).2.log =
      s.log ++ ((among config address world).contacts (.bounded config.maxStores) key
        config.peersReturnedSet s).map (Contact.exchange ⟨key, config.peersReturnedSet⟩) :=
  seek_history (lawful_among config address world)
    (fun cs s' => s'.log = s.log ++ cs.map (Contact.exchange ⟨key, config.peersReturnedSet⟩))
    (by simp) fun _ hbegin => log_run_of_begin hbegin

omit [Storage S] in
/-- What is sent are questions to the contacts of a search. -/
theorem questions_of_log {s s' : Setting S τ} {request : GetRequest}
    (h : s'.log = s.log ++ cs.map (Contact.exchange request)) :
    s'.questions = s.questions ++ cs.map (Contact.exchange request) := by
  have hall : (cs.map (Contact.exchange request)).filter (!·.isStore) =
      cs.map (Contact.exchange request) := by
    refine List.filter_eq_self.mpr fun e he => ?_
    obtain ⟨c, _, rfl⟩ := List.mem_map.mp he
    rfl
  rw [Setting.questions, h, List.filter_append, hall]
  rfl

/-- To set a value sends one question to each contact of the search for storers. -/
theorem questions_setValue (key : Id) (value : Bytes) (s : Setting S τ) :
    ((among config address world).setValue key value s).2.questions =
      s.questions ++ ((among config address world).contacts (.bounded config.maxStores) key
        config.peersReturnedSet s).map (Contact.exchange ⟨key, config.peersReturnedSet⟩) := by
  have hseek := questions_of_log (log_seek config address world key s)
  rw [setValue_eq]
  cases hfound : (among config address world).seek key s with
  | mk outcome s₁ =>
      rw [hfound] at hseek
      cases outcome with
      | error e => exact hseek
      | ok l => exact (questions_place config address world l value s₁).trans hseek

/-- **Nobody is asked twice.**  Whatever the workers of a lookup do to its
session, in whatever order, nobody is picked who was picked before, or marked
while it was a candidate; so at most all ids are picked.  Whatever the peers of
a node do, its lookups therefore ask everybody at most once and never the node
itself, and end.  These contacts are all that a call puts questions to. -/
theorem asks_once {S τ : Type} [Storage S] (key : Id) :
    (∀ capacity events session, Session.Run key capacity events session →
      events.Pairwise (fun earlier later => ∀ id, later = .picked id → earlier.id ≠ id) ∧
        (events.filterMap Session.Event.picked?).length ≤ 256 ^ key.length) ∧
    ∀ (config : Config) (address : Address) (world : Transport τ) (s : Setting S τ),
      (∀ capacity k, (among config address world).AsksOnce capacity key k s) ∧
      ((among config address world).getValue key s).2.log =
        s.log ++ ((among config address world).contacts .unbounded key
          config.peersReturnedGet s).map (Contact.exchange ⟨key, config.peersReturnedGet⟩) ∧
      ∀ value, ((among config address world).setValue key value s).2.questions =
        s.questions ++ ((among config address world).contacts (.bounded config.maxStores) key
          config.peersReturnedSet s).map (Contact.exchange ⟨key, config.peersReturnedSet⟩) := by
  refine ⟨fun capacity events session hrun => ⟨hrun.picked_once, hrun.length_picked_le⟩,
    fun config address world s => ⟨fun capacity k => ?_, log_getValue config address world key s,
      fun value => questions_setValue config address world key value s⟩⟩
  exact (lawful_among config address world).asksOnce capacity key k s

/-- A candidate with an id of one byte in the search for the key zero. -/
def byteCandidate (byte : UInt8) : Candidate :=
  Candidate.fresh ⟨[0], by simp⟩
    ⟨⟨[byte], Id.singleton_ne_nil byte⟩, .ofIPv4 10 0 0 1 byte.toUInt16⟩

/-- Whoever was picked and then dropped for somebody closer is not picked when
it is offered again. -/
theorem asks_once_dropped : ∃ events session,
    Session.Run ⟨[0], by simp⟩ (some 1) events session ∧
      events.filterMap Session.Event.picked? =
        [(byteCandidate 2).peer.id, (byteCandidate 1).peer.id] ∧
      session.next? = none ∧
      events.Pairwise (fun earlier later => ∀ id, later = .picked id → earlier.id ≠ id) := by
  have hoffered : ∀ byte, ∀ c ∈ [byteCandidate byte], Session.Offered ⟨[0], by simp⟩ c := by
    intro byte c hc
    rw [List.mem_singleton.mp hc]
    exact ⟨rfl, rfl⟩
  have hstart : Session.Run ⟨[0], by simp⟩ (some 1) [] ⟨some 1, []⟩ := .start
  have hfar := (hstart.merge [byteCandidate 2] (hoffered 2)).next _ rfl
  have hnear := (hfar.merge [byteCandidate 1] (hoffered 1)).next _ rfl
  have hagain := hnear.merge [byteCandidate 2] (hoffered 2)
  exact ⟨_, _, hagain, rfl, rfl,
    ((asks_once (S := MemoryStorage) (τ := Unit) _).1 _ _ _ hagain).1⟩

end Node

end

end Kademlia
