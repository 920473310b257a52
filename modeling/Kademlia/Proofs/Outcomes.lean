import Kademlia.Proofs.BestFirst

/-!
# Kademlia.Proofs.Outcomes

How calls fail.  A node with a well-formed table and its values in memory can
always answer itself about a key of its overlay (`Node.exists_begin`), accepted
replies name only peers of that overlay, and so nothing that peers send can make
it fail to know or to measure them.  Whatever they do, a call ends in one of a
few ways, and an error of a request that it passes on is one that a request came
back with (`Node.GetResult`, `Node.SetResult`); the length of the key is checked
before anything is sent (`Node.fails_only_by_requests`).

The one way not to end is the node's own: a call that is to find more storers
than there can be room for panics, whatever the key, the table and the peers
(`Node.not_setValue_ends`).
-/

namespace Kademlia

namespace RpcError

/-- Errors that are more than one bad peer. -/
theorem isExpected_eq_false_iff {e : RpcError} :
    e.isExpected = false ↔ e = .shutdown ∨ e = .remote .generic := by
  cases e with
  | unreachable => simp [isExpected]
  | invalidResponse cause => simp [isExpected]
  | remote code => cases code <;> simp [isExpected]
  | shutdown => simp [isExpected]

/-- Errors that are more than one replica less. -/
theorem isStoreFailure_eq_false_iff {e : RpcError} :
    e.isStoreFailure = false ↔ e = .shutdown ∨ ∃ code, e = .remote code := by
  cases e <;> simp [isStoreFailure]

end RpcError

/-! ## Searches that fail -/

namespace Lookup

variable {S σ : Type} [Storage S] {node : Node RoutingTable S σ} {l : Lookup} {s : σ}
  {own key : Id}

/-- **A search fails only with the error of a contact.** -/
theorem Tracked.of_failed (hn : node.Lawful) (h : l.Tracked node own key [] s) {e : Error}
    (hfailed : (l.run node s).1 = .failed e) :
    ∃ c ∈ l.contacts node l.stepBound s, ∃ cause, c.reply = .error cause ∧
      cause.isExpected = false ∧ e = .rpc cause := by
  refine h.history hn (fun _ _ _ => True)
    (fun cs ending _ _ => ending = .failed e → ∃ c ∈ cs, ∃ cause, c.reply = .error cause ∧
      cause.isExpected = false ∧ e = .rpc cause) ?_ ?_ ?_ trivial hfailed
  · intros
    trivial
  · intro cs l s c session ending l' s' h _ hnext hstep hending
    have hst := stepped hn h.sound
    rw [hstep, hending] at hst
    cases hst with
    | aborted d session' cause s' hnext' hask he =>
        obtain ⟨rfl, rfl⟩ := Session.next?_inj hnext hnext'
        exact ⟨_, List.mem_append_right _ (List.mem_singleton_self _), cause,
          Contact.reply_eq_of_outcome (h.outcome_eq hnext hask) he, he, rfl⟩
  · intro cs l s _ _ _ hending
    contradiction

end Lookup

namespace Node

/-! ## Calls that begin -/

section

variable {σ : Type} {node : Node RoutingTable MemoryStorage σ} {key : Id} {s : σ}

/-- A node can answer itself about every key of its overlay. -/
theorem exists_begin (hn : node.Lawful) (hwf : (node.server s).peers.WellFormed)
    (hk : key.length = (node.id s).length) (session : Session) (k : UInt64) :
    ∃ opening, node.begin session key k s = (.ok opening, s) := by
  have hbegin := beginning hn session key k s
  generalize node.begin session key k s = result at hbegin ⊢
  cases hbegin with
  | foreign hl => exact absurd hk.symm hl
  | unable _ code hlook =>
      cases hv : (node.server s).values.get? key.bytes with
      | some value => simp [Server.lookUp_of_value hv] at hlook
      | none =>
          obtain ⟨nodes, hsame, _⟩ := Server.exists_lookUp hwf hk hv
          rw [hsame] at hlook
          contradiction
  | here _ responder value => exact ⟨.here value, rfl⟩
  | unmeasured _ responder nodes hlook hnodes =>
      refine absurd (fun p hp => ?_) hnodes
      exact (hwf.of_mem (Server.mem_of_lookUp hwf hk hlook p hp)).1.trans hk.symm
  | lookup => exact ⟨_, rfl⟩

/-- Nobody begins with a key of another one. -/
theorem begin_of_length_ne {S : Type} [Storage S] {node : Node RoutingTable S σ}
    (hn : node.Lawful) (hk : key.length ≠ (node.id s).length) (session : Session) (k : UInt64) :
    node.begin session key k s =
      (.error (.id (.lengthMismatch (node.id s).length key.length)), s) := by
  have hbegin := beginning hn session key k s
  generalize node.begin session key k s = result at hbegin ⊢
  cases hbegin with
  | foreign => rfl
  | unable hl => exact absurd hl.symm hk
  | here hl => exact absurd hl.symm hk
  | unmeasured hl => exact absurd hl.symm hk
  | lookup hl => exact absurd hl.symm hk

end

/-! ## How calls end -/

/-- How getting a value of the overlay ends, with these requests sent. -/
inductive GetResult (sent : List Exchange) : Except Error Bytes → Prop where
  | ok (value : Bytes) : GetResult sent (.ok value)
  | notFound (errors : List PeerError) : GetResult sent (.error (.notFound errors))
  /-- A question came back with an error that is more than one bad peer. -/
  | rpc (target : Address) (request : GetRequest) (e : RpcError)
      (hsent : .get target request (.error e) ∈ sent)
      (hfatal : e = .shutdown ∨ e = .remote .generic) : GetResult sent (.error (.rpc e))

/-- How setting a value of the overlay ends, with these requests sent. -/
inductive SetResult (sent : List Exchange) : Except Error Unit → Prop where
  | ok : SetResult sent (.ok ())
  | alreadySet : SetResult sent (.error .alreadySet)
  | settingFailed (reason : SettingFailure) (errors : List PeerError) :
      SetResult sent (.error (.settingFailed reason errors))
  /-- A question came back with an error that is more than one bad peer. -/
  | asking (target : Address) (request : GetRequest) (e : RpcError)
      (hsent : .get target request (.error e) ∈ sent)
      (hfatal : e = .shutdown ∨ e = .remote .generic) : SetResult sent (.error (.rpc e))
  /-- A store came back with an error that is more than one replica less. -/
  | storing (target : Address) (request : StoreRequest) (e : RpcError)
      (hsent : .store target request (.error e) ∈ sent)
      (hfatal : e = .shutdown ∨ ∃ code, e = .remote code) : SetResult sent (.error (.rpc e))

theorem SetResult.mono {sent more : List Exchange} {result : Except Error Unit}
    (h : SetResult sent result) (hsub : sent ⊆ more) : SetResult more result := by
  cases h with
  | ok => exact .ok
  | alreadySet => exact .alreadySet
  | settingFailed reason errors => exact .settingFailed reason errors
  | asking target request e hsent hfatal => exact .asking target request e (hsub hsent) hfatal
  | storing target request e hsent hfatal => exact .storing target request e (hsub hsent) hfatal

theorem GetResult.ne_id {sent : List Exchange} {result : Except Error Bytes}
    (h : GetResult sent result) (cause : IdError) : result ≠ .error (.id cause) := by
  cases h <;> simp

theorem SetResult.ne_id {sent : List Exchange} {result : Except Error Unit}
    (h : SetResult sent result) (cause : IdError) : result ≠ .error (.id cause) := by
  cases h <;> simp

theorem SetResult.ne_invalidConfig {sent : List Exchange} {result : Except Error Unit}
    (h : SetResult sent result) (cause : ConfigError) :
    result ≠ .error (.invalidConfig cause) := by
  cases h <;> simp

/-- A search that fails has sent a question that came back with its error. -/
theorem exists_sent_of_failed {S σ : Type} [Storage S] {node : Node RoutingTable S σ}
    (hn : node.Lawful) {capacity : Option Nat} {key : Id} {k : UInt64} {s : σ} {l : Lookup}
    (hbegin : node.begin ⟨capacity, []⟩ key k s = (.ok (.lookup l), s)) {e : Error}
    (hfailed : (l.run node s).1 = .failed e) :
    ∃ target cause, e = .rpc cause ∧ (cause = .shutdown ∨ cause = .remote .generic) ∧
      .get target ⟨key, k⟩ (.error cause) ∈
        (node.contacts ⟨capacity, []⟩ key k s).map (Contact.exchange ⟨key, k⟩) := by
  obtain ⟨c, hc, cause, hreply, hfatal, rfl⟩ :=
    (tracked_of_begin hn hbegin).2.2.of_failed hn hfailed
  refine ⟨c.peer.address, cause, rfl, RpcError.isExpected_eq_false_iff.mp hfatal, ?_⟩
  rw [contacts_of_lookup hbegin]
  exact List.mem_map.mpr ⟨c, hc, by rw [Contact.exchange, hreply]⟩

section

variable {τ : Type} (config : Config) (address : Address) (world : Transport τ) {key : Id}
  {s s' : Setting MemoryStorage τ} {l : Lookup}

theorem getResult_getValue (hwf : s.server.peers.WellFormed)
    (hk : key.length = s.server.id.length) :
    GetResult (((among config address world).contacts .unbounded key config.peersReturnedGet s).map
        (Contact.exchange ⟨key, config.peersReturnedGet⟩))
      ((among config address world).getValue key s).1 := by
  have hn := lawful_among (S := MemoryStorage) config address world
  have hget := getting hn key s
  generalize (among config address world).getValue key s = result at hget ⊢
  cases hget with
  | refused e hbegin =>
      obtain ⟨opening, hopening⟩ := exists_begin hn hwf hk .unbounded config.peersReturnedGet
      have hsame := hopening.symm.trans hbegin
      simp at hsame
  | here value => exact .ok value
  | searched l₀ l ending s' hbegin hrun =>
      have hends := ((hn.asksOnce none key config.peersReturnedGet s).ends l₀ hbegin).1
      rw [hrun] at hends
      cases ending with
      | found p value => exact .ok value
      | settled => exact .notFound l.errors
      | exhausted => exact .notFound l.errors
      | cutOff => exact absurd rfl hends
      | failed e =>
          obtain ⟨target, cause, rfl, hfatal, hsent⟩ :=
            exists_sent_of_failed hn hbegin (congrArg Prod.fst hrun)
          exact .rpc target _ cause hsent hfatal

/-! ## Stores that fail -/

/-- An acknowledgement that is not accepted is one replica less. -/
theorem isStoreFailure_of_checkAcknowledgement {peer : Peer} {reply : StoreReply} {e : RpcError}
    (h : checkAcknowledgement peer reply = .error e) : e.isStoreFailure = true := by
  rw [checkAcknowledgement] at h
  split at h
  · rw [← Except.error.inj h]
    rfl
  · contradiction

/-- A node always keeps a value of its own overlay. -/
theorem storeAt_self_eq_ok {peer : Peer} (hid : peer.id = s.server.id) {request : StoreRequest}
    (hk : request.key.length = s.server.id.length) :
    ((among config address world).storeAt peer request s).1 = .ok () := by
  have hmatches : s.server.Matches none request.key := ⟨hk, by simp⟩
  have hhandle : Server.handleStore none request s.server = _ :=
    Server.handleStore_of_ok hmatches rfl
  have hself : (among config address world).storeAt peer request s = _ := storeAt_self hid request
  rw [hself]
  show ((Server.handleStore none request s.server).1.mapError RpcError.remote).bind _ = _
  rw [hhandle]
  exact checkAcknowledgement_eq hid.symm

/-- An error that is more than one replica less came back with the request. -/
theorem log_storeAt (peer : Peer) {request : StoreRequest}
    (hk : request.key.length = s.server.id.length) :
    ∃ sent, ((among config address world).storeAt peer request s).2.log = s.log ++ sent ∧
      ∀ e, ((among config address world).storeAt peer request s).1 = .error e →
        e.isStoreFailure = false → .store peer.address request (.error e) ∈ sent := by
  by_cases hid : peer.id = s.server.id
  · refine ⟨[], ?_, fun e he => ?_⟩
    · have hself : (among config address world).storeAt peer request s = _ :=
        storeAt_self hid request
      rw [hself, List.append_nil]
      rfl
    · rw [storeAt_self_eq_ok config address world hid hk] at he
      contradiction
  · have hsent : (among config address world).storeAt peer request s = _ :=
      storeAt_of_ne hid request
    rw [hsent]
    refine ⟨[.store peer.address request (world.storeValue peer.address request s.world).1], rfl,
      fun e he hfatal => ?_⟩
    have hbind : (world.storeValue peer.address request s.world).1.bind
        (checkAcknowledgement peer) = .error e := he
    rw [List.mem_singleton]
    cases hreply : (world.storeValue peer.address request s.world).1 with
    | error cause =>
        rw [hreply] at hbind
        rw [← Except.error.inj hbind]
    | ok reply =>
        rw [hreply] at hbind
        have hfailure := isStoreFailure_of_checkAcknowledgement hbind
        simp [hfatal] at hfailure

/-- So did the error that ends the storing at several peers. -/
theorem log_replicate (request : StoreRequest) (storers : List Peer)
    (hk : request.key.length = s.server.id.length) :
    ∃ sent, ((among config address world).replicate request storers s).2.log = s.log ++ sent ∧
      ∀ e, ((among config address world).replicate request storers s).1 = .error e →
        e.isStoreFailure = false ∧ ∃ target, .store target request (.error e) ∈ sent := by
  induction storers generalizing s with
  | nil => exact ⟨[], by simp [replicate], by simp [replicate]⟩
  | cons peer rest ih =>
      obtain ⟨sent, hlog, hfatal⟩ := log_storeAt config address world peer hk
      obtain ⟨_, _, _, hdelivered⟩ := storeAt_delivers config address world peer hk
      rw [replicate]
      cases hstore : (among config address world).storeAt peer request s with
      | mk outcome s₁ =>
          rw [hstore] at hlog hfatal hdelivered
          obtain ⟨more, hmore, hlast⟩ := ih (hk.trans (congrArg Id.length hdelivered.id_eq).symm)
          have hboth : ((among config address world).replicate request rest s₁).2.log =
              s.log ++ (sent ++ more) := by
            rw [hmore, hlog, List.append_assoc]
          have hrest : ∀ e, ((among config address world).replicate request rest s₁).1 =
              .error e → e.isStoreFailure = false ∧
                ∃ target, .store target request (.error e) ∈ sent ++ more := by
            intro e he
            obtain ⟨hfailure, target, hmem⟩ := hlast e he
            exact ⟨hfailure, target, List.mem_append_right _ hmem⟩
          cases outcome with
          | ok u => exact ⟨sent ++ more, hboth, hrest⟩
          | error e =>
              cases he : e.isStoreFailure with
              | true =>
                  simp only [he, if_true]
                  refine ⟨sent ++ more, hboth, fun e' he' => hrest e' ?_⟩
                  cases hfailures : ((among config address world).replicate request rest s₁).1 with
                  | error cause =>
                      rw [hfailures] at he'
                      exact he'
                  | ok failures =>
                      rw [hfailures] at he'
                      contradiction
              | false =>
                  simp only [he, Bool.false_eq_true, if_false]
                  refine ⟨sent, hlog, fun e' he' => ?_⟩
                  obtain rfl : e = e' := Except.error.inj he'
                  exact ⟨he, peer.address, hfatal e rfl he⟩

theorem setResult_place (hl : l.Sound (among config address world) s) (value : Bytes) :
    ∃ sent, ((among config address world).place l value s).2.log = s.log ++ sent ∧
      SetResult sent ((among config address world).place l value s).1 := by
  have hk : l.key.length = ((among config address world).evict l.errors s).server.id.length :=
    hl.length_eq.symm.trans (congrArg Id.length (Server.id_evict s.server l.errors).symm)
  obtain ⟨sent, hlog, hfatal⟩ :=
    log_replicate config address world ⟨l.key, value⟩ l.session.peers hk
  have hplace := placing (among config address world) l value s
  generalize (among config address world).place l value s = result at hplace ⊢
  cases hplace with
  | few => exact ⟨[], (List.append_nil _).symm, .settingFailed _ _⟩
  | aborted _ e s' hrep =>
      rw [hrep] at hlog hfatal
      obtain ⟨hfailure, target, hsent⟩ := hfatal e rfl
      exact ⟨sent, hlog,
        .storing target _ e hsent (RpcError.isStoreFailure_eq_false_iff.mp hfailure)⟩
  | short _ failures s' hrep =>
      rw [hrep] at hlog
      exact ⟨sent, hlog, .settingFailed _ _⟩
  | stored _ failures s' hrep =>
      rw [hrep] at hlog
      exact ⟨sent, hlog, .ok⟩

theorem setResult_setValue (hwf : s.server.peers.WellFormed) (hmax : config.maxStores ≠ 0)
    (hk : key.length = s.server.id.length) (value : Bytes) :
    ∃ sent, ((among config address world).setValue key value s).2.log = s.log ++ sent ∧
      SetResult sent ((among config address world).setValue key value s).1 := by
  have hn := lawful_among (S := MemoryStorage) config address world
  have hlog := log_seek config address world key s
  have hsound := fun l s' (h : (among config address world).seek key s = (.ok l, s')) =>
    (sound_of_seek hn h).2.1
  have hseek := seeking hn key s
  rw [setValue_eq]
  generalize hasked : ((among config address world).contacts (.bounded config.maxStores) key
    config.peersReturnedSet s).map (Contact.exchange ⟨key, config.peersReturnedSet⟩) = asked at hlog
  generalize (among config address world).seek key s = result at hlog hsound hseek ⊢
  cases hseek with
  | noStores hzero => exact absurd hzero hmax
  | refused _ e hbegin =>
      obtain ⟨opening, hopening⟩ :=
        exists_begin hn hwf hk (.bounded config.maxStores) config.peersReturnedSet
      have hsame := hopening.symm.trans hbegin
      simp at hsame
  | here => exact ⟨asked, hlog, .alreadySet⟩
  | found => exact ⟨asked, hlog, .alreadySet⟩
  | failed _ l₀ l e s' hbegin hrun =>
      obtain ⟨target, cause, rfl, hfatal, hsent⟩ :=
        exists_sent_of_failed hn hbegin (congrArg Prod.fst hrun)
      exact ⟨asked, hlog, .asking target _ cause (hasked ▸ hsent) hfatal⟩
  | cutOff _ l₀ l s' hbegin hrun =>
      have hends := ((hn.asksOnce (some config.maxStores) key config.peersReturnedSet s).ends
        l₀ hbegin).1
      rw [hrun] at hends
      exact absurd rfl hends
  | ended _ l₀ l ending s' =>
      obtain ⟨sent, hplaced, hresult⟩ :=
        setResult_place config address world (hsound l s' rfl) value
      have hboth : ((among config address world).place l value s').2.log =
          s.log ++ (asked ++ sent) := by
        rw [hplaced, hlog, List.append_assoc]
      exact ⟨asked ++ sent, hboth, hresult.mono (List.subset_append_right _ _)⟩

/-! ## What is refused at once -/

theorem getValue_of_length_ne (hk : key.length ≠ s.server.id.length) :
    (among config address world).getValue key s =
      (.error (.id (.lengthMismatch s.server.id.length key.length)), s) := by
  rw [getValue, begin_of_length_ne (lawful_among config address world) hk]
  rfl

theorem setValue_of_no_stores (hmax : config.maxStores = 0) (value : Bytes) :
    (among config address world).setValue key value s =
      (.error (.invalidConfig .noStores), s) := by
  rw [setValue]
  exact if_pos hmax

theorem setValue_of_length_ne (hmax : config.maxStores ≠ 0)
    (hk : key.length ≠ s.server.id.length) (value : Bytes) :
    (among config address world).setValue key value s =
      (.error (.id (.lengthMismatch s.server.id.length key.length)), s) := by
  rw [setValue, if_neg (by exact hmax), setValueIn,
    begin_of_length_ne (lawful_among config address world) hk]
  rfl

end

/-- How getting a value comes out. -/
structure Gets {τ : Type} (key : Id) (s : Setting MemoryStorage τ)
    (outcome : Except Error Bytes × Setting MemoryStorage τ) : Prop where
  /-- The key is of another overlay exactly if that is the error. -/
  mismatch_iff : ∀ expected actual,
    outcome.1 = .error (.id (.lengthMismatch expected actual)) ↔
      key.length ≠ s.server.id.length ∧ expected = s.server.id.length ∧ actual = key.length
  /-- Then nothing is sent, and nothing changes. -/
  unchanged : key.length ≠ s.server.id.length → outcome.2 = s
  result : key.length = s.server.id.length →
    ∃ sent, outcome.2.log = s.log ++ sent ∧ GetResult sent outcome.1

/-- How setting a value comes out. -/
structure Sets {τ : Type} (config : Config) (key : Id) (s : Setting MemoryStorage τ)
    (outcome : Except Error Unit × Setting MemoryStorage τ) : Prop where
  /-- There are to be no storers exactly if the error is about the settings. -/
  invalid_iff : ∀ cause, outcome.1 = .error (.invalidConfig cause) ↔
    config.maxStores = 0 ∧ cause = .noStores
  /-- Otherwise the key is of another overlay exactly if that is the error. -/
  mismatch_iff : ∀ expected actual,
    outcome.1 = .error (.id (.lengthMismatch expected actual)) ↔
      config.maxStores ≠ 0 ∧ key.length ≠ s.server.id.length ∧
        expected = s.server.id.length ∧ actual = key.length
  /-- In both cases nothing is sent, and nothing changes. -/
  unchanged : config.maxStores = 0 ∨ key.length ≠ s.server.id.length → outcome.2 = s
  result : config.maxStores ≠ 0 → key.length = s.server.id.length →
    ∃ sent, outcome.2.log = s.log ++ sent ∧ SetResult sent outcome.1

section

variable {τ : Type} (config : Config) (address : Address) (world : Transport τ) (key : Id)
  (s : Setting MemoryStorage τ)

theorem gets_getValue (hwf : s.server.peers.WellFormed) :
    Gets key s ((among config address world).getValue key s) := by
  by_cases hk : key.length = s.server.id.length
  · have hresult := getResult_getValue config address world hwf hk
    refine ⟨fun expected actual => ?_, fun hne => absurd hk hne,
      fun _ => ⟨_, log_getValue config address world key s, hresult⟩⟩
    simp [hk, hresult.ne_id]
  · rw [getValue_of_length_ne config address world hk]
    exact ⟨by simp [hk, eq_comm], fun _ => rfl, fun heq => absurd heq hk⟩

theorem sets_setValue (hwf : s.server.peers.WellFormed) (value : Bytes) :
    Sets config key s ((among config address world).setValue key value s) := by
  by_cases hmax : config.maxStores = 0
  · rw [setValue_of_no_stores config address world hmax]
    exact ⟨by simp [hmax, eq_comm], by simp [hmax], fun _ => rfl, fun hne => absurd hmax hne⟩
  by_cases hk : key.length = s.server.id.length
  · obtain ⟨sent, hlog, hresult⟩ :=
      setResult_setValue config address world hwf hmax hk value
    refine ⟨fun cause => ?_, fun expected actual => ?_, ?_, fun _ _ => ⟨sent, hlog, hresult⟩⟩
    · simp [hmax, hresult.ne_invalidConfig]
    · simp [hk, hresult.ne_id]
    · simp [hmax, hk]
  · rw [setValue_of_length_ne config address world hmax hk]
    exact ⟨by simp [hmax], by simp [hmax, hk, eq_comm], fun _ => rfl, fun _ heq => absurd heq hk⟩

end

/-- **Nothing that peers send makes a call fail but the errors of its requests.**
A node with a well-formed table, whatever its peers answer, refuses a key of
another length, or to store at nobody, before anything is sent; otherwise a call
ends with a value or success, without either, or with an error that one of its
requests came back with.  A call to set a value ends so if there is room for as
many candidates as there are to be storers, and panics if there is not. -/
theorem fails_only_by_requests {τ : Type} (config : Config) (address : Address)
    (world : Transport τ) (key : Id) (s : Setting MemoryStorage τ)
    (hwf : s.server.peers.WellFormed) :
    Gets key s ((among config address world).getValue key s) ∧
      ∀ value,
        ((among config address world).setValue? key value s = none ↔
          Session.maxCapacity < config.maxStores) ∧
        ∀ outcome, (among config address world).setValue? key value s = some outcome →
          Sets config key s outcome := by
  refine ⟨gets_getValue config address world key s hwf, fun value => ⟨?_, fun outcome hset => ?_⟩⟩
  · exact setValue?_eq_none_iff
  · obtain ⟨-, rfl⟩ := setValue?_eq_some_iff.mp hset
    exact sets_setValue config address world key s hwf value

/-! A node that is shut down: none of its requests is sent any more. -/

namespace Closed

def world : Transport Unit where
  getValue _ _ _ := (.error .shutdown, ())
  storeValue _ _ _ := (.error .shutdown, ())

def node : Node RoutingTable MemoryStorage (Setting MemoryStorage Unit) :=
  among {} (Relay.peer 2 1).address world

/-- A key of two bytes, where ids have one. -/
def longKey : Id := ⟨[0, 0], by simp⟩

/-- A node on its own. -/
def alone : Setting MemoryStorage Unit where
  server := ⟨.empty (Relay.peer 1 1).id RoutingTable.defaultBucketSize, {}⟩
  world := ()

end Closed

/-- Its first question ends the call; for a key of another length it asks none. -/
theorem fails_only_by_requests_closed :
    GetResult (Closed.node.getValue (Relay.peer 0 0).id Relay.setting).2.log
      (.error (.rpc .shutdown)) ∧
    ∃ outcome, Closed.node.setValue? Closed.longKey [0xaa] Relay.setting = some outcome ∧
      outcome.1 = .error (.id (.lengthMismatch 1 2)) := by
  have hwf : Relay.setting.server.peers.WellFormed :=
    (RoutingTable.wellFormed_empty (Relay.peer 2 1).id 20).meet (Relay.peer 4 2)
  have hget := (fails_only_by_requests {} (Relay.peer 2 1).address Closed.world
    (Relay.peer 0 0).id Relay.setting hwf).1
  obtain ⟨hpanics, hset⟩ := (fails_only_by_requests {} (Relay.peer 2 1).address Closed.world
    Closed.longKey Relay.setting hwf).2 [0xaa]
  have hshutdown : (Closed.node.getValue (Relay.peer 0 0).id Relay.setting).1 =
      .error (.rpc .shutdown) := by
    decide +kernel
  obtain ⟨sent, hlog, hresult⟩ := hget.result rfl
  have hsent : (Closed.node.getValue (Relay.peer 0 0).id Relay.setting).2.log = sent := hlog
  obtain ⟨outcome, houtcome⟩ := Option.ne_none_iff_exists'.mp (mt hpanics.mp (by decide))
  rw [hsent, ← hshutdown]
  exact ⟨hresult, outcome, houtcome, ((hset outcome houtcome).mismatch_iff 1 2).mpr (by decide)⟩

/-- It is not so that every call ends: a node on its own that is to store at as
many nodes as a word can count panics over a key that it would refuse. -/
theorem not_setValue_ends : ¬ ∀ (config : Config) (address : Address) (world : Transport Unit)
    (key : Id) (s : Setting MemoryStorage Unit), s.server.peers.WellFormed → ∀ value,
      ∃ outcome, (among config address world).setValue? key value s = some outcome ∧
        Sets config key s outcome := by
  intro h
  obtain ⟨outcome, hset, -⟩ := h { maxStores := 2 ^ 64 - 1 } (Relay.peer 1 1).address Closed.world
    Closed.longKey Closed.alone (RoutingTable.wellFormed_empty (Relay.peer 1 1).id _) [0xaa]
  have hroom := (setValue?_eq_some_iff.mp hset).1
  revert hroom
  decide

end Node

end Kademlia
