import Kademlia.Proofs.Correlation

/-!
# Kademlia.Proofs.Takeover

How requests end, and when one takes the place of another.  Transaction ids
have 16 bits and count the requests, so a request has the id of one that
still waits only if it is started exactly `2 ^ 16` requests later
(`nextId_eq_iff`).  Then it takes the place of the other one, whose caller
learns of a shutdown although there was none (`shutdown_while_up`).

All other requests end by their own answer, their own timeout, their own packet
that could not be sent, or the shutdown (`ends_or_taken_over`).
-/

namespace Kademlia

namespace Socket

variable {P S : Type} {sock sock' : Socket P S} {past : List (Link × Event)} {log : List Effect}
  {entry : UInt16 × Pending}

/-! ## Transaction ids that come again -/

/-- No more than `2 ^ 16` requests were started since one that waits. -/
def Recent (sock : Socket P S) : Prop :=
  sock.isDown = false → ∀ entry ∈ sock.pending, sock.callers ≤ entry.2.caller + 2 ^ 16

theorem Tracked.caller_lt (h : Tracked past log sock) (hentry : entry ∈ sock.pending) :
    entry.2.caller < sock.callers := by
  have hwaits : entry.2.caller ∈ finished log ++ sock.waiting :=
    List.mem_append_right _ (List.mem_map_of_mem hentry)
  exact List.mem_range.mp (h.settled.mem_iff.mp hwaits)

/-- A request that waits has the next transaction id if exactly `2 ^ 16` requests were
started since. -/
theorem Tracked.nextId_eq_iff (h : Tracked past log sock) (hup : sock.isDown = false)
    (hrecent : sock.Recent) (hentry : entry ∈ sock.pending) :
    entry.1 = sock.nextId ↔ sock.callers = entry.2.caller + 2 ^ 16 := by
  have hlt := h.caller_lt hentry
  have hle := hrecent hup entry hentry
  rw [(h.registered entry hentry).1, h.current hup, ← UInt16.toNat_inj]
  simp only [UInt16.toNat_ofNat']
  omega

/-- A request that waits stays when its transaction id is not the next one. -/
theorem mem_forget_nextId (hentry : entry ∈ sock.pending) (hne : entry.1 ≠ sock.nextId) :
    entry ∈ (sock.forget sock.nextId).pending :=
  List.mem_filter.mpr ⟨hentry, by simpa using hne⟩

/-- A caller whose request is over does not wait. -/
theorem Tracked.not_mem_waiting (h : Tracked past log sock) {caller : Nat}
    (hcaller : caller ∈ finished log) : caller ∉ sock.waiting :=
  List.disjoint_of_nodup_append (h.settled.nodup_iff.mpr List.nodup_range) hcaller

/-- A request with the transaction id that is next has waited for `2 ^ 16` starts. -/
theorem Tracked.of_mem_displaced (h : Tracked past log sock) (hup : sock.isDown = false)
    (hrecent : sock.Recent) {caller : Nat} {outcome : Except RpcError Answer}
    (hmem : .finish caller outcome ∈ sock.displaced) :
    caller ∈ sock.waiting ∧ sock.callers = caller + 2 ^ 16 ∧ outcome = .error .shutdown := by
  obtain ⟨p, hp, heq⟩ := List.mem_map.mp hmem
  obtain ⟨rfl, rfl⟩ : p.caller = caller ∧ Except.error .shutdown = outcome := by
    simpa [abandoned] using heq
  have hwaits := (lookup_eq_some h.keyed).mp (Option.mem_toList.mp hp)
  exact ⟨List.mem_map_of_mem hwaits, (h.nextId_eq_iff hup hrecent hwaits).mp rfl, rfl⟩

variable [PeerStore P] {link : Link} {event : Event} {effects : List Effect}

theorem Transition.recent (h : Transition link sock event effects sock')
    (htracked : Tracked past log sock) (hrecent : sock.Recent) : sock'.Recent := by
  -- The entry with the next id is the only one that `2 ^ 16` starts have passed, and it goes.
  have hforget (hup : sock.isDown = false) :
      ∀ entry ∈ (sock.forget sock.nextId).pending, sock.callers + 1 ≤ entry.2.caller + 2 ^ 16 := by
    intro entry hentry
    obtain ⟨hold, hne⟩ := List.mem_filter.mp hentry
    have hle := hrecent hup entry hold
    have hother := (htracked.nextId_eq_iff hup hrecent hold).not.mp (by simpa using hne)
    omega
  intro hup entry hentry
  cases h with
  | refuse hdown => simp_all
  | send =>
    rcases List.mem_cons.mp hentry with rfl | hentry
    · show sock.callers + 1 ≤ sock.callers + 2 ^ 16
      omega
    · exact hforget hup entry hentry
  | fail => exact hforget hup entry hentry
  | deliver | expire => exact hrecent hup entry (List.mem_filter.mp hentry).1
  | drain => contradiction
  | quiet _ _ hdown =>
    exact hrecent (Bool.eq_false_iff.mpr fun h => by simp_all) entry hentry

/-! ## Starts -/

section Starts

variable {target : Address} {query : Query}

/-- Starting a request leaves those in place that have other transaction ids. -/
theorem Transition.mem_of_start (h : Transition link sock (.start target query) effects sock')
    (hentry : entry ∈ sock.pending) (hne : sock.isDown = false → entry.1 ≠ sock.nextId) :
    entry ∈ sock'.pending := by
  cases h with
  | refuse => exact hentry
  | send hup => exact List.mem_cons_of_mem _ (mem_forget_nextId hentry (hne hup))
  | fail hup => exact mem_forget_nextId hentry (hne hup)
  | quiet hevent => contradiction

/-- The caller whose request has the transaction id of a new one learns of a shutdown. -/
theorem Transition.finish_of_start (h : Transition link sock (.start target query) effects sock')
    (hkeyed : sock.Keyed) (hentry : entry ∈ sock.pending) (hup : sock.isDown = false)
    (heq : entry.1 = sock.nextId) : .finish entry.2.caller (.error .shutdown) ∈ effects := by
  have hdisplaced : .finish entry.2.caller (.error .shutdown) ∈ sock.displaced := by
    have hlookup := (lookup_eq_some hkeyed).mpr hentry
    simp [displaced, abandoned, ← heq, hlookup]
  cases h with
  | refuse hdown => simp_all
  | send | fail => exact List.mem_append_left _ hdisplaced
  | quiet hevent => contradiction

theorem Transition.isDown_of_start (h : Transition link sock (.start target query) effects sock') :
    sock'.isDown = sock.isDown := by
  cases h with
  | refuse | send | fail => rfl
  | quiet hevent => contradiction

end Starts

/-! ## How requests end -/

/-- Why a request ends with an event, and with what outcome. -/
inductive Ending (link : Link) (sock : Socket P S) :
    Event → Nat → Except RpcError Answer → Prop
  /-- By its own answer. -/
  | answered {source packet tid p answer} (hwaits : (tid, p) ∈ sock.pending)
    (hread : Message.decode packet = .ok ⟨tid, .answer answer⟩)
    (hsource : p.target.answeredBy source) :
    Ending link sock (.receive source packet) p.caller (.ok answer)
  /-- By its own timeout. -/
  | expired {caller} (hwaits : caller ∈ sock.waiting) :
    Ending link sock (.timeout caller) caller (.error .unreachable)
  /-- At its start, as its packet cannot be sent. -/
  | unsent {target query} (hup : sock.isDown = false)
    (hunsent : link.sends target (sock.packet query) = false) :
    Ending link sock (.start target query) sock.callers (.error .unreachable)
  /-- At its start, after a shutdown. -/
  | refused {target query} (hdown : sock.isDown) :
    Ending link sock (.start target query) sock.callers (.error .shutdown)
  /-- After a shutdown that it did not outlast. -/
  | drained {caller} (hdown : sock.isDown) (hwaits : caller ∈ sock.waiting) :
    Ending link sock .drain caller (.error .shutdown)
  /-- By the start of the request `2 ^ 16` places behind it. -/
  | takenOver {target query caller} (hup : sock.isDown = false) (hwaits : caller ∈ sock.waiting)
    (hlater : sock.callers = caller + 2 ^ 16) :
    Ending link sock (.start target query) caller (.error .shutdown)

theorem Transition.ending (h : Transition link sock event effects sock')
    (htracked : Tracked past log sock) (hrecent : sock.Recent) {caller : Nat}
    {outcome : Except RpcError Answer} (hfinish : .finish caller outcome ∈ effects) :
    Ending link sock event caller outcome := by
  cases h with
  | refuse hdown =>
    obtain ⟨rfl, rfl⟩ : caller = sock.callers ∧ outcome = .error .shutdown := by
      simpa using hfinish
    exact .refused hdown
  | send hup =>
    have hdisplaced : .finish caller outcome ∈ sock.displaced := by simpa using hfinish
    obtain ⟨hwaits, hlater, rfl⟩ := htracked.of_mem_displaced hup hrecent hdisplaced
    exact .takenOver hup hwaits hlater
  | fail hup hunsent =>
    rcases List.mem_append.mp hfinish with hdisplaced | hown
    · obtain ⟨hwaits, hlater, rfl⟩ := htracked.of_mem_displaced hup hrecent hdisplaced
      exact .takenOver hup hwaits hlater
    · obtain ⟨rfl, rfl⟩ : caller = sock.callers ∧ outcome = .error .unreachable := by
        simpa using hown
      exact .unsent hup hunsent
  | @deliver source packet tid answer p _ _ hread hpending hsource =>
    obtain ⟨rfl, rfl⟩ : caller = p.caller ∧ outcome = .ok answer := by simpa using hfinish
    exact .answered ((lookup_eq_some htracked.keyed).mp hpending) hread hsource
  | @expire tid p hpending =>
    obtain ⟨rfl, rfl⟩ : caller = p.caller ∧ outcome = .error .unreachable := by
      simpa using hfinish
    exact .expired (List.mem_map_of_mem hpending)
  | drain hdown =>
    obtain ⟨e, he, heq⟩ := List.mem_map.mp hfinish
    obtain ⟨rfl, rfl⟩ : e.2.caller = caller ∧ Except.error .shutdown = outcome := by
      simpa [abandoned] using heq
    exact .drained hdown (List.mem_map_of_mem he)
  | quiet _ hnone =>
    have hcaller := mem_finished hfinish
    simp [hnone] at hcaller

variable [Storage S]

theorem Run.recent {server : Server P S} (run : Run { server } past log sock) : sock.Recent := by
  induction run with
  | start => simp [Recent]
  | step run link event ih => exact (transition link event _).recent run.tracked ih

/-- **How requests end.**  After any run, a request ends by its own answer, its own
timeout, its own packet that could not be sent, the shutdown, or else by the
start of the request `2 ^ 16` places behind it while the socket is up.  The new
request has its transaction id, and its caller learns of a shutdown.  Every
other start leaves it in place. -/
theorem ends_or_taken_over {server : Server P S} (run : Run { server } past log sock) :
    (∀ link event caller outcome, .finish caller outcome ∈ (sock.step link event).1 →
      Ending link sock event caller outcome) ∧
    ∀ entry ∈ sock.pending,
      (sock.isDown = false →
        (entry.1 = sock.nextId ↔ sock.callers = entry.2.caller + 2 ^ 16)) ∧
      ∀ link target query,
        (sock.isDown ∨ sock.callers ≠ entry.2.caller + 2 ^ 16 →
          entry ∈ (sock.step link (.start target query)).2.pending) ∧
        (sock.isDown = false → sock.callers = entry.2.caller + 2 ^ 16 →
          .finish entry.2.caller (.error .shutdown) ∈ (sock.step link (.start target query)).1 ∧
            entry.2.caller ∉ (sock.step link (.start target query)).2.waiting) := by
  have htracked := run.tracked
  refine ⟨fun link event caller outcome => (transition link event sock).ending htracked run.recent,
    fun entry hentry => ?_⟩
  have hiff (hup : sock.isDown = false) := htracked.nextId_eq_iff hup run.recent hentry
  refine ⟨hiff, fun link target query => ⟨fun hother => ?_, fun hup hlater => ?_⟩⟩
  · refine (transition link (.start target query) sock).mem_of_start hentry fun hup => ?_
    exact (hiff hup).not.mpr (hother.resolve_left (by simp [hup]))
  · have hfinish := (transition link (.start target query) sock).finish_of_start htracked.keyed
      hentry hup ((hiff hup).mpr hlater)
    refine ⟨hfinish, (run.step link (.start target query)).tracked.not_mem_waiting ?_⟩
    rw [finished_append]
    exact List.mem_append_right _ (mem_finished hfinish)

theorem ends_or_taken_over_small :
    Run Small.socket [(.ipv4, .start Small.target Small.query)]
      (Small.socket.step .ipv4 (.start Small.target Small.query)).1 Small.asking ∧
    (0, ⟨0, Small.target⟩) ∈
      (Small.asking.step .ipv4 (.start Small.target Small.query)).2.pending := by
  have hrun : Run Small.socket _ _ Small.asking :=
    Run.start.step .ipv4 (.start Small.target Small.query)
  have hwaits : Small.asking.pending = [(0, ⟨0, Small.target⟩)] := by rfl
  have hother := ((ends_or_taken_over hrun).2 (0, ⟨0, Small.target⟩) (by simp [hwaits])).2
  exact ⟨hrun, (hother .ipv4 Small.target Small.query).1 (.inr (by decide))⟩

/-! ## A shutdown that there was not -/

/-- While nothing but starts happens, a request waits on until it is taken over. -/
theorem Run.outlasts {server : Server P S} (run : Run { server } past log sock)
    (hup : sock.isDown = false) (hentry : entry ∈ sock.pending) (link : Link)
    (asked : List (Address × Query))
    (hle : sock.callers + asked.length ≤ entry.2.caller + 2 ^ 16) :
    let next := (sock.run link (asked.map fun r => .start r.1 r.2)).2
    entry ∈ next.pending ∧ next.isDown = false ∧ next.callers = sock.callers + asked.length := by
  induction asked generalizing past log sock with
  | nil => exact ⟨hentry, hup, rfl⟩
  | cons r rest ih =>
    obtain ⟨target, query⟩ := r
    rw [List.length_cons] at hle ⊢
    have htrans := transition link (.start target query) sock
    have hcallers := htrans.callers_eq
    simp only [Event.request?, Option.toList_some, List.length_singleton] at hcallers
    have hother := (run.tracked.nextId_eq_iff hup run.recent hentry).not.mpr (by omega)
    obtain ⟨hmem, hdown, hcount⟩ := ih (run.step link (.start target query))
      (htrans.isDown_of_start.trans hup) (htrans.mem_of_start hentry fun _ => hother) (by omega)
    exact ⟨hmem, hdown, hcount.trans (by omega)⟩

namespace Small

/-- The request that is started again and again. -/
def asks : Event := .start target query

/-- After as many starts as there are transaction ids, the first request still waits, and has
the id that is next; then it is taken over.  The number is a variable here, so that nothing
runs that many events. -/
theorem taken_over {n : Nat} (hn : n = 2 ^ 16) :
    let sock := (socket.run .ipv4 (List.replicate n asks)).2
    (0, ⟨0, target⟩) ∈ sock.pending ∧ sock.nextId = 0 ∧
      .finish 0 (.error .shutdown) ∈ (sock.step .ipv4 asks).1 ∧
      (sock.step .ipv4 asks).2.isDown = false := by
  intro sock
  obtain ⟨m, rfl⟩ : ∃ m, n = m + 1 := ⟨n - 1, by omega⟩
  have hrun : Run socket _ _ asking := Run.start.step .ipv4 asks
  have hfirst : (0, ⟨0, target⟩) ∈ asking.pending := by
    have hpending : asking.pending = [(0, ⟨0, target⟩)] := by rfl
    simp [hpending]
  have hasked : (List.replicate m (target, query)).map (fun r => Event.start r.1 r.2) =
      List.replicate m asks := List.map_replicate
  have hlast : Run socket _ _ sock := hrun.events .ipv4 (List.replicate m asks)
  obtain ⟨hwaits, hup, hcallers⟩ := hrun.outlasts rfl hfirst .ipv4
    (List.replicate m (target, query)) (by rw [List.length_replicate]; show 1 + m ≤ _; omega)
  rw [hasked] at hwaits hup hcallers
  rw [List.length_replicate] at hcallers
  have hlater : sock.callers = 0 + 2 ^ 16 := hcallers.trans (by show 1 + m = _; omega)
  have heq := (hlast.tracked.nextId_eq_iff hup hlast.recent hwaits).mpr hlater
  have htrans := transition .ipv4 asks sock
  exact ⟨hwaits, heq.symm, htrans.finish_of_start hlast.tracked.keyed hwaits hup heq,
    htrans.isDown_of_start.trans hup⟩

end Small

/-- The first of `2 ^ 16 + 1` requests learns of a shutdown, and there is none. -/
theorem shutdown_while_up :
    let sock := (Small.socket.run .ipv4 (List.replicate (2 ^ 16) Small.asks)).2
    (0, ⟨0, Small.target⟩) ∈ sock.pending ∧ sock.nextId = 0 ∧
      .finish 0 (.error .shutdown) ∈ (sock.step .ipv4 Small.asks).1 ∧
      (sock.step .ipv4 Small.asks).2.isDown = false :=
  Small.taken_over rfl

end Socket
end Kademlia
