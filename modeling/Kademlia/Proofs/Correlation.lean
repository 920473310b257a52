import Kademlia.Proofs.Packets
import Kademlia.Socket
import Mathlib.Data.List.Nodup
import Mathlib.Data.List.Perm.Basic

/-!
# Kademlia.Proofs.Correlation

How a socket ties answers to requests.  A run is any sequence of events, each
of them one step, with what the host was willing to send at the time (`Run`).
What one event does to the requests is said once, by `Transition`; what a run
keeps up is the invariant `Tracked`: a request that was started is over or
waits, and an entry names the address and the transaction id of the packet that
was sent for it.

So an answer gets to the request that it is for and to no other one
(`delivers_answers`).
-/

namespace Kademlia

namespace Socket

/-! ## Tables -/

section Tables

variable {β : Type} {entries : List (UInt16 × β)}

/-- If no id comes twice, a table is the entry of an id and the other ones. -/
theorem perm_lookup_append_filter (h : (entries.map (·.1)).Nodup) (tid : UInt16) :
    entries.Perm ((entries.lookup tid).toList.map (tid, ·) ++ entries.filter (·.1 != tid)) := by
  induction entries with
  | nil => simp
  | cons entry rest ih =>
    obtain ⟨other, b⟩ := entry
    obtain ⟨hnew, hrest⟩ := List.nodup_cons.mp h
    by_cases heq : other = tid
    · subst heq
      -- No other entry has the id, so the filter drops the first one only.
      have hkeep : rest.filter (·.1 != other) = rest := by
        rw [List.filter_eq_self]
        intro e he
        have hne : e.1 ≠ other := fun h => hnew (List.mem_map.mpr ⟨e, he, h⟩)
        simpa using hne
      simp [hkeep]
    · have hlookup : ((other, b) :: rest).lookup tid = rest.lookup tid := by
        simp [List.lookup_cons, beq_eq_false_iff_ne.mpr (Ne.symm heq)]
      rw [hlookup, List.filter_cons_of_pos (by simpa using heq)]
      exact ((ih hrest).cons _).trans List.perm_middle.symm

theorem lookup_eq_some (h : (entries.map (·.1)).Nodup) {tid : UInt16} {b : β} :
    entries.lookup tid = some b ↔ (tid, b) ∈ entries := by
  rw [(perm_lookup_append_filter h tid).mem_iff]
  simp

end Tables

/-! ## Requests -/

/-- The caller whose request is over by an effect. -/
def Effect.finished? : Effect → Option Nat
  | .send _ _ => none
  | .finish caller _ => some caller

/-- The callers whose requests are over. -/
def finished (effects : List Effect) : List Nat := effects.filterMap Effect.finished?

/-- What a caller asks for by an event. -/
def Event.request? : Event → Option (Address × Query)
  | .start target query => some (target, query)
  | _ => none

/-- The requests of a history; the place of a request is the number of its caller. -/
def requests (past : List (Link × Event)) : List (Address × Query) :=
  past.filterMap (·.2.request?)

theorem requests_append (past later : List (Link × Event)) :
    requests (past ++ later) = requests past ++ requests later := List.filterMap_append

theorem requests_singleton (link : Link) (event : Event) :
    requests [(link, event)] = event.request?.toList := by
  cases event <;> rfl

variable {P S : Type} {sock sock' : Socket P S}

/-- The callers that wait. -/
def waiting (sock : Socket P S) : List Nat := sock.pending.map (·.2.caller)

/-- No transaction id comes twice among the requests that wait. -/
def Keyed (sock : Socket P S) : Prop := (sock.pending.map (·.1)).Nodup

/-- What the caller learns whose request has the transaction id that is next. -/
def displaced (sock : Socket P S) : List Effect :=
  (sock.pending.lookup sock.nextId).toList.map abandoned

@[simp] theorem finished_nil : finished [] = [] := rfl

@[simp] theorem finished_append (a b : List Effect) :
    finished (a ++ b) = finished a ++ finished b := List.filterMap_append

@[simp] theorem finished_send (target : Address) (packet : Bytes) :
    finished [.send target packet] = [] := rfl

@[simp] theorem finished_finish (caller : Nat) (outcome : Except RpcError Answer) :
    finished [.finish caller outcome] = [caller] := rfl

@[simp] theorem finished_map_abandoned {α : Type} (f : α → Pending) (xs : List α) :
    finished (xs.map fun x => abandoned (f x)) = xs.map fun x => (f x).caller := by
  simp [finished, abandoned, Effect.finished?, List.filterMap_map, Function.comp_def]

@[simp] theorem finished_displaced (sock : Socket P S) :
    finished sock.displaced = (sock.pending.lookup sock.nextId).toList.map (·.caller) :=
  finished_map_abandoned id _

theorem mem_finished {caller : Nat} {outcome : Except RpcError Answer} {effects : List Effect}
    (h : .finish caller outcome ∈ effects) : caller ∈ finished effects :=
  List.mem_filterMap.mpr ⟨_, h, rfl⟩

theorem forget_await (sock : Socket P S) (tid : UInt16) (p : Pending) :
    (sock.await tid p).forget tid = sock.forget tid := by
  simp [await, forget]

theorem Keyed.forget (h : sock.Keyed) (tid : UInt16) : (sock.forget tid).Keyed :=
  List.Nodup.sublist (List.filter_sublist.map _) h

/-- Letting go of a transaction id ends the request that has it. -/
theorem Keyed.waiting_perm (h : sock.Keyed) (tid : UInt16) :
    sock.waiting.Perm
      ((sock.pending.lookup tid).toList.map (·.caller) ++ (sock.forget tid).waiting) := by
  simpa [waiting, Socket.forget, Function.comp_def] using
    (perm_lookup_append_filter h tid).map fun entry => entry.2.caller

theorem Keyed.waiting_perm_cons (h : sock.Keyed) {tid : UInt16} {p : Pending}
    (hp : (tid, p) ∈ sock.pending) : sock.waiting.Perm (p.caller :: (sock.forget tid).waiting) := by
  simpa [(lookup_eq_some h).mpr hp] using h.waiting_perm tid

/-- The same with one more caller, who comes after those that wait. -/
theorem Keyed.waiting_concat_perm (h : sock.Keyed) (tid : UInt16) (caller : Nat) :
    (sock.waiting ++ [caller]).Perm
      ((sock.pending.lookup tid).toList.map (·.caller) ++ caller :: (sock.forget tid).waiting) := by
  have hperm := (h.waiting_perm tid).append_right [caller]
  rw [List.append_assoc] at hperm
  exact hperm.trans ((List.perm_append_singleton _ _).append_left _)

theorem Keyed.mem_forget_or_lookup (h : sock.Keyed) {entry : UInt16 × Pending}
    (hentry : entry ∈ sock.pending) (tid : UInt16) :
    entry ∈ (sock.forget tid).pending ∨ sock.pending.lookup tid = some entry.2 := by
  rcases List.mem_append.mp ((perm_lookup_append_filter h tid).mem_iff.mp hentry) with he | he
  · obtain ⟨p, hp, rfl⟩ := List.mem_map.mp he
    exact .inr (Option.mem_toList.mp hp)
  · exact .inl he

/-! ## Histories -/

variable {past : List (Link × Event)} {log : List Effect}

/-- What is known of a request that waits: the place of its caller among the requests, and
the packet that was sent for it. -/
def Registered (past : List (Link × Event)) (log : List Effect) (entry : UInt16 × Pending) : Prop :=
  entry.1 = .ofNat entry.2.caller ∧ ∃ query requester,
    (requests past)[entry.2.caller]? = some (entry.2.target, query) ∧
    .send entry.2.target (Message.encode ⟨entry.1, .request ⟨requester, query⟩⟩) ∈ log

theorem Registered.append {entry : UInt16 × Pending} (h : Registered past log entry)
    (later : List (Link × Event)) (log' : List Effect) :
    Registered (past ++ later) (log ++ log') entry := by
  obtain ⟨htid, query, requester, hasked, hsent⟩ := h
  refine ⟨htid, query, requester, ?_, List.mem_append_left _ hsent⟩
  have hlt := (List.getElem?_eq_some_iff.mp hasked).1
  rw [requests_append, List.getElem?_append_left hlt, hasked]

/-- What holds of a socket after a run from its start. -/
structure Tracked (past : List (Link × Event)) (log : List Effect) (sock : Socket P S) : Prop where
  keyed : sock.Keyed
  /-- Each caller's request is over or waits, and never both. -/
  settled : (finished log ++ sock.waiting).Perm (List.range sock.callers)
  counted : sock.callers = (requests past).length
  registered : ∀ entry ∈ sock.pending, Registered past log entry
  /-- Transaction ids count the callers, and wrap around. -/
  current : sock.isDown = false → sock.nextId = .ofNat sock.callers

theorem Tracked.nodup_finished (h : Tracked past log sock) : (finished log).Nodup :=
  (h.settled.nodup_iff.mpr List.nodup_range).of_append_left

variable [PeerStore P]

/-! ## What an event does -/

/-- The packet of a query under the transaction id that is next. -/
def packet (sock : Socket P S) (query : Query) : Bytes :=
  Message.encode ⟨sock.nextId, .request ⟨sock.server.id, query⟩⟩

/-- What an event does to the requests of a socket. -/
inductive Transition (link : Link) (sock : Socket P S) : Event → List Effect → Socket P S → Prop
  /-- A socket that is down starts no request. -/
  | refuse {target query} (hdown : sock.isDown) :
    Transition link sock (.start target query) [.finish sock.callers (.error .shutdown)]
      { sock with callers := sock.callers + 1 }
  /-- A request waits, in the place of one with its transaction id. -/
  | send {target query} (hup : sock.isDown = false)
    (hsent : link.sends target (sock.packet query)) :
    Transition link sock (.start target query)
      (sock.displaced ++ [.send target (sock.packet query)])
      { sock with
        callers := sock.callers + 1
        nextId := sock.nextId + 1
        pending := (sock.nextId, ⟨sock.callers, target⟩) :: (sock.forget sock.nextId).pending }
  /-- A packet cannot be sent; a request with its transaction id is let go of all the same. -/
  | fail {target query} (hup : sock.isDown = false)
    (hunsent : link.sends target (sock.packet query) = false) :
    Transition link sock (.start target query)
      (sock.displaced ++ [.finish sock.callers (.error .unreachable)])
      { sock.forget sock.nextId with callers := sock.callers + 1, nextId := sock.nextId + 1 }
  /-- An answer is handed to the request that it is for. -/
  | deliver {source packet tid answer p} (hup : sock.isDown = false) (hport : source.port ≠ 0)
    (hread : Message.decode packet = .ok ⟨tid, .answer answer⟩)
    (hpending : sock.pending.lookup tid = some p) (hsource : p.target.answeredBy source) :
    Transition link sock (.receive source packet) [.finish p.caller (.ok answer)] (sock.forget tid)
  /-- A request has waited for too long. -/
  | expire {tid p} (hpending : (tid, p) ∈ sock.pending) :
    Transition link sock (.timeout p.caller) [.finish p.caller (.error .unreachable)]
      (sock.forget tid)
  /-- All requests are let go of. -/
  | drain (hdown : sock.isDown) :
    Transition link sock .drain (sock.pending.map fun entry => abandoned entry.2)
      { sock with pending := [] }
  /-- No request begins and none ends. -/
  | quiet {event effects server} {isDown : Bool} (hevent : event.request? = none)
    (hnone : finished effects = []) (hdown : sock.isDown → isDown) :
    Transition link sock event effects { sock with server, isDown }

namespace Transition

variable {link : Link} {event : Event} {effects : List Effect}

theorem keyed (h : Transition link sock event effects sock') (hkeyed : sock.Keyed) :
    sock'.Keyed := by
  cases h with
  | send =>
    refine List.nodup_cons.mpr ⟨?_, hkeyed.forget _⟩
    simp [Socket.forget]
  | fail => exact hkeyed.forget sock.nextId
  | deliver => exact hkeyed.forget _
  | expire => exact hkeyed.forget _
  | drain => exact List.nodup_nil
  | refuse | quiet => exact hkeyed

/-- The callers that a transition ends waited before it, or began with it. -/
theorem accounts (h : Transition link sock event effects sock') (hkeyed : sock.Keyed) :
    (finished effects ++ sock'.waiting).Perm
      (sock.waiting ++ event.request?.toList.map fun _ => sock.callers) := by
  cases h with
  | refuse => exact List.perm_append_comm
  | send =>
    simpa [waiting, Event.request?] using
      (hkeyed.waiting_concat_perm sock.nextId sock.callers).symm
  | fail =>
    simpa [waiting, Event.request?] using
      (hkeyed.waiting_concat_perm sock.nextId sock.callers).symm
  | deliver _ _ _ hpending =>
    have hp := (lookup_eq_some hkeyed).mp hpending
    simpa [Event.request?] using (hkeyed.waiting_perm_cons hp).symm
  | expire hpending =>
    simpa [Event.request?] using (hkeyed.waiting_perm_cons hpending).symm
  | drain => simp [waiting, Event.request?]
  | quiet hevent hnone => simp [hevent, hnone, waiting]

/-- A request that waited still does, or is over. -/
theorem mem_or_finished (h : Transition link sock event effects sock') (hkeyed : sock.Keyed)
    {entry : UInt16 × Pending} (hentry : entry ∈ sock.pending) :
    entry ∈ sock'.pending ∨ entry.2.caller ∈ finished effects := by
  -- An entry that leaves has the id that was let go of, so it is the one that ended.
  have hforget (tid : UInt16) {p : Pending} (hp : (tid, p) ∈ sock.pending) :
      entry ∈ (sock.forget tid).pending ∨ entry.2.caller = p.caller := by
    refine (hkeyed.mem_forget_or_lookup hentry tid).imp_right fun hlookup => ?_
    rw [(lookup_eq_some hkeyed).mpr hp] at hlookup
    rw [Option.some.inj hlookup]
  have hdisplaced : entry ∈ (sock.forget sock.nextId).pending ∨
      entry.2.caller ∈ finished sock.displaced := by
    refine (hkeyed.mem_forget_or_lookup hentry sock.nextId).imp_right fun hlookup => ?_
    simp [hlookup]
  have happend {more : List Effect} (hcaller : entry.2.caller ∈ finished sock.displaced) :
      entry.2.caller ∈ finished (sock.displaced ++ more) := by
    rw [finished_append]
    exact List.mem_append_left _ hcaller
  cases h with
  | refuse | quiet => exact .inl hentry
  | send => exact hdisplaced.imp (List.mem_cons_of_mem _) happend
  | fail => exact hdisplaced.imp_right happend
  | deliver _ _ _ hpending =>
    exact (hforget _ ((lookup_eq_some hkeyed).mp hpending)).imp_right (by simp)
  | expire hpending => exact (hforget _ hpending).imp_right (by simp)
  | drain =>
    refine .inr ?_
    rw [finished_map_abandoned]
    exact List.mem_map_of_mem hentry

/-- A request that waits did so before, or began with the transition: then its packet was sent. -/
theorem of_mem_pending (h : Transition link sock event effects sock') {entry : UInt16 × Pending}
    (hentry : entry ∈ sock'.pending) :
    entry ∈ sock.pending ∨ sock.isDown = false ∧ ∃ target query,
      event = .start target query ∧ entry = (sock.nextId, ⟨sock.callers, target⟩) ∧
        .send target (sock.packet query) ∈ effects := by
  cases h with
  | refuse | quiet => exact .inl hentry
  | @send target query hup =>
    rcases List.mem_cons.mp hentry with rfl | hentry
    · exact .inr ⟨hup, target, query, rfl, rfl, by simp⟩
    · exact .inl (List.mem_filter.mp hentry).1
  | fail | deliver | expire => exact .inl (List.mem_filter.mp hentry).1
  | drain => contradiction

theorem callers_eq (h : Transition link sock event effects sock') :
    sock'.callers = sock.callers + event.request?.toList.length := by
  cases h with
  | quiet hevent => simp [hevent]
  | _ => rfl

/-- The next transaction id changes with the number of callers, while the socket is up. -/
theorem nextId_eq (h : Transition link sock event effects sock') (hup : sock'.isDown = false) :
    sock.isDown = false ∧ sock'.nextId = sock.nextId + .ofNat event.request?.toList.length := by
  cases h with
  | refuse hdown => simp_all
  | drain hdown => simp_all
  | send | fail => exact ⟨hup, rfl⟩
  | deliver | expire => exact ⟨hup, (UInt16.add_zero _).symm⟩
  | quiet hevent _ hdown =>
    refine ⟨Bool.eq_false_iff.mpr fun h => ?_, by simp [hevent]⟩
    exact Bool.false_ne_true (hup.symm.trans (hdown h))

/-- A packet ends one request at most. -/
theorem length_finished_le {source : Address} {packet : Bytes}
    (h : Transition link sock (.receive source packet) effects sock') :
    (finished effects).length ≤ 1 := by
  cases h with
  | deliver => simp
  | quiet _ hnone => simp [hnone]

/-- A caller gets an answer only by a packet that is handed to its request. -/
theorem of_finish_ok (h : Transition link sock event effects sock') {caller : Nat} {answer : Answer}
    (hfinish : .finish caller (.ok answer) ∈ effects) :
    ∃ source packet tid target, event = .receive source packet ∧
      sock.pending.lookup tid = some ⟨caller, target⟩ ∧
      Message.decode packet = .ok ⟨tid, .answer answer⟩ ∧ target.answeredBy source := by
  cases h with
  | refuse | expire => simp at hfinish
  | send | fail => simp [displaced, abandoned] at hfinish
  | drain => simp [abandoned] at hfinish
  | @deliver source packet tid answer' p _ _ hread hpending hsource =>
    obtain ⟨rfl, rfl⟩ : caller = p.caller ∧ answer = answer' := by simpa using hfinish
    exact ⟨source, packet, tid, p.target, rfl, hpending, hread, hsource⟩
  | quiet _ hnone =>
    have hcaller := mem_finished hfinish
    simp [hnone] at hcaller

/-- Every transition keeps up what is known of a run. -/
theorem tracked (h : Transition link sock event effects sock') (htracked : Tracked past log sock) :
    Tracked (past ++ [(link, event)]) (log ++ effects) sock' := by
  have hrequests : requests (past ++ [(link, event)]) = requests past ++ event.request?.toList := by
    rw [requests_append, requests_singleton]
  constructor
  case keyed => exact h.keyed htracked.keyed
  case settled =>
    have hrange : List.range sock'.callers =
        List.range sock.callers ++ event.request?.toList.map fun _ => sock.callers := by
      rw [h.callers_eq]
      cases event.request? with
      | none => simp
      | some request => simp [List.range_succ]
    rw [finished_append, List.append_assoc, hrange]
    refine ((h.accounts htracked.keyed).append_left _).trans ?_
    rw [← List.append_assoc]
    exact htracked.settled.append_right _
  case counted => rw [h.callers_eq, hrequests, List.length_append, htracked.counted]
  case registered =>
    intro entry hentry
    rcases h.of_mem_pending hentry with hold | ⟨hup, target, query, rfl, rfl, hsent⟩
    · exact (htracked.registered entry hold).append _ _
    · refine ⟨htracked.current hup, query, sock.server.id, ?_, List.mem_append_right _ hsent⟩
      simp [hrequests, htracked.counted, Event.request?]
  case current =>
    intro hup
    obtain ⟨hbefore, hnext⟩ := h.nextId_eq hup
    rw [hnext, htracked.current hbefore, h.callers_eq, UInt16.ofNat_add]

end Transition

variable [Storage S]

/-- A packet hands an answer to the request that it is for, or ends no request. -/
theorem transition_receive (link : Link) (source : Address) (packet : Bytes) (sock : Socket P S) :
    Transition link sock (.receive source packet) (sock.receive link source packet).1
      (sock.receive link source packet).2 := by
  have hquiet : Transition link sock (.receive source packet) [] sock := .quiet rfl rfl id
  unfold receive
  split
  · exact hquiet
  · next hopen =>
    obtain ⟨hup, hport⟩ := not_or.mp hopen
    split
    · exact hquiet
    · next tid request hread =>
      refine .quiet rfl ?_ id
      unfold reply
      dsimp only
      split <;> rfl
    · next tid answer hread =>
      unfold accept
      split
      · exact hquiet
      · next p hp =>
        split
        · next hsource => exact .deliver (by simpa using hup) hport hread hp hsource
        · exact hquiet

/-- Each event makes one of the transitions. -/
theorem transition (link : Link) (event : Event) (sock : Socket P S) :
    Transition link sock event (sock.step link event).1 (sock.step link event).2 := by
  cases event with
  | start target query =>
    show Transition link sock _ (sock.start link target query).1 (sock.start link target query).2
    unfold start
    dsimp only
    split
    · next hdown => exact .refuse hdown
    · next hup =>
      have hup : sock.isDown = false := Bool.eq_false_iff.mpr hup
      split
      · next hsent => exact .send hup hsent
      · next hunsent =>
        rw [forget_await]
        exact .fail hup (Bool.eq_false_iff.mpr hunsent)
  | receive source packet => exact transition_receive link source packet sock
  | timeout caller =>
    show Transition link sock _ (sock.timeout caller).1 (sock.timeout caller).2
    unfold timeout
    split
    · exact .quiet rfl rfl id
    · next tid p hfind =>
      obtain rfl : p.caller = caller := by simpa using List.find?_some hfind
      exact .expire (List.mem_of_find?_eq_some hfind)
  | shutdown => exact .quiet rfl rfl fun _ => rfl
  | drain =>
    show Transition link sock _ sock.drain.1 sock.drain.2
    unfold drain
    split
    · next hdown => exact .drain hdown
    · exact .quiet rfl rfl id

/-! ## Runs -/

/-- The events of a run, what they do, and the socket at its end. -/
inductive Run (first : Socket P S) : List (Link × Event) → List Effect → Socket P S → Prop
  | start : Run first [] [] first
  | step {past : List (Link × Event)} {log : List Effect} {sock : Socket P S}
    (run : Run first past log sock) (link : Link) (event : Event) :
    Run first (past ++ [(link, event)]) (log ++ (sock.step link event).1) (sock.step link event).2

variable {first : Socket P S} {later : List (Link × Event)}

/-- What events do one after the other goes on with a run. -/
theorem Run.events (run : Run first past log sock) (link : Link) (events : List Event) :
    Run first (past ++ events.map (link, ·)) (log ++ (sock.run link events).1)
      (sock.run link events).2 := by
  induction events generalizing past log sock with
  | nil => simpa [Socket.run] using run
  | cons event rest ih => simpa [Socket.run] using ih (run.step link event)

theorem Run.keyed (run : Run first past log sock) (h : first.Keyed) : sock.Keyed := by
  induction run with
  | start => exact h
  | step _ link event ih => exact (transition link event _).keyed ih

/-- A request that waits does so until it is over. -/
theorem Run.mem_or_finished (run : Run first later log sock) (h : first.Keyed)
    {entry : UInt16 × Pending} (hentry : entry ∈ first.pending) :
    entry ∈ sock.pending ∨ entry.2.caller ∈ finished log := by
  induction run with
  | start => exact .inl hentry
  | step run link event ih =>
    rw [finished_append, List.mem_append, or_left_comm]
    refine ih.elim (fun hmem => .inr ?_) .inl
    exact (transition link event _).mem_or_finished (run.keyed h) hmem

theorem Run.tracked {server : Server P S} (run : Run { server } past log sock) :
    Tracked past log sock := by
  induction run with
  | start => exact ⟨List.nodup_nil, .nil, rfl, by simp, fun _ => rfl⟩
  | step _ link event ih => exact (transition link event _).tracked ih

/-! ## Answers -/

variable {link : Link} {source : Address} {packet : Bytes} {tid : UInt16} {answer : Answer}
  {p : Pending}

/-- An answer from elsewhere changes nothing. -/
theorem receive_of_not_answeredBy (hread : Message.decode packet = .ok ⟨tid, .answer answer⟩)
    (hp : sock.pending.lookup tid = some p) (hsource : ¬ p.target.answeredBy source) :
    sock.receive link source packet = ([], sock) := by
  unfold receive
  split
  · rfl
  · simp [hread, accept, hp, hsource]

/-- An answer from where the request went is handed to its caller. -/
theorem receive_of_answeredBy (hup : sock.isDown = false) (hport : source.port ≠ 0)
    (hread : Message.decode packet = .ok ⟨tid, .answer answer⟩)
    (hp : sock.pending.lookup tid = some p) (hsource : p.target.answeredBy source) :
    sock.receive link source packet = ([.finish p.caller (.ok answer)], sock.forget tid) := by
  simp [receive, hup, hport, hread, accept, hp, hsource]

/-- **Answers reach the requests that they are for.**  After any run, a caller
gets an answer only by a packet that holds it under the caller's transaction id
and comes from where the request went, while the request waits; a packet ends
one request at most, and a request ends once at most.  An answer from elsewhere
changes nothing, and the request waits on for the one that counts: that one is
delivered if the socket is up and it comes from a port that could be answered. -/
theorem delivers_answers {server : Server P S} (run : Run { server } past log sock) :
    (∀ link event caller answer, .finish caller (.ok answer) ∈ (sock.step link event).1 →
      ∃ source packet tid target, event = .receive source packet ∧
        (tid, ⟨caller, target⟩) ∈ sock.pending ∧ Registered past log (tid, ⟨caller, target⟩) ∧
        Message.decode packet = .ok ⟨tid, .answer answer⟩ ∧
        target.port = source.port ∧
        (target.host.isUnspecified ∨ target.host.sameIp source.host)) ∧
    (∀ link source packet, (finished (sock.step link (.receive source packet)).1).length ≤ 1) ∧
    (finished log).Nodup ∧
    ∀ tid p, (tid, p) ∈ sock.pending →
      (∀ link source packet answer, Message.decode packet = .ok ⟨tid, .answer answer⟩ →
        ¬ p.target.answeredBy source → sock.step link (.receive source packet) = ([], sock)) ∧
      ∀ later log' sock', Run sock later log' sock' → p.caller ∉ finished log' →
        (tid, p) ∈ sock'.pending ∧ (sock'.isDown = false →
          ∀ link source packet answer, Message.decode packet = .ok ⟨tid, .answer answer⟩ →
            p.target.answeredBy source → source.port ≠ 0 →
            sock'.step link (.receive source packet) =
              ([.finish p.caller (.ok answer)], sock'.forget tid)) := by
  have htracked := run.tracked
  have hlookup {tid : UInt16} {p : Pending} :
      sock.pending.lookup tid = some p ↔ (tid, p) ∈ sock.pending := lookup_eq_some htracked.keyed
  refine ⟨fun link event caller answer hfinish => ?_,
    fun link source packet => (transition_receive link source packet sock).length_finished_le,
    htracked.nodup_finished, fun tid p hp => ⟨?_, ?_⟩⟩
  · obtain ⟨source, packet, tid, target, rfl, hpending, hread, hsource⟩ :=
      (transition link event sock).of_finish_ok hfinish
    have hp := hlookup.mp hpending
    have haddress : target.port = source.port ∧
        (target.host.isUnspecified ∨ target.host.sameIp source.host) := by
      simpa [Address.answeredBy] using hsource
    exact ⟨source, packet, tid, target, rfl, hp, htracked.registered _ hp, hread, haddress⟩
  · intro link source packet answer hread hsource
    exact receive_of_not_answeredBy hread (hlookup.mpr hp) hsource
  · intro later log' sock' hlater hwaits
    -- The entry is still there, as its caller is not over; no other one can have its id.
    have hp' := (hlater.mem_or_finished htracked.keyed hp).resolve_right hwaits
    refine ⟨hp', fun hup link source packet answer hread hsource hport => ?_⟩
    exact receive_of_answeredBy hup hport hread
      ((lookup_eq_some (hlater.keyed htracked.keyed)).mpr hp') hsource

namespace Small

/-- A socket of a node that knows nobody. -/
def socket : Socket RoutingTable MemoryStorage :=
  { server := ⟨.empty ⟨[1], List.cons_ne_nil _ _⟩ 1, {}⟩ }

def query : Query := .getValue ⟨⟨[2], List.cons_ne_nil _ _⟩, 1⟩

def target : Address := .ofIPv4 127 0 0 1 6881

/-- The socket asks for a value. -/
def asking : Socket RoutingTable MemoryStorage := (socket.step .ipv4 (.start target query)).2

/-- A failure that answers the first request. -/
def reply : Message := ⟨0, .answer (.failure (.ofCode .invalidRequest))⟩

theorem countable_reply : reply.Countable := by
  simp [Message.Countable, Message.count?, reply]

end Small

theorem delivers_answers_small :
    let impostor := Address.ofIPv4 127 0 0 1 6882
    Run Small.socket [(.ipv4, .start Small.target Small.query)]
      (Small.socket.step .ipv4 (.start Small.target Small.query)).1 Small.asking ∧
    Small.asking.step .ipv4 (.receive impostor Small.reply.encode) = ([], Small.asking) ∧
    (Small.asking.step .ipv4 (.receive Small.target Small.reply.encode)).1 =
      [.finish 0 (.ok (.failure (.ofCode .invalidRequest)))] := by
  intro impostor
  have hrun : Run Small.socket _ _ Small.asking :=
    Run.start.step .ipv4 (.start Small.target Small.query)
  have hread := Message.decode_encode_of_countable Small.countable_reply
  have hwaits : Small.asking.pending = [(0, ⟨0, Small.target⟩)] := by rfl
  obtain ⟨hwrong, hright⟩ := (delivers_answers hrun).2.2.2 0 ⟨0, Small.target⟩ (by simp [hwaits])
  refine ⟨hrun, hwrong _ _ _ _ hread (by decide), ?_⟩
  have hsource : Small.target.answeredBy Small.target := by
    simp [Address.answeredBy, Small.target, Address.ofIPv4, Host.sameIp]
  rw [(hright _ _ _ .start (by simp)).2 rfl .ipv4 _ _ _ hread hsource (by decide)]

end Socket
end Kademlia
