import RingNet.Attribution
import RingNet.Net
/-!
# Descriptors and the sockets they denote

Entries name sockets by number, and the kernel looks the number up when it
takes the entry. A request waits in the pending lists and then in the ring,
and the cancel of a destructor waits in the ring; the destructor closes the
descriptor without waiting for either.

For a program that only makes connections, reads from and writes to them and
destroys them, `closesQuietly` keeps every entry with its socket (`Bound`).
The last section is about every program: no destructor's cancel is ever taken
in time (`Late`).
-/

namespace RingNet

open Lib IoUring

/-- The calls of a program that has only connections and does not move them. -/
def Call.onConnections : Call → Bool
  | .loop _ | .newConnection .. | .asyncRead .. | .asyncWrite .. | .destroy .. => true
  | _ => false

namespace EventLoop

/-- Something that waits to be submitted names the descriptor. -/
def queued (l : EventLoop) (fd : Fd) : Bool :=
  l.pending.any (fun x => l.accepted[x.id]?.any (·.request.fd == fd)) || l.ring.unsubmitted.any (·.prep.fd == fd)

theorem queued_pending {l : EventLoop} {fd : Fd} (h : l.queued fd = false) {x : Pending} (hx : x ∈ l.pending)
    {a : Accepted} (ha : l.accepted[x.id]? = some a) : a.request.fd ≠ fd := by
  simp only [queued, Bool.or_eq_false_iff, List.any_eq_false] at h
  simpa [ha] using h.1 x hx

theorem queued_unsubmitted {l : EventLoop} {fd : Fd} (h : l.queued fd = false) {e : Sqe}
    (he : e ∈ l.ring.unsubmitted) : e.prep.fd ≠ fd := by
  simp only [queued, Bool.or_eq_false_iff, List.any_eq_false] at h
  simpa using h.2 e he

/-- Requests wait because they did, or because they were just added. -/
theorem pending_step {l l' : EventLoop} {a : Action} (he : Effect l a l') {x : Pending} (hx : x ∈ l'.pending) :
    x ∈ l.pending ∨ ∃ r s addr, a = .add r s addr ∧ x = ⟨addr, l.accepted.length⟩ := by
  cases he with
  | @add r s addr _ =>
    rcases List.mem_cons.1 ((PendingRequests.push_perm _ _ _).mem_iff.1 hx) with rfl | hx
    · exact .inr ⟨r, s, addr, rfl, rfl⟩
    · exact .inl hx
  | @cancel fd taken =>
    obtain ⟨new, -, hq, -⟩ := l.cancel_spec fd taken
    rw [show (l.cancel fd taken).pending = l.pending from congrArg (·.pendingRequests.toList) hq] at hx
    exact .inl hx
  | @submit timeout reply st q _ hs =>
    have hp : q.pendingRequests.toList = [] := congrArg (·.pendingRequests.toList) (SubmissionQueue.submit_moves hs).1
    have hx' : x ∈ q.pendingRequests.toList := hx
    rw [hp] at hx'
    cases hx'
  | callbackReturn _ _ hq =>
    rw [SubmissionQueue.release_same hq] at hx
    exact .inl hx
  | checkStatus _ =>
    rw [l.checkStatus_same] at hx
    exact .inl hx
  | _ => exact .inl hx

/-- An entry that waits after an action, or was taken by it, waited before, or
was prepared for a request that was pending, or for the cancel that was called. -/
def CameFrom (l : EventLoop) (a : Action) (l' : EventLoop) (e : Sqe) : Prop :=
  e ∈ l.ring.unsubmitted ∨
    (∃ x ∈ l.pending, e.owner = some (.request x.id) ∧ (e ∈ l'.ring.unsubmitted ∨ e ∈ l'.ring.inflight)) ∨
    ∃ fd taken, a = .cancel fd taken ∧ l.ring.obtains taken = true ∧
      e.owner = some (.cancel l.submissionQueue.cancels)

theorem taken_moves {l l' : EventLoop} {a : Action} {new : List Sqe} (hm : Moves l.ring l'.ring new)
    (hnew : ∀ e ∈ new, (∃ x ∈ l.pending, e.owner = some (.request x.id)) ∨
      ∃ fd taken, a = .cancel fd taken ∧ l.ring.obtains taken = true ∧
        e.owner = some (.cancel l.submissionQueue.cancels)) :
    ∃ m, l'.ring.submitted = l.ring.submitted ++ m ∧ ∀ e, e ∈ m ∨ e ∈ l'.ring.unsubmitted → CameFrom l a l' e := by
  obtain ⟨m, hsplit, hin, hsub⟩ := hm.taken
  refine ⟨m, hsub, fun e hmem => ?_⟩
  have hold : e ∈ l.ring.unsubmitted ++ new := by
    rw [hsplit, List.mem_append]
    exact hmem
  rcases List.mem_append.1 hold with h | h
  · exact .inl h
  · refine .inr ((hnew e h).imp ?_ fun h => h)
    rintro ⟨x, hx, ho⟩
    refine ⟨x, hx, ho, ?_⟩
    rcases hmem with hmem | hmem
    · exact .inr (by rw [hin]; exact List.mem_append_right _ hmem)
    · exact .inl hmem

theorem taken_stay {l l' : EventLoop} {a : Action} (hs : l'.ring.submitted = l.ring.submitted)
    (hu : l'.ring.unsubmitted = l.ring.unsubmitted) :
    ∃ m, l'.ring.submitted = l.ring.submitted ++ m ∧ ∀ e, e ∈ m ∨ e ∈ l'.ring.unsubmitted → CameFrom l a l' e := by
  refine ⟨[], by rw [hs, List.append_nil], fun e hmem => .inl ?_⟩
  rcases hmem with hmem | hmem
  · cases hmem
  · exact hu ▸ hmem

theorem taken_step {l l' : EventLoop} {a : Action} (he : Effect l a l') :
    ∃ m, l'.ring.submitted = l.ring.submitted ++ m ∧ ∀ e, e ∈ m ∨ e ∈ l'.ring.unsubmitted → CameFrom l a l' e := by
  cases he with
  | @cancel fd taken =>
    obtain ⟨new, hm, -, hnew⟩ := l.cancel_spec fd taken
    apply taken_moves hm
    intro e hmem
    right
    rw [hnew] at hmem
    split at hmem
    · rename_i ho
      rw [List.mem_singleton] at hmem
      subst hmem
      exact ⟨fd, taken, rfl, ho, rfl⟩
    · cases hmem
  | submit _ hs =>
    obtain ⟨-, got, hsub, -, hm, -⟩ := SubmissionQueue.submit_moves hs
    apply taken_moves hm
    intro e hmem
    left
    obtain ⟨g, hg, rfl⟩ := List.mem_map.1 hmem
    exact ⟨g.1, hsub.subset (List.mem_map_of_mem hg), rfl⟩
  | callbackReturn _ _ hq =>
    rw [SubmissionQueue.release_same hq]
    apply taken_stay <;> rfl
  | checkStatus _ =>
    rw [l.checkStatus_same]
    apply taken_stay <;> rfl
  | _ => apply taken_stay <;> rfl

/-- A cancel that gets no entry queues nothing. -/
theorem queued_cancel {l : EventLoop} {fd fd' : Fd} {taken : Nat} (h : l.queued fd = false)
    (ho : l.ring.obtains taken = false) : (l.cancel fd' taken).queued fd = false := by
  obtain ⟨new, hm, hq, hnew⟩ := l.cancel_spec fd' taken
  obtain ⟨m, hsplit, -, -⟩ := hm.taken
  rw [hnew, ho, if_neg (by decide), List.append_nil] at hsplit
  have hp : (l.cancel fd' taken).pending = l.pending := congrArg (·.pendingRequests.toList) hq
  have ha : (l.cancel fd' taken).accepted = l.accepted := congrArg (·.accepted) hq
  simp only [queued, hp, ha, Bool.or_eq_false_iff, hsplit, List.any_append] at h ⊢
  exact ⟨h.1, h.2.2⟩

end EventLoop

namespace Net

/-! ## The condition -/

/-- The socket a request or a cancel was made for. -/
def origin (n : Net) : Owner → Option Nat
  | .request id => (n.requestSockets[id]?).join
  | .cancel i => (n.cancelSockets[i]?).join

/-- When a connection's descriptor is closed, nothing that names it waits to
be submitted, and its cancel gets no entry. -/
def closesQuietly (n : Net) : Call → Bool
  | .destroy obj taken => (n.objects obj).all fun o =>
      !o.socket.valid || !n.loop.ring.obtains taken && !n.loop.queued o.socket.fd
  | _ => true

/-- `now` is the socket that `owner` was made for. -/
def Denotes (n : Net) (owner : Option Owner) (now : Option Nat) : Prop :=
  ∃ o k, owner = some o ∧ n.origin o = some k ∧ now = some k

/-- What waits to be submitted names the socket it was made for, and so did
what was submitted. -/
structure Bound (n : Net) : Prop where
  objects : ∀ obj o, n.objects obj = some o → ∃ c, o = .connection c ∧ ∃ k, n.sockets c.socket.fd = some k
  distinct : ∀ obj obj' c c', n.objects obj = some (.connection c) → n.objects obj' = some (.connection c') →
    c.socket.fd = c'.socket.fd → obj = obj'
  requests : n.requestSockets.length = n.loop.accepted.length
  pending : ∀ x ∈ n.loop.pending, ∀ a, n.loop.accepted[x.id]? = some a →
    n.Denotes (some (.request x.id)) (n.sockets a.request.fd)
  unsubmitted : ∀ e ∈ n.loop.ring.unsubmitted, n.Denotes e.owner (n.sockets e.prep.fd)
  submissions : ∀ p ∈ n.submissions, n.Denotes p.1.owner p.2

theorem Denotes.mono {n n' : Net} {o : Option Owner} {now : Option Nat} (h : n.Denotes o now)
    (hr : ∃ rs, n'.requestSockets = n.requestSockets ++ rs) (hc : ∃ cs, n'.cancelSockets = n.cancelSockets ++ cs) :
    n'.Denotes o now := by
  obtain ⟨owner, k, ho, hk, hnow⟩ := h
  obtain ⟨rs, hr⟩ := hr
  obtain ⟨cs, hc⟩ := hc
  refine ⟨owner, k, ho, ?_, hnow⟩
  cases owner with
  | request id =>
    simp only [origin, Option.join_eq_some_iff] at hk ⊢
    rw [hr, List.getElem?_append_left (List.getElem?_eq_some_iff.1 hk).1, hk]
  | cancel i =>
    simp only [origin, Option.join_eq_some_iff] at hk ⊢
    rw [hc, List.getElem?_append_left (List.getElem?_eq_some_iff.1 hk).1, hk]

/-! ## One call -/

/-- The loop moves on without adding a request or queueing a cancel. -/
theorem Bound.moveLoop {n : Net} (h : Bound n) {l : EventLoop} {a : Action} (he : EventLoop.Effect n.loop a l)
    (hi : EventLoop.Intact l) (hadd : ∀ r s addr, a ≠ .add r s addr)
    (hcan : ∀ fd taken, a = .cancel fd taken → n.loop.ring.obtains taken = false) : Bound (n.moveLoop l) := by
  have hacc : l.accepted = n.loop.accepted := by
    have := EventLoop.accepted_step he
    cases a with
    | add r s addr => exact absurd rfl (hadd r s addr)
    | _ => exact this
  have hsame : ∀ {o now}, n.Denotes o now → (n.moveLoop l).Denotes o now := fun hd =>
    hd.mono ⟨[], (List.append_nil _).symm⟩ ⟨[], (List.append_nil _).symm⟩
  obtain ⟨m, hsub, hfrom⟩ := EventLoop.taken_step he
  have hentry : ∀ e, e ∈ m ∨ e ∈ l.ring.unsubmitted → n.Denotes e.owner (n.sockets e.prep.fd) := by
    intro e hmem
    rcases hfrom e hmem with hold | ⟨x, hx, ho, hin⟩ | ⟨fd, taken, hca, hob, -⟩
    · exact h.unsubmitted e hold
    · -- prepared for a pending request, from its own block
      have hown := hi.entries e hin
      rw [ho] at hown
      obtain ⟨acc, hacc', -, hprep⟩ := hown
      rw [hacc] at hacc'
      rw [ho, hprep, Request.prep_fd]
      exact h.pending x hx acc hacc'
    · rw [hcan fd taken hca] at hob
      cases hob
  refine ⟨h.objects, h.distinct, ?_, ?_, ?_, ?_⟩
  · show n.requestSockets.length = l.accepted.length
    rw [hacc]
    exact h.requests
  · intro x hx acc hxa
    rw [moveLoop_loop] at hx hxa
    rw [hacc] at hxa
    rcases EventLoop.pending_step he hx with hx | ⟨r, s, addr, hra, -⟩
    · exact hsame (h.pending x hx acc hxa)
    · exact absurd hra (hadd r s addr)
  · intro e hmem
    exact hsame (hentry e (.inr hmem))
  · intro p hp
    have hp' : p ∈ n.submissions ++ (l.ring.submitted.drop n.loop.ring.submitted.length).map
        fun e => (e, n.sockets e.prep.fd) := hp
    rw [hsub, List.drop_left, List.mem_append] at hp'
    rcases hp' with hp' | hp'
    · exact hsame (h.submissions p hp')
    · obtain ⟨e, hmem, rfl⟩ := List.mem_map.1 hp'
      exact hsame (hentry e (.inl hmem))

/-- A free number is given to a new socket and a connection made of it. -/
theorem Bound.newConnection {n : Net} (h : Bound n) {obj : Nat} {fd : Fd} (hfd : n.sockets fd = none) :
    Bound ((n.openSocket fd).create obj (.connection (Connection.new ⟨fd⟩ n.nextSubscriber).1)) := by
  -- numbers in use keep their sockets
  have hkeep : ∀ f k, n.sockets f = some k → Function.update n.sockets fd (some n.nextSocket) f = some k := by
    intro f k hk
    have hne : f ≠ fd := by
      rintro rfl
      rw [hfd] at hk
      cases hk
    rw [Function.update_of_ne hne, hk]
  have hden : ∀ {o f}, n.Denotes o (n.sockets f) →
      n.Denotes o (Function.update n.sockets fd (some n.nextSocket) f) := by
    rintro o f ⟨owner, k, ho, hk, hnow⟩
    exact ⟨owner, k, ho, hk, hkeep f k hnow⟩
  have hold : ∀ j (c : Connection), n.objects j = some (.connection c) → c.socket.fd ≠ fd := by
    rintro j c hj rfl
    obtain ⟨c', hc', k, hk⟩ := h.objects j _ hj
    cases hc'
    rw [hfd] at hk
    cases hk
  refine ⟨?_, ?_, h.requests, ?_, ?_, h.submissions⟩
  · intro j o hj
    rcases update_some_cases hj with ⟨rfl, rfl⟩ | ⟨-, hj⟩
    · exact ⟨_, rfl, n.nextSocket, Function.update_self ..⟩
    · obtain ⟨c, rfl, k, hk⟩ := h.objects j o hj
      exact ⟨c, rfl, k, hkeep _ k hk⟩
  · intro j j' c c' hj hj' hcc
    rcases update_some_cases hj with ⟨rfl, hc⟩ | ⟨-, hj₀⟩ <;>
      rcases update_some_cases hj' with ⟨rfl, hc'⟩ | ⟨-, hj₀'⟩
    · rfl
    · cases hc
      exact absurd hcc.symm (hold j' c' hj₀')
    · cases hc'
      exact absurd hcc (hold j c hj₀)
    · exact h.distinct j j' c c' hj₀ hj₀' hcc
  · intro x hx a ha
    exact hden (h.pending x hx a ha)
  · intro e hmem
    exact hden (h.unsubmitted e hmem)

/-- A connection's request is for the socket its descriptor denotes. -/
theorem Bound.added {n : Net} (h : Bound n) (ht : EventLoop.Traced n.loop) {obj addr : Nat} {c : Connection} {r : Request}
    (hc : n.objects obj = some (.connection c)) (hr : (EventLoop.stored r).fd = c.socket.fd)
    (hf : RequestPool.free n.loop.pool addr = true) :
    Bound (n.added c.socket.fd (n.loop.add r c.subscriber addr).2) := by
  have he : EventLoop.Effect n.loop (.add r c.subscriber addr) (n.loop.add r c.subscriber addr).2 := .add hf
  have hacc : (n.loop.add r c.subscriber addr).2.accepted = n.loop.accepted ++ [⟨EventLoop.stored r, c.subscriber, addr⟩] :=
    EventLoop.accepted_step he
  have hmono : ∀ {o now}, n.Denotes o now →
      (n.added c.socket.fd (n.loop.add r c.subscriber addr).2).Denotes o now := fun hd =>
    hd.mono ⟨[n.sockets c.socket.fd], rfl⟩ ⟨[], (List.append_nil _).symm⟩
  obtain ⟨c', hc', k, hk⟩ := h.objects obj _ hc
  cases hc'
  refine ⟨h.objects, h.distinct, ?_, ?_, fun e hmem => hmono (h.unsubmitted e hmem), ?_⟩
  · show (n.requestSockets ++ [n.sockets c.socket.fd]).length = (n.loop.add r c.subscriber addr).2.accepted.length
    rw [hacc, List.length_append, List.length_append, h.requests]
    rfl
  · intro x hx a ha
    rw [added_loop, hacc] at ha
    rcases EventLoop.pending_step he hx with hx | ⟨_, _, _, hadd, rfl⟩
    · obtain ⟨a', ha', -⟩ := ht.pending x hx
      rw [EventLoop.accepted_append ha', Option.some.injEq] at ha
      subst ha
      exact hmono (h.pending x hx _ ha')
    · cases hadd
      rw [List.getElem?_concat_length, Option.some.injEq] at ha
      subst ha
      refine ⟨_, k, rfl, ?_, by rw [hr]; exact hk⟩
      show (((n.requestSockets ++ [n.sockets c.socket.fd])[n.loop.accepted.length]?).join) = some k
      rw [← h.requests, List.getElem?_concat_length, hk]
      rfl
  · intro p hp
    have hp' : p ∈ n.submissions ++ (n.loop.ring.submitted.drop n.loop.ring.submitted.length).map
        fun e => (e, n.sockets e.prep.fd) := hp
    rw [List.drop_length, List.map_nil, List.append_nil] at hp'
    exact hmono (h.submissions p hp')

/-- A connection goes, and its number is free again. -/
theorem Bound.destroy {n : Net} (h : Bound n) {obj : Nat} {o : Object} (ho : n.objects obj = some o)
    (hq : o.socket.valid = true → n.loop.queued o.socket.fd = false) :
    Bound (((n.put obj none).close o.socket.closes).kill o.subscriber) := by
  have hobj : ∀ j o', Function.update n.objects obj none j = some o' → j ≠ obj ∧ n.objects j = some o' :=
    fun j o' hj => update_none_cases hj
  obtain ⟨c, rfl, -⟩ := h.objects obj o ho
  by_cases hv : 0 < c.socket.fd
  · have hclose : c.socket.closes = some c.socket.fd := if_pos hv
    have hquiet := hq (decide_eq_true hv)
    rw [Object.socket_connection] at hquiet ⊢
    rw [hclose]
    have hkeep : ∀ {f : Fd}, f ≠ c.socket.fd → Function.update n.sockets c.socket.fd none f = n.sockets f :=
      fun hne => Function.update_of_ne hne _ _
    refine ⟨?_, ?_, h.requests, ?_, ?_, h.submissions⟩
    · intro j o' hj
      obtain ⟨hne, hj⟩ := hobj j o' hj
      obtain ⟨c', rfl, k, hk⟩ := h.objects j o' hj
      refine ⟨c', rfl, k, ?_⟩
      have hfd : c'.socket.fd ≠ c.socket.fd := fun he => hne (h.distinct j obj c' c hj ho he)
      exact (hkeep hfd).trans hk
    · intro j j' d d' hj hj' hdd
      exact h.distinct j j' d d' (hobj j _ hj).2 (hobj j' _ hj').2 hdd
    · intro x hx a ha
      show n.Denotes _ (Function.update n.sockets c.socket.fd none a.request.fd)
      rw [hkeep (EventLoop.queued_pending hquiet hx ha)]
      exact h.pending x hx a ha
    · intro e hmem
      show n.Denotes _ (Function.update n.sockets c.socket.fd none e.prep.fd)
      rw [hkeep (EventLoop.queued_unsubmitted hquiet hmem)]
      exact h.unsubmitted e hmem
  · have hclose : c.socket.closes = none := if_neg hv
    rw [Object.socket_connection, hclose]
    refine ⟨?_, ?_, h.requests, h.pending, h.unsubmitted, h.submissions⟩
    · intro j o' hj
      exact h.objects j o' (hobj j o' hj).2
    · intro j j' d d' hj hj' hdd
      exact h.distinct j j' d d' (hobj j _ hj).2 (hobj j' _ hj').2 hdd

/-- The destructor's cancel, when it gets no entry. -/
theorem Bound.cancelIfValid {n : Net} (h : Bound n) {d : FileDescriptor} {taken : Nat}
    (ho : d.valid = true → n.loop.ring.obtains taken = false)
    (hi : EventLoop.Intact (n.cancelIfValid d taken).loop) : Bound (n.cancelIfValid d taken) := by
  rw [cancelIfValid_loop] at hi
  unfold Net.cancelIfValid
  split
  · rename_i hv
    rw [if_pos hv] at hi
    have hb : Bound (n.moveLoop (n.loop.cancel d.fd taken)) := by
      apply h.moveLoop (.cancel : EventLoop.Effect n.loop (.cancel d.fd taken) _) hi (by simp)
      rintro fd taken' heq
      cases heq
      exact ho hv
    -- one more cancel on record changes nothing that was known
    have hmono : ∀ {o now}, (n.moveLoop (n.loop.cancel d.fd taken)).Denotes o now →
        ({ n.moveLoop (n.loop.cancel d.fd taken) with
          cancelSockets := n.cancelSockets ++ [n.sockets d.fd] } : Net).Denotes o now := fun hd =>
      hd.mono ⟨[], (List.append_nil _).symm⟩ ⟨[n.sockets d.fd], rfl⟩
    exact ⟨hb.objects, hb.distinct, hb.requests, fun x hx a ha => hmono (hb.pending x hx a ha),
      fun e he => hmono (hb.unsubmitted e he), fun p hp => hmono (hb.submissions p hp)⟩
  · exact h

theorem bound_step {n n' : Net} {c : Call} (h : Bound n) (ht : EventLoop.Traced n.loop)
    (hcall : c.onConnections = true) (hc : n.closesQuietly c = true) (he : Effect n c n')
    (hi : EventLoop.Intact n'.loop) : Bound n' := by
  cases he with
  | @loop a l hown _ hl =>
    apply h.moveLoop (EventLoop.step_effect hl) hi
    · rintro r s addr rfl
      cases hown
    · rintro fd taken rfl
      cases hown
  | newConnection _ _ hfd => exact h.newConnection hfd
  | @destroy obj taken o ho =>
    simp only [closesQuietly, ho, Option.all_some, Bool.or_eq_true, Bool.and_eq_true, Bool.not_eq_true'] at hc
    have hquiet : o.socket.valid = true → n.loop.ring.obtains taken = false ∧ n.loop.queued o.socket.fd = false := by
      intro hv
      rcases hc with hc | hc
      · rw [hv] at hc; cases hc
      · exact hc
    simp only [kill_loop, close_loop, put_loop] at hi
    have hb := h.cancelIfValid (fun hv => (hquiet hv).1) hi
    have hobj : (n.cancelIfValid o.socket taken).objects = n.objects :=
      congrArg (·.objects) (n.cancelIfValid_same o.socket taken)
    apply hb.destroy (by rw [hobj]; exact ho)
    intro hv
    obtain ⟨hob, hq⟩ := hquiet hv
    -- the cancel may make the kernel take entries, but leaves none
    rw [cancelIfValid_loop, if_pos hv]
    exact EventLoop.queued_cancel hq hob
  | @asyncRead obj addr d hd hf =>
    have hb := h.added ht (r := d.readRequest) hd rfl hf
    exact ⟨hb.objects, hb.distinct, hb.requests, hb.pending, hb.unsubmitted, hb.submissions⟩
  | asyncWrite hd hf => exact h.added ht hd rfl hf
  | attempt hcall' _ _ _ _ => obtain ⟨a, p, t, rfl | rfl⟩ := hcall' <;> cases hcall
  | _ => cases hcall

theorem bound_new (k : Nat) (st : Int) : Bound (new k st) := by
  refine ⟨?_, ?_, rfl, ?_, ?_, ?_⟩
  · intro obj o ho
    cases ho
  · intro obj obj' c c' ho
    cases ho
  · intro x hx
    cases hx
  · intro e he
    cases he
  · intro p hp
    cases hp

/-! ## Whole runs -/

/-- If no cancel gets an entry, none picks up a pointer. -/
theorem quiet_clean {n n' : Net} {c : Call} (hc : n.closesQuietly c = true) (he : Effect n c n') :
    Run EventLoop.step EventLoop.CancelClean n.loop n'.loop := by
  rcases effect_loop he with hl | ⟨a, hstep, -, -, hcan⟩
  · rw [hl]
    exact .refl
  · refine Run.refl.step ?_ hstep
    cases a with
    | cancel fd taken =>
      obtain ⟨obj, o, rfl, ho, hv, -⟩ := hcan fd taken rfl
      intro hob
      simp [closesQuietly, ho, hv, hob] at hc
    | _ => trivial

/-- A call on connections that closes its descriptor quietly. -/
def Quiet (n : Net) (c : Call) : Prop := c.onConnections = true ∧ n.closesQuietly c = true

theorem bound_run {k : Nat} {st : Int} {n : Net} (h : Run step Quiet (new k st) n) :
    Run EventLoop.step EventLoop.CancelClean (EventLoop.new k st) n.loop ∧ Bound n := by
  refine Run.inv (fun n => Run EventLoop.step EventLoop.CancelClean (EventLoop.new k st) n.loop ∧ Bound n)
    ⟨.refl, bound_new k st⟩ ?_ h
  rintro n c n' ⟨hr, hb⟩ ⟨hcall, hc⟩ hs
  have he := step_effect hs
  -- the blocks of the state reached, not of the one before, say what entries were prepared from
  have hr' := hr.trans (quiet_clean hc he)
  exact ⟨hr', bound_step hb (EventLoop.reach_traced hr.any) hcall hc he (EventLoop.intact_run hr')⟩

/-- If descriptors are closed only when nothing that names them is queued,
every entry reaches the socket it was made for. -/
theorem entries_reach_their_sockets {k : Nat} {st : Int} {n : Net} (h : Run step Quiet (new k st) n) :
    ∀ e now, (e, now) ∈ n.submissions → ∃ o socket, e.owner = some o ∧ n.origin o = some socket ∧ now = some socket := by
  intro e now hmem
  exact (bound_run h).2.submissions (e, now) hmem

instance (n : Net) (c : Call) : Decidable (Quiet n c) :=
  inferInstanceAs (Decidable (c.onConnections = true ∧ n.closesQuietly c = true))

/-- A connection is destroyed while the ring is full of others' entries, and
its number is used again. -/
theorem entries_reach_their_sockets_reused :
    ∃ n, Run step Quiet (new 1 0) n ∧ n.destroyed = [0] ∧
      n.submissions.map (fun p => (p.1.owner, p.1.prep.fd, p.2)) =
        [(some (.request 0), 5, some 0), (some (.request 1), 6, some 1), (some (.request 2), 5, some 2)] ∧
      ∀ e now, (e, now) ∈ n.submissions →
        ∃ o socket, e.owner = some o ∧ n.origin o = some socket ∧ now = some socket := by
  obtain ⟨n, hr, hp⟩ := exists_run step (fun n c => decide (Quiet n c)) (fun _ _ => of_decide_eq_true) (new 1 0)
    [.newConnection 0 5, .newConnection 1 6, .asyncWrite 0 ⟨4096, 64⟩ 100,
      .loop (.submit 100 { taken := 1, ret := 1 }), .loop (.post 0 64 0), .asyncWrite 1 ⟨8192, 64⟩ 200,
      .loop (.submit 100 { taken := 0, ret := -16 }), .destroy 0 0, .newConnection 2 5, .asyncRead 2 300,
      .loop (.submit 100 { takes := [1], taken := 1, ret := 1 })]
    (fun n => n.destroyed == [0] && n.submissions.map (fun p => (p.1.owner, p.1.prep.fd, p.2)) ==
      [(some (.request 0), 5, some 0), (some (.request 1), 6, some 1), (some (.request 2), 5, some 2)])
    (by decide +kernel)
  simp only [Bool.and_eq_true, beq_iff_eq] at hp
  exact ⟨n, hr, hp.1, hp.2, entries_reach_their_sockets hr⟩

/-- A connection is destroyed with a write in the queue and its number given
to the next one: the write goes to the new peer, and so does the cancel. -/
theorem queued_write_reaches_new_peer :
    ∃ n, Run step (fun _ c => c.onConnections = true) (new 4 0) n ∧
      n.requestSockets = [some 0, some 1] ∧ n.cancelSockets = [some 0] ∧
      (⟨.write 5 ⟨4096, 64⟩, 100, some (.request 0)⟩, some 1) ∈ n.submissions ∧
      (⟨.cancelFd 5, 0, some (.cancel 0)⟩, some 1) ∈ n.submissions := by
  obtain ⟨n, hr, hp⟩ := exists_run step (fun _ c => c.onConnections) (fun _ _ h => h) (new 4 0)
    [.newConnection 0 5, .asyncWrite 0 ⟨4096, 64⟩ 100, .destroy 0 0, .newConnection 1 5, .asyncRead 1 200,
      .loop (.submit 100 { taken := 3, ret := 3 })]
    (fun n => n.requestSockets == [some 0, some 1] && n.cancelSockets == [some 0] &&
      n.submissions.contains (⟨.write 5 ⟨4096, 64⟩, 100, some (.request 0)⟩, some 1) &&
      n.submissions.contains (⟨.cancelFd 5, 0, some (.cancel 0)⟩, some 1)) (by decide +kernel)
  simp only [Bool.and_eq_true, beq_iff_eq, List.contains_iff_mem] at hp
  obtain ⟨⟨⟨h1, h2⟩, h3⟩, h4⟩ := hp
  exact ⟨n, hr, h1, h2, h3, h4⟩

end Net

/-! ## The cancel of a destructor -/

namespace EventLoop

/-- The cancels that wait in the ring are among those that were called. -/
def Numbered (l : EventLoop) : Prop :=
  ∀ e ∈ l.ring.unsubmitted, ∀ i, e.owner = some (.cancel i) → i < l.submissionQueue.cancels

theorem numbered_step {l l' : EventLoop} {a : Action} (h : Numbered l) (he : Effect l a l') : Numbered l' := by
  intro e hmem i ho
  obtain ⟨m, -, hfrom⟩ := taken_step he
  rcases hfrom e (.inr hmem) with hold | ⟨x, -, hox, -⟩ | ⟨fd, taken, rfl, -, hoc⟩
  · exact Nat.lt_of_lt_of_le (h e hold i ho) (cancels_mono he)
  · rw [ho] at hox
    cases hox
  · rw [ho] at hoc
    cases hoc
    have := cancels_step he
    dsimp only at this
    omega

theorem reach_numbered {k : Nat} {st : Int} {l : EventLoop} (h : Reachable k st l) : Numbered l :=
  Run.inv Numbered (fun e he => by cases he) (fun _ _ _ hi _ hs => numbered_step hi (step_effect hs)) h

/-- A cancel's own entry is not among those the kernel takes to make room for it. -/
theorem cancel_taken (l : EventLoop) (fd : Fd) (taken : Nat) :
    ∃ m, (l.cancel fd taken).ring.submitted = l.ring.submitted ++ m ∧ ∀ e ∈ m, e ∈ l.ring.unsubmitted := by
  have hget : ∀ {u u' : IoUring} {slot : Nat}, u.getSqe = some (slot, u') → u'.submitted = u.submitted := by
    intro u u' slot hg
    simp only [getSqe, Option.dite_none_right_eq_some, Option.some.injEq, Prod.mk.injEq] at hg
    obtain ⟨-, -, rfl⟩ := hg
    rfl
  have hsub : ∃ m, (l.ring.submit taken).submitted = l.ring.submitted ++ m ∧ ∀ e ∈ m, e ∈ l.ring.unsubmitted :=
    ⟨_, rfl, fun e => List.mem_of_mem_take⟩
  show ∃ m, (l.submissionQueue.cancel fd [taken]).ring.submitted = _ ∧ _
  unfold SubmissionQueue.cancel getNewSubmissionQueueEntry
  cases hg : l.ring.getSqe with
  | some p =>
    obtain ⟨slot, u⟩ := p
    exact ⟨[], (hget hg).trans (List.append_nil _).symm, by simp⟩
  | none =>
    cases hg' : (l.ring.submit taken).getSqe with
    | some p =>
      obtain ⟨slot, u⟩ := p
      simp only [List.headD_cons, hg']
      show ∃ m, u.submitted = _ ∧ _
      rw [hget hg']
      exact hsub
    | none =>
      simp only [List.headD_cons, hg']
      exact hsub

/-- The kernel takes the entry of a cancel only after the call has returned. -/
theorem taken_cancel {l l' : EventLoop} {a : Action} (h : Numbered l) (he : Effect l a l') :
    ∃ m, l'.ring.submitted = l.ring.submitted ++ m ∧
      ∀ e ∈ m, ∀ i, e.owner = some (.cancel i) → i < l.submissionQueue.cancels := by
  have hother : (∀ fd taken, a ≠ .cancel fd taken) → ∃ m, l'.ring.submitted = l.ring.submitted ++ m ∧
      ∀ e ∈ m, ∀ i, e.owner = some (.cancel i) → i < l.submissionQueue.cancels := by
    intro hne
    obtain ⟨m, hsub, hfrom⟩ := taken_step he
    refine ⟨m, hsub, fun e hmem i ho => ?_⟩
    rcases hfrom e (.inl hmem) with hold | ⟨x, -, hox, -⟩ | ⟨fd, taken, hca, -⟩
    · exact h e hold i ho
    · rw [ho] at hox
      cases hox
    · exact absurd hca (hne fd taken)
  cases he with
  | @cancel fd taken =>
    obtain ⟨m, hsub, hold⟩ := l.cancel_taken fd taken
    exact ⟨m, hsub, fun e hmem i ho => h e (hold e hmem) i ho⟩
  | _ => exact hother (by simp)

end EventLoop

namespace Net

/-- What the kernel took during a call, it looked up as it was before the call. -/
theorem effect_submissions {n n' : Net} {c : Call} (he : Effect n c n') : n'.submissions = n.submissions ++
    (n'.loop.ring.submitted.drop n.loop.ring.submitted.length).map fun e => (e, n.sockets e.prep.fd) := by
  cases he with
  | loop _ _ _ | asyncRead _ _ | asyncWrite _ _ => rfl
  | @destroy obj taken o _ =>
    rw [close_same]
    show (n.cancelIfValid o.socket taken).submissions = _ ++
      ((n.cancelIfValid o.socket taken).loop.ring.submitted.drop _).map _
    unfold Net.cancelIfValid
    split
    · rfl
    · simp
  | attempt _ _ _ _ ha =>
    obtain ⟨sockets, nextSocket, ⟨-, rfl⟩ | ⟨r, -, -, rfl⟩⟩ := attempt_cases ha
    · simp [put]
    · simp [Net.added, Net.moveLoop, put, EventLoop.add, SubmissionQueue.push]
  | _ => simp [create, openSocket, put, kill]

/-- A cancel is recorded, and the descriptor it names closed, by one and the same destructor. -/
theorem effect_cancelSockets {n n' : Net} {c : Call} (he : Effect n c n') :
    (n'.cancelSockets = n.cancelSockets ∧ n'.loop.submissionQueue.cancels = n.loop.submissionQueue.cancels) ∨
      ∃ fd, n'.cancelSockets = n.cancelSockets ++ [n.sockets fd] ∧
        n'.loop.submissionQueue.cancels = n.loop.submissionQueue.cancels + 1 ∧
        n'.sockets = Function.update n.sockets fd none ∧ n'.nextSocket = n.nextSocket := by
  cases he with
  | @loop a l hown _ hl =>
    have := EventLoop.cancels_step (EventLoop.step_effect hl)
    cases a with
    | add | cancel => cases hown
    | _ => exact .inl ⟨rfl, this⟩
  | @destroy obj taken o _ =>
    unfold Net.cancelIfValid
    split
    · rename_i hv
      have hclose : o.socket.closes = some o.socket.fd := if_pos (of_decide_eq_true hv)
      have hcan := EventLoop.cancels_step (.cancel : EventLoop.Effect n.loop (.cancel o.socket.fd taken) _)
      rw [hclose]
      exact .inr ⟨o.socket.fd, rfl, hcan, rfl, rfl⟩
    · rw [close_same]
      exact .inl ⟨rfl, rfl⟩
  | attempt _ _ _ _ ha =>
    obtain ⟨sockets, nextSocket, ⟨-, rfl⟩ | ⟨r, -, -, rfl⟩⟩ := attempt_cases ha <;> exact .inl ⟨rfl, rfl⟩
  | _ => exact .inl ⟨rfl, rfl⟩

theorem close_owners {n : Net} {dead : List Nat} (h : Owners n.sockets n.nextSocket dead) (fd : Option Fd) :
    ∃ dead', Owners (n.close fd).sockets (n.close fd).nextSocket dead' ∧ dead ⊆ dead' := by
  cases fd with
  | none => exact ⟨dead, h, fun _ hk => hk⟩
  | some fd => exact ⟨_, h.drop fd, List.subset_append_left _ _⟩

theorem attempt_sockets {n n' : Net} {obj : Nat} {o : Object} {opened closed : Option Fd} {request : Option Request}
    {addr : Nat} (h : n.attempt obj o opened closed request addr = .ok n') :
    (∀ fd, opened = some fd → n.sockets fd = none) ∧ n'.sockets = ((opened.elim n n.openSocket).close closed).sockets ∧
      n'.nextSocket = ((opened.elim n n.openSocket).close closed).nextSocket := by
  unfold attempt at h
  split at h
  · rename_i hfree
    refine ⟨?_, ?_⟩
    · rintro fd rfl
      simpa using hfree
    · split at h
      · cases h
        exact ⟨rfl, rfl⟩
      · dsimp only at h
        split at h
        · cases h
          exact ⟨rfl, rfl⟩
        · cases h
  · cases h

/-- Sockets are numbered in order, and a descriptor is given to one at a time. -/
theorem effect_sockets {n n' : Net} {c : Call} {dead : List Nat} (h : Owners n.sockets n.nextSocket dead)
    (he : Effect n c n') : ∃ dead', Owners n'.sockets n'.nextSocket dead' ∧ dead ⊆ dead' := by
  cases he with
  | newConnection _ _ hfd => exact ⟨dead, h.create hfd, fun _ hk => hk⟩
  | @destroy obj taken o _ =>
    have hown : Owners ((n.cancelIfValid o.socket taken).put obj none).sockets
        ((n.cancelIfValid o.socket taken).put obj none).nextSocket dead := by
      rw [cancelIfValid_same]
      exact h
    exact close_owners hown o.socket.closes
  | @attempt _ _ _ _ opened closed _ _ _ _ _ _ _ ha =>
    obtain ⟨hfree, hs, hn⟩ := attempt_sockets ha
    rw [hs, hn]
    cases opened with
    | none => exact close_owners h closed
    | some fd => exact close_owners (n := n.openSocket fd) (h.create (hfree fd rfl)) closed
  | _ => exact ⟨dead, h, fun _ hk => hk⟩

/-- The sockets cancels were made for are closed, and every cancel the kernel
took came too late. -/
structure Late (n : Net) : Prop where
  closed : ∃ dead, Owners n.sockets n.nextSocket dead ∧ ∀ k, some k ∈ n.cancelSockets → k ∈ dead
  count : n.cancelSockets.length = n.loop.submissionQueue.cancels
  missed : ∀ p ∈ n.submissions, ∀ i, p.1.owner = some (.cancel i) →
    i < n.cancelSockets.length ∧ ∀ k, n.cancelSockets[i]? = some (some k) → p.2 ≠ some k

theorem late_closed {n n' : Net} {c : Call} (h : Late n) (he : Effect n c n') :
    ∃ dead, Owners n'.sockets n'.nextSocket dead ∧ ∀ k, some k ∈ n'.cancelSockets → k ∈ dead := by
  obtain ⟨dead, howns, hdead⟩ := h.closed
  rcases effect_cancelSockets he with ⟨hc, -⟩ | ⟨fd, hc, -, hs, hn⟩
  · obtain ⟨dead', howns', hsub⟩ := effect_sockets howns he
    exact ⟨dead', howns', fun k hk => hsub (hdead k (hc ▸ hk))⟩
  · rw [hs, hn, hc]
    refine ⟨_, howns.drop fd, fun k hk => ?_⟩
    rw [List.mem_append, List.mem_singleton] at hk
    rcases hk with hk | hk
    · exact List.mem_append_left _ (hdead k hk)
    · exact List.mem_append_right _ (Option.mem_toList.2 hk.symm)

theorem late_step {n n' : Net} {c : Call} (h : Late n) (hnum : EventLoop.Numbered n.loop) (he : Effect n c n') :
    Late n' := by
  have hgrow : ∃ cs, n'.cancelSockets = n.cancelSockets ++ cs := by
    rcases effect_cancelSockets he with ⟨hc, -⟩ | ⟨fd, hc, -⟩
    · exact ⟨[], by rw [hc, List.append_nil]⟩
    · exact ⟨_, hc⟩
  obtain ⟨cs, hcs⟩ := hgrow
  -- a cancel that was on record names the same socket after the call
  have hkeep : ∀ i now, (i < n.cancelSockets.length ∧ ∀ k, n.cancelSockets[i]? = some (some k) → now ≠ some k) →
      i < n'.cancelSockets.length ∧ ∀ k, n'.cancelSockets[i]? = some (some k) → now ≠ some k := by
    rintro i now ⟨hlt, hm⟩
    rw [hcs, List.length_append, List.getElem?_append_left hlt]
    exact ⟨by omega, hm⟩
  refine ⟨late_closed h he, ?_, ?_⟩
  · rcases effect_cancelSockets he with ⟨hc, hn⟩ | ⟨fd, hc, hn, -⟩
    · rw [hc, hn, h.count]
    · rw [hc, hn, List.length_append, h.count]
      rfl
  · intro p hp i ho
    rw [effect_submissions he, List.mem_append] at hp
    rcases hp with hp | hp
    · exact hkeep i p.2 (h.missed p hp i ho)
    · obtain ⟨e, hmem, rfl⟩ := List.mem_map.1 hp
      apply hkeep i
      obtain ⟨dead, howns, hdead⟩ := h.closed
      have hlt : i < n.loop.submissionQueue.cancels := by
        rcases effect_loop he with hl | ⟨a, hstep, -⟩
        · rw [hl, List.drop_length] at hmem
          cases hmem
        · obtain ⟨m, hsub, hold⟩ := EventLoop.taken_cancel hnum (EventLoop.step_effect hstep)
          rw [hsub, List.drop_left] at hmem
          exact hold e hmem i ho
      refine ⟨by rw [h.count]; exact hlt, fun k hk hnow => ?_⟩
      exact howns.alive _ k hnow (hdead k (List.mem_of_getElem? hk))

theorem late_new (k : Nat) (st : Int) : Late (new k st) :=
  ⟨⟨[], Owners.empty, fun _ hk => by cases hk⟩, rfl, fun _ hp => by cases hp⟩

/-- Whatever the program does: by the time the kernel takes the cancel of a
destructor, the descriptor in it does not denote the socket it was meant for. -/
theorem cancel_never_reaches {k : Nat} {st : Int} {n : Net} (h : Run step anyAction (new k st) n) {e : Sqe}
    {now : Option Nat} (hmem : (e, now) ∈ n.submissions) {i : Nat} (ho : e.owner = some (.cancel i)) :
    ¬ n.Denotes e.owner now := by
  have hlate : Late n := by
    refine Run.inv_of (fun n => EventLoop.Reachable k st n.loop) Late (fun _ hr => run_loop hr) (late_new k st) ?_ h
    intro n c n' hr hl _ hs
    exact late_step hl (EventLoop.reach_numbered hr) (step_effect hs)
  rintro ⟨o, socket, ho', horigin, rfl⟩
  rw [ho] at ho'
  cases ho'
  exact (hlate.missed _ hmem i ho).2 socket (Option.join_eq_some_iff.1 horigin) rfl

end Net

end RingNet
