import RingNet.Lifetime
/-!
# Acceptors and their accept request

`listen` writes `LISTENING` when it has added its request, and nothing takes it
back: when a multi-shot accept ends, its last completion goes to the handlers
like any other, and when a submission drops the request nobody is told.
`keepsArmed` rules both out for an acceptor's own request, and then the status
and the request go together.
-/

namespace RingNet

open Lib

namespace EventLoop

/-- A request with a place that has not completed for good is active. -/
theorem active_of_places {l : EventLoop} {id : Nat} (hp : l.places id = 1)
    (hc : ∀ c ∈ l.ring.posted, c.endsFor id = false) : l.active id = true := by
  have hdone : l.ring.posted.countP (Cqe.endsFor id) = 0 := by
    rw [List.countP_eq_zero]
    intro c hmem
    rw [hc c hmem]
    decide
  unfold places at hp
  rw [hdone] at hp
  have hsome : ∃ x ∈ l.outstanding, x.2 = some id := by
    rcases Nat.eq_zero_or_pos (l.pending.countP (·.id == id)) with h1 | h1
    · rcases Nat.eq_zero_or_pos (l.ring.unsubmitted.countP (Sqe.isFor id)) with h2 | h2
      · obtain ⟨e, he, hf⟩ := List.countP_pos_iff.1 (show 0 < l.ring.inflight.countP (Sqe.isFor id) by omega)
        exact ⟨_, mem_outstanding.2 (.inr (.inl ⟨e, .inr he, rfl⟩)), Sqe.requestId_eq_some.2 (by simpa [Sqe.isFor] using hf)⟩
      · obtain ⟨e, he, hf⟩ := List.countP_pos_iff.1 h2
        exact ⟨_, mem_outstanding.2 (.inr (.inl ⟨e, .inl he, rfl⟩)), Sqe.requestId_eq_some.2 (by simpa [Sqe.isFor] using hf)⟩
    · obtain ⟨y, hy, hid⟩ := List.countP_pos_iff.1 h1
      exact ⟨_, mem_outstanding.2 (.inl ⟨y, hy, rfl⟩), by simpa using hid⟩
  obtain ⟨x, hx, hid⟩ := hsome
  exact List.any_eq_true.2 ⟨x, hx, by simpa using hid⟩

/-- The request `id` is an accept request of the subscriber `s`. -/
def AcceptOf (l : EventLoop) (id : Nat) (s : SubscriberId) : Prop :=
  ∃ x : Accepted, l.accepted[id]? = some x ∧ x.subscriber = some s ∧ x.request.op = .accept

end EventLoop

namespace EventLoop

/-- A submission finds an entry for each pending request of `s`. -/
def ownRequestsFit (l : EventLoop) (s : SubscriberId) (reply : SubmitReply) : Bool :=
  l.pending.zipIdx.all fun x =>
    !l.madeFor x.1.id s || getsEntry l.ring.ringEntries l.ring.room x.2 reply.takes

/-- A request of `s` keeps its place in such a submission, whatever becomes of the others. -/
theorem placed_submit {l : EventLoop} {timeout : Int} {reply : SubmitReply} {st : SubmitStatus} {q : SubmissionQueue}
    (hs : l.submissionQueue.submit timeout reply = .ok (st, q)) {s : SubscriberId}
    (hfit : l.ownRequestsFit s reply = true) {id : Nat} (hmade : l.madeFor id s = true) (hp : l.places id = 1) :
    ({ l with submissionQueue := q, submitStatus := st } : EventLoop).places id = 1 := by
  obtain ⟨hq, got, -, -, hm, -⟩ := SubmissionQueue.submit_moves hs
  have hpend : q.pendingRequests.toList = [] := congrArg (·.pendingRequests.toList) hq
  have hle := (places_submit hs id).1
  -- if it was pending it has an entry now
  obtain ⟨new, hmoves, hnew⟩ : ∃ new, IoUring.Moves l.ring q.ring new ∧
      l.pending.countP (·.id == id) ≤ new.countP (Sqe.isFor id) := by
    by_cases hx : ∃ x ∈ l.pending, x.id = id
    · obtain ⟨x, hx, rfl⟩ := hx
      obtain ⟨i, hi⟩ := List.getElem?_of_mem hx
      have hgets := List.all_eq_true.1 hfit (x, i) (List.mem_zipIdx_iff_getElem?.2 hi)
      rw [hmade, Bool.not_true, Bool.false_or] at hgets
      obtain ⟨new, hmoves, e, he, ho⟩ := SubmissionQueue.submit_gets hs hi hgets
      have hpos : 0 < new.countP (Sqe.isFor x.id) := List.countP_pos_iff.2 ⟨e, he, by simp [Sqe.isFor, ho]⟩
      have hone : l.pending.countP (·.id == x.id) ≤ 1 := by
        unfold places at hp
        omega
      exact ⟨new, hmoves, by omega⟩
    · refine ⟨_, hm, ?_⟩
      rw [List.countP_eq_zero.2 fun x hmem hid => hx ⟨x, hmem, by simpa using hid⟩]
      exact Nat.zero_le _
  have hcount : ({ l with submissionQueue := q, submitStatus := st } : EventLoop).places id +
      l.pending.countP (·.id == id) = l.places id + q.pendingRequests.toList.countP (·.id == id) +
        new.countP (Sqe.isFor id) := places_moves hmoves id
  rw [hpend, List.countP_nil] at hcount
  omega

/-- The requests of `s` keep their places, and a new one gets one. -/
theorem placed_step {l l' : EventLoop} {a : Action} {s : SubscriberId} (hu : Unique l) (he : Effect l a l')
    (hfit : ∀ timeout reply, a = .submit timeout reply → l.ownRequestsFit s reply = true)
    (h : ∀ id, l.madeFor id s = true → l.places id = 1) {id : Nat} (hmade : l'.madeFor id s = true) :
    l'.places id = 1 := by
  obtain ⟨x, hx, hxs⟩ := madeFor_iff.1 hmade
  have hplaces := places_step he id
  rcases accepted_new he hx with hold | ⟨r, u, addr, rfl, rfl, -⟩
  · have hbefore : l.madeFor id s = true := madeFor_iff.2 ⟨x, hold, hxs⟩
    have hlt := (List.getElem?_eq_some_iff.1 hold).1
    cases a with
    | add r u addr => dsimp only at hplaces; rw [hplaces, h id hbefore, if_neg (Nat.ne_of_lt hlt)]
    | submit timeout reply =>
      cases he with
      | submit _ hs => exact placed_submit hs (hfit timeout reply rfl) hbefore (h id hbefore)
    | _ => dsimp only at hplaces; rw [hplaces, h id hbefore]
  · have hnone := hu l.accepted.length
    rw [if_neg (Nat.lt_irrefl _)] at hnone
    dsimp only at hplaces
    rw [hplaces, if_pos rfl, Nat.le_zero.1 hnone]

end EventLoop

namespace Net

/-- The kernel goes on with the requests of `s`, and a submission finds an entry for each of them. -/
def keepsArmed (s : SubscriberId) (n : Net) : Call → Bool
  | .loop (.post i res flags) => n.loop.ring.inflight[i]?.all fun e =>
    !e.requestId.any (n.loop.madeFor · s) || (⟨e.userData, res, flags, e.owner⟩ : Cqe).hasMore
  | .loop (.submit _ reply) => n.loop.ownRequestsFit s reply
  | _ => true

/-! ## What happens to an acceptor -/

/-- An acceptor is made without a request, changes by `listen` only, and makes requests by `listen` only. -/
theorem acceptor_step {n n' : Net} {c : Call} (h : n.step c = .ok n') {obj : Nat} {a' : Acceptor}
    (ha : n'.objects obj = some (.acceptor a')) :
    (a' = { subscriber := n.nextSubscriber } ∧ n'.loop = n.loop) ∨
      (∃ a address port o addr, n.objects obj = some (.acceptor a) ∧ a' = (a.listen address port o).object ∧
        n'.loop = (a.listen address port o).request.elim n.loop fun r => (n.loop.add r (some a.subscriber) addr).2) ∨
      n.objects obj = some (.acceptor a') ∧ requester c ≠ some obj := by
  -- what is put in another place, or is not an acceptor, does not matter
  have hput : ∀ {f : Nat → Option Object} {i : Nat} {o : Option Object}, (∀ x, o ≠ some (.acceptor x)) →
      Function.update f i o obj = some (.acceptor a') → obj ≠ i ∧ f obj = some (.acceptor a') := by
    intro f i o ho hu
    by_cases hi : obj = i
    · subst hi
      rw [Function.update_self] at hu
      exact absurd hu (ho a')
    · rw [Function.update_of_ne hi] at hu
      exact ⟨hi, hu⟩
  have hmakes : ∀ {i : Nat} {c : Connection}, n.objects i = some (.connection c) →
      n.objects obj = some (.acceptor a') → some i ≠ some obj := by
    rintro i c hi hobj heq
    cases heq
    rw [hi] at hobj
    cases hobj
  have he := step_effect h
  cases he with
  | @attempt _ _ _ _ _ _ _ addr _ hcall _ _ _ _ =>
    obtain ⟨address, port, o, rfl | rfl⟩ := hcall
    · obtain ⟨a, hi, hatt⟩ := listen_spec h
      rw [attempt_objects hatt] at ha
      rcases update_some_cases ha with ⟨rfl, hx⟩ | ⟨hne, hold⟩
      · cases hx
        refine .inr (.inl ⟨a, address, port, o, addr, hi, rfl, ?_⟩)
        rw [attempt_loop hatt, Object.subscriber_acceptor, Acceptor.listen_subscriber]
      · exact .inr (.inr ⟨hold, by simpa [requester] using hne.symm⟩)
    · obtain ⟨_, -, hatt⟩ := asyncConnect_spec h
      rw [attempt_objects hatt] at ha
      obtain ⟨hne, hold⟩ := hput (by simp) ha
      exact .inr (.inr ⟨hold, by simpa [requester] using hne.symm⟩)
  | newAcceptor _ =>
    rcases update_some_cases ha with ⟨-, hx⟩ | ⟨-, hold⟩
    · cases hx
      exact .inl ⟨rfl, rfl⟩
    · exact .inr (.inr ⟨hold, nofun⟩)
  | loop _ _ _ => exact .inr (.inr ⟨ha, nofun⟩)
  | selfMove => exact .inr (.inr ⟨ha, nofun⟩)
  | newConnection _ _ _ => exact .inr (.inr ⟨(hput (by simp) ha).2, nofun⟩)
  | newConnector _ => exact .inr (.inr ⟨(hput (by simp) ha).2, nofun⟩)
  | setConnected _ => exact .inr (.inr ⟨(hput (by simp) ha).2, nofun⟩)
  | moveConstruct _ _ => exact .inr (.inr ⟨(hput (by simp) (hput (by simp) ha).2).2, nofun⟩)
  | moveAssign _ _ _ => exact .inr (.inr ⟨(hput (by simp) (hput (by simp) ha).2).2, nofun⟩)
  | onConnection _ _ => exact .inr (.inr ⟨(hput (by simp) (hput (by simp) ha).2).2, nofun⟩)
  | destroy _ =>
    rw [close_same, cancelIfValid_same] at ha
    exact .inr (.inr ⟨(hput (by simp) ha).2, nofun⟩)
  -- requests of connections
  | asyncRead hi _ => exact .inr (.inr ⟨ha, hmakes hi ha⟩)
  | asyncWrite hi _ => exact .inr (.inr ⟨ha, hmakes hi ha⟩)

/-- `listen` is rejected, fails, or adds one accept request and writes the status. -/
theorem listen_cases (a : Acceptor) (address : String) (port : UInt16) (o : SocketOutcome) :
    ((a.listen address port o).object.listening = a.listening ∧ (a.listen address port o).request = none) ∨
      a.listening = false ∧ (a.listen address port o).object.listening = true ∧
        ∃ fd, (a.listen address port o).request = some (.accept fd) := by
  unfold Acceptor.listen
  cases hl : a.listening with
  | true => exact .inl ⟨hl, rfl⟩
  | false =>
    dsimp only
    rw [if_neg (by decide)]
    split
    · exact .inl ⟨hl, rfl⟩
    · repeat' split
      all_goals first | exact .inl ⟨hl, rfl⟩ | exact .inr ⟨rfl, rfl, _, rfl⟩

/-- Only an acceptor that has its request answers that it is listening. -/
theorem listen_rejected_iff (a : Acceptor) (address : String) (port : UInt16) (o : SocketOutcome) :
    (a.listen address port o).status = ⟨false, .text "Already listening"⟩ ↔ a.listening = true := by
  unfold Acceptor.listen
  cases hl : a.listening with
  | true => simp
  | false =>
    simp only [Bool.false_eq_true, if_false, iff_false]
    repeat' split
    all_goals simp [errorAbout, addStatus]

/-! ## The status and the request -/

/-- The accepted requests stay what they are. -/
theorem accepted_keep {n n' : Net} {c : Call} (he : Effect n c n') {id : Nat} {x : Accepted}
    (h : n.loop.accepted[id]? = some x) : n'.loop.accepted[id]? = some x := by
  rcases effect_loop he with hl | ⟨a, hl, -⟩
  · rw [hl]
    exact h
  · exact EventLoop.accepted_mono (EventLoop.step_effect hl) h

/-- What goes together for the acceptor with the subscriber `s`. -/
structure Listens (s : SubscriberId) (n : Net) : Prop where
  idle : ∀ obj a, n.objects obj = some (.acceptor a) → a.subscriber = s → a.listening = false →
    ∀ x ∈ n.loop.accepted, x.subscriber ≠ some s
  made : ∀ obj a, n.objects obj = some (.acceptor a) → a.subscriber = s → a.listening = true →
    ∃ id, n.loop.AcceptOf id s
  lasts : ∀ c ∈ n.loop.ring.posted, ∀ id, c.owner = some (.request id) → n.loop.madeFor id s = true → c.hasMore = true
  placed : ∀ id, n.loop.madeFor id s = true → n.loop.places id = 1

theorem listens_idle_step {s : SubscriberId} {n n' : Net} {c : Call} (h : Listens s n) (hown : Owning n)
    (hmade : ∀ x ∈ n.loop.accepted, ∀ s, x.subscriber = some s → s < n.nextSubscriber) (hs : n.step c = .ok n') :
    ∀ obj a, n'.objects obj = some (.acceptor a) → a.subscriber = s → a.listening = false →
      ∀ x ∈ n'.loop.accepted, x.subscriber ≠ some s := by
  intro obj a' ha hsub hidle x hx hxs
  rcases acceptor_step hs ha with ⟨rfl, hl⟩ | ⟨a, address, port, o, addr, hobj, rfl, hl⟩ | ⟨hobj, hreq⟩
  · -- a new subscriber has no requests
    rw [hl] at hx
    have := hmade x hx s hxs
    rw [← hsub] at this
    exact Nat.lt_irrefl _ this
  · rw [Acceptor.listen_subscriber] at hsub
    rcases listen_cases a address port o with ⟨hsame, hnone⟩ | ⟨-, htrue, -⟩
    · rw [hnone] at hl
      rw [hl] at hx
      exact h.idle obj a hobj hsub (hsame.symm.trans hidle) x hx hxs
    · rw [hidle] at htrue
      cases htrue
  · rcases effect_accepted (step_effect hs) hx with hold | ⟨other, o, hmaker, hother, hos⟩
    · exact h.idle obj a' hobj hsub hidle x hold hxs
    · -- the request is another object's, and so is its subscriber
      have h1 : n.subs other = some s := by simp [subs, hother, hos, hxs]
      have h2 : n.subs obj = some s := by simp [subs, hobj, hsub]
      rw [hown.unique other obj s h1 h2] at hmaker
      exact hreq hmaker

theorem listens_made_step {s : SubscriberId} {n n' : Net} {c : Call} (h : Listens s n) (hs : n.step c = .ok n') :
    ∀ obj a, n'.objects obj = some (.acceptor a) → a.subscriber = s → a.listening = true →
      ∃ id, n'.loop.AcceptOf id s := by
  intro obj a' ha hsub hlist
  have hkeep : ∀ a, n.objects obj = some (.acceptor a) → a.subscriber = s → a.listening = true →
      ∃ id, n'.loop.AcceptOf id s := by
    intro a hobj hsub hlist
    obtain ⟨id, x, hx, hof⟩ := h.made obj a hobj hsub hlist
    exact ⟨id, x, accepted_keep (step_effect hs) hx, hof⟩
  rcases acceptor_step hs ha with ⟨rfl, -⟩ | ⟨a, address, port, o, addr, hobj, rfl, hl⟩ | ⟨hobj, -⟩
  · cases hlist
  · rw [Acceptor.listen_subscriber] at hsub
    rcases listen_cases a address port o with ⟨hsame, -⟩ | ⟨-, -, fd, hreq⟩
    · exact hkeep a hobj hsub (hsame.symm.trans hlist)
    · rw [hreq] at hl
      refine ⟨n.loop.accepted.length, ⟨.accept fd, some a.subscriber, addr⟩, ?_, by rw [hsub], rfl⟩
      rw [hl]
      exact List.getElem?_concat_length
  · exact hkeep a' hobj hsub hlist

theorem listens_lasts_step {s : SubscriberId} {n n' : Net} {c : Call} (h : Listens s n)
    (ht : EventLoop.Traced n.loop) (hc : n.keepsArmed s c = true) (he : Effect n c n') :
    ∀ x ∈ n'.loop.ring.posted, ∀ id, x.owner = some (.request id) → n'.loop.madeFor id s = true → x.hasMore = true := by
  intro x hx id ho hfor
  -- a request that has a completion or an entry was accepted before
  have hback : (∃ y, n.loop.accepted[id]? = some y) → n.loop.madeFor id s = true := by
    rintro ⟨y, hy⟩
    obtain ⟨z, hz, hzs⟩ := EventLoop.madeFor_iff.1 hfor
    rw [accepted_keep he hy] at hz
    cases hz
    exact EventLoop.madeFor_iff.2 ⟨y, hy, hzs⟩
  have hold : x ∈ n.loop.ring.posted → x.hasMore = true := by
    intro hx
    obtain ⟨y, hy, -⟩ := ht.completions x hx id ho
    exact h.lasts x hx id ho (hback ⟨y, hy⟩)
  rcases effect_loop he with hl | ⟨a, hl, hown, -⟩
  · rw [hl] at hx
    exact hold hx
  · have hpost := EventLoop.posted_step (EventLoop.step_effect hl)
    cases a with
    | post i res flags =>
      obtain ⟨e, hin, hpost⟩ := hpost
      rw [hpost, List.mem_append, List.mem_singleton] at hx
      rcases hx with hx | rfl
      · exact hold hx
      · obtain ⟨y, hy, -⟩ := ht.entries e (.inr (List.mem_of_getElem? hin)) id ho
        rw [hown rfl] at hc
        simpa [keepsArmed, hin, Sqe.requestId_eq_some.2 ho, hback ⟨y, hy⟩] using hc
    | _ => dsimp only at hpost; rw [hpost] at hx; exact hold hx

theorem listens_placed_step {s : SubscriberId} {n n' : Net} {c : Call} (h : Listens s n)
    (hu : EventLoop.Unique n.loop) (hc : n.keepsArmed s c = true) (he : Effect n c n') :
    ∀ id, n'.loop.madeFor id s = true → n'.loop.places id = 1 := by
  rcases effect_loop he with hl | ⟨a, hl, hown, -⟩
  · rw [hl]
    exact h.placed
  · intro id hmade
    refine EventLoop.placed_step hu (EventLoop.step_effect hl) ?_ h.placed hmade
    rintro timeout reply rfl
    rw [hown rfl] at hc
    exact hc

theorem listens_run {s : SubscriberId} {k : Nat} {st : Int} {n : Net}
    (h : Run step (fun n c => n.keepsArmed s c = true) (new k st) n) : Listens s n := by
  refine Run.inv_of (fun n => EventLoop.Traced n.loop ∧ EventLoop.Unique n.loop ∧ Owning n ∧
    ∀ x ∈ n.loop.accepted, ∀ s, x.subscriber = some s → s < n.nextSubscriber) (Listens s) ?_ ?_ ?_ h
  · intro m hr
    exact ⟨EventLoop.reach_traced (run_loop hr), EventLoop.reach_unique (run_loop hr), reach_made hr⟩
  · constructor
    · nofun
    · nofun
    · nofun
    · simp [new, EventLoop.madeFor]
  · rintro m c m' ⟨ht, hu, hown, hmade⟩ hi hc hs
    exact ⟨listens_idle_step hi hown hmade hs, listens_made_step hi hs, listens_lasts_step hi ht hc (step_effect hs),
      listens_placed_step hi hu hc (step_effect hs)⟩

/-- In every run in which the kernel never ends the acceptor's requests and no
submission drops one of them: the acceptor is `LISTENING` exactly when an accept
request of its own is pending, prepared or with the kernel, and without one
`listen` is not rejected as listening. -/
theorem listening_iff_armed {k : Nat} {st : Int} {n : Net} {obj : Nat} {a : Acceptor}
    (h : Run step (fun n c => n.keepsArmed a.subscriber c = true) (new k st) n)
    (ha : n.objects obj = some (.acceptor a)) :
    (a.listening = true ↔ ∃ id, n.loop.AcceptOf id a.subscriber ∧ n.loop.active id = true) ∧
    ((∀ id, n.loop.AcceptOf id a.subscriber → n.loop.active id = false) → ∀ address port o,
      (a.listen address port o).status ≠ ⟨false, .text "Already listening"⟩) := by
  have hl := listens_run h
  have hiff : a.listening = true ↔ ∃ id, n.loop.AcceptOf id a.subscriber ∧ n.loop.active id = true := by
    constructor
    · intro hlist
      obtain ⟨id, x, hx, hxs, hop⟩ := hl.made obj a ha rfl hlist
      refine ⟨id, ⟨x, hx, hxs, hop⟩, EventLoop.active_of_places ?_ ?_⟩
      · exact hl.placed id (EventLoop.madeFor_iff.2 ⟨x, hx, hxs⟩)
      · intro c hc
        cases hends : c.endsFor id with
        | false => rfl
        | true =>
          have ho := Cqe.endsFor_owner hends
          have hmore := hl.lasts c hc id ho (EventLoop.madeFor_iff.2 ⟨x, hx, hxs⟩)
          simp [Cqe.endsFor, hmore] at hends
    · rintro ⟨id, ⟨x, hx, hxs, -⟩, -⟩
      by_contra hne
      exact hl.idle obj a ha rfl (by simpa using hne) x (List.mem_of_getElem? hx) hxs
  refine ⟨hiff, fun hnone address port o hrej => ?_⟩
  obtain ⟨id, hof, hact⟩ := hiff.1 ((listen_rejected_iff a address port o).1 hrej)
  rw [hnone id hof] at hact
  cases hact

/-- An acceptor whose second attempt succeeds, with a connection accepted. -/
theorem listening_iff_armed_second :
    ∃ n, Run step (fun n c => n.keepsArmed 0 c = true) (new 4 0) n ∧
      n.objects 0 = some (.acceptor { subscriber := 0, listening := true, listeningSocket := ⟨6⟩ }) ∧
      ∃ id, n.loop.AcceptOf id 0 ∧ n.loop.active id = true := by
  obtain ⟨n, hr, hp⟩ := exists_run step (keepsArmed 0) (fun _ _ h => h) (new 4 0)
    [.newAcceptor 0,
      .listen 0 "::1" 80 { resolved := .ok (.sockaddrIn6 []), socket := .ok 5, bind := .error 98 } 100,
      .listen 0 "::1" 80 { resolved := .ok (.sockaddrIn6 []), socket := .ok 6 } 100,
      .loop (.submit 100 { taken := 1, ret := 1 }), .loop (.post 0 7 2), .loop .begin, .loop .next,
      .loop .callbackReturn]
    (fun n => (n.objects 0).bind Object.asAcceptor ==
      some { subscriber := 0, listening := true, listeningSocket := ⟨6⟩ }) (by decide +kernel)
  have ha := Object.asAcceptor_eq.1 (beq_iff_eq.1 hp)
  exact ⟨n, hr, ha, (listening_iff_armed hr ha).1.1 rfl⟩

/-- The accept ends with too many open files. The acceptor has been told of the
error, has no request any more, and still answers that it is listening. -/
theorem ended_accept_stays_listening :
    ∃ n a, Run step anyAction (new 4 0) n ∧ n.objects 0 = some (.acceptor a) ∧ a.listening = true ∧
      (¬∃ id, n.loop.AcceptOf id a.subscriber ∧ n.loop.active id = true) ∧
      n.loop.invocations.map (·.what) = [.subscriber a.subscriber (.error 24)] ∧
      ∀ address port o, (a.listen address port o).status = ⟨false, .text "Already listening"⟩ := by
  obtain ⟨n, hr, hp⟩ := exists_run_any step (new 4 0)
    [.newAcceptor 0, .listen 0 "127.0.0.1" 80 { resolved := .ok (.sockaddrIn []), socket := .ok 5 } 100,
      .loop (.submit 100 { taken := 1, ret := 1 }), .loop (.post 0 (-24) 0), .loop .begin, .loop .next,
      .loop .callbackReturn, .loop .next]
    (fun n => (n.objects 0).bind Object.asAcceptor ==
        some { subscriber := 0, listening := true, listeningSocket := ⟨5⟩ } && n.loop.accepted.length == 1 &&
      !n.loop.active 0 && n.loop.invocations.map (·.what) == [.subscriber 0 (.error 24)]) (by decide +kernel)
  simp only [Bool.and_eq_true, beq_iff_eq, Bool.not_eq_true'] at hp
  obtain ⟨⟨⟨hobj, hlen⟩, hact⟩, hinv⟩ := hp
  refine ⟨n, _, hr, Object.asAcceptor_eq.1 hobj, rfl, ?_, hinv, fun _ _ _ => (listen_rejected_iff _ _ _ _).2 rfl⟩
  rintro ⟨id, ⟨x, hx, -⟩, htrue⟩
  have hlt := (List.getElem?_eq_some_iff.1 hx).1
  rw [hlen, Nat.lt_one_iff] at hlt
  rw [hlt, hact] at htrue
  cases htrue

end Net

end RingNet
