import RingNet.Attribution
import RingNet.Buffers
/-!
# What subscribers hear

Completions are answered in queue order, one handler call each, on every run.
Without cancels and with a subscriber for each request, the call is on the
subscriber given to `add`, with the event of the request's operation
(`Answered`). A multi-shot read's completions always reach its
subscriber, also on runs where other completions go astray, since its block is
never given back (`Heard`).
-/

namespace RingNet

open Lib IoUring

namespace EventLoop

/-! ## Order -/

/-- One call for each completion dispatched so far, in order. -/
def InOrder (l : EventLoop) : Prop := l.invocations.map (·.completion) = List.range l.dispatched

theorem inOrder_step {l l' : EventLoop} {a : Action} (h : InOrder l) (hp : Position l) (he : Effect l a l') :
    InOrder l' := by
  unfold InOrder at h ⊢
  rcases invocations_step hp he with ⟨hinv, hd⟩ | ⟨processed, c, d, -, -, -, -, -, hd, hinv⟩
  · rw [hinv, hd]; exact h
  · rw [hinv, hd, List.map_append, h, List.range_succ]
    rfl

theorem reach_inOrder {n : Nat} {st : Int} {l : EventLoop} (h : Reachable n st l) : InOrder l :=
  Run.inv_of Position InOrder (fun _ hr => reach_position hr) rfl
    (fun _ _ _ hp hi _ hs => inOrder_step hi hp (step_effect hs)) h

/-! ## Requests without cancels -/

/-- Every request comes with a subscriber, and nothing is cancelled. -/
def Subscribed (_ : EventLoop) : Action → Prop
  | .add _ subscriber _ => subscriber.isSome = true
  | .cancel .. => False
  | _ => True

instance (l : EventLoop) : (a : Action) → Decidable (Subscribed l a)
  | .add _ subscriber _ => inferInstanceAs (Decidable (subscriber.isSome = true))
  | .cancel .. => inferInstanceAs (Decidable False)
  | .submit .. | .begin | .next | .callbackReturn | .checkStatus | .post .. => inferInstanceAs (Decidable True)

theorem Subscribed.notCancel {l : EventLoop} {a : Action} (h : Subscribed l a) : NotCancel l a := by
  cases a <;> first | exact trivial | exact h.elim

theorem accepted_subscribed {n : Nat} {st : Int} {l : EventLoop} (h : Run step Subscribed (new n st) l) :
    ∀ a ∈ l.accepted, ∃ s, a.subscriber = some s := by
  refine Run.inv (fun l => ∀ a ∈ l.accepted, ∃ s, a.subscriber = some s) (by simp) ?_ h
  intro l x l' hi hc hs
  have hacc := accepted_step (step_effect hs)
  cases x with
  | add r s addr =>
    dsimp only at hacc
    rw [hacc]
    intro a ha
    rcases List.mem_append.1 ha with ha | ha
    · exact hi a ha
    · rw [List.mem_singleton] at ha
      subst ha
      exact Option.isSome_iff_exists.1 hc
  | _ => dsimp only at hacc; rw [hacc]; exact hi

/-- The call `v` was made on the subscriber of the completed request, with the
error or with the event of its operation. -/
def Answered (l : EventLoop) (v : Invoked) : Prop :=
  ∃ c id a s e, l.ring.posted[v.completion]? = some c ∧ c.owner = some (.request id) ∧ l.accepted[id]? = some a ∧
    a.subscriber = some s ∧ v.what = .subscriber s e ∧
    if c.res < 0 then e = .error (-c.res) else e.reports a.request.op = true

theorem Answered.step {l l' : EventLoop} {a : Action} {v : Invoked} (h : Answered l v) (he : Effect l a l') :
    Answered l' v := by
  obtain ⟨c, id, x, s, e, hc, ho, hx, hrest⟩ := h
  exact ⟨c, id, x, s, e, posted_mono he hc, ho, accepted_mono he hx, hrest⟩

theorem answered_step {l l' : EventLoop} {x : Action} (h : ∀ v ∈ l.invocations, Answered l v) (hp : Position l)
    (ht : Traced l) (hi : Intact l) (h0 : l.submissionQueue.cancels = 0) {st : Int} (hz : Sized st l)
    (hsub : ∀ a ∈ l.accepted, ∃ s, a.subscriber = some s) (he : Effect l x l') :
    ∀ v ∈ l'.invocations, Answered l' v := by
  rcases invocations_step hp he with ⟨hinv, -⟩ | ⟨processed, c, d, -, -, hfd, hc, hd, -, hinv⟩ <;> rw [hinv]
  · intro v hv
    exact (h v hv).step he
  · intro v hv
    rcases List.mem_append.1 hv with hv | hv
    · exact (h v hv).step he
    · rw [List.mem_singleton] at hv
      subst hv
      obtain ⟨id, a, ho, ha, hne, hfind⟩ := hi.block ht h0 (hfd ▸ hc)
      obtain ⟨s, hs⟩ := hsub a (List.mem_of_getElem? ha)
      rw [dispatch_eq hne hfind, Except.ok.injEq] at hd
      subst hd
      obtain ⟨e, hcall⟩ := handlerFor_calls hs fun _ => hz.buffers ▸ hz.ids c (List.mem_of_getElem? hc)
      exact ⟨c, id, a, s, e, posted_mono he hc, ho, accepted_mono he ha, hs, hcall, (handlerFor_subscriber hcall).2⟩

section Delivered
variable {n : Nat} {l : EventLoop} (h : Run step Subscribed (new n 0) l)
include h

theorem subscribed_intact : Intact l :=
  intact_run (h.mono fun _ _ hs => hs.notCancel.clean)

theorem subscribed_cancels : l.submissionQueue.cancels = 0 :=
  cancels_zero (h.mono fun _ _ hs => hs.notCancel)

theorem answered_run : ∀ v ∈ l.invocations, Answered l v := by
  refine Run.inv_of (fun l => Run step Subscribed (new n 0) l) (fun l => ∀ v ∈ l.invocations, Answered l v)
    (fun _ hr => hr) (by simp) ?_ h
  intro s a s' hr hi _ hs
  exact answered_step hi (reach_position hr.any) (reach_traced hr.any) (subscribed_intact hr) (subscribed_cancels hr)
    (reach_sized hr.any) (accepted_subscribed hr) (step_effect hs)

/-- No action is undefined behaviour. -/
theorem subscribed_no_fault (x : Action) (f : Fault) : l.step x ≠ .error (.fault f) := by
  intro hf
  have hp := reach_position h.any
  have hz := reach_sized h.any
  obtain ⟨-, head, processed, c, hph, hrel⟩ :=
    fault_cases hp (reach_traced h.any) (subscribed_intact h) (subscribed_cancels h) hf
  have hlt : c.bufferId < l.bufferRing.buffers.length :=
    hz.buffers ▸ hz.ids c (List.mem_of_getElem? (hp.handling hph).2)
  obtain ⟨b, hb⟩ := BufferRing.release_ok (hz.ring.resolve_right fun hne => hne.1 rfl) hlt
  rw [hb] at hrel
  cases hrel

/-- Inside `forEachCompletion` the loop can always go on. -/
theorem subscribed_progress (hi : l.phase ≠ .idle) : ∃ a l', (a = .next ∨ a = .callbackReturn) ∧ l.step a = .ok l' := by
  have hno := subscribed_no_fault h
  cases hph : l.phase with
  | idle => exact absurd hph hi
  | iterating head processed =>
    refine ⟨.next, ?_⟩
    cases hs : l.step .next with
    | ok l' => exact ⟨l', .inl rfl, rfl⟩
    | error e =>
      cases e with
      | fault f => exact absurd hs (hno .next f)
      | disabled =>
        simp only [step, hph] at hs
        (repeat' split at hs) <;> cases hs
  | handling head processed c rb =>
    refine ⟨.callbackReturn, ?_⟩
    cases hs : l.step .callbackReturn with
    | ok l' => exact ⟨l', .inr rfl, rfl⟩
    | error e =>
      cases e with
      | fault f => exact absurd hs (hno .callbackReturn f)
      | disabled =>
        simp only [step, hph] at hs
        (repeat' split at hs) <;> cases hs

end Delivered

/-- `forEachCompletion` returns when every completion posted has been
dispatched, and it has then given all of them back. -/
theorem finish_all {l l' : EventLoop} (hp : Position l) (h : l.step .next = .ok l') (hi : l'.phase = .idle) :
    l'.dispatched = l'.ring.posted.length ∧ l'.ring.cqHead = l'.ring.posted.length := by
  have he := step_effect h
  cases he with
  | @finish head processed hph hn =>
    have hle : l.ring.posted.length ≤ head := List.getElem?_eq_none_iff.1 hn
    unfold Position at hp
    rw [hph] at hp
    obtain ⟨h1, h2⟩ := hp
    have : l.ring.cqHead + processed = l.ring.posted.length := by omega
    exact ⟨this, this⟩
  | dispatch _ _ _ => cases hi

/-- `submit` consumes no completion. -/
theorem submit_consumes_nothing {l l' : EventLoop} {timeout : Int} {reply : SubmitReply} (hp : Position l)
    (h : l.step (.submit timeout reply) = .ok l') :
    l'.ring.posted = l.ring.posted ∧ l'.ring.cqHead = l.ring.cqHead ∧ l'.dispatched = l.dispatched ∧
      l'.invocations = l.invocations := by
  have he := step_effect h
  rcases invocations_step hp he with ⟨hinv, hd⟩ | ⟨_, _, _, hx, -⟩
  · refine ⟨posted_step he, ?_, hd, hinv⟩
    cases he with
    | submit _ hs =>
      obtain ⟨-, got, -, -, hm, -⟩ := SubmissionQueue.submit_moves hs
      exact hm.cqHead
  · cases hx

/-- Every completion is answered once and in order, on the subscriber given to
`add`, with its error or the event of its operation; the iteration does not
stop or fail before all completions are answered; and `submit` consumes none. -/
theorem completions_delivered {n : Nat} {l : EventLoop} (h : Run step Subscribed (new n 0) l) :
    -- once and in order
    l.invocations.map (·.completion) = List.range l.dispatched ∧
      -- by the request's own subscriber
      (∀ v ∈ l.invocations, ∃ c id a s e, l.ring.posted[v.completion]? = some c ∧ c.owner = some (.request id) ∧
        l.accepted[id]? = some a ∧ a.subscriber = some s ∧ v.what = .subscriber s e ∧
        if c.res < 0 then e = .error (-c.res) else e.reports a.request.op = true) ∧
      -- and all of them: nothing stops the iteration before the end of the queue
      (∀ x f, l.step x ≠ .error (.fault f)) ∧
      (l.phase ≠ .idle → ∃ a l', (a = .next ∨ a = .callbackReturn) ∧ l.step a = .ok l') ∧
      (∀ l', l.step .next = .ok l' → l'.phase = .idle →
        l'.dispatched = l'.ring.posted.length ∧ l'.ring.cqHead = l'.ring.posted.length) ∧
      ∀ timeout reply l', l.step (.submit timeout reply) = .ok l' →
        l'.ring.posted = l.ring.posted ∧ l'.ring.cqHead = l.ring.cqHead ∧ l'.dispatched = l.dispatched ∧
          l'.invocations = l.invocations := by
  have hp := reach_position h.any
  exact ⟨reach_inOrder h.any, answered_run h, subscribed_no_fault h, subscribed_progress h,
    fun _ hn hi => finish_all hp hn hi, fun _ _ _ hs => submit_consumes_nothing hp hs⟩

/-- A read and an accept; the accept's callback adds a read for the new
connection, and another completion arrives during the iteration. -/
theorem completions_delivered_nested :
    ∃ l, Run step Subscribed (new 2 0) l ∧ l.dispatched = 2 ∧
      l.invocations.map (·.what) = [.subscriber 1 (.accept 9), .subscriber 0 (.error 104)] ∧
      l.invocations.map (·.completion) = List.range l.dispatched := by
  obtain ⟨l, hr, hp⟩ := exists_run step (fun l a => decide (Subscribed l a)) (fun _ _ => of_decide_eq_true) (new 2 0)
    [.add (.read 5 ⟨4096, 64⟩) (some 0) 100, .add (.accept 3) (some 1) 200, .submit 100 { taken := 2, ret := 2 },
      .post 0 9 2, .begin, .next, .add (.multiShotRead 9 0) (some 2) 300, .post 1 (-104) 0, .callbackReturn, .next]
    (fun l => l.dispatched == 2 &&
      l.invocations.map (·.what) == [.subscriber 1 (.accept 9), .subscriber 0 (.error 104)]) (by decide +kernel)
  simp only [Bool.and_eq_true, beq_iff_eq] at hp
  exact ⟨l, hr, hp.1, hp.2, (completions_delivered hr).1⟩

/-! ## Multi-shot reads on every run -/

/-- The event a completion of a multi-shot read on `fd` is reported with: the
error, or what was read. -/
def ReadOutcome (fd : Fd) (c : Cqe) (e : Event) : Prop :=
  (c.res < 0 ∧ e = .error (-c.res)) ∨ (0 ≤ c.res ∧ ∃ data, e = .read fd ⟨data, c.res.toNat⟩)

/-- Every completion of a multi-shot read that was dispatched was handed to
the subscriber of that read. -/
def Heard (l : EventLoop) : Prop :=
  ∀ k c id a s, k < l.dispatched → l.ring.posted[k]? = some c → c.owner = some (.request id) →
    l.accepted[id]? = some a → a.request.op = .readMultishot → a.subscriber = some s →
    ∃ v ∈ l.invocations, v.completion = k ∧ ∃ e, v.what = .subscriber s e ∧ ReadOutcome a.request.fd c e

theorem handlerFor_read {buffers : BufferRing} {a : Accepted} {c : Cqe} {s : SubscriberId} (hs : a.subscriber = some s)
    (hop : a.request.op = .readMultishot) (hb : c.bufferId < buffers.buffers.length) :
    ∃ e, (handlerFor buffers a c).1 = .subscriber s e ∧ ReadOutcome a.request.fd c e := by
  obtain ⟨r, s', addr⟩ := a
  cases r with
  | multiShotRead fd group =>
    dsimp only at hs
    subst hs
    unfold handlerFor
    by_cases hr : c.res < 0
    · exact ⟨.error (-c.res), by simp [hr], .inl ⟨hr, rfl⟩⟩
    · have hget := BufferRing.get_eq buffers c
      rw [List.getElem?_eq_getElem hb] at hget
      refine ⟨.read fd ((buffers.buffers[c.bufferId]).subspan c.res.toNat), by simp only [if_neg hr, hget], .inr ?_⟩
      exact ⟨by omega, _, rfl⟩
  | _ => cases hop

/-- A completion already dispatched, and its request, were there before the action. -/
theorem dispatched_before {l l' : EventLoop} {x : Action} (ht : Traced l) (he : Effect l x l')
    {k id : Nat} {c : Cqe} {a : Accepted} (hk : k < l.ring.posted.length) (hc : l'.ring.posted[k]? = some c)
    (ho : c.owner = some (.request id)) (ha : l'.accepted[id]? = some a) :
    l.ring.posted[k]? = some c ∧ l.accepted[id]? = some a ∧ c.userData = a.addr := by
  have hc₀ : l.ring.posted[k]? = some c := by
    obtain ⟨c₀, hc₀⟩ : ∃ c₀, l.ring.posted[k]? = some c₀ := ⟨_, List.getElem?_eq_getElem hk⟩
    have := posted_mono he hc₀
    rw [hc] at this
    rw [hc₀, this]
  obtain ⟨a₀, ha₀, hu⟩ := ht.completions c (List.mem_of_getElem? hc₀) id ho
  have := accepted_mono he ha₀
  rw [ha] at this
  cases this
  exact ⟨hc₀, ha₀, hu⟩

theorem heard_step {l l' : EventLoop} {x : Action} (h : Heard l) (hp : Position l) (ht : Traced l) (hb : Books l)
    {st : Int} (hz : Sized st l) (he : Effect l x l') : Heard l' := by
  intro k c id a s hk hc ho ha hop hs
  have hle := dispatched_le hp
  rcases invocations_step hp he with ⟨hinv, hd⟩ | ⟨processed, c', d, -, -, -, hc', hdis, hd, hinv⟩
  · rw [hd] at hk
    obtain ⟨hc₀, ha₀, -⟩ := dispatched_before ht he (by omega) hc ho ha
    rw [hinv]
    exact h k c id a s hk hc₀ ho ha₀ hop hs
  · have hlt := (List.getElem?_eq_some_iff.1 hc').1
    obtain ⟨hc₀, ha₀, hu⟩ := dispatched_before ht he (by omega) hc ho ha
    rw [hinv]
    rcases Nat.lt_or_ge k l.dispatched with hk' | hk'
    · obtain ⟨v, hv, hrest⟩ := h k c id a s hk' hc₀ ho ha₀ hop hs
      exact ⟨v, List.mem_append_left _ hv, hrest⟩
    · -- the completion dispatched just now: its block was never given back
      have hkd : k = l.dispatched := by omega
      subst hkd
      rw [hc'] at hc₀
      cases hc₀
      have hblock := hb.kept ha₀ (by rw [hop]; rfl)
      have hfind : RequestPool.find l.pool c.userData = some (blockOf a id) := by
        rw [hu]; exact find_of_mem ht.addrs hblock
      have hne : c.userData ≠ 0 := by rw [hu]; exact ht.nonnull _ hblock
      rw [dispatch_eq hne hfind, Except.ok.injEq] at hdis
      subst hdis
      obtain ⟨e, hcall, hout⟩ := handlerFor_read hs hop
        (hz.buffers ▸ hz.ids c (List.mem_of_getElem? hc'))
      exact ⟨_, List.mem_append_right _ (List.mem_singleton_self _), rfl, e, hcall, hout⟩

theorem reach_heard {n : Nat} {st : Int} {l : EventLoop} (h : Reachable n st l) : Heard l := by
  refine Run.inv_of (fun l => Reachable n st l) Heard (fun _ hr => hr) ?_ ?_ h
  · intro k c id a s hk hc
    simp at hc
  · intro s a s' hr hi _ hs
    exact heard_step hi (reach_position hr) (reach_traced hr) (reach_books hr) (reach_sized hr) (step_effect hs)

/-- Entries the kernel took for a request are with the kernel or have ended. -/
def Counted (l : EventLoop) : Prop :=
  ∀ id, l.ring.submitted.countP (Sqe.isFor id) =
    l.ring.inflight.countP (Sqe.isFor id) + l.ring.posted.countP (Cqe.endsFor id)

theorem counted_moves {l l' : EventLoop} {new : List Sqe} (h : Counted l) (hm : Moves l.ring l'.ring new) : Counted l' := by
  intro id
  obtain ⟨m, -, hi, hs⟩ := hm.taken
  have := h id
  rw [hs, hi, hm.posted, List.countP_append, List.countP_append]
  omega

theorem counted_frame {l l' : EventLoop} (h : Counted l) (hs : l'.ring.submitted = l.ring.submitted)
    (hi : l'.ring.inflight = l.ring.inflight) (hp : l'.ring.posted = l.ring.posted) : Counted l' := by
  intro id
  rw [hs, hi, hp]
  exact h id

theorem counted_step {l l' : EventLoop} {a : Action} (h : Counted l) (he : Effect l a l') : Counted l' := by
  cases he with
  | @cancel fd taken =>
    obtain ⟨new, hm, -, -⟩ := l.cancel_spec fd taken
    exact counted_moves h hm
  | submit _ hs =>
    obtain ⟨-, got, -, -, hm, -⟩ := SubmissionQueue.submit_moves hs
    exact counted_moves h hm
  | callbackReturn _ _ hq =>
    rw [SubmissionQueue.release_same hq]
    exact counted_frame h rfl rfl rfl
  | checkStatus _ =>
    rw [l.checkStatus_same]
    exact counted_frame h rfl rfl rfl
  | post hin _ _ =>
    intro id
    have hid := h id
    exact hid.trans (post_count hin _ _ id).symm
  | _ => exact counted_frame h rfl rfl rfl

theorem reach_counted {n : Nat} {st : Int} {l : EventLoop} (h : Reachable n st l) : Counted l :=
  Run.inv Counted (fun id => by simp) (fun _ _ _ hi _ hs => counted_step hi (step_effect hs)) h

/-- The read request `id` is waiting, prepared or armed, or its last
completion has not been dispatched. -/
def ReadPending (l : EventLoop) (id : Nat) : Prop :=
  (∃ x ∈ l.pending, x.id = id) ∨
    (∃ e, (e ∈ l.ring.unsubmitted ∨ e ∈ l.ring.inflight) ∧ e.owner = some (.request id)) ∨
    ∃ k c, l.dispatched ≤ k ∧ l.ring.posted[k]? = some c ∧ c.endsFor id = true

/-- No entry was ever prepared for the request `id`, and none will be. -/
def Dropped (l : EventLoop) (id : Nat) : Prop :=
  (∀ x ∈ l.pending, x.id ≠ id) ∧
    ∀ e, e ∈ l.ring.unsubmitted ∨ e ∈ l.ring.submitted → e.owner ≠ some (.request id)

/-- The subscriber `s` was handed the event of the last completion of the request `id` on `fd`. -/
def ReadEnded (l : EventLoop) (id : Nat) (s : SubscriberId) (fd : Fd) : Prop :=
  ∃ v ∈ l.invocations, ∃ c e, l.ring.posted[v.completion]? = some c ∧ c.endsFor id = true ∧
    v.what = .subscriber s e ∧ ReadOutcome fd c e

/-- Every multi-shot read is under way, or has told its subscriber how it
ended, unless it got no entry in the first place. -/
theorem read_accounted {n : Nat} {st : Int} {l : EventLoop} (h : Reachable n st l) {id : Nat} {a : Accepted}
    {s : SubscriberId} (ha : l.accepted[id]? = some a) (hop : a.request.op = .readMultishot)
    (hs : a.subscriber = some s) : l.ReadPending id ∨ l.Dropped id ∨ l.ReadEnded id s a.request.fd := by
  by_cases hpend : ∃ x ∈ l.pending, x.id = id
  · exact .inl (.inl hpend)
  by_cases hent : ∃ e, (e ∈ l.ring.unsubmitted ∨ e ∈ l.ring.inflight) ∧ e.owner = some (.request id)
  · exact .inl (.inr (.inl hent))
  by_cases hend : ∃ c ∈ l.ring.posted, c.endsFor id = true
  · obtain ⟨c, hc, hce⟩ := hend
    obtain ⟨k, hk⟩ := List.getElem?_of_mem hc
    rcases Nat.lt_or_ge k l.dispatched with hlt | hge
    · -- it was dispatched, and its subscriber heard of it
      obtain ⟨v, hv, rfl, e, hw, hout⟩ := reach_heard h k c id a s hlt hk (Cqe.endsFor_owner hce) ha hop hs
      exact .inr (.inr ⟨v, hv, c, e, hk, hce, hw, hout⟩)
    · exact .inl (.inr (.inr ⟨k, c, hge, hk, hce⟩))
  · refine .inr (.inl ⟨fun x hx hid => hpend ⟨x, hx, hid⟩, ?_⟩)
    have hcount := reach_counted h id
    have hin : l.ring.inflight.countP (Sqe.isFor id) = 0 := by
      refine List.countP_eq_zero.2 fun e he hf => hent ⟨e, .inr he, ?_⟩
      simpa [Sqe.isFor] using hf
    have hpo : l.ring.posted.countP (Cqe.endsFor id) = 0 :=
      List.countP_eq_zero.2 fun c hc hf => hend ⟨c, hc, hf⟩
    rw [hin, hpo] at hcount
    rintro e (he | he) ho
    · exact hent ⟨e, .inl he, ho⟩
    · exact List.countP_eq_zero.1 hcount e he (by simp [Sqe.isFor, ho])

end EventLoop

end RingNet
