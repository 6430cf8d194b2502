import Mathlib.Data.List.Nodup
import Mathlib.Data.List.Perm.Basic
import RingNet.EventLoop
/-!
# What holds of every run of the loop

Whatever is added, cancelled, submitted and completed, in any order: the
iteration never leaves the completion queue (`Position`), every pointer that
is waiting leads to where its request was put (`Traced`), and no request is in
two places (`places`). These do not depend on completions being attributed
correctly, so they also hold of runs that go wrong later.
-/

namespace RingNet

open Lib IoUring

namespace EventLoop

/-- The states the loop reaches from its construction, by any actions. -/
def Reachable (ringEntries : Nat) (status : Int) : EventLoop → Prop :=
  Run step anyAction (new ringEntries status)

/-! ## The position in the completion queue -/

/-- The iteration's local counters fit the queue. -/
def Position (l : EventLoop) : Prop :=
  match l.phase with
  | .idle => l.ring.cqHead ≤ l.ring.posted.length
  | .iterating head processed => head = l.ring.cqHead + processed ∧ head ≤ l.ring.posted.length
  | .handling head processed cqe _ => head + 1 = l.ring.cqHead + processed ∧ l.ring.posted[head]? = some cqe

/-- Actions other than the loop's own leave it where it is. -/
theorem position_frame {l l' : EventLoop} (h : Position l) (hp : l'.phase = l.phase)
    (hc : l'.ring.cqHead = l.ring.cqHead) (hpost : ∃ cs, l'.ring.posted = l.ring.posted ++ cs) : Position l' := by
  obtain ⟨cs, hcs⟩ := hpost
  unfold Position at h ⊢
  rw [hp, hc, hcs, List.length_append]
  split
  · rename_i hph
    rw [hph] at h; dsimp only at h; omega
  · rename_i hph
    rw [hph] at h; dsimp only at h; omega
  · rename_i hph
    rw [hph] at h
    exact ⟨h.1, List.getElem?_append_left (List.getElem?_eq_some_iff.1 h.2).1 ▸ h.2⟩

theorem position_step {l l' : EventLoop} {a : Action} (h : Position l) (he : Effect l a l') : Position l' := by
  cases he with
  | add _ => exact position_frame h rfl rfl ⟨[], by simp [EventLoop.add, SubmissionQueue.push]⟩
  | @cancel fd taken =>
    obtain ⟨new, hm, -⟩ := l.cancel_spec fd taken
    exact position_frame h rfl hm.cqHead ⟨[], hm.posted.trans (List.append_nil _).symm⟩
  | submit _ hs =>
    obtain ⟨-, got, -, -, hm, -⟩ := SubmissionQueue.submit_moves hs
    exact position_frame h rfl hm.cqHead ⟨[], hm.posted.trans (List.append_nil _).symm⟩
  | begin hi => unfold Position at h; rw [hi] at h; exact ⟨rfl, h⟩
  | finish hp hn =>
    unfold Position at h; rw [hp] at h
    obtain ⟨h1, h2⟩ := h
    show l.ring.cqHead + _ ≤ l.ring.posted.length
    omega
  | dispatch hp hc _ =>
    unfold Position at h; rw [hp] at h
    refine ⟨?_, hc⟩
    show _ + 1 = l.ring.cqHead + (_ + 1)
    omega
  | callbackReturn hp _ hq =>
    unfold Position at h; rw [hp] at h
    obtain ⟨h1, h2⟩ := h
    have hlt := (List.getElem?_eq_some_iff.1 h2).1
    rw [SubmissionQueue.release_same hq]
    exact ⟨h1, hlt⟩
  | checkStatus hi =>
    rw [l.checkStatus_same]
    exact position_frame h rfl rfl ⟨[], (List.append_nil _).symm⟩
  | post _ _ _ => exact position_frame h rfl rfl ⟨[_], rfl⟩

theorem reach_position {n : Nat} {st : Int} {l : EventLoop} (h : Reachable n st l) : Position l :=
  Run.inv Position (Nat.le_refl _) (fun _ _ _ hi _ hs => position_step hi (step_effect hs)) h

/-! ## Pointers lead to where the request was put -/

/-- The block of the request numbered `id`, as it was written. -/
def blockOf (a : Accepted) (id : Nat) : Block := ⟨a.addr, a.request.header a.subscriber, a.request, id⟩

/-- Every pointer in the program is that of its request's block, and every
block still holds the request it was written with. -/
structure Traced (l : EventLoop) : Prop where
  addrs : (l.pool.map (·.addr)).Nodup
  nonnull : ∀ b ∈ l.pool, b.addr ≠ 0
  blocks : ∀ b ∈ l.pool, ∃ a, l.accepted[b.id]? = some a ∧ b = blockOf a b.id
  pending : ∀ x ∈ l.pending, ∃ a, l.accepted[x.id]? = some a ∧ x.ptr = a.addr
  entries : ∀ e, e ∈ l.ring.unsubmitted ∨ e ∈ l.ring.inflight → ∀ id, e.owner = some (.request id) →
    ∃ a, l.accepted[id]? = some a ∧ e.userData = a.addr
  completions : ∀ c ∈ l.ring.posted, ∀ id, c.owner = some (.request id) →
    ∃ a, l.accepted[id]? = some a ∧ c.userData = a.addr

theorem find_of_mem {pool : List Block} (hn : (pool.map (·.addr)).Nodup) {b : Block} (hb : b ∈ pool) :
    RequestPool.find pool b.addr = some b := by
  unfold RequestPool.find
  cases h : pool.find? (·.addr == b.addr) with
  | none => simp [List.find?_eq_none] at h; exact absurd rfl (h b hb)
  | some b' =>
    have hm := List.mem_of_find?_eq_some h
    have ha : b'.addr = b.addr := by simpa using List.find?_some h
    rw [List.inj_on_of_nodup_map hn hm hb ha]

theorem free_iff {pool : List Block} {addr : Nat} :
    RequestPool.free pool addr = true ↔ addr ≠ 0 ∧ ∀ b ∈ pool, b.addr ≠ addr := by
  simp [RequestPool.free, RequestPool.find]

/-- A record of an accepted request is never changed. -/
theorem accepted_append {as : List Accepted} {id : Nat} {a : Accepted} (h : as[id]? = some a) (b : Accepted) :
    (as ++ [b])[id]? = some a := by
  rw [List.getElem?_append_left (List.getElem?_eq_some_iff.1 h).1, h]

/-- What a request is stored as: a multi-shot read gets the loop's buffer group. -/
def stored (r : Request) : Request :=
  match r with
  | .multiShotRead fd _ => .multiShotRead fd BUFFER_GROUP_ID
  | r => r

theorem traced_add {l : EventLoop} (h : Traced l) {r : Request} {s : Option SubscriberId} {addr : Nat}
    (hf : RequestPool.free l.pool addr = true) : Traced (l.add r s addr).2 := by
  obtain ⟨h0, hne⟩ := free_iff.1 hf
  have hnew : (l.accepted ++ [⟨stored r, s, addr⟩])[l.accepted.length]? = some ⟨stored r, s, addr⟩ :=
    List.getElem?_concat_length
  constructor
  · refine List.nodup_cons.2 ⟨fun hm => ?_, h.addrs⟩
    obtain ⟨b, hb, hba⟩ := List.mem_map.1 hm
    exact hne b hb hba
  · intro b hb
    rcases List.mem_cons.1 hb with rfl | hb
    · exact h0
    · exact h.nonnull b hb
  · intro b hb
    rcases List.mem_cons.1 hb with rfl | hb
    · exact ⟨_, hnew, rfl⟩
    · obtain ⟨a, ha, he⟩ := h.blocks b hb
      exact ⟨a, accepted_append ha _, he⟩
  · intro x hx
    rcases List.mem_cons.1 ((PendingRequests.push_perm _ _ _).mem_iff.1 hx) with rfl | hx
    · exact ⟨_, hnew, rfl⟩
    · obtain ⟨a, ha, he⟩ := h.pending x hx
      exact ⟨a, accepted_append ha _, he⟩
  · intro e he id ho
    obtain ⟨a, ha, hu⟩ := h.entries e he id ho
    exact ⟨a, accepted_append ha _, hu⟩
  · intro c hc id ho
    obtain ⟨a, ha, hu⟩ := h.completions c hc id ho
    exact ⟨a, accepted_append ha _, hu⟩

/-- Moving entries towards the kernel keeps pointers traced if the new entries are. -/
theorem traced_moves {l l' : EventLoop} (h : Traced l) {new : List Sqe} (hm : Moves l.ring l'.ring new)
    (hpool : l'.pool = l.pool) (hacc : l'.accepted = l.accepted) (hpend : l'.pending = l.pending ∨ l'.pending = [])
    (hnew : ∀ e ∈ new, ∀ id, e.owner = some (.request id) → ∃ a, l.accepted[id]? = some a ∧ e.userData = a.addr) :
    Traced l' where
  addrs := hpool ▸ h.addrs
  nonnull := hpool ▸ h.nonnull
  blocks := by rw [hpool, hacc]; exact h.blocks
  pending := by
    rw [hacc]
    rcases hpend with hp | hp <;> rw [hp]
    · exact h.pending
    · simp
  entries := by
    rw [hacc]
    intro e he
    rcases hm.mem he with h' | h' | h'
    · exact h.entries e (.inl h')
    · exact h.entries e (.inr h')
    · exact hnew e h'
  completions := by rw [hacc, hm.posted]; exact h.completions

theorem traced_release {l : EventLoop} (h : Traced l) {cqe : Cqe} {q : SubmissionQueue}
    (hq : l.submissionQueue.release cqe = .ok q) (b : BufferRing) (p : Phase) :
    Traced { l with bufferRing := b, submissionQueue := q, phase := p } := by
  obtain ⟨b, -, -, ⟨rfl, -⟩ | ⟨-, -, -, rfl⟩⟩ := SubmissionQueue.release_cases hq
  · exact ⟨h.addrs, h.nonnull, h.blocks, h.pending, h.entries, h.completions⟩
  · have hsub : ∀ x ∈ l.pool.filter (·.addr ≠ b.addr), x ∈ l.pool := fun x hx => (List.mem_filter.1 hx).1
    exact ⟨h.addrs.sublist (List.filter_sublist.map _), fun x hx => h.nonnull x (hsub x hx),
      fun x hx => h.blocks x (hsub x hx), h.pending, h.entries, h.completions⟩

theorem traced_step {l l' : EventLoop} {a : Action} (h : Traced l) (he : Effect l a l') : Traced l' := by
  cases he with
  | add hf => exact traced_add h hf
  | @cancel fd taken =>
    obtain ⟨new, hm, hq, hnew⟩ := l.cancel_spec fd taken
    refine traced_moves h hm (congrArg (·.requestPool) hq) (congrArg (·.accepted) hq)
      (.inl (congrArg (·.pendingRequests.toList) hq)) ?_
    intro e he id ho
    rw [hnew] at he
    split at he
    · rw [List.mem_singleton] at he; subst he; cases ho
    · cases he
  | @submit timeout reply st q hi hs =>
    obtain ⟨hq, got, hsub, -, hm, -⟩ := SubmissionQueue.submit_moves hs
    refine traced_moves h hm (congrArg (·.requestPool) hq) (congrArg (·.accepted) hq)
      (.inr (congrArg (·.pendingRequests.toList) hq)) ?_
    intro e he id ho
    obtain ⟨g, hg, rfl⟩ := List.mem_map.1 he
    obtain ⟨a, ha, hp⟩ := h.pending g.1 (hsub.subset (List.mem_map_of_mem hg))
    cases ho
    exact ⟨a, ha, hp⟩
  | begin _ => exact ⟨h.addrs, h.nonnull, h.blocks, h.pending, h.entries, h.completions⟩
  | finish _ _ => exact ⟨h.addrs, h.nonnull, h.blocks, h.pending, h.entries, h.completions⟩
  | dispatch _ _ _ => exact ⟨h.addrs, h.nonnull, h.blocks, h.pending, h.entries, h.completions⟩
  | callbackReturn _ _ hq => exact traced_release h hq _ _
  | checkStatus _ =>
    rw [l.checkStatus_same]
    exact ⟨h.addrs, h.nonnull, h.blocks, h.pending, h.entries, h.completions⟩
  | @post i res flags e b he _ _ =>
    refine ⟨h.addrs, h.nonnull, h.blocks, h.pending, ?_, ?_⟩
    · intro e' he' id ho
      refine h.entries e' (he'.imp (fun h' => h') fun h' => ?_) id ho
      simp only [IoUring.post] at h'
      split at h'
      · exact h'
      · exact List.mem_of_mem_eraseIdx h'
    · intro c hc id ho
      rcases List.mem_append.1 hc with hc | hc
      · exact h.completions c hc id ho
      · rw [List.mem_singleton] at hc
        subst hc
        exact h.entries e (.inr (List.mem_of_getElem? he)) id ho

@[simp] theorem new_pool (n : Nat) (st : Int) : (new n st).pool = [] := rfl
@[simp] theorem new_pending (n : Nat) (st : Int) : (new n st).pending = [] := rfl
@[simp] theorem new_accepted (n : Nat) (st : Int) : (new n st).accepted = [] := rfl
@[simp] theorem new_unsubmitted (n : Nat) (st : Int) : (new n st).ring.unsubmitted = [] := rfl
@[simp] theorem new_inflight (n : Nat) (st : Int) : (new n st).ring.inflight = [] := rfl
@[simp] theorem new_posted (n : Nat) (st : Int) : (new n st).ring.posted = [] := rfl
@[simp] theorem new_invocations (n : Nat) (st : Int) : (new n st).invocations = [] := rfl
@[simp] theorem new_submitted (n : Nat) (st : Int) : (new n st).ring.submitted = [] := rfl

theorem traced_new (n : Nat) (st : Int) : Traced (new n st) := by
  constructor <;> simp

theorem reach_traced {n : Nat} {st : Int} {l : EventLoop} (h : Reachable n st l) : Traced l :=
  Run.inv Traced (traced_new n st) (fun _ _ _ hi _ hs => traced_step hi (step_effect hs)) h

/-! ## No request is in two places -/

end EventLoop

/-- The entry was prepared for the request `id`. -/
def Sqe.isFor (id : Nat) (e : Sqe) : Bool := e.owner == some (.request id)

/-- The request an entry was prepared for. -/
def Sqe.requestId (e : Sqe) : Option Nat :=
  match e.owner with
  | some (.request id) => some id
  | _ => none

theorem Sqe.requestId_eq_some {e : Sqe} {id : Nat} : e.requestId = some id ↔ e.owner = some (.request id) := by
  unfold requestId
  rcases e.owner with _ | id' | i <;> simp

/-- The last completion of the request `id`. -/
def Cqe.endsFor (id : Nat) (c : Cqe) : Bool := c.owner == some (.request id) && !c.hasMore

theorem Cqe.endsFor_owner {id : Nat} {c : Cqe} (h : c.endsFor id = true) : c.owner = some (.request id) := by
  simp only [endsFor, Bool.and_eq_true, beq_iff_eq] at h
  exact h.1

namespace EventLoop

/-- How often the request `id` is waiting, prepared, with the kernel, or completed for good. -/
def places (l : EventLoop) (id : Nat) : Nat :=
  l.pending.countP (·.id == id) + l.ring.unsubmitted.countP (Sqe.isFor id) + l.ring.inflight.countP (Sqe.isFor id) +
    l.ring.posted.countP (Cqe.endsFor id)

/-- Taking a slot and completing an entry keep the count; new entries raise it. -/
theorem places_moves {l l' : EventLoop} {new : List Sqe} (hm : Moves l.ring l'.ring new) (id : Nat) :
    l'.places id + l.pending.countP (·.id == id) =
      l.places id + l'.pending.countP (·.id == id) + new.countP (Sqe.isFor id) := by
  have := hm.count (Sqe.isFor id)
  simp only [places, hm.posted]
  omega

theorem isFor_entryFor (id : Nat) (x : Pending) (r : Request) :
    Sqe.isFor id (SubmissionQueue.entryFor x r) = (x.id == id) := by
  simp [Sqe.isFor, SubmissionQueue.entryFor]

theorem got_count (id : Nat) (got : List (Pending × Block)) :
    (got.map fun g => SubmissionQueue.entryFor g.1 g.2.request).countP (Sqe.isFor id) =
      (got.map (·.1)).countP (·.id == id) := by
  rw [List.countP_map, List.countP_map]
  apply List.countP_congr
  intro g _
  simp [isFor_entryFor]

theorem places_add (l : EventLoop) (r : Request) (s : Option SubscriberId) (addr id : Nat) :
    (l.add r s addr).2.places id = l.places id + if id = l.accepted.length then 1 else 0 := by
  have hp : (l.add r s addr).2.pending.countP (·.id == id) =
      (⟨addr, l.accepted.length⟩ :: l.pending : List Pending).countP (·.id == id) :=
    (PendingRequests.push_perm _ _ _).countP_eq _
  have hring : (l.add r s addr).2.ring = l.ring := rfl
  rw [List.countP_cons] at hp
  have hid : (l.accepted.length == id) = true ↔ id = l.accepted.length := by
    rw [beq_iff_eq]; exact eq_comm
  simp only [places, hring, hp, hid]
  omega

theorem places_cancel (l : EventLoop) (fd : Fd) (taken id : Nat) : (l.cancel fd taken).places id = l.places id := by
  obtain ⟨new, hm, hq, hnew⟩ := l.cancel_spec fd taken
  have h := places_moves hm id
  have hp : (l.cancel fd taken).pending = l.pending := congrArg (·.pendingRequests.toList) hq
  have h0 : new.countP (Sqe.isFor id) = 0 := by
    rw [hnew]; split <;> simp [Sqe.isFor]
  rw [hp, h0] at h
  omega

/-- A submission loses the requests that get no entry, and no other. -/
theorem places_submit {l : EventLoop} {timeout : Int} {reply : SubmitReply} {st : SubmitStatus} {q : SubmissionQueue}
    (hs : l.submissionQueue.submit timeout reply = .ok (st, q)) (id : Nat) :
    ({ l with submissionQueue := q, submitStatus := st } : EventLoop).places id ≤ l.places id ∧
      (everyRequestFits l.ring.ringEntries l.ring.room l.pending.length reply.takes = true →
        ({ l with submissionQueue := q, submitStatus := st } : EventLoop).places id = l.places id) := by
  obtain ⟨hq, got, hsub, -, hm, hfit⟩ := SubmissionQueue.submit_moves hs
  have hp : q.pendingRequests.toList = [] := congrArg (·.pendingRequests.toList) hq
  have h : ({ l with submissionQueue := q, submitStatus := st } : EventLoop).places id +
      l.pending.countP (·.id == id) = l.places id + q.pendingRequests.toList.countP (·.id == id) + _ :=
    places_moves hm id
  have hle : (got.map (·.1)).countP (·.id == id) ≤ l.pending.countP (·.id == id) := hsub.countP_le
  rw [hp, got_count, List.countP_nil] at h
  refine ⟨by omega, fun hall => ?_⟩
  have heq : got.map (·.1) = l.pending := hsub.eq_of_length (by rw [List.length_map]; exact hfit.2 hall)
  rw [heq] at h
  omega

theorem countP_eraseIdx {α : Type} (p : α → Bool) {xs : List α} {i : Nat} {x : α} (h : xs[i]? = some x) :
    xs.countP p = (xs.eraseIdx i).countP p + if p x then 1 else 0 := by
  obtain ⟨hi, rfl⟩ := List.getElem?_eq_some_iff.1 h
  rw [← (List.getElem_cons_eraseIdx_perm hi).countP_eq p, List.countP_cons]

/-- A last completion takes its entry's place; another completion takes none. -/
theorem post_count {u : IoUring} {i : Nat} {e : Sqe} (he : u.inflight[i]? = some e) (res : Int) (flags : UInt32)
    (id : Nat) :
    (u.post i e res flags).inflight.countP (Sqe.isFor id) + (u.post i e res flags).posted.countP (Cqe.endsFor id) =
      u.inflight.countP (Sqe.isFor id) + u.posted.countP (Cqe.endsFor id) := by
  have hc := countP_eraseIdx (Sqe.isFor id) he
  simp only [IoUring.post, List.countP_append, List.countP_singleton]
  by_cases hm : (⟨e.userData, res, flags, e.owner⟩ : Cqe).hasMore = true
  · simp [hm, Cqe.endsFor]
  · have hends : Cqe.endsFor id ⟨e.userData, res, flags, e.owner⟩ = Sqe.isFor id e := by
      simp [Cqe.endsFor, Sqe.isFor, hm]
    rw [if_neg hm, hends, hc]
    omega

theorem places_post {l l' : EventLoop} {i : Nat} {e : Sqe} {res : Int} {flags : UInt32}
    (he : l.ring.inflight[i]? = some e) (hp : l'.pending = l.pending) (hr : l'.ring = l.ring.post i e res flags)
    (id : Nat) : l'.places id = l.places id := by
  have hc := post_count he res flags id
  have hunsub : (l.ring.post i e res flags).unsubmitted = l.ring.unsubmitted := rfl
  simp only [places, hp, hr, hunsub]
  omega

/-- The actions other than `add` and `submit` move requests from one place to the next. -/
theorem places_step {l l' : EventLoop} {a : Action} (he : Effect l a l') (id : Nat) :
    match a with
    | .add .. => l'.places id = l.places id + if id = l.accepted.length then 1 else 0
    | .submit _ reply => l'.places id ≤ l.places id ∧
        (everyRequestFits l.ring.ringEntries l.ring.room l.pending.length reply.takes = true →
          l'.places id = l.places id)
    | _ => l'.places id = l.places id := by
  cases he with
  | add _ => exact places_add l _ _ _ id
  | cancel => exact places_cancel l _ _ id
  | submit _ hs => exact places_submit hs id
  | begin _ | finish _ _ | dispatch _ _ _ => rfl
  | callbackReturn _ _ hq =>
    dsimp only
    rw [SubmissionQueue.release_same hq]
    rfl
  | checkStatus _ =>
    dsimp only
    rw [l.checkStatus_same]
    rfl
  | post he _ _ =>
    apply places_post he <;> rfl

/-- Only `add` accepts a request. -/
theorem accepted_step {l l' : EventLoop} {a : Action} (he : Effect l a l') :
    match a with
    | .add r s addr => l'.accepted = l.accepted ++ [⟨stored r, s, addr⟩]
    | _ => l'.accepted = l.accepted := by
  cases he with
  | add _ => rfl
  | @cancel fd taken =>
    obtain ⟨new, -, hq, -⟩ := l.cancel_spec fd taken
    exact congrArg (·.accepted) hq
  | submit _ hs => exact congrArg (·.accepted) (SubmissionQueue.submit_moves hs).1
  | begin _ | finish _ _ | dispatch _ _ _ | post _ _ _ => rfl
  | callbackReturn _ _ hq => exact congrArg (·.accepted) (SubmissionQueue.release_same hq)
  | checkStatus _ => exact congrArg (·.accepted) l.checkStatus_same

/-- A request that was accepted stays accepted. -/
theorem accepted_mono {l l' : EventLoop} {a : Action} (he : Effect l a l') {id : Nat} {x : Accepted}
    (h : l.accepted[id]? = some x) : l'.accepted[id]? = some x := by
  have hs := accepted_step he
  cases a with
  | add r s addr =>
    dsimp only at hs
    rw [hs]
    exact accepted_append h _
  | _ => dsimp only at hs; rw [hs]; exact h

/-- A record is one that was there, or that of the request just added. -/
theorem accepted_new {l l' : EventLoop} {a : Action} (he : Effect l a l') {id : Nat} {x : Accepted}
    (h : l'.accepted[id]? = some x) : l.accepted[id]? = some x ∨
      ∃ r s addr, a = .add r s addr ∧ id = l.accepted.length ∧ x = ⟨stored r, s, addr⟩ := by
  have hs := accepted_step he
  cases a with
  | add r s addr =>
    dsimp only at hs
    rw [hs] at h
    rcases Nat.lt_trichotomy id l.accepted.length with hlt | rfl | hgt
    · rw [List.getElem?_append_left hlt] at h
      exact .inl h
    · rw [List.getElem?_concat_length] at h
      cases h
      exact .inr ⟨r, s, addr, rfl, rfl, rfl⟩
    · rw [List.getElem?_eq_none (by rw [List.length_append, List.length_singleton]; omega)] at h
      cases h
  | _ => dsimp only at hs; rw [hs] at h; exact .inl h

/-- At most one place for each accepted request, none for the others. -/
def Unique (l : EventLoop) : Prop := ∀ id, l.places id ≤ if id < l.accepted.length then 1 else 0

theorem unique_step {l l' : EventLoop} {a : Action} (h : Unique l) (he : Effect l a l') : Unique l' := by
  -- only `add` makes a place, for a number that had none
  intro id
  have hid := h id
  have hp := places_step he id
  have ha := accepted_step he
  cases a with
  | add r s addr =>
    dsimp only at hp ha
    rw [ha, hp, List.length_append, List.length_singleton]
    split at hid <;> split <;> split <;> omega
  | submit timeout reply => dsimp only at hp ha; rw [ha]; exact hp.1.trans hid
  | _ => dsimp only at hp ha; rw [ha, hp]; exact hid

theorem unique_new (n : Nat) (st : Int) : Unique (new n st) := by
  intro id
  simp [places]

theorem reach_unique {n : Nat} {st : Int} {l : EventLoop} (h : Reachable n st l) : Unique l :=
  Run.inv Unique (unique_new n st) (fun _ _ _ hi _ hs => unique_step hi (step_effect hs)) h

/-! ## The completion queue and the pool, action by action -/

/-- Completions are appended one at a time, each of an entry the kernel holds. -/
theorem posted_step {l l' : EventLoop} {a : Action} (he : Effect l a l') :
    match a with
    | .post i res flags => ∃ e, l.ring.inflight[i]? = some e ∧
        l'.ring.posted = l.ring.posted ++ [⟨e.userData, res, flags, e.owner⟩]
    | _ => l'.ring.posted = l.ring.posted := by
  cases he with
  | @cancel fd taken =>
    obtain ⟨new, hm, -, -⟩ := l.cancel_spec fd taken
    exact hm.posted
  | submit _ hs =>
    obtain ⟨-, got, -, -, hm, -⟩ := SubmissionQueue.submit_moves hs
    exact hm.posted
  | callbackReturn _ _ hq => exact congrArg (·.ring.posted) (SubmissionQueue.release_same hq)
  | checkStatus _ => exact congrArg (·.ring.posted) l.checkStatus_same
  | post he _ _ => exact ⟨_, he, rfl⟩
  | _ => rfl

/-- Completions stay where they were posted. -/
theorem posted_mono {l l' : EventLoop} {a : Action} (he : Effect l a l') {k : Nat} {c : Cqe}
    (h : l.ring.posted[k]? = some c) : l'.ring.posted[k]? = some c := by
  have hp := posted_step he
  cases a with
  | post i res flags =>
    obtain ⟨e, -, hp⟩ := hp
    rw [hp, List.getElem?_append_left (List.getElem?_eq_some_iff.1 h).1, h]
  | _ => dsimp only at hp; rw [hp]; exact h

theorem finished_congr {l l' : EventLoop} (hp : l'.phase = l.phase) (hc : l'.ring.cqHead = l.ring.cqHead) :
    l'.finished = l.finished := by
  simp only [finished, hp, hc]

theorem dispatched_congr {l l' : EventLoop} (hp : l'.phase = l.phase) (hc : l'.ring.cqHead = l.ring.cqHead) :
    l'.dispatched = l.dispatched := by
  simp only [dispatched, hp, hc]

/-- Nothing but the end of an iteration finishes a completion or gives a block back. -/
theorem finished_frame {l l' : EventLoop} {a : Action} (h : Position l) (he : Effect l a l')
    (ha : a ≠ .callbackReturn) :
    l'.finished = l.finished ∧ l'.submissionQueue.returned = l.submissionQueue.returned ∧
      match a with
      | .add r s addr => l'.pool = blockOf ⟨stored r, s, addr⟩ l.accepted.length :: l.pool
      | _ => l'.pool = l.pool := by
  cases he with
  | @cancel fd taken =>
    obtain ⟨new, hm, hq, -⟩ := l.cancel_spec fd taken
    exact ⟨finished_congr rfl hm.cqHead, congrArg (·.returned) hq, congrArg (·.requestPool) hq⟩
  | submit _ hs =>
    obtain ⟨hq, got, -, -, hm, -⟩ := SubmissionQueue.submit_moves hs
    exact ⟨finished_congr rfl hm.cqHead, congrArg (·.returned) hq, congrArg (·.requestPool) hq⟩
  | begin hi => simp [finished, hi]
  | finish hp _ =>
    unfold Position at h
    rw [hp] at h
    simp [finished, hp, h.1, IoUring.cqAdvance]
  | dispatch hp _ _ => simp [finished, hp]
  | callbackReturn _ _ _ => exact absurd rfl ha
  | checkStatus _ =>
    dsimp only
    rw [l.checkStatus_same]
    exact ⟨rfl, rfl, rfl⟩
  | _ => exact ⟨rfl, rfl, rfl⟩

/-- Only the end of an iteration takes a block away. -/
theorem pool_mono {l l' : EventLoop} {a : Action} (h : Position l) (he : Effect l a l') (ha : a ≠ .callbackReturn)
    {b : Block} (hb : b ∈ l.pool) : b ∈ l'.pool := by
  obtain ⟨-, -, hpool⟩ := finished_frame h he ha
  cases a with
  | add r s addr => dsimp only at hpool; rw [hpool]; exact List.mem_cons_of_mem _ hb
  | _ => dsimp only at hpool; rw [hpool]; exact hb

/-- The completion being handled is the first that is not finished. -/
theorem Position.handling {l : EventLoop} (h : Position l) {head processed : Nat} {c : Cqe} {rb : Bool}
    (hph : l.phase = .handling head processed c rb) : l.finished = head ∧ l.ring.posted[l.finished]? = some c := by
  have hfin : l.finished = head := by simp [finished, hph]
  unfold Position at h
  rw [hph] at h
  exact ⟨hfin, hfin ▸ h.2⟩

theorem Position.finished_le {l : EventLoop} (h : Position l) : l.finished ≤ l.ring.posted.length := by
  unfold Position at h
  unfold finished
  cases hp : l.phase with
  | idle => rw [hp] at h; exact h
  | iterating head processed => rw [hp] at h; exact h.2
  | handling head processed cqe rb =>
    rw [hp] at h
    exact Nat.le_of_lt (List.getElem?_eq_some_iff.1 h.2).1

theorem dispatched_le {l : EventLoop} (h : Position l) : l.dispatched ≤ l.ring.posted.length := by
  unfold Position at h
  unfold dispatched
  cases hp : l.phase with
  | idle => rw [hp] at h; exact h
  | iterating head processed => rw [hp] at h; exact h.2
  | handling head processed c rb => rw [hp] at h; exact (List.getElem?_eq_some_iff.1 h.2).1

/-- The completion at the front of the unfinished ones. -/
theorem unfinished_cons {l : EventLoop} {c : Cqe} (hc : l.ring.posted[l.finished]? = some c) :
    l.unfinished = c :: l.ring.posted.drop (l.finished + 1) := by
  obtain ⟨hlt, rfl⟩ := List.getElem?_eq_some_iff.1 hc
  exact List.drop_eq_getElem_cons hlt

theorem unfinished_eq {l l' : EventLoop} (hf : l'.finished = l.finished) (hp : l'.ring.posted = l.ring.posted) :
    l'.unfinished = l.unfinished := by
  rw [unfinished, unfinished, hf, hp]

/-- The end of an iteration: the block at the completion's `user_data` goes
back to the pool if the request in it is single-shot. -/
theorem callbackReturn_spec {l l' : EventLoop} (h : Position l) (ht : Traced l) (he : Effect l .callbackReturn l') :
    ∃ c b a, l.ring.posted[l.finished]? = some c ∧ b ∈ l.pool ∧ b.addr = c.userData ∧
      l.accepted[b.id]? = some a ∧ b = blockOf a b.id ∧ l'.finished = l.finished + 1 ∧
      l'.submissionQueue = if a.request.op.multishot then l.submissionQueue else { l.submissionQueue with
        requestPool := l.pool.filter (·.addr ≠ b.addr)
        returned := l.submissionQueue.returned ++ [⟨c.owner, b.id, a.request.op⟩] } := by
  cases he with
  | @callbackReturn head processed cqe rb bufs q hp hb hq =>
    obtain ⟨-, hc⟩ := h.handling hp
    obtain ⟨b, -, hfind, hcase⟩ := SubmissionQueue.release_cases hq
    obtain ⟨hmem, haddr⟩ := SubmissionQueue.find_some hfind
    obtain ⟨a, ha, hba⟩ := ht.blocks b hmem
    refine ⟨cqe, b, a, hc, hmem, haddr, ha, hba, by simp [finished, hp], ?_⟩
    have hv : b.header.valid = true := by rw [hba]; rfl
    have hop : b.header.op = a.request.op := by rw [hba]; rfl
    rw [hop, hv] at hcase
    rcases hcase with ⟨rfl, hv' | hm⟩ | ⟨-, hm, -, rfl⟩
    · cases hv'
    · rw [if_pos hm]
    · rw [if_neg (by rw [hm]; decide)]

/-- The blocks left after it. -/
theorem released_pool {l l' : EventLoop} {b : Block} {multishot : Bool} {returned : List Returned}
    (hq : l'.submissionQueue = if multishot then l.submissionQueue else { l.submissionQueue with
      requestPool := l.pool.filter (·.addr ≠ b.addr)
      returned := returned }) {x : Block} : x ∈ l'.pool ↔ x ∈ l.pool ∧ (multishot = true ∨ x.addr ≠ b.addr) := by
  have hpool : l'.pool = (if multishot then l.submissionQueue else _).requestPool := congrArg (·.requestPool) hq
  rw [hpool]
  cases multishot with
  | true => exact ⟨fun hx => ⟨hx, .inl rfl⟩, And.left⟩
  | false => simp [List.mem_filter]

/-- A block is one that was allocated, or that of the request just added. -/
theorem block_step {l l' : EventLoop} {a : Action} (hpos : Position l) (ht : Traced l) (he : Effect l a l') {b : Block}
    (hb : b ∈ l'.pool) : b ∈ l.pool ∨
      ∃ r s addr, a = .add r s addr ∧ b = blockOf ⟨stored r, s, addr⟩ l.accepted.length := by
  by_cases hcb : a = .callbackReturn
  · subst hcb
    obtain ⟨c, b', x, -, -, -, -, -, -, hq⟩ := callbackReturn_spec hpos ht he
    exact .inl ((released_pool hq).1 hb).1
  · obtain ⟨-, -, hpool⟩ := finished_frame hpos he hcb
    cases a with
    | add r s addr =>
      dsimp only at hpool
      rw [hpool] at hb
      rcases List.mem_cons.1 hb with rfl | hb
      · exact .inr ⟨r, s, addr, rfl, rfl⟩
      · exact .inl hb
    | _ => dsimp only at hpool; rw [hpool] at hb; exact .inl hb

/-- A block is one request's, and a request has one block. -/
theorem Traced.ids {l : EventLoop} (h : Traced l) : (l.pool.map (·.id)).Nodup := by
  refine List.Nodup.map_on (fun b hb b' hb' he => ?_) h.addrs.of_map
  obtain ⟨a, ha, hba⟩ := h.blocks b hb
  obtain ⟨a', ha', hba'⟩ := h.blocks b' hb'
  rw [he, ha'] at ha
  cases ha
  rw [hba, hba', he]

/-- The block of a request, if it is allocated, is where the request was put. -/
theorem Traced.addr_of_id {l : EventLoop} (h : Traced l) {b : Block} (hb : b ∈ l.pool) {id : Nat} {a : Accepted}
    (hid : b.id = id) (ha : l.accepted[id]? = some a) : b = blockOf a id := by
  obtain ⟨a', ha', hba⟩ := h.blocks b hb
  subst hid
  rw [ha] at ha'
  cases ha'
  exact hba

/-- Two allocated blocks at one address are one block. -/
theorem Traced.eq_of_addr {l : EventLoop} (h : Traced l) {b b' : Block} (hb : b ∈ l.pool) (hb' : b' ∈ l.pool)
    (he : b.addr = b'.addr) : b = b' :=
  List.inj_on_of_nodup_map h.addrs hb hb' he

/-! ## What a completion is answered with -/

/-- The call made for a completion that leads to the block of request `a`, and
whether a buffer is given back after it. -/
def handlerFor (buffers : BufferRing) (a : Accepted) (c : Cqe) : Invocation × Bool :=
  match a.subscriber with
  | none => (.errorHandler (.text "Error: No subscriber"), false)
  | some s =>
    if c.res < 0 then (.subscriber s (.error (-c.res)), false)
    else
      match a.request with
      | .accept _ => (.subscriber s (.accept c.res), false)
      | .connect .. => (.subscriber s .connect, false)
      | .read fd buf => (.subscriber s (.read fd (buf.subspan c.res.toNat)), false)
      | .multiShotRead fd _ =>
        match buffers.get c with
        | none => (.errorHandler (.text "Error: Invalid buffer ID"), false)
        | some view => (.subscriber s (.read fd (view.subspan c.res.toNat)), true)
      | .write _ bytes => (.subscriber s (.write c.res bytes), false)

/-- A block is dispatched as the request it was written with. -/
theorem dispatch_eq {l : EventLoop} {c : Cqe} {a : Accepted} {id : Nat} (h0 : c.userData ≠ 0)
    (hf : RequestPool.find l.pool c.userData = some (blockOf a id)) :
    l.dispatch c = .ok ⟨some id, (handlerFor l.bufferRing a c).1, (handlerFor l.bufferRing a c).2⟩ := by
  simp only [dispatch, if_neg h0, RequestPool.read, hf]
  simp only [blockOf, Request.header_valid, Request.header_userData, Request.header_op, handlerFor]
  cases a.subscriber with
  | none => rfl
  | some s =>
    by_cases hr : c.res < 0
    · simp [hr]
    · cases a.request with
      | multiShotRead fd group => cases l.bufferRing.get c <;> simp [hr, Request.op]
      | _ => simp [hr, Request.op]

/-- A completion that was answered was malformed, or led to a block. -/
theorem dispatch_cases {l : EventLoop} (ht : Traced l) {c : Cqe} {d : Dispatched} (h : l.dispatch c = .ok d) :
    (c.userData = 0 ∧ d = ⟨none, .errorHandler (.text "Error: Malformed completion queue entry"), false⟩) ∨
      ∃ b a, b ∈ l.pool ∧ b.addr = c.userData ∧ l.accepted[b.id]? = some a ∧ b = blockOf a b.id ∧
        d = ⟨some b.id, (handlerFor l.bufferRing a c).1, (handlerFor l.bufferRing a c).2⟩ := by
  by_cases h0 : c.userData = 0
  · left
    simp only [dispatch, if_pos h0, Except.ok.injEq] at h
    exact ⟨h0, h.symm⟩
  · right
    cases hf : RequestPool.find l.pool c.userData with
    | none => simp [dispatch, h0, RequestPool.read, hf] at h
    | some b =>
      obtain ⟨hb, hba⟩ := SubmissionQueue.find_some hf
      obtain ⟨a, ha, hbe⟩ := ht.blocks b hb
      rw [hbe] at hf
      rw [dispatch_eq h0 hf, Except.ok.injEq] at h
      exact ⟨b, a, hb, hba, ha, hbe, h.symm⟩

/-- A subscriber is called for its own request, with the event that fits. -/
theorem handlerFor_subscriber {buffers : BufferRing} {a : Accepted} {c : Cqe} {s : SubscriberId} {e : Event}
    (h : (handlerFor buffers a c).1 = .subscriber s e) :
    a.subscriber = some s ∧ if c.res < 0 then e = .error (-c.res) else e.reports a.request.op = true := by
  unfold handlerFor at h
  cases hs : a.subscriber with
  | none => rw [hs] at h; cases h
  | some s' =>
    rw [hs] at h
    dsimp only at h
    by_cases hr : c.res < 0
    · rw [if_pos hr] at h ⊢
      cases h
      exact ⟨rfl, rfl⟩
    · rw [if_neg hr] at h ⊢
      cases hreq : a.request with
      | multiShotRead fd group =>
        rw [hreq] at h
        dsimp only at h
        split at h <;> cases h
        exact ⟨rfl, rfl⟩
      | _ =>
        rw [hreq] at h
        cases h
        exact ⟨rfl, rfl⟩

/-- The loop's own handler is called only without a subscriber or without a buffer. -/
theorem handlerFor_calls {buffers : BufferRing} {a : Accepted} {c : Cqe} {s : SubscriberId}
    (hs : a.subscriber = some s) (hb : a.request.op = .readMultishot → c.bufferId < buffers.buffers.length) :
    ∃ e, (handlerFor buffers a c).1 = .subscriber s e := by
  unfold handlerFor
  rw [hs]
  dsimp only
  split
  · exact ⟨_, rfl⟩
  · cases hreq : a.request with
    | multiShotRead fd group =>
      dsimp only
      rw [BufferRing.get_eq, List.getElem?_eq_getElem (hb (by rw [hreq]; rfl))]
      exact ⟨_, rfl⟩
    | _ => exact ⟨_, rfl⟩

/-- A buffer is given back exactly when a multi-shot read's event was handed over. -/
theorem handlerFor_releases {buffers : BufferRing} {a : Accepted} {c : Cqe} :
    (handlerFor buffers a c).2 = true ↔ a.subscriber.isSome = true ∧ 0 ≤ c.res ∧ a.request.op = .readMultishot ∧
      c.bufferId < buffers.buffers.length := by
  unfold handlerFor
  cases hs : a.subscriber with
  | none => simp
  | some s =>
    by_cases hr : c.res < 0
    · simp [hr]
    · cases hreq : a.request with
      | multiShotRead fd group =>
        simp only [if_neg hr, BufferRing.get_eq]
        by_cases hlt : c.bufferId < buffers.buffers.length
        · simp only [List.getElem?_eq_getElem hlt, Request.op]
          simp [hlt]
          omega
        · simp only [List.getElem?_eq_none (Nat.le_of_not_lt hlt)]
          simp [hlt]
      | _ => simp [hr, Request.op]

/-- Handlers are invoked by `next` only, one for the completion it looks at. -/
theorem invocations_step {l l' : EventLoop} {a : Action} (hpos : Position l) (he : Effect l a l') :
    (l'.invocations = l.invocations ∧ l'.dispatched = l.dispatched) ∨
      ∃ processed c d, a = .next ∧ l.phase = .iterating l.dispatched processed ∧ l.finished = l.dispatched ∧
        l.ring.posted[l.dispatched]? = some c ∧ l.dispatch c = .ok d ∧ l'.dispatched = l.dispatched + 1 ∧
        l'.invocations = l.invocations ++ [⟨l.dispatched, c.owner, d.request, d.what⟩] := by
  cases he with
  | @dispatch head processed c d hp hc hd =>
    have hf : l.finished = head := by simp [finished, hp]
    have hdis : l.dispatched = head := by simp [dispatched, hp]
    rw [hf, hdis]
    exact .inr ⟨processed, c, d, rfl, hp, rfl, hc, hd, rfl, rfl⟩
  | @cancel fd taken =>
    obtain ⟨new, hm, -, -⟩ := l.cancel_spec fd taken
    exact .inl ⟨rfl, dispatched_congr rfl hm.cqHead⟩
  | submit _ hs =>
    obtain ⟨-, got, -, -, hm, -⟩ := SubmissionQueue.submit_moves hs
    exact .inl ⟨rfl, dispatched_congr rfl hm.cqHead⟩
  | begin hi => exact .inl ⟨rfl, by simp [dispatched, hi]⟩
  | finish hp _ =>
    unfold Position at hpos
    rw [hp] at hpos
    exact .inl ⟨rfl, by simp [dispatched, hp, hpos.1, IoUring.cqAdvance]⟩
  | callbackReturn hp _ _ => exact .inl ⟨rfl, by simp [dispatched, hp]⟩
  | checkStatus _ =>
    rw [l.checkStatus_same]
    exact .inl ⟨rfl, rfl⟩
  | _ => exact .inl ⟨rfl, rfl⟩

/-- The request whose header was read for a completion is one that was accepted. -/
theorem reach_invoked {n : Nat} {st : Int} {l : EventLoop} (h : Reachable n st l) :
    ∀ v ∈ l.invocations, ∀ id, v.request = some id → ∃ a, l.accepted[id]? = some a := by
  refine Run.inv_of (Reachable n st) (fun l => ∀ v ∈ l.invocations, ∀ id, v.request = some id →
    ∃ a, l.accepted[id]? = some a) (fun _ hr => hr) (by simp) ?_ h
  intro l x l' hr hi _ hs v hv id hid
  have he := step_effect hs
  have hknown : ∃ a, l.accepted[id]? = some a := by
    rcases invocations_step (reach_position hr) he with ⟨hinv, -⟩ | ⟨_, c, d, -, -, -, -, hd, -, hinv⟩
    · rw [hinv] at hv
      exact hi v hv id hid
    · rw [hinv, List.mem_append, List.mem_singleton] at hv
      rcases hv with hv | rfl
      · exact hi v hv id hid
      · rcases dispatch_cases (reach_traced hr) hd with ⟨-, rfl⟩ | ⟨b, a, -, -, ha, -, rfl⟩
        · cases hid
        · cases hid
          exact ⟨a, ha⟩
  obtain ⟨a, ha⟩ := hknown
  exact ⟨a, accepted_mono he ha⟩

/-- The completion `next` looks at is the first that is not processed. -/
theorem nextCompletion_front {l : EventLoop} {c : Cqe} (h : l.nextCompletion = some c) :
    l.finished = l.dispatched ∧ l.ring.posted[l.finished]? = some c := by
  unfold nextCompletion at h
  split at h
  · rename_i head processed hp
    have hfin : l.finished = head := by simp [finished, hp]
    have hdis : l.dispatched = head := by simp [dispatched, hp]
    rw [hfin, hdis]
    exact ⟨rfl, h⟩
  · cases h

/-- What `next` does when there is a completion. -/
theorem next_step {l l' : EventLoop} {c : Cqe} (he : Effect l .next l') (h : l.nextCompletion = some c) :
    ∃ d, l.dispatch c = .ok d ∧ l'.submissionQueue = l.submissionQueue ∧ l'.dispatched = l.finished + 1 ∧
      l'.invocations = l.invocations ++ [⟨l.finished, c.owner, d.request, d.what⟩] ∧ l'.running = some d.what := by
  cases he with
  | finish hp hn => simp [nextCompletion, hp, hn] at h
  | @dispatch head processed cqe d hp hpost hd =>
    have hcqe : cqe = c := by simpa [nextCompletion, hp, hpost] using h
    subst hcqe
    have hfin : l.finished = head := by simp [finished, hp]
    rw [hfin]
    exact ⟨d, hd, rfl, rfl, rfl, by simp [running]⟩

/-- The handler in progress was in progress, or `next` has just called it. -/
theorem handling_step {l l' : EventLoop} {a : Action} (he : Effect l a l') {head processed : Nat} {c : Cqe} {rb : Bool}
    (hph : l'.phase = .handling head processed c rb) :
    (a ≠ .callbackReturn ∧ l.phase = .handling head processed c rb) ∨
      a = .next ∧ l.nextCompletion = some c ∧ l'.pool = l.pool ∧ ∃ d, l.dispatch c = .ok d ∧ l'.running = some d.what := by
  cases he with
  | @dispatch _ _ _ d hp hc hd =>
    cases hph
    exact .inr ⟨rfl, by simp [nextCompletion, hp, hc], rfl, d, hd, by simp [running]⟩
  | begin _ => cases hph
  | finish _ _ => cases hph
  | callbackReturn _ _ _ => cases hph
  | checkStatus _ =>
    rw [l.checkStatus_same] at hph
    exact .inl ⟨by simp, hph⟩
  | _ => exact .inl ⟨by simp, hph⟩

/-- The completion being handled was malformed, or leads to an allocated block. -/
theorem reach_handled {n : Nat} {st : Int} {l : EventLoop} (h : Reachable n st l) {head processed : Nat} {c : Cqe}
    {rb : Bool} (hph : l.phase = .handling head processed c rb) :
    c.userData = 0 ∨ ∃ b ∈ l.pool, b.addr = c.userData := by
  induction h with
  | refl => cases hph
  | @step l l' a hr _ hs ih =>
    rcases handling_step (step_effect hs) hph with ⟨ha, hold⟩ | ⟨-, -, hpool, d, hd, -⟩
    · rcases ih hold with h0 | ⟨b, hb, hba⟩
      · exact .inl h0
      · exact .inr ⟨b, pool_mono (reach_position hr) (step_effect hs) ha hb, hba⟩
    · rw [hpool]
      rcases dispatch_cases (reach_traced hr) hd with ⟨h0, -⟩ | ⟨b, -, hb, hba, -⟩
      · exact .inl h0
      · exact .inr ⟨b, hb, hba⟩

end EventLoop

end RingNet
