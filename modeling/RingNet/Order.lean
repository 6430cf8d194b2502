import RingNet.Attribution
/-!
# The order of submission

Requests of one type are prepared in the order they were pushed, each once
and from its own block: `preparePendingRequests` goes through the waiting
lists front to back, the ring hands out its slots in order, and an
`io_uring_submit` in the middle of a drain takes entries from the front. What
can be missing is an entry for a request that found the ring full and a kernel
that took nothing; `prepareEach_fits` says that nothing else can.
-/

namespace RingNet

open Lib IoUring

/-- The waiting list of a type. -/
def PendingRequests.ofType (p : PendingRequests) : Operation → List Pending
  | .accept => p.accept
  | .connect => p.connect
  | .read => p.read
  | .readMultishot => p.multiShotRead
  | .write => p.write

theorem PendingRequests.mem_toList {p : PendingRequests} {x : Pending} :
    x ∈ p.toList ↔ ∃ op, x ∈ p.ofType op := by
  simp only [toList, List.mem_append]
  constructor
  · rintro ((((h | h) | h) | h) | h)
    · exact ⟨.accept, h⟩
    · exact ⟨.connect, h⟩
    · exact ⟨.read, h⟩
    · exact ⟨.readMultishot, h⟩
    · exact ⟨.write, h⟩
  · rintro ⟨op, h⟩
    cases op <;> simp only [ofType] at h <;> simp [h]

theorem PendingRequests.push_ofType (p : PendingRequests) (type op : Operation) (x : Pending) :
    (p.push type x).ofType op = p.ofType op ++ if type = op then [x] else [] := by
  cases type <;> cases op <;> simp [push, ofType]

/-- Picking a type out of all the lists finds its own list, if each list holds its type only. -/
theorem PendingRequests.filter_toList (p : PendingRequests) (f : Pending → Bool) (op : Operation)
    (h : ∀ type, ∀ x ∈ p.ofType type, f x = decide (type = op)) : p.toList.filter f = p.ofType op := by
  have hself : ∀ type, type = op → (p.ofType type).filter f = p.ofType type := by
    intro type he
    refine List.filter_eq_self.2 fun x hx => ?_
    rw [h type x hx, decide_eq_true he]
  have hother : ∀ type, type ≠ op → (p.ofType type).filter f = [] := by
    intro type hne
    refine List.filter_eq_nil_iff.2 fun x hx => ?_
    rw [h type x hx, decide_eq_false hne]
    decide
  have hlist : p.toList = p.ofType .accept ++ p.ofType .connect ++ p.ofType .read ++ p.ofType .readMultishot ++
      p.ofType .write := rfl
  rw [hlist]
  simp only [List.filter_append]
  cases op <;> rw [hself _ rfl] <;> simp (disch := decide) [hother]

namespace EventLoop

/-- The entries prepared so far, oldest first. -/
def produced (l : EventLoop) : List Sqe := l.ring.submitted ++ l.ring.unsubmitted

/-- The request `id` is of type `op`. -/
def isType (l : EventLoop) (op : Operation) (id : Nat) : Bool := l.accepted[id]?.any (·.request.op == op)

/-- The pushes of a type, in order. -/
def pushedIds (l : EventLoop) (op : Operation) : List Nat := (List.range l.accepted.length).filter (l.isType op)

/-- The requests of a type that got an entry, in the order of their entries. -/
def producedIds (l : EventLoop) (op : Operation) : List Nat :=
  (l.produced.filterMap Sqe.requestId).filter (l.isType op)

/-- The requests of a type that are waiting, in the order of their list. -/
def waitingIds (l : EventLoop) (op : Operation) : List Nat :=
  (l.submissionQueue.pendingRequests.ofType op).map (·.id)

theorem isType_iff {l : EventLoop} {op : Operation} {id : Nat} {a : Accepted} (ha : l.accepted[id]? = some a) :
    l.isType op id = decide (a.request.op = op) := by
  simp only [isType, ha, Option.any_some]
  exact Bool.beq_eq_decide_eq _ _

theorem nodup_pushedIds (l : EventLoop) (op : Operation) : (l.pushedIds op).Nodup :=
  List.nodup_range.filter _

/-! ## Entries and their requests -/

/-- The entry `prepare` makes for a request. -/
def entryOf (a : Accepted) (id : Nat) : Sqe := ⟨a.request.prep, a.addr, some (.request id)⟩

/-- Every entry is that of a request that was pushed, with its fields and the address of its block. -/
def Faithful (l : EventLoop) : Prop := ∀ e ∈ l.produced, ∃ id a, l.accepted[id]? = some a ∧ e = entryOf a id

theorem moves_produced {u u' : IoUring} {new : List Sqe} (h : Moves u u' new) :
    u'.submitted ++ u'.unsubmitted = u.submitted ++ u.unsubmitted ++ new := by
  obtain ⟨m, hm, -, hs⟩ := h.taken
  rw [hs, List.append_assoc, ← hm, List.append_assoc]

/-- A pending request is prepared from its own block. -/
theorem got_entry {l : EventLoop} (hi : Intact l) (ht : Traced l) {x : Pending} {b : Block} (hx : x ∈ l.pending)
    (hb : RequestPool.find l.pool x.ptr = some b) :
    ∃ a, l.accepted[x.id]? = some a ∧ SubmissionQueue.entryFor x b.request = entryOf a x.id := by
  obtain ⟨a, ha, hmem, -⟩ := hi.pending x hx
  obtain ⟨a', ha', hptr⟩ := ht.pending x hx
  rw [ha] at ha'
  cases ha'
  rw [hptr, show a.addr = (blockOf a x.id).addr from rfl, find_of_mem ht.addrs hmem, Option.some.injEq] at hb
  subst hb
  exact ⟨a, ha, by simp only [SubmissionQueue.entryFor, entryOf, hptr, blockOf]⟩

/-- Entries are made by `submit` only, from the pending requests and in their order. -/
theorem produced_step {l l' : EventLoop} {a : Action} (hc : NotCancel l a) (he : Effect l a l') :
    match a with
    | .submit _ reply => ∃ got : List (Pending × Block), (got.map (·.1)).Sublist l.pending ∧
        (∀ g ∈ got, RequestPool.find l.pool g.1.ptr = some g.2) ∧
        l'.produced = l.produced ++ got.map (fun g => SubmissionQueue.entryFor g.1 g.2.request) ∧ l'.pending = [] ∧
        (got.length = l.pending.length ↔
          everyRequestFits l.ring.ringEntries l.ring.room l.pending.length reply.takes = true)
    | _ => l'.produced = l.produced := by
  cases he with
  | cancel => exact hc.elim
  | submit _ hs =>
    obtain ⟨hq, got, hsub, hfind, hm, hfit⟩ := SubmissionQueue.submit_moves hs
    exact ⟨got, hsub, hfind, moves_produced hm, congrArg (·.pendingRequests.toList) hq, hfit⟩
  | callbackReturn _ _ hq =>
    dsimp only
    rw [SubmissionQueue.release_same hq]
    rfl
  | checkStatus _ =>
    dsimp only
    rw [l.checkStatus_same]
    rfl
  | _ => rfl

theorem faithful_step {l l' : EventLoop} {x : Action} (h : Faithful l) (hi : Intact l) (ht : Traced l)
    (hc : NotCancel l x) (he : Effect l x l') : Faithful l' := by
  have hold : ∀ e ∈ l.produced, ∃ id a, l'.accepted[id]? = some a ∧ e = entryOf a id := by
    intro e hmem
    obtain ⟨id, a, ha, heq⟩ := h e hmem
    exact ⟨id, a, accepted_mono he ha, heq⟩
  have hp := produced_step hc he
  cases x with
  | submit timeout reply =>
    obtain ⟨got, hsub, hfind, hp, -, -⟩ := hp
    intro e hmem
    rw [hp, List.mem_append] at hmem
    rcases hmem with hmem | hmem
    · exact hold e hmem
    · obtain ⟨g, hg, rfl⟩ := List.mem_map.1 hmem
      obtain ⟨a, ha, heq⟩ := got_entry hi ht (hsub.subset (List.mem_map_of_mem hg)) (hfind g hg)
      exact ⟨g.1.id, a, accepted_mono he ha, heq⟩
  | _ => dsimp only at hp; intro e hmem; rw [hp] at hmem; exact hold e hmem

/-! ## Order -/

/-- Entries and then waiting requests of each type are a subsequence of the
pushes, and each waiting list holds its own type. -/
structure Ordered (l : EventLoop) : Prop where
  typed : ∀ op, ∀ x ∈ l.submissionQueue.pendingRequests.ofType op, ∃ a, l.accepted[x.id]? = some a ∧ a.request.op = op
  order : ∀ op, (l.producedIds op ++ l.waitingIds op).Sublist (l.pushedIds op)

theorem ordered_frame {l l' : EventLoop} (h : Ordered l) (hp : l'.produced = l.produced)
    (hpend : l'.submissionQueue.pendingRequests = l.submissionQueue.pendingRequests)
    (hacc : l'.accepted = l.accepted) : Ordered l' := by
  have htype : l'.isType = l.isType := by
    funext op id
    simp only [isType, hacc]
  refine ⟨?_, fun op => ?_⟩
  · rw [hpend, hacc]
    exact h.typed
  · simp only [producedIds, waitingIds, pushedIds, hp, hpend, hacc, htype]
    exact h.order op

theorem ordered_add {l : EventLoop} (h : Ordered l) (hf : Faithful l) {r : Request} {s : Option SubscriberId}
    {addr : Nat} : Ordered (l.add r s addr).2 := by
  have hacc : (l.add r s addr).2.accepted = l.accepted ++ [⟨stored r, s, addr⟩] := rfl
  have hpend : ∀ op, (l.add r s addr).2.submissionQueue.pendingRequests.ofType op =
      l.submissionQueue.pendingRequests.ofType op ++
        if (stored r).op = op then [⟨addr, l.accepted.length⟩] else [] :=
    fun op => PendingRequests.push_ofType ..
  -- the types of the requests pushed before are what they were
  have htype : ∀ op id, id < l.accepted.length → (l.add r s addr).2.isType op id = l.isType op id := by
    intro op id hid
    simp only [isType, hacc, List.getElem?_append_left hid]
  have hnew : ∀ op, (l.add r s addr).2.isType op l.accepted.length = decide ((stored r).op = op) := by
    intro op
    exact isType_iff (by rw [hacc]; exact List.getElem?_concat_length)
  refine ⟨fun op x hx => ?_, fun op => ?_⟩
  · rw [hpend, List.mem_append] at hx
    rcases hx with hx | hx
    · obtain ⟨a, ha, hop⟩ := h.typed op x hx
      exact ⟨a, accepted_append ha _, hop⟩
    · split at hx
      · rename_i hop
        rw [List.mem_singleton] at hx
        subst hx
        exact ⟨⟨stored r, s, addr⟩, List.getElem?_concat_length, hop⟩
      · cases hx
  · have hprod : (l.add r s addr).2.producedIds op = l.producedIds op := by
      refine List.filter_congr fun id hid => htype op id ?_
      obtain ⟨e, he, hide⟩ := List.mem_filterMap.1 hid
      obtain ⟨id', a, ha, rfl⟩ := hf e he
      cases hide
      exact (List.getElem?_eq_some_iff.1 ha).1
    have hpush : (l.add r s addr).2.pushedIds op =
        l.pushedIds op ++ if (stored r).op = op then [l.accepted.length] else [] := by
      simp only [pushedIds, hacc, List.length_append, List.length_singleton, List.range_succ, List.filter_append,
        List.filter_singleton, hnew, Bool.cond_decide]
      congr 1
      exact List.filter_congr fun id hid => htype op id (List.mem_range.1 hid)
    have hwait : (l.add r s addr).2.waitingIds op =
        l.waitingIds op ++ if (stored r).op = op then [l.accepted.length] else [] := by
      simp only [waitingIds, hpend, List.map_append]
      split <;> rfl
    rw [hprod, hpush, hwait, ← List.append_assoc]
    exact (h.order op).append (.refl _)

theorem ordered_submit {l l' : EventLoop} (h : Ordered l) {got : List (Pending × Block)}
    (hsub : (got.map (·.1)).Sublist l.pending)
    (hp : l'.produced = l.produced ++ got.map fun g => SubmissionQueue.entryFor g.1 g.2.request)
    (hpend : l'.pending = []) (hacc : l'.accepted = l.accepted) : Ordered l' := by
  have htype : l'.isType = l.isType := by
    funext op id
    simp only [isType, hacc]
  have hempty : ∀ op, l'.submissionQueue.pendingRequests.ofType op = [] := by
    intro op
    refine List.eq_nil_iff_forall_not_mem.2 fun x hx => ?_
    have hmem : x ∈ l'.pending := PendingRequests.mem_toList.2 ⟨op, hx⟩
    rw [hpend] at hmem
    cases hmem
  refine ⟨fun op x hx => ?_, fun op => ?_⟩
  · rw [hempty] at hx
    cases hx
  · -- the new entries are in the order of the waiting list of their type
    have hids : (got.map fun g => SubmissionQueue.entryFor g.1 g.2.request).filterMap Sqe.requestId =
        (got.map (·.1)).map (·.id) := by
      rw [List.filterMap_map, List.map_map]
      exact List.filterMap_eq_map (f := fun g : Pending × Block => g.1.id) ▸ rfl
    have hfil : ∀ type, ∀ x ∈ l.submissionQueue.pendingRequests.ofType type,
        (fun x : Pending => l.isType op x.id) x = decide (type = op) := by
      intro type x hx
      obtain ⟨a, ha, hop⟩ := h.typed type x hx
      rw [← hop]
      exact isType_iff ha
    have hnew : (((got.map (·.1)).map (·.id)).filter (l.isType op)).Sublist (l.waitingIds op) := by
      rw [List.filter_map, waitingIds, ← PendingRequests.filter_toList _ _ op hfil]
      exact (hsub.filter _).map _
    simp only [producedIds, waitingIds, pushedIds, hp, hempty, htype, hacc, List.filterMap_append, List.filter_append,
      hids, List.map_nil, List.append_nil]
    exact ((List.Sublist.refl _).append hnew).trans (h.order op)

theorem ordered_step {l l' : EventLoop} {x : Action} (h : Ordered l) (hf : Faithful l) (hc : NotCancel l x)
    (he : Effect l x l') : Ordered l' := by
  have hp := produced_step hc he
  have ha := accepted_step he
  cases he with
  | add _ => exact ordered_add h hf
  | cancel => exact hc.elim
  | submit _ hs =>
    obtain ⟨got, hsub, -, hp, hpend, -⟩ := hp
    exact ordered_submit h hsub hp hpend ha
  | callbackReturn _ _ hq =>
    exact ordered_frame h hp (congrArg (·.pendingRequests) (SubmissionQueue.release_same hq)) ha
  | checkStatus _ =>
    exact ordered_frame h hp (congrArg (·.submissionQueue.pendingRequests) l.checkStatus_same) ha
  | begin _ => exact ordered_frame h hp rfl ha
  | finish _ _ => exact ordered_frame h hp rfl ha
  | dispatch _ _ _ => exact ordered_frame h hp rfl ha
  | post _ _ _ => exact ordered_frame h hp rfl ha

theorem faithful_ordered_run {n : Nat} {st : Int} {l : EventLoop} (h : Run step NotCancel (new n st) l) :
    Faithful l ∧ Ordered l := by
  refine Run.inv_of (fun l => Traced l ∧ Intact l) (fun l => Faithful l ∧ Ordered l) ?_ ?_ ?_ h
  · intro s hr
    exact ⟨reach_traced hr.any, intact_run (hr.mono fun _ _ => NotCancel.clean)⟩
  · refine ⟨?_, ?_, fun op => ?_⟩
    · intro e he
      simp [produced] at he
    · intro op x hx
      cases op <;> cases hx
    · cases op <;> exact List.Sublist.slnil
  · rintro s a s' ⟨ht, hi⟩ ⟨hf, ho⟩ hc hs
    exact ⟨faithful_step hf hi ht hc (step_effect hs), ordered_step ho hf hc (step_effect hs)⟩

/-! ## Every request gets an entry -/

/-- The kernel is entered in the middle of a drain when the ring is full, and only then. -/
theorem getNew_enters {u u' : IoUring} {takes takes' : List Nat} {o : Option Nat}
    (h : getNewSubmissionQueueEntry u takes = (o, u', takes')) :
    u'.enters = u.enters + (if u.room = 0 then 1 else 0) := by
  have hle := u.head_le_tail
  have hfits := u.tail_fits
  have hget : ∀ {u u' : IoUring} {slot : Nat}, u.getSqe = some (slot, u') → u'.enters = u.enters ∧ u.room ≠ 0 := by
    intro u u' slot hg
    have hle := u.head_le_tail
    simp only [getSqe, Option.dite_none_right_eq_some, Option.some.injEq, Prod.mk.injEq] at hg
    obtain ⟨hfree, -, rfl⟩ := hg
    exact ⟨rfl, by simp only [room]; omega⟩
  unfold getNewSubmissionQueueEntry at h
  split at h
  · rename_i hg
    simp only [Prod.mk.injEq] at h
    obtain ⟨-, rfl, -⟩ := h
    obtain ⟨hent, hroom⟩ := hget hg
    rw [hent, if_neg hroom, Nat.add_zero]
  · rename_i hg
    rw [if_pos (u.getSqe_eq_none.1 hg)]
    dsimp only at h
    split at h <;> simp only [Prod.mk.injEq] at h <;> obtain ⟨-, rfl, -⟩ := h
    · rename_i hg'
      rw [(hget hg').1]
      rfl
    · rfl

theorem prepare_enters {q q' : SubmissionQueue} {x : Pending} {takes takes' : List Nat} {status : AddRequestStatus}
    (h : q.prepare x takes = .ok (status, q', takes')) :
    q'.ring.enters = q.ring.enters + (if q.ring.room = 0 then 1 else 0) := by
  unfold SubmissionQueue.prepare at h
  split at h
  · rename_i hg
    simp only [Except.ok.injEq, Prod.mk.injEq] at h
    obtain ⟨-, rfl, -⟩ := h
    exact getNew_enters hg
  · rename_i hg
    split at h
    · cases h
    · have hent := getNew_enters hg
      simp only [Except.ok.injEq, Prod.mk.injEq] at h
      obtain ⟨-, rfl, -⟩ := h
      exact hent

/-- If each `io_uring_submit` made for lack of a slot takes an entry, every request fits. -/
theorem prepareEach_fits {xs : List Pending} {n n' : Nat} {q q' : SubmissionQueue} {takes takes' : List Nat}
    (h : SubmissionQueue.prepareEach xs n q takes = .ok (n', q', takes')) (h0 : 0 < q.ring.ringEntries)
    (htakes : ∀ i, i < q'.ring.enters - q.ring.enters → 0 < takes.getD i 0) :
    everyRequestFits q.ring.ringEntries q.ring.room xs.length takes = true := by
  -- induction over the batch; `q` is the queue when the rest of it is reached
  induction xs generalizing n q takes with
  | nil => simp [everyRequestFits]
  | cons x xs ih =>
    simp only [SubmissionQueue.prepareEach] at h
    split at h
    · cases h
    · rename_i st q₁ takes₁ hp
      obtain ⟨-, -, got, -, -, hm, -⟩ := SubmissionQueue.prepareEach_spec h
      have hmono := hm.enters
      have hent := prepare_enters hp
      rw [List.length_cons]
      rcases (SubmissionQueue.prepare_cases hp).2 with ⟨b, -, hm₁, -, hroom⟩ | ⟨-, -, hfull, hzero, -⟩
      · have hsize : q₁.ring.ringEntries = q.ring.ringEntries := hm₁.ringEntries
        rcases hroom with ⟨h1, h2, rfl⟩ | ⟨h1, h2, h3, rfl⟩
        · -- a slot was free
          rw [if_neg (Nat.ne_of_gt h1), Nat.add_zero] at hent
          obtain ⟨r, hr⟩ := Nat.exists_eq_succ_of_ne_zero (Nat.ne_of_gt h1)
          have hrest := ih h (by omega) fun i hi => htakes i (by omega)
          rw [hr] at h2
          rw [hsize, h2] at hrest
          rw [hr]
          exact hrest
        · -- the kernel made room
          rw [if_pos h1] at hent
          have hrest := ih h (by omega) fun i hi => by
            have := htakes (i + 1) (by omega)
            simpa [List.getD, List.getElem?_tail] using this
          rw [hsize, h3] at hrest
          simp only [h1, everyRequestFits, h2, decide_true, Bool.true_and]
          exact hrest
      · -- it did not, although it was entered
        rw [if_pos hfull] at hent
        have htake := htakes 0 (by omega)
        have hhead : takes.headD 0 = takes.getD 0 0 := by cases takes <;> rfl
        omega

theorem preparePendingRequests_fits {q q' : SubmissionQueue} {takes : List Nat} {count : Nat}
    (h : q.preparePendingRequests takes = .ok (count, q')) (h0 : 0 < q.ring.ringEntries)
    (htakes : ∀ i, i < q'.ring.enters - q.ring.enters → 0 < takes.getD i 0) :
    everyRequestFits q.ring.ringEntries q.ring.room q.pendingRequests.toList.length takes = true := by
  unfold SubmissionQueue.preparePendingRequests at h
  split at h
  · cases h
  · rename_i hp
    simp only [Except.ok.injEq, Prod.mk.injEq] at h
    obtain ⟨-, rfl⟩ := h
    exact prepareEach_fits hp h0 htakes

theorem isFor_requestId (id : Nat) (e : Sqe) : Sqe.isFor id e = (e.requestId == some id) := by
  obtain ⟨prep, u, o⟩ := e
  rcases o with _ | i | i <;> simp [Sqe.isFor, Sqe.requestId]

/-- Entries of a request, counted among the requests that got one. -/
theorem countP_isFor (es : List Sqe) (id : Nat) : es.countP (Sqe.isFor id) = (es.filterMap Sqe.requestId).count id := by
  rw [List.count, List.countP_filterMap]
  refine List.countP_congr fun e _ => ?_
  rw [isFor_requestId]
  cases e.requestId <;> simp

/-- A request has at most one entry. -/
theorem Ordered.count_le {l : EventLoop} (h : Ordered l) {id : Nat} {a : Accepted} (ha : l.accepted[id]? = some a) :
    l.produced.countP (Sqe.isFor id) ≤ 1 := by
  have htype : l.isType a.request.op id = true := by rw [isType_iff ha]; simp
  have hnodup : (l.producedIds a.request.op).Nodup :=
    (nodup_pushedIds l a.request.op).sublist ((List.sublist_append_left ..).trans (h.order a.request.op))
  rw [countP_isFor, ← List.count_filter htype]
  exact List.nodup_iff_count_le_one.1 hnodup id

/-- A drain that all requests fit in makes exactly one entry for each. -/
theorem submit_all {l l' : EventLoop} (ho' : Ordered l') {timeout : Int} {reply : SubmitReply}
    (he : Effect l (.submit timeout reply) l')
    (hfit : everyRequestFits l.ring.ringEntries l.ring.room l.pending.length reply.takes = true)
    (ht : Traced l) {x : Pending} (hx : x ∈ l.pending) : l'.produced.countP (Sqe.isFor x.id) = 1 := by
  obtain ⟨a, ha, -⟩ := ht.pending x hx
  have hle := ho'.count_le (accepted_mono he ha)
  obtain ⟨got, hsub, -, hp, -, hall⟩ := produced_step (l := l) (a := .submit timeout reply) trivial he
  have heq : got.map (·.1) = l.pending := hsub.eq_of_length (by rw [List.length_map]; exact hall.2 hfit)
  rw [← heq] at hx
  obtain ⟨g, hg, rfl⟩ := List.mem_map.1 hx
  have hpos : 0 < l'.produced.countP (Sqe.isFor g.1.id) := by
    refine List.countP_pos_iff.2 ⟨SubmissionQueue.entryFor g.1 g.2.request, ?_, by rw [isFor_entryFor, beq_self_eq_true]⟩
    rw [hp]
    exact List.mem_append_right _ (List.mem_map_of_mem hg)
  omega

theorem ringEntries_step {l l' : EventLoop} {a : Action} (he : Effect l a l') :
    l'.ring.ringEntries = l.ring.ringEntries := by
  cases he with
  | @cancel fd taken =>
    obtain ⟨new, hm, -, -⟩ := l.cancel_spec fd taken
    exact hm.ringEntries
  | submit _ hs =>
    obtain ⟨-, got, -, -, hm, -⟩ := SubmissionQueue.submit_moves hs
    exact hm.ringEntries
  | callbackReturn _ _ hq => exact congrArg (·.ring.ringEntries) (SubmissionQueue.release_same hq)
  | checkStatus _ => exact congrArg (·.ring.ringEntries) l.checkStatus_same
  | _ => rfl

theorem reach_ringEntries {n : Nat} {st : Int} {l : EventLoop} (h : Reachable n st l) : l.ring.ringEntries = n :=
  Run.inv (·.ring.ringEntries = n) rfl (fun _ _ _ hi _ hs => (ringEntries_step (step_effect hs)).trans hi) h

/-- A `submit` never fails, and while it is preparing it enters the kernel as often as `preparePendingRequests` does. -/
theorem submit_possible {n : Nat} {st : Int} {l : EventLoop} (h : Run step NotCancel (new n st) l) (hi : l.phase = .idle)
    (timeout : Int) (reply : SubmitReply) :
    ∃ l' count q, l.step (.submit timeout reply) = .ok l' ∧
      l.submissionQueue.preparePendingRequests reply.takes = .ok (count, q) := by
  obtain ⟨⟨status, q'⟩, hs⟩ :=
    submit_ok (intact_run (h.mono fun _ _ => NotCancel.clean)) (reach_traced h.any) timeout reply
  obtain ⟨count, q, hp, -⟩ := SubmissionQueue.submit_spec hs
  refine ⟨{ l with submissionQueue := q', submitStatus := status }, count, q, ?_, hp⟩
  simp only [step, if_pos hi, hs]

/-- Without cancels: the entries of each request type are in the order of the
pushes and no request has two; each carries its own request's fields and the
address of its block; and a `submit` whose kernel calls for lack of a slot all
make room, on a ring of at least one slot, makes one entry for each pending
request, however many there are. -/
theorem submission_order {n : Nat} {st : Int} {l : EventLoop} (h : Run step NotCancel (new n st) l) :
    -- in the order of the pushes, and not twice
    (∀ op, (l.producedIds op).Sublist (l.pushedIds op) ∧ (l.producedIds op).Nodup) ∧
      -- the request's own
      (∀ e ∈ l.produced, ∃ id a, l.accepted[id]? = some a ∧ e.owner = some (.request id) ∧ e.prep = a.request.prep ∧
        e.userData = a.addr) ∧
      -- one for each request of the batch
      ∀ timeout reply, l.phase = .idle → ∃ l' count q, l.step (.submit timeout reply) = .ok l' ∧
        l.submissionQueue.preparePendingRequests reply.takes = .ok (count, q) ∧
        (0 < n → (∀ i, i < q.ring.enters - l.ring.enters → 0 < reply.takes.getD i 0) →
          ∀ x ∈ l.pending, l'.produced.countP (Sqe.isFor x.id) = 1) := by
  obtain ⟨hf, ho⟩ := faithful_ordered_run h
  refine ⟨fun op => ?_, fun e he => ?_, fun timeout reply hi => ?_⟩
  · have hsub := (List.sublist_append_left ..).trans (ho.order op)
    exact ⟨hsub, (nodup_pushedIds l op).sublist hsub⟩
  · obtain ⟨id, a, ha, rfl⟩ := hf e he
    exact ⟨id, a, ha, rfl, rfl, rfl⟩
  · obtain ⟨l', count, q, hs, hp⟩ := submit_possible h hi timeout reply
    refine ⟨l', count, q, hs, hp, fun h0 htakes x hx => ?_⟩
    have hfit := preparePendingRequests_fits hp (by rw [reach_ringEntries h.any]; exact h0) htakes
    have ho' := (faithful_ordered_run (h.step (a := .submit timeout reply) trivial hs)).2
    exact submit_all ho' (step_effect hs) hfit (reach_traced h.any) hx

end EventLoop

end RingNet
