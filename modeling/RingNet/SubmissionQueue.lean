import RingNet.Liburing
/-!
# The submission queue

`uring/submissionQueue.hpp` and `.cpp`, with `requestPool.hpp` and
`pendingRequests.hpp`. A request goes through these stages: `push` copies it
to a block of the pool and appends the block's address to the waiting list of
its type; `preparePendingRequests` makes a submission entry of each waiting
request, in the order of the types and then of the pushes, and clears the
lists; the kernel takes the entries; `release` gives the block back when the
completion is processed.

What the kernel does is a parameter: the list `takes` says how many entries
each `io_uring_submit` made for lack of a free slot takes, in order, and
`SubmitReply` how the final submission ends.

`accepted`, `returned`, `cancels` and the `id` fields are for the proofs only.
A request's `id` is its position among all requests ever pushed.
-/

namespace RingNet

open Lib

/-! ## The pool -/

/-- An allocated block and the request in it. The request's type is the one
the block was allocated for. -/
structure Block where
  addr : Nat
  header : RequestHeader
  request : Request
  id : Nat
  deriving DecidableEq, Repr

namespace RequestPool

/-- The allocated block at an address. -/
def find (pool : List Block) (addr : Nat) : Option Block := pool.find? (·.addr == addr)

/-- `allocate` returns any address that is not in use. -/
def free (pool : List Block) (addr : Nat) : Bool := addr != 0 && (find pool addr).isNone

/-- Read a completion's `user_data` as a request. -/
def read (pool : List Block) (userData : Nat) : Except Fault Block :=
  if userData = 0 then .error .nullHeader
  else
    match find pool userData with
    | some b => .ok b
    | none => .error .danglingHeader

end RequestPool

/-! ## The waiting lists -/

/-- A pointer in a waiting list. -/
structure Pending where
  ptr : Nat
  id : Nat
  deriving DecidableEq, Repr

structure PendingRequests where
  accept : List Pending := []
  connect : List Pending := []
  read : List Pending := []
  multiShotRead : List Pending := []
  write : List Pending := []
  deriving DecidableEq, Repr

namespace PendingRequests

def push (p : PendingRequests) (type : Operation) (x : Pending) : PendingRequests :=
  match type with
  | .accept => { p with accept := p.accept ++ [x] }
  | .connect => { p with connect := p.connect ++ [x] }
  | .read => { p with read := p.read ++ [x] }
  | .readMultishot => { p with multiShotRead := p.multiShotRead ++ [x] }
  | .write => { p with write := p.write ++ [x] }

/-- The order in which `for_each` visits the requests. -/
def toList (p : PendingRequests) : List Pending := p.accept ++ p.connect ++ p.read ++ p.multiShotRead ++ p.write

theorem push_perm (p : PendingRequests) (type : Operation) (x : Pending) :
    (p.push type x).toList.Perm (x :: p.toList) := by
  cases type <;> simp only [push, toList, List.append_assoc] <;> grind

@[simp] theorem toList_nil : ({} : PendingRequests).toList = [] := rfl

end PendingRequests

/-! ## The queue -/

/-- A request as it was pushed, and the address of its block. -/
structure Accepted where
  request : Request
  subscriber : Option SubscriberId
  addr : Nat
  deriving DecidableEq, Repr

/-- A block given back to the pool: for which completion, whose block, and as which type. -/
structure Returned where
  owner : Option Owner
  id : Nat
  type : Operation
  deriving DecidableEq, Repr

structure SubmissionQueue where
  requestPool : List Block := []
  pendingRequests : PendingRequests := {}
  ring : IoUring
  accepted : List Accepted := []
  returned : List Returned := []
  cancels : Nat := 0

inductive AddRequestStatus
  | ok | queueFull
  deriving DecidableEq, Repr

/-- `SubmitStatus`, an `int` with three named values. -/
abbrev SubmitStatus := Int

namespace SubmitStatus
def TIMEOUT : SubmitStatus := -62
def INTERRUPTED_SYSCALL : SubmitStatus := -4
def NOT_READY : SubmitStatus := -11
end SubmitStatus

/-- How the kernel answers one call of `submit`. -/
structure SubmitReply where
  /-- Entries taken by each `io_uring_submit` made while the pending requests are prepared. -/
  takes : List Nat := []
  /-- Entries taken by the final submission. -/
  taken : Nat := 0
  /-- Its return value. -/
  ret : Int := 0
  /-- Whether it set the completion pointer. -/
  completedEvents : Bool := false
  /-- What `io_uring_peek_cqe` returns. -/
  peekStatus : Int := 0
  deriving DecidableEq, Repr

/-- What the `prepare` overload for each request type writes into the entry,
with the sizes as the request has them (`Entries.lean` has the entry's fields,
where a size has 32 bits). -/
def Request.prep : Request → Prep
  | .accept fd => .multishotAccept fd
  | .connect fd addr addrlen => .connect fd addr addrlen
  | .read fd buf => .read fd buf
  | .multiShotRead fd group => .readMultishot fd group
  | .write fd buf => .write fd buf

theorem Request.prep_multishot (r : Request) : r.prep.multishot = r.op.multishot := by
  cases r <;> rfl

theorem Request.prep_fd (r : Request) : r.prep.fd = r.fd := by
  cases r <;> rfl

/-- The second component is the ring, the third what is left of `takes`. -/
def getNewSubmissionQueueEntry (u : IoUring) (takes : List Nat) : Option Nat × IoUring × List Nat :=
  match u.getSqe with
  | some (slot, u) => (some slot, u, takes)
  | none =>
    -- make room; what this submission returns is not looked at
    let u := u.submit (takes.headD 0)
    match u.getSqe with
    | some (slot, u) => (some slot, u, takes.tail)
    | none => (none, u, takes.tail)

namespace SubmissionQueue

/-- A call of `push` on its own. `Threads.lean` has its parts, and other
threads' calls between them. -/
def push (q : SubmissionQueue) (request : Request) (subscriber : Option SubscriberId) (addr : Nat) :
    SubmissionQueue :=
  let id := q.accepted.length
  { q with
    requestPool := ⟨addr, request.header subscriber, request, id⟩ :: q.requestPool
    pendingRequests := q.pendingRequests.push request.op ⟨addr, id⟩
    accepted := q.accepted ++ [⟨request, subscriber, addr⟩] }

/-- The entry is left with the `user_data` of the slot's last user. -/
def cancel (q : SubmissionQueue) (fd : Fd) (takes : List Nat) : SubmissionQueue :=
  match getNewSubmissionQueueEntry q.ring takes with
  | (none, u, _) => { q with ring := u, cancels := q.cancels + 1 }
  | (some slot, u, _) =>
    { q with
      ring := u.writeSqe slot fun e => { e with prep := .cancelFd fd, owner := some (.cancel q.cancels) }
      cancels := q.cancels + 1 }

/-- The entry prepared for a request whose block is at `ptr`. -/
def entryFor (x : Pending) (request : Request) : Sqe := ⟨request.prep, x.ptr, some (.request x.id)⟩

def prepare (q : SubmissionQueue) (x : Pending) (takes : List Nat) :
    Except Fault (AddRequestStatus × SubmissionQueue × List Nat) :=
  match getNewSubmissionQueueEntry q.ring takes with
  | (none, u, takes) => .ok (.queueFull, { q with ring := u }, takes)
  | (some slot, u, takes) =>
    -- the request's fields are read through its pointer
    match RequestPool.find q.requestPool x.ptr with
    | none => .error .danglingHeader
    | some b => .ok (.ok, { q with ring := u.writeSqe slot fun _ => entryFor x b.request }, takes)

/-- The loop of `preparePendingRequests`. The status `prepare` returns is not looked at. -/
def prepareEach : List Pending → Nat → SubmissionQueue → List Nat → Except Fault (Nat × SubmissionQueue × List Nat)
  | [], count, q, takes => .ok (count, q, takes)
  | x :: xs, count, q, takes =>
    match q.prepare x takes with
    | .error f => .error f
    | .ok (_, q, takes) => prepareEach xs (count + 1) q takes

def preparePendingRequests (q : SubmissionQueue) (takes : List Nat) : Except Fault (Nat × SubmissionQueue) :=
  match prepareEach q.pendingRequests.toList 0 q takes with
  | .error f => .error f
  -- the lists are cleared whether each request got an entry or not
  | .ok (count, q, _) => .ok (count, { q with pendingRequests := {} })

def submit (q : SubmissionQueue) (timeout : Int) (reply : SubmitReply) : Except Fault (SubmitStatus × SubmissionQueue) :=
  match q.preparePendingRequests reply.takes with
  | .error f => .error f
  | .ok (preparedRequestsCount, q) =>
    -- entries that are in the ring already do not count
    if preparedRequestsCount = 0 then .ok (SubmitStatus.NOT_READY, q)
    else
      let q := { q with ring := q.ring.submit reply.taken }
      if timeout ≤ 0 then .ok (reply.ret, q)
      else if 0 < reply.ret ∧ reply.completedEvents = false ∧ reply.peekStatus < 0 then .ok (reply.peekStatus, q)
      else .ok (reply.ret, q)

def shouldContinueSubmitting (status : SubmitStatus) : Bool :=
  status == SubmitStatus.TIMEOUT || status == SubmitStatus.INTERRUPTED_SYSCALL || status == SubmitStatus.NOT_READY

/-- `RequestPool::deallocate<T>`, where `type` stands for `T`. -/
def deallocate (q : SubmissionQueue) (type : Operation) (b : Block) (cqe : Cqe) : Except Fault SubmissionQueue :=
  if b.request.op = type then
    .ok { q with
      requestPool := q.requestPool.filter (·.addr ≠ b.addr)
      returned := q.returned ++ [⟨cqe.owner, b.id, type⟩] }
  else .error .wrongType

def release (q : SubmissionQueue) (cqe : Cqe) : Except Fault SubmissionQueue :=
  match RequestPool.read q.requestPool cqe.userData with
  | .error f => .error f
  | .ok b =>
    if !b.header.valid then .ok q
    else
      match b.header.op with
      -- Do not release multi-shot requests
      | .accept | .readMultishot => .ok q
      | .read => q.deallocate .read b cqe
      | .write => q.deallocate .write b cqe
      | .connect => q.deallocate .connect b cqe

end SubmissionQueue

/-! ## What the operations do -/

open IoUring

/-- Either a slot is free, or the ring is full and the kernel takes some
entries, or nothing is obtained. -/
theorem getNew_cases (u : IoUring) (takes : List Nat) {o : Option Nat} {u' : IoUring} {takes' : List Nat}
    (h : getNewSubmissionQueueEntry u takes = (o, u', takes')) :
    (∃ slot, o = some slot ∧ (∀ f, Moves u (u'.writeSqe slot f) [f (u.sqes u.nextSlot)]) ∧
      ((0 < u.room ∧ u'.room = u.room - 1 ∧ takes' = takes) ∨
        (u.room = 0 ∧ 0 < min (takes.headD 0) u.ringEntries ∧
          u'.room = min (takes.headD 0) u.ringEntries - 1 ∧ takes' = takes.tail))) ∨
    (o = none ∧ Moves u u' [] ∧ u.room = 0 ∧ min (takes.headD 0) u.ringEntries = 0 ∧ u'.room = 0 ∧
      takes' = takes.tail) := by
  have hle := u.head_le_tail
  have hfits := u.tail_fits
  unfold getNewSubmissionQueueEntry at h
  split at h
  · rename_i slot u₁ hg
    simp only [Prod.mk.injEq] at h
    obtain ⟨rfl, rfl, rfl⟩ := h
    refine .inl ⟨slot, rfl, fun f => (getSqe_moves hg f).2, .inl ?_⟩
    simp only [getSqe, Option.dite_none_right_eq_some, Option.some.injEq, Prod.mk.injEq] at hg
    obtain ⟨hfree, -, rfl⟩ := hg
    simp only [room, and_true]
    omega
  · rename_i hg
    have hfull := u.getSqe_eq_none.1 hg
    dsimp only at h
    split at h
    · rename_i slot u₁ hg'
      simp only [Prod.mk.injEq] at h
      obtain ⟨rfl, rfl, rfl⟩ := h
      refine .inl ⟨slot, rfl, fun f => (submit_moves u (takes.headD 0)).trans (getSqe_moves hg' f).2, .inr ?_⟩
      simp only [getSqe, Option.dite_none_right_eq_some, Option.some.injEq, Prod.mk.injEq] at hg'
      obtain ⟨hfree, -, rfl⟩ := hg'
      simp only [room, IoUring.submit, and_true] at hfull hfree ⊢
      omega
    · rename_i hg'
      simp only [Prod.mk.injEq] at h
      obtain ⟨rfl, rfl, rfl⟩ := h
      refine .inr ⟨rfl, submit_moves u _, hfull, ?_⟩
      have hnone := (u.submit (takes.headD 0)).getSqe_eq_none.1 hg'
      simp only [room, IoUring.submit, and_true] at hnone hfull ⊢
      omega

/-- A full ring with a kernel that takes nothing is the only way to get no entry. -/
def IoUring.obtains (u : IoUring) (taken : Nat) : Bool := 0 < u.room || 0 < min taken u.ringEntries

/-- Whether each of `count` requests gets an entry when `room` slots are free
to begin with and the kernel takes entries as `takes` says. -/
def everyRequestFits (ringEntries : Nat) : (room count : Nat) → (takes : List Nat) → Bool
  | _, 0, _ => true
  | room + 1, count + 1, takes => everyRequestFits ringEntries room count takes
  | 0, count + 1, takes =>
    0 < min (takes.headD 0) ringEntries &&
      everyRequestFits ringEntries (min (takes.headD 0) ringEntries - 1) count takes.tail

/-- Whether the `i`-th request of the batch gets an entry, the others or not. -/
def getsEntry (ringEntries : Nat) : (room i : Nat) → (takes : List Nat) → Bool
  | _ + 1, 0, _ => true
  | 0, 0, takes => 0 < min (takes.headD 0) ringEntries
  | room + 1, i + 1, takes => getsEntry ringEntries room i takes
  | 0, i + 1, takes => getsEntry ringEntries (min (takes.headD 0) ringEntries - 1) i takes.tail

namespace SubmissionQueue

theorem prepare_cases {q q' : SubmissionQueue} {x : Pending} {takes takes' : List Nat} {st : AddRequestStatus}
    (h : q.prepare x takes = .ok (st, q', takes')) :
    q' = { q with ring := q'.ring } ∧
      ((∃ b, RequestPool.find q.requestPool x.ptr = some b ∧ Moves q.ring q'.ring [entryFor x b.request] ∧
          st = .ok ∧
          ((0 < q.ring.room ∧ q'.ring.room = q.ring.room - 1 ∧ takes' = takes) ∨
            (q.ring.room = 0 ∧ 0 < min (takes.headD 0) q.ring.ringEntries ∧
              q'.ring.room = min (takes.headD 0) q.ring.ringEntries - 1 ∧ takes' = takes.tail))) ∨
        (Moves q.ring q'.ring [] ∧ st = .queueFull ∧ q.ring.room = 0 ∧
          min (takes.headD 0) q.ring.ringEntries = 0 ∧ q'.ring.room = 0 ∧ takes' = takes.tail)) := by
  unfold prepare at h
  split at h
  · rename_i u takes₁ hg
    simp only [Except.ok.injEq, Prod.mk.injEq] at h
    obtain ⟨rfl, rfl, rfl⟩ := h
    rcases getNew_cases _ _ hg with ⟨_, hn, -⟩ | ⟨-, hm, hnone⟩
    · cases hn
    · exact ⟨rfl, .inr ⟨hm, rfl, hnone⟩⟩
  · rename_i slot u takes₁ hg
    split at h
    · cases h
    · rename_i b hb
      simp only [Except.ok.injEq, Prod.mk.injEq] at h
      obtain ⟨rfl, rfl, rfl⟩ := h
      rcases getNew_cases _ _ hg with ⟨slot', hs, hm, hroom⟩ | ⟨hn, -⟩
      · cases hs
        exact ⟨rfl, .inl ⟨b, hb, hm fun _ => entryFor x b.request, rfl, hroom⟩⟩
      · cases hn

/-- The loop prepares an entry for some of the requests, in order: each from
the block its pointer leads to. It counts all of them, and all of them get an
entry exactly when they fit. -/
theorem prepareEach_spec {xs : List Pending} {n n' : Nat} {q q' : SubmissionQueue} {takes takes' : List Nat}
    (h : prepareEach xs n q takes = .ok (n', q', takes')) :
    n' = n + xs.length ∧ q' = { q with ring := q'.ring } ∧
      ∃ got : List (Pending × Block), (got.map (·.1)).Sublist xs ∧
        (∀ g ∈ got, RequestPool.find q.requestPool g.1.ptr = some g.2) ∧
        Moves q.ring q'.ring (got.map fun g => entryFor g.1 g.2.request) ∧
        (got.length = xs.length ↔ everyRequestFits q.ring.ringEntries q.ring.room xs.length takes = true) := by
  induction xs generalizing n q takes with
  | nil =>
    simp only [prepareEach, Except.ok.injEq, Prod.mk.injEq] at h
    obtain ⟨rfl, rfl, rfl⟩ := h
    exact ⟨rfl, rfl, [], .slnil, by simp, Moves.refl _, by simp [everyRequestFits]⟩
  | cons x xs ih =>
    simp only [prepareEach] at h
    split at h
    · cases h
    · rename_i st q₁ takes₁ hp
      obtain ⟨hn, hq, got, hsub, hfind, hmoves, hiff⟩ := ih h
      obtain ⟨hq₁, hcase⟩ := prepare_cases hp
      have hpool : q₁.requestPool = q.requestPool := by rw [hq₁]
      rw [hpool] at hfind
      refine ⟨by rw [hn, List.length_cons]; omega, by rw [hq, hq₁], ?_⟩
      rcases hcase with ⟨b, hb, hm, -, hroom⟩ | ⟨hm, -, h0, hk, -⟩
      · refine ⟨(x, b) :: got, by simpa using hsub, ?_, hm.trans hmoves, ?_⟩
        · intro g hg
          rcases List.mem_cons.1 hg with rfl | hg
          · exact hb
          · exact hfind g hg
        · rw [List.length_cons, List.length_cons, Nat.add_right_cancel_iff, hiff, hm.ringEntries]
          rcases hroom with ⟨h1, h2, rfl⟩ | ⟨h1, h2, h3, rfl⟩
          · obtain ⟨r, hr⟩ := Nat.exists_eq_succ_of_ne_zero (Nat.ne_of_gt h1)
            rw [h2, hr]; rfl
          · rw [h3, h1]
            simp only [everyRequestFits, h2, decide_true, Bool.true_and]
      · refine ⟨got, hsub.trans (List.sublist_cons_self ..), hfind, hm.trans hmoves, ?_⟩
        have hlen := hsub.length_le
        rw [List.length_map] at hlen
        simp only [List.length_cons, h0, everyRequestFits, hk]
        simp only [Nat.lt_irrefl, decide_false, Bool.false_and, Bool.false_eq_true, iff_false]
        omega

theorem preparePendingRequests_spec {q q' : SubmissionQueue} {takes : List Nat} {n : Nat}
    (h : q.preparePendingRequests takes = .ok (n, q')) :
    n = q.pendingRequests.toList.length ∧ q' = { q with ring := q'.ring, pendingRequests := {} } ∧
      ∃ got : List (Pending × Block), (got.map (·.1)).Sublist q.pendingRequests.toList ∧
        (∀ g ∈ got, RequestPool.find q.requestPool g.1.ptr = some g.2) ∧
        Moves q.ring q'.ring (got.map fun g => entryFor g.1 g.2.request) ∧
        (got.length = q.pendingRequests.toList.length ↔
          everyRequestFits q.ring.ringEntries q.ring.room q.pendingRequests.toList.length takes = true) := by
  unfold preparePendingRequests at h
  split at h
  · cases h
  · rename_i q₁ takes₁ hp
    simp only [Except.ok.injEq, Prod.mk.injEq] at h
    obtain ⟨rfl, rfl⟩ := h
    obtain ⟨hn, hq, hgot⟩ := prepareEach_spec hp
    exact ⟨by omega, by rw [hq], hgot⟩

/-- A request that gets an entry is among those an entry was prepared for. -/
theorem prepareEach_gets {xs : List Pending} {n n' i : Nat} {q q' : SubmissionQueue} {x : Pending} {takes takes' : List Nat}
    (h : prepareEach xs n q takes = .ok (n', q', takes')) (hx : xs[i]? = some x)
    (hg : getsEntry q.ring.ringEntries q.ring.room i takes = true) :
    ∃ new, Moves q.ring q'.ring new ∧ ∃ e ∈ new, e.owner = some (.request x.id) := by
  induction xs generalizing i n q takes with
  | nil => cases hx
  | cons y ys ih =>
    simp only [prepareEach] at h
    split at h
    · cases h
    · rename_i st q₁ takes₁ hp
      obtain ⟨-, -, got, -, -, hrest, -⟩ := prepareEach_spec h
      cases i with
      | zero =>
        -- the next one
        cases hx
        rcases (prepare_cases hp).2 with ⟨b, -, hm, -⟩ | ⟨-, -, h0, hk, -⟩
        · exact ⟨_, hm.trans hrest, _, List.mem_append_left _ (List.mem_singleton_self _), rfl⟩
        · rw [h0, getsEntry, hk] at hg
          cases hg
      | succ i =>
        -- a later one: the state of the ring is what `getsEntry` says it is
        rcases (prepare_cases hp).2 with ⟨b, -, hm, -, hroom⟩ | ⟨hm, -, h0, hk, hroom, rfl⟩
        · have hg₁ : getsEntry q₁.ring.ringEntries q₁.ring.room i takes₁ = true := by
            rcases hroom with ⟨h1, h2, rfl⟩ | ⟨h1, -, h3, rfl⟩
            · obtain ⟨r, hr⟩ := Nat.exists_eq_succ_of_ne_zero (Nat.ne_of_gt h1)
              rw [hr] at hg h2
              rw [hm.ringEntries, h2]
              exact hg
            · rw [h1] at hg
              rw [hm.ringEntries, h3]
              exact hg
          obtain ⟨new, hnew, e, he, ho⟩ := ih h hx hg₁
          exact ⟨_, hm.trans hnew, e, List.mem_append_right _ he, ho⟩
        · have hg₁ : getsEntry q₁.ring.ringEntries q₁.ring.room i takes.tail = true := by
            rw [h0, getsEntry, hk] at hg
            rw [hm.ringEntries, hroom]
            exact hg
          obtain ⟨new, hnew, e, he, ho⟩ := ih h hx hg₁
          exact ⟨_, hm.trans hnew, e, List.mem_append_right _ he, ho⟩

/-- Preparing fails only on a pointer without a block. -/
theorem prepareEach_ok {xs : List Pending} {n : Nat} {q : SubmissionQueue} {takes : List Nat}
    (hx : ∀ x ∈ xs, ∃ b, RequestPool.find q.requestPool x.ptr = some b) :
    ∃ r, prepareEach xs n q takes = .ok r := by
  induction xs generalizing n q takes with
  | nil => exact ⟨_, rfl⟩
  | cons x xs ih =>
    obtain ⟨b, hb⟩ := hx x List.mem_cons_self
    have hp : ∃ r, q.prepare x takes = .ok r := by
      unfold prepare
      split
      · exact ⟨_, rfl⟩
      · simp [hb]
    obtain ⟨⟨st, q₁, takes₁⟩, hp⟩ := hp
    simp only [prepareEach, hp]
    apply ih
    intro y hy
    rw [(prepare_cases hp).1]
    exact hx y (List.mem_cons_of_mem _ hy)

/-- `submit` prepares the pending requests and, if there were any, enters the kernel. -/
theorem submit_spec {q q' : SubmissionQueue} {timeout : Int} {reply : SubmitReply} {st : SubmitStatus}
    (h : q.submit timeout reply = .ok (st, q')) :
    ∃ n q₁, q.preparePendingRequests reply.takes = .ok (n, q₁) ∧
      ((n = 0 ∧ q' = q₁) ∨ (n ≠ 0 ∧ q' = { q₁ with ring := q₁.ring.submit reply.taken })) := by
  unfold submit at h
  split at h
  · cases h
  · rename_i n q₁ hp
    refine ⟨n, q₁, hp, ?_⟩
    split at h
    · rename_i hn
      simp only [Except.ok.injEq, Prod.mk.injEq] at h
      exact .inl ⟨hn, h.2.symm⟩
    · rename_i hn
      refine .inr ⟨hn, ?_⟩
      dsimp only at h
      split at h
      · simp only [Except.ok.injEq, Prod.mk.injEq] at h
        exact h.2.symm
      · split at h <;>
        · simp only [Except.ok.injEq, Prod.mk.injEq] at h
          exact h.2.symm

/-- What a whole `submit` does to the entries, whichever way it returns. -/
theorem submit_moves {q q' : SubmissionQueue} {timeout : Int} {reply : SubmitReply} {st : SubmitStatus}
    (h : q.submit timeout reply = .ok (st, q')) :
    q' = { q with ring := q'.ring, pendingRequests := {} } ∧
      ∃ got : List (Pending × Block), (got.map (·.1)).Sublist q.pendingRequests.toList ∧
        (∀ g ∈ got, RequestPool.find q.requestPool g.1.ptr = some g.2) ∧
        Moves q.ring q'.ring (got.map fun g => entryFor g.1 g.2.request) ∧
        (got.length = q.pendingRequests.toList.length ↔
          everyRequestFits q.ring.ringEntries q.ring.room q.pendingRequests.toList.length reply.takes = true) := by
  obtain ⟨n, q₁, hp, hq⟩ := submit_spec h
  obtain ⟨-, hq₁, got, hsub, hfind, hmoves, hiff⟩ := preparePendingRequests_spec hp
  rcases hq with ⟨-, rfl⟩ | ⟨-, rfl⟩
  · exact ⟨hq₁, got, hsub, hfind, hmoves, hiff⟩
  · refine ⟨by rw [hq₁], got, hsub, hfind, ?_, hiff⟩
    simpa using hmoves.trans (q₁.ring.submit_moves reply.taken)

theorem submit_gets {q q' : SubmissionQueue} {timeout : Int} {reply : SubmitReply} {st : SubmitStatus} {i : Nat}
    {x : Pending} (h : q.submit timeout reply = .ok (st, q')) (hx : q.pendingRequests.toList[i]? = some x)
    (hg : getsEntry q.ring.ringEntries q.ring.room i reply.takes = true) :
    ∃ new, Moves q.ring q'.ring new ∧ ∃ e ∈ new, e.owner = some (.request x.id) := by
  obtain ⟨n, q₁, hp, hq⟩ := submit_spec h
  unfold preparePendingRequests at hp
  split at hp
  · cases hp
  · rename_i hprep
    cases hp
    obtain ⟨new, hnew, hown⟩ := prepareEach_gets hprep hx hg
    rcases hq with ⟨-, rfl⟩ | ⟨-, rfl⟩
    · exact ⟨new, hnew, hown⟩
    · exact ⟨new, by simpa using hnew.trans (IoUring.submit_moves _ reply.taken), hown⟩

/-- `cancel` prepares its entry over what the slot's last user left, or nothing. -/
theorem cancel_cases (q : SubmissionQueue) (fd : Fd) (takes : List Nat) :
    q.cancel fd takes = { q with ring := (q.cancel fd takes).ring, cancels := q.cancels + 1 } ∧
      ((q.ring.obtains (takes.headD 0) = true ∧
          Moves q.ring (q.cancel fd takes).ring [⟨.cancelFd fd, q.ring.leftOver, some (.cancel q.cancels)⟩]) ∨
        (q.ring.obtains (takes.headD 0) = false ∧ Moves q.ring (q.cancel fd takes).ring [])) := by
  simp only [cancel, IoUring.obtains]
  split
  · rename_i u _ hg
    rcases getNew_cases _ _ hg with ⟨_, hn, -⟩ | ⟨-, hm, h0, hk, -⟩
    · cases hn
    · exact ⟨rfl, .inr ⟨by simp only [h0, hk]; rfl, hm⟩⟩
  · rename_i slot u _ hg
    rcases getNew_cases _ _ hg with ⟨slot', hs, hm, hroom⟩ | ⟨hn, -⟩
    · cases hs
      refine ⟨rfl, .inl ⟨?_, hm fun e => { e with prep := .cancelFd fd, owner := some (.cancel q.cancels) }⟩⟩
      rcases hroom with ⟨h1, -⟩ | ⟨-, h2, -⟩
      · simp only [h1, decide_true, Bool.true_or]
      · simp only [h2, decide_true, Bool.or_true]
    · cases hn

theorem read_eq_ok {pool : List Block} {p : Nat} {b : Block} (h : RequestPool.read pool p = .ok b) :
    p ≠ 0 ∧ RequestPool.find pool p = some b := by
  unfold RequestPool.read at h
  split at h
  · cases h
  · rename_i hp
    split at h
    · cases h; exact ⟨hp, by assumption⟩
    · cases h

theorem find_some {pool : List Block} {p : Nat} {b : Block} (h : RequestPool.find pool p = some b) :
    b ∈ pool ∧ b.addr = p :=
  ⟨List.mem_of_find?_eq_some h, by simpa using List.find?_some h⟩

/-- Processing a completion gives a single-shot request's block back, and only that. -/
theorem release_cases {q q' : SubmissionQueue} {cqe : Cqe} (h : q.release cqe = .ok q') :
    ∃ b, cqe.userData ≠ 0 ∧ RequestPool.find q.requestPool cqe.userData = some b ∧
      ((q' = q ∧ (b.header.valid = false ∨ b.header.op.multishot = true)) ∨
        (b.header.valid = true ∧ b.header.op.multishot = false ∧ b.request.op = b.header.op ∧
          q' = { q with
            requestPool := q.requestPool.filter (·.addr ≠ b.addr)
            returned := q.returned ++ [⟨cqe.owner, b.id, b.header.op⟩] })) := by
  unfold release at h
  split at h
  · cases h
  · rename_i b hb
    obtain ⟨hne, hfind⟩ := read_eq_ok hb
    refine ⟨b, hne, hfind, ?_⟩
    split at h
    · rename_i hv
      cases h
      exact .inl ⟨rfl, .inl (by simpa using hv)⟩
    · rename_i hv
      split at h
      · cases h; exact .inl ⟨rfl, .inr (by simp_all [Operation.multishot])⟩
      · cases h; exact .inl ⟨rfl, .inr (by simp_all [Operation.multishot])⟩
      all_goals
        rename_i hop
        unfold deallocate at h
        split at h
        · rename_i ht
          cases h
          exact .inr ⟨by simpa using hv, by rw [hop]; rfl, by rw [hop, ht], by rw [hop]⟩
        · cases h

/-- Giving a block back is all `release` can do. -/
theorem release_same {q q' : SubmissionQueue} {cqe : Cqe} (h : q.release cqe = .ok q') :
    q' = { q with requestPool := q'.requestPool, returned := q'.returned } := by
  obtain ⟨b, -, -, ⟨rfl, -⟩ | ⟨-, -, -, rfl⟩⟩ := release_cases h <;> rfl

end SubmissionQueue

end RingNet
