import RingNet.Rings
/-!
# Pushes from several threads

`SubmissionQueue::push` step by step, while any number of threads are in it and
the loop's own thread goes on: the block is allocated, the request is moved to
the block, and its address is appended to the waiting list. Only the last part
is done under `pending_requests_mutex`, which `preparePendingRequests` holds
too, so that these two are one step each. The pool has no lock
(`std::pmr::unsynchronized_pool_resource`): as long as its calls do not overlap
it hands out blocks that are not in use; once two calls of it have run at the
same time, it may hand out any (`raced`).

A run in which no calls of the pool overlap is one of the rings with `add` in
one step (`rings_run`), each push taking place when it appends. For such a run
`pushes_submitted_in_order` says what is in the submission entries, as they are
in memory, where sizes have 32 bits.
-/

namespace RingNet

open Lib

/-- How far a call of `push` has come. -/
inductive PushStage
  | allocating
  | allocated (addr : Nat)
  | filled (addr : Nat)
  | appended
  deriving DecidableEq, Repr

/-- A call of `push`, for the request that `add` has completed. -/
structure Push where
  request : Request
  subscriber : Option SubscriberId
  stage : PushStage := .allocating
  deriving DecidableEq, Repr

/-- The block that only this call knows of. -/
def Push.block (p : Push) : Option Nat :=
  match p.stage with
  | .allocated addr | .filled addr => some addr
  | .allocating | .appended => none

/-- `pushes` are all calls of `push` there have been, and `memory` is what was last moved to a block. -/
structure Threads where
  rings : Rings
  pushes : List Push := []
  memory : Nat → Option (Request × Option SubscriberId) := fun _ => none
  /-- The loop's thread is in `RequestPool::deallocate`. -/
  releasing : Bool := false
  raced : Bool := false

namespace Threads

open EventLoop

inductive Step
  | call (request : Request) (subscriber : Option SubscriberId)
  | allocated (i : Nat) (addr : Nat)
  | fill (i : Nat)
  | append (i : Nat)
  | deallocate
  | loop (a : Action)
  deriving DecidableEq, Repr

/-- A loop with `2 ^ k` submission slots. -/
def new (k : Nat) : Threads := { rings := .new k }

/-- A thread is in `RequestPool::allocate`. -/
def allocating (s : Threads) : Bool := s.pushes.any (·.stage == .allocating)

/-- A thread is in the pool. -/
def inPool (s : Threads) : Bool := s.releasing || s.allocating

/-- The block at `addr` is neither in use nor about to be. -/
def free (s : Threads) (addr : Nat) : Bool :=
  RequestPool.free s.rings.loop.pool addr && s.pushes.all (·.block != some addr)

/-- What `release` will do next is to give a block back. -/
def givesBack (l : EventLoop) : Bool :=
  match l.phase with
  | .handling _ _ cqe _ =>
    (RequestPool.find l.pool cqe.userData).any fun b => b.header.valid && !b.header.op.multishot
  | _ => false

/-- `*ptr = std::move(request)`: whoever has the block has the request in it. -/
def moveTo (pool : List Block) (addr : Nat) (request : Request) (subscriber : Option SubscriberId) : List Block :=
  pool.map fun b => if b.addr = addr then { b with header := request.header subscriber, request } else b

/-- `pending_requests.push(ptr)`. The block is one of the queue's from now on, with what is in it now. -/
def appendTo (q : SubmissionQueue) (request : Request) (subscriber : Option SubscriberId) (addr : Nat)
    (content : Request × Option SubscriberId) : SubmissionQueue :=
  let id := q.accepted.length
  { q with
    requestPool := ⟨addr, content.1.header content.2, content.1, id⟩ :: q.requestPool
    pendingRequests := q.pendingRequests.push request.op ⟨addr, id⟩
    accepted := q.accepted ++ [⟨request, subscriber, addr⟩] }

def withQueue (p : Rings) (q : SubmissionQueue) : Rings := { p with loop := { p.loop with submissionQueue := q } }

/-- What the loop's thread and the kernel can do: `add` is in pieces here, and
`release` gives a block back when it is in `deallocate`. -/
def possible (s : Threads) : Action → Bool
  | .add .. => false
  | .callbackReturn => s.releasing || !givesBack s.rings.loop
  | _ => true

def step (s : Threads) : Step → Except Stop Threads
  | .call request subscriber =>
    .ok { s with pushes := s.pushes ++ [⟨stored request, subscriber, .allocating⟩], raced := s.raced || s.inPool }
  | .allocated i addr =>
    match s.pushes[i]? with
    | some ⟨request, subscriber, .allocating⟩ =>
      if addr ≠ 0 ∧ addr < 2 ^ 64 ∧ (s.raced || s.free addr) = true then
        .ok { s with pushes := s.pushes.set i ⟨request, subscriber, .allocated addr⟩ }
      else .error .disabled
    | _ => .error .disabled
  | .fill i =>
    match s.pushes[i]? with
    | some ⟨request, subscriber, .allocated addr⟩ =>
      let q := s.rings.loop.submissionQueue
      .ok { s with
        rings := withQueue s.rings { q with requestPool := moveTo q.requestPool addr request subscriber }
        pushes := s.pushes.set i ⟨request, subscriber, .filled addr⟩
        memory := Function.update s.memory addr (some (request, subscriber)) }
    | _ => .error .disabled
  | .append i =>
    match s.pushes[i]? with
    | some ⟨request, subscriber, .filled addr⟩ =>
      match s.memory addr with
      | some content =>
        .ok { s with
          rings := withQueue s.rings (appendTo s.rings.loop.submissionQueue request subscriber addr content)
          pushes := s.pushes.set i ⟨request, subscriber, .appended⟩ }
      | none => .error .disabled
    | _ => .error .disabled
  | .deallocate =>
    if givesBack s.rings.loop && !s.releasing then .ok { s with releasing := true, raced := s.raced || s.allocating }
    else .error .disabled
  | .loop a =>
    if s.possible a then
      match s.rings.step a with
      | .error e => .error e
      | .ok rings => .ok { s with rings, releasing := s.releasing && a != .callbackReturn }
    else .error .disabled

/-! ## The conditions -/

/-- The addresses and sizes of the requests fit into an entry's fields. -/
def Fits (_ : Threads) : Step → Prop
  | .call request _ => request.prep.fits
  | _ => True

/-- No thread enters the pool while another one is in it. -/
def OneAtATime (s : Threads) : Step → Prop
  | .call .. => s.inPool = false
  | .deallocate => s.allocating = false
  | _ => True

/-- Nothing is cancelled. -/
def Kept (s : Threads) : Step → Prop
  | .loop a => Rings.NotCancelled s.rings a
  | _ => True

def Orderly (s : Threads) (x : Step) : Prop := Fits s x ∧ OneAtATime s x ∧ Kept s x

instance (s : Threads) : (x : Step) → Decidable (Fits s x)
  | .call request _ => inferInstanceAs (Decidable request.prep.fits)
  | .allocated .. | .fill _ | .append _ | .deallocate | .loop _ => inferInstanceAs (Decidable True)

instance (s : Threads) : (x : Step) → Decidable (OneAtATime s x)
  | .call .. => inferInstanceAs (Decidable (s.inPool = false))
  | .deallocate => inferInstanceAs (Decidable (s.allocating = false))
  | .allocated .. | .fill _ | .append _ | .loop _ => inferInstanceAs (Decidable True)

instance (s : Threads) : (x : Step) → Decidable (Kept s x)
  | .loop a => inferInstanceAs (Decidable (Rings.NotCancelled s.rings a))
  | .call .. | .allocated .. | .fill _ | .append _ | .deallocate => inferInstanceAs (Decidable True)

instance (s : Threads) (x : Step) : Decidable (Orderly s x) :=
  inferInstanceAs (Decidable (Fits s x ∧ OneAtATime s x ∧ Kept s x))

/-! ## What a step does -/

inductive Effect (s : Threads) : Step → Threads → Prop
  | call {request subscriber} : Effect s (.call request subscriber)
      { s with pushes := s.pushes ++ [⟨stored request, subscriber, .allocating⟩], raced := s.raced || s.inPool }
  | allocated {i addr request subscriber} : s.pushes[i]? = some ⟨request, subscriber, .allocating⟩ → addr < 2 ^ 64 →
      (s.raced = true ∨ s.free addr = true) →
      Effect s (.allocated i addr) { s with pushes := s.pushes.set i ⟨request, subscriber, .allocated addr⟩ }
  | fill {i addr request subscriber} : s.pushes[i]? = some ⟨request, subscriber, .allocated addr⟩ →
      Effect s (.fill i) { s with
        rings := withQueue s.rings { s.rings.loop.submissionQueue with
          requestPool := moveTo s.rings.loop.pool addr request subscriber }
        pushes := s.pushes.set i ⟨request, subscriber, .filled addr⟩
        memory := Function.update s.memory addr (some (request, subscriber)) }
  | append {i addr request subscriber content} : s.pushes[i]? = some ⟨request, subscriber, .filled addr⟩ →
      s.memory addr = some content →
      Effect s (.append i) { s with
        rings := withQueue s.rings (appendTo s.rings.loop.submissionQueue request subscriber addr content)
        pushes := s.pushes.set i ⟨request, subscriber, .appended⟩ }
  | deallocate : Effect s .deallocate { s with releasing := true, raced := s.raced || s.allocating }
  | loop {a rings} : (∀ r sub addr, a ≠ .add r sub addr) → s.rings.step a = .ok rings →
      Effect s (.loop a) { s with rings, releasing := s.releasing && a != .callbackReturn }

theorem step_effect {s s' : Threads} {x : Step} (h : s.step x = .ok s') : Effect s x s' := by
  cases x with
  | call request subscriber =>
    cases h
    exact .call
  | allocated i addr =>
    simp only [step] at h
    split at h
    · rename_i hi
      split at h
      · rename_i hfree
        cases h
        exact .allocated hi hfree.2.1 (by simpa using hfree.2.2)
      · cases h
    · cases h
  | fill i =>
    simp only [step] at h
    split at h
    · rename_i hi
      cases h
      exact .fill hi
    · cases h
  | append i =>
    simp only [step] at h
    split at h
    · rename_i hi
      split at h
      · rename_i hmem
        cases h
        exact .append hi hmem
      · cases h
    · cases h
  | deallocate =>
    simp only [step] at h
    split at h
    · cases h
      exact .deallocate
    · cases h
  | loop a =>
    simp only [step] at h
    split at h
    · rename_i hposs
      split at h
      · cases h
      · rename_i hs
        cases h
        refine .loop ?_ hs
        rintro r sub addr rfl
        cases hposs
    · cases h

/-! ## Without a race -/

/-- What holds of a call of `push` in progress: its block is its own, and has
its request in it once that has been moved there. -/
structure Sound (s : Threads) (p : Push) : Prop where
  stored : stored p.request = p.request
  fits : p.request.prep.fits
  block : ∀ addr, p.block = some addr → RequestPool.free s.rings.loop.pool addr = true ∧ addr < 2 ^ 64
  filled : ∀ addr, p.stage = .filled addr → s.memory addr = some (p.request, p.subscriber)

/-- No two calls have one block, and what was appended fits into an entry. -/
structure Held (s : Threads) : Prop where
  raced : s.raced = false
  sound : ∀ p ∈ s.pushes, Sound s p
  apart : ∀ (i j : Nat) (p q : Push) (addr : Nat), s.pushes[i]? = some p → s.pushes[j]? = some q →
    p.block = some addr → q.block = some addr → i = j
  accepted : ∀ a ∈ s.rings.loop.accepted, a.request.prep.fits ∧ a.addr < 2 ^ 64

theorem held_new (k : Nat) : Held (new k) := by
  refine ⟨rfl, nofun, fun i j p q addr hi => ?_, ?_⟩
  · cases hi
  · intro a ha
    cases ha

theorem stored_stored (r : Request) : stored (stored r) = stored r := by
  cases r <;> rfl

theorem stored_fits (r : Request) : (stored r).prep.fits ↔ r.prep.fits := by
  cases r <;> rfl

/-- Only `append` makes a block one of the queue's. -/
theorem moveTo_free {pool : List Block} {addr : Nat} (h : RequestPool.free pool addr = true) (request : Request)
    (subscriber : Option SubscriberId) : moveTo pool addr request subscriber = pool := by
  have hne := (free_iff.1 h).2
  exact (List.map_congr_left fun b hb => if_neg (hne b hb)).trans (List.map_id' pool)

/-- It goes on to hold while blocks are only taken away. -/
theorem Sound.keep {s s' : Threads} {p : Push} (h : Sound s p)
    (hpool : ∀ b ∈ s'.rings.loop.pool, b ∈ s.rings.loop.pool) (hmem : s'.memory = s.memory) : Sound s' p := by
  refine ⟨h.stored, h.fits, fun addr ha => ?_, fun addr ha => hmem ▸ h.filled addr ha⟩
  obtain ⟨hfree, hlt⟩ := h.block addr ha
  obtain ⟨h0, hne⟩ := free_iff.1 hfree
  exact ⟨free_iff.2 ⟨h0, fun b hb => hne b (hpool b hb)⟩, hlt⟩

theorem get_set {ps : List Push} {i j : Nat} {p q : Push} (h : (ps.set i p)[j]? = some q) :
    (j = i ∧ q = p) ∨ (j ≠ i ∧ ps[j]? = some q) := by
  rw [List.getElem?_set] at h
  split at h
  · rename_i hij
    split at h
    · cases h
      exact .inl ⟨hij.symm, rfl⟩
    · cases h
  · rename_i hij
    exact .inr ⟨Ne.symm hij, h⟩

section Steps
variable {s s' : Threads} (h : Held s)
include h

/-- A step of one call of `push`. -/
theorem Held.set {i : Nat} {p' : Push} (hraced : s'.raced = s.raced) (hp : s'.pushes = s.pushes.set i p')
    (hsound : Sound s' p') (hkeep : ∀ (j : Nat) (q : Push), j ≠ i → s.pushes[j]? = some q → Sound s q → Sound s' q)
    (hapart : ∀ (j : Nat) (q : Push) (addr : Nat), j ≠ i → s.pushes[j]? = some q → p'.block = some addr →
      q.block ≠ some addr)
    (hacc : ∀ a ∈ s'.rings.loop.accepted, a.request.prep.fits ∧ a.addr < 2 ^ 64) : Held s' := by
  refine ⟨hraced.trans h.raced, fun q hq => ?_, fun j₁ j₂ q₁ q₂ addr h₁ h₂ hb₁ hb₂ => ?_, hacc⟩
  · rw [hp] at hq
    obtain ⟨j, hj⟩ := List.getElem?_of_mem hq
    rcases get_set hj with ⟨-, rfl⟩ | ⟨hne, hj⟩
    · exact hsound
    · exact hkeep j q hne hj (h.sound q (List.mem_of_getElem? hj))
  · rw [hp] at h₁ h₂
    rcases get_set h₁ with ⟨rfl, rfl⟩ | ⟨hne₁, hold₁⟩ <;> rcases get_set h₂ with ⟨rfl, rfl⟩ | ⟨hne₂, hold₂⟩
    · rfl
    · exact absurd hb₂ (hapart j₂ q₂ addr hne₂ hold₂ hb₁)
    · exact absurd hb₁ (hapart j₁ q₁ addr hne₁ hold₁ hb₂)
    · exact h.apart j₁ j₂ q₁ q₂ addr hold₁ hold₂ hb₁ hb₂

/-- A call more, which has no block yet. -/
theorem Held.call {request : Request} {subscriber : Option SubscriberId} {raced : Bool} (hfits : request.prep.fits)
    (hraced : raced = false) :
    Held { s with pushes := s.pushes ++ [⟨stored request, subscriber, .allocating⟩], raced } := by
  -- it is not among the calls that have one
  have hold : ∀ {i : Nat} {p : Push} {addr : Nat},
      (s.pushes ++ [⟨stored request, subscriber, .allocating⟩])[i]? = some p → p.block = some addr →
        s.pushes[i]? = some p := by
    intro i p addr hi hb
    rcases Nat.lt_or_ge i s.pushes.length with hlt | hge
    · rwa [List.getElem?_append_left hlt] at hi
    · rw [List.getElem?_append_right hge] at hi
      rw [List.mem_singleton.1 (List.mem_of_getElem? hi)] at hb
      cases hb
  refine ⟨hraced, fun p hp => ?_, fun i j p q addr hi hj hp hq => ?_, h.accepted⟩
  · rcases List.mem_append.1 hp with hp | hp
    · exact (h.sound p hp).keep (fun _ hb => hb) rfl
    · rw [List.mem_singleton.1 hp]
      exact ⟨stored_stored request, (stored_fits request).2 hfits, nofun, nofun⟩
  · exact h.apart i j p q addr (hold hi hp) (hold hj hq) hp hq

theorem Held.allocated {i addr : Nat} {request : Request} {subscriber : Option SubscriberId}
    (hi : s.pushes[i]? = some ⟨request, subscriber, .allocating⟩) (haddr : addr < 2 ^ 64) (hfree : s.free addr = true) :
    Held { s with pushes := s.pushes.set i ⟨request, subscriber, .allocated addr⟩ } := by
  obtain ⟨hpool, hothers⟩ := (Bool.and_eq_true _ _).mp hfree
  obtain ⟨hstored, hfits, -, -⟩ := h.sound _ (List.mem_of_getElem? hi)
  refine h.set rfl rfl ⟨hstored, hfits, fun addr' ha => ?_, nofun⟩ (fun j q _ _ hq => hq.keep (fun _ hb => hb) rfl)
    (fun j q addr' _ hj ha => ?_) h.accepted
  · cases ha
    exact ⟨hpool, haddr⟩
  · cases ha
    simpa using List.all_eq_true.1 hothers q (List.mem_of_getElem? hj)

/-- No other call has the block of a call. -/
theorem Held.block_ne {i j : Nat} {p q : Push} {addr : Nat} (hij : j ≠ i) (hi : s.pushes[i]? = some p)
    (hp : p.block = some addr) (hj : s.pushes[j]? = some q) : q.block ≠ some addr :=
  fun hq => hij (h.apart j i q p addr hj hi hq hp)

/-- Moving the request to the block touches no other one. -/
theorem Held.fill {i addr : Nat} {request : Request} {subscriber : Option SubscriberId}
    (hi : s.pushes[i]? = some ⟨request, subscriber, .allocated addr⟩) :
    Held { s with
      pushes := s.pushes.set i ⟨request, subscriber, .filled addr⟩
      memory := Function.update s.memory addr (some (request, subscriber)) } := by
  obtain ⟨hstored, hfits, hblock, -⟩ := h.sound _ (List.mem_of_getElem? hi)
  refine h.set rfl rfl ⟨hstored, hfits, hblock, fun addr' ha => ?_⟩
    (fun j q hj hq hsound => ⟨hsound.stored, hsound.fits, hsound.block, fun addr' ha => ?_⟩)
    (fun j q addr' hj hq ha => ?_) h.accepted
  · cases ha
    exact Function.update_self ..
  · have hne : addr' ≠ addr := by
      rintro rfl
      exact h.block_ne hj hi rfl hq (by simp only [Push.block, ha])
    exact (Function.update_of_ne hne ..).trans (hsound.filled addr' ha)
  · exact h.block_ne hj hi ha hq

/-- The block that is appended was nobody else's. -/
theorem Held.append {i addr : Nat} {request : Request} {subscriber : Option SubscriberId}
    {content : Request × Option SubscriberId} (hi : s.pushes[i]? = some ⟨request, subscriber, .filled addr⟩) :
    Held { s with
      rings := withQueue s.rings (appendTo s.rings.loop.submissionQueue request subscriber addr content)
      pushes := s.pushes.set i ⟨request, subscriber, .appended⟩ } := by
  obtain ⟨hstored, hfits, hblock, -⟩ := h.sound _ (List.mem_of_getElem? hi)
  refine h.set rfl rfl ⟨hstored, hfits, nofun, nofun⟩
    (fun j q hj hq hsound => ⟨hsound.stored, hsound.fits, fun addr' ha => ?_, hsound.filled⟩)
    (fun j q addr' hj hq ha => ?_) (fun a ha => ?_)
  · obtain ⟨hfree, hlt⟩ := hsound.block addr' ha
    obtain ⟨h0, hne⟩ := free_iff.1 hfree
    refine ⟨free_iff.2 ⟨h0, List.forall_mem_cons.2 ⟨?_, hne⟩⟩, hlt⟩
    rintro rfl
    exact h.block_ne hj hi rfl hq ha
  · cases ha
  · rcases List.mem_append.1 ha with ha | ha
    · exact h.accepted a ha
    · rw [List.mem_singleton.1 ha]
      exact ⟨hfits, (hblock addr rfl).2⟩

/-- The loop's thread takes no block that a call of `push` has. -/
theorem Held.loop {rings : Rings} {releasing : Bool} (hpool : ∀ b ∈ rings.loop.pool, b ∈ s.rings.loop.pool)
    (hacc : rings.loop.accepted = s.rings.loop.accepted) : Held { s with rings, releasing } :=
  ⟨h.raced, fun p hp => (h.sound p hp).keep hpool rfl, h.apart, fun a ha => h.accepted a (hacc ▸ ha)⟩

/-! ## With `add` in one step -/

/-- What is appended is what `add` pushes. -/
theorem Held.add {i addr : Nat} {request : Request} {subscriber : Option SubscriberId}
    {content : Request × Option SubscriberId} (hi : s.pushes[i]? = some ⟨request, subscriber, .filled addr⟩)
    (hmem : s.memory addr = some content) :
    s.rings.step (.add request subscriber addr) =
      .ok (withQueue s.rings (appendTo s.rings.loop.submissionQueue request subscriber addr content)) := by
  obtain ⟨hstored, -, hblock, hfilled⟩ := h.sound _ (List.mem_of_getElem? hi)
  obtain rfl : (request, subscriber) = content := Option.some.inj ((hfilled addr rfl).symm.trans hmem)
  have hadd : (s.rings.loop.add request subscriber addr).2 =
      { s.rings.loop with submissionQueue := s.rings.loop.submissionQueue.push (stored request) subscriber addr } := rfl
  simp only [Rings.step, EventLoop.step, (hblock addr rfl).1, if_true, hadd, show stored request = request from hstored]
  rfl

variable {k : Nat} (hk : k < 31) (hr : Run Rings.step Rings.NotCancelled (.new k) s.rings)
include hk hr

theorem Held.step {x : Step} (hc : Orderly s x) (he : Effect s x s') :
    Held s' ∧ Run Rings.step Rings.NotCancelled (.new k) s'.rings := by
  obtain ⟨hfits, hone, hkept⟩ := hc
  cases he with
  | call => exact ⟨h.call hfits (by rw [h.raced, show s.inPool = false from hone]; rfl), hr⟩
  | allocated hi haddr hfree =>
    rw [h.raced] at hfree
    exact ⟨h.allocated hi haddr (hfree.resolve_left nofun), hr⟩
  | @fill i addr request subscriber hi =>
    have hsame := moveTo_free ((h.sound _ (List.mem_of_getElem? hi)).block addr rfl).1 request subscriber
    rw [hsame]
    exact ⟨h.fill hi, hr⟩
  | @append i addr request subscriber content hi hmem =>
    exact ⟨h.append hi, hr.step (a := .add request subscriber addr) trivial (h.add hi hmem)⟩
  | deallocate =>
    rw [h.raced, show s.allocating = false from hone]
    exact ⟨⟨rfl, fun p hp => (h.sound p hp).keep (fun _ hb => hb) rfl, h.apart, h.accepted⟩, hr⟩
  | @loop a rings hadd hs =>
    obtain ⟨hreach, hagrees⟩ := Rings.agrees_run hk hr.any
    have hl := EventLoop.step_effect (Rings.step_agrees hk hagrees (reach_position hreach) hs).1
    refine ⟨h.loop (fun b hb => ?_) ?_, hr.step hkept hs⟩
    · rcases block_step (reach_position hreach) (reach_traced hreach) hl hb with hold | ⟨r, sub, addr, rfl, -⟩
      · exact hold
      · exact absurd rfl (hadd r sub addr)
    · have hacc := accepted_step hl
      cases a with
      | add r sub addr => exact absurd rfl (hadd r sub addr)
      | _ => exact hacc

end Steps

/-- While no calls of the pool overlap, `push` may be thought of as one step. -/
theorem rings_run {k : Nat} (hk : k < 31) {s : Threads} (h : Run step Orderly (new k) s) :
    Held s ∧ Run Rings.step Rings.NotCancelled (.new k) s.rings :=
  Run.inv (fun s => Held s ∧ Run Rings.step Rings.NotCancelled (.new k) s.rings) ⟨held_new k, .refl⟩
    (fun _ _ _ hi hc hs => hi.1.step hk hi.2 hc (step_effect hs)) h

/-! ## What is in the entries -/

/-- The entry is that of the request pushed `id`-th: it has the request's own
fields, and the address of its block. -/
def IsEntryOf (s : Threads) (x : RawSqe) (id : Nat) : Prop :=
  ∃ a, s.rings.loop.accepted[id]? = some a ∧ x.read = some a.request.prep ∧ x.userData.toNat = a.addr

/-- The entries are those of the requests `ids`: those of each type in the
order in which they were pushed, and no request twice. -/
structure InOrder (s : Threads) (ids : List Nat) : Prop where
  own : List.Forall₂ s.IsEntryOf s.rings.sq.entries ids
  order : ∀ op, (ids.filter (s.rings.loop.isType op)).Sublist (s.rings.loop.pushedIds op)
  once : ids.Nodup

/-- Whose pointer each entry was prepared from. -/
def entryIds (s : Threads) : List Nat := s.rings.loop.produced.filterMap Sqe.requestId

/-- The request pushed `id`-th asks for `p`. -/
def asksFor (s : Threads) (p : Prep) (id : Nat) : Bool := s.rings.loop.accepted[id]?.any (·.request.prep == p)

theorem forall₂_filterMap {α β γ : Type} {R : α → β → Prop} {S : α → γ → Prop} {f : β → Option γ} {xs : List α}
    {ys : List β} (h : List.Forall₂ R xs ys) (hf : ∀ x y, y ∈ ys → R x y → ∃ z, f y = some z ∧ S x z) :
    List.Forall₂ S xs (ys.filterMap f) := by
  induction h with
  | nil => exact .nil
  | cons hxy _ ih =>
    obtain ⟨z, hz, hs⟩ := hf _ _ List.mem_cons_self hxy
    rw [List.filterMap_cons_some hz]
    exact .cons hs (ih fun x y hy => hf x y (List.mem_cons_of_mem _ hy))

section Entries
variable {s : Threads} {es : List RawSqe} {ids : List Nat}

theorem own_asks (h : List.Forall₂ s.IsEntryOf es ids) (p : Prep) :
    es.countP (·.read == some p) = ids.countP (s.asksFor p) := by
  induction h with
  | nil => rfl
  | @cons x id _ _ hx _ ih =>
    obtain ⟨a, ha, hread, -⟩ := hx
    have hasks : (x.read == some p) = s.asksFor p id := by
      simp [asksFor, ha, hread]
    rw [List.countP_cons, List.countP_cons, ih, hasks]

theorem own_pushed (h : List.Forall₂ s.IsEntryOf es ids) : ids ⊆ List.range s.rings.loop.accepted.length := by
  obtain ⟨hlen, hget⟩ := List.forall₂_iff_get.1 h
  intro id hid
  obtain ⟨i, hi, rfl⟩ := List.getElem_of_mem hid
  obtain ⟨a, ha, -⟩ := hget i (hlen ▸ hi) hi
  exact List.mem_range.2 (List.getElem?_eq_some_iff.1 ha).1

/-- No more entries ask for something than requests were pushed that do. -/
theorem InOrder.asks_le (h : InOrder s ids) (p : Prep) :
    s.rings.sq.entries.countP (·.read == some p) ≤ (List.range s.rings.loop.accepted.length).countP (s.asksFor p) := by
  rw [own_asks h.own]
  exact (h.once.subperm (own_pushed h.own)).countP_le _

end Entries

section Runs
variable {k : Nat} (hk : k < 31) {s : Threads} (h : Run step Orderly (new k) s)
include hk h

/-- Each entry is filled from the request its pointer was appended for. -/
theorem entries_own : List.Forall₂ s.IsEntryOf s.rings.sq.entries s.entryIds := by
  obtain ⟨hheld, hr⟩ := rings_run hk h
  have hfaithful := (faithful_ordered_run (Rings.notCancel_loop hk hr)).1
  refine forall₂_filterMap ((Rings.agrees_run hk hr.any).2.sq.entries (by omega)) fun x e he hentry => ?_
  obtain ⟨id, a, ha, rfl⟩ := hfaithful e he
  obtain ⟨hfits, haddr⟩ := hheld.accepted a (List.mem_of_getElem? ha)
  refine ⟨id, rfl, a, ha, ?_, ?_⟩
  · rw [hentry.read]
    exact congrArg some (a.request.prep.narrow_eq_iff.2 hfits)
  · rw [hentry.userData, UInt64.toNat_ofNat']
    exact Nat.mod_eq_of_lt haddr

theorem inOrder_run : InOrder s s.entryIds := by
  have hl := Rings.notCancel_loop hk (rings_run hk h).2
  obtain ⟨hfaithful, hordered⟩ := faithful_ordered_run hl
  refine ⟨entries_own hk h, fun op => ((submission_order hl).1 op).1, List.nodup_iff_count_le_one.2 fun id => ?_⟩
  by_cases hid : id ∈ s.entryIds
  · obtain ⟨e, he, hide⟩ := List.mem_filterMap.1 hid
    obtain ⟨id', a, ha, rfl⟩ := hfaithful e he
    cases hide
    exact countP_isFor s.rings.loop.produced id ▸ hordered.count_le ha
  · rw [List.count_eq_zero_of_not_mem hid]
    exact Nat.zero_le 1

end Runs

/-- For every run without a race and without cancels, of any number of threads
and on a ring of any size, requests being such that they fit into an entry:
the entries, as they are in memory, are in the order of the pushes of each
type, each has the fields of the request it was made for and the address of
its block, and none is made twice; and a `submit` whose kernel calls for lack
of a slot all make room makes one for each pending request, however many there
are. -/
theorem pushes_submitted_in_order {k : Nat} (hk : k < 31) {s : Threads} (h : Run step Orderly (new k) s) :
    InOrder s s.entryIds ∧
      ∀ timeout reply, s.rings.loop.phase = .idle → ∃ s' count q, s.step (.loop (.submit timeout reply)) = .ok s' ∧
        s.rings.loop.submissionQueue.preparePendingRequests reply.takes = .ok (count, q) ∧ InOrder s' s'.entryIds ∧
        ((∀ i, i < q.ring.enters - s.rings.loop.ring.enters → 0 < reply.takes.getD i 0) →
          ∀ x ∈ s.rings.loop.pending, s'.entryIds.count x.id = 1) := by
  refine ⟨inOrder_run hk h, fun timeout reply hidle => ?_⟩
  have hr := (rings_run hk h).2
  have hl := Rings.notCancel_loop hk hr
  obtain ⟨hreach, hagrees⟩ := Rings.agrees_run hk hr.any
  obtain ⟨l, count, q, hs, hp, hall⟩ := (submission_order hl).2.2 timeout reply hidle
  -- the rings can do what the loop does
  obtain ⟨rings, hrings, rfl⟩ : ∃ rings, s.rings.step (.submit timeout reply) = .ok rings ∧ rings.loop = l := by
    rcases Rings.follows hagrees (reach_position hreach) hk hs with ⟨rings, hrings, hloop, -⟩ | ⟨-, ⟨_, _, _, hpost⟩, -⟩
    · exact ⟨rings, hrings, hloop⟩
    · cases hpost
  have hstep : s.step (.loop (.submit timeout reply)) =
      .ok { s with rings, releasing := s.releasing && Action.submit timeout reply != .callbackReturn } := by
    simp only [step, possible, if_true, hrings]
  have hinOrder := inOrder_run hk (h.step (a := .loop (.submit timeout reply)) ⟨trivial, trivial, trivial⟩ hstep)
  refine ⟨_, count, q, hstep, hp, hinOrder, fun htakes x hx => ?_⟩
  exact (countP_isFor _ _).symm.trans (hall (Nat.two_pow_pos k) htakes x hx)

/-- All of a call of `push`, in a block at `addr`. -/
def push (i : Nat) (request : Request) (subscriber : SubscriberId) (addr : Nat) : List Step :=
  [.call request (some subscriber), .allocated i addr, .fill i, .append i]

/-- Two threads push in turns through a ring of one slot; one request is
completed while the other one is still being pushed, a third is pushed from the
callback, and the fourth gets the first one's block. -/
def inTurns : List Step :=
  [.call (.write 5 ⟨4096, 64⟩) (some 7), .allocated 0 100, .call (.write 6 ⟨8192, 32⟩) (some 8), .allocated 1 200,
    .fill 1, .append 1, .loop (.submit 100 { taken := 1, ret := 1 }), .fill 0, .loop (.post 0 32 0), .loop .begin,
    .loop .next] ++ push 2 (.write 6 ⟨12288, 16⟩) 8 300 ++
    [.deallocate, .append 0, .loop .callbackReturn, .loop .next] ++ push 3 (.accept 3) 9 200 ++
    [.loop (.submit 100 { takes := [1, 1], taken := 1, ret := 1 })]

theorem pushes_submitted_in_order_two_threads :
    ∃ s, Run step Orderly (new 0) s ∧ s.rings.sq.entries.map (·.read) =
        [some (.write 6 ⟨8192, 32⟩), some (.multishotAccept 3), some (.write 6 ⟨12288, 16⟩), some (.write 5 ⟨4096, 64⟩)] ∧
      s.entryIds = [0, 3, 1, 2] ∧ InOrder s s.entryIds := by
  obtain ⟨s, hr, hs⟩ := exists_run step (fun s x => decide (Orderly s x)) (fun _ _ => of_decide_eq_true) (new 0) inTurns
    (fun s => s.rings.sq.entries.map (·.read) == [some (.write 6 ⟨8192, 32⟩), some (.multishotAccept 3),
      some (.write 6 ⟨12288, 16⟩), some (.write 5 ⟨4096, 64⟩)] && s.entryIds == [0, 3, 1, 2]) (by decide +kernel)
  simp only [Bool.and_eq_true, beq_iff_eq] at hs
  exact ⟨s, hr, hs.1, hs.2, (pushes_submitted_in_order (by decide) hr).1⟩

/-- Without a race, a write of more than 4 GiB gets an entry for its size
modulo `2 ^ 32`; and with sizes that fit, two threads that are in the pool at
the same time may get one block, and both entries are for what the second one
moved there. -/
theorem pushed_request_without_entry :
    (∃ s, Run step (fun s x => OneAtATime s x ∧ Kept s x) (new 1) s ∧ ∀ ids, ¬ InOrder s ids) ∧
      ∃ s, Run step (fun s x => Fits s x ∧ Kept s x) (new 1) s ∧ ∀ ids, ¬ InOrder s ids := by
  constructor
  · obtain ⟨s, hr, hs⟩ := exists_run step (fun s x => decide (OneAtATime s x ∧ Kept s x)) (fun _ _ => of_decide_eq_true)
      (new 1) (push 0 (.write 5 ⟨4096, 2 ^ 32 + 100⟩) 7 100 ++ [.loop (.submit 100 { taken := 1, ret := 1 })])
      (fun s => decide ((List.range s.rings.loop.accepted.length).countP (s.asksFor (.write 5 ⟨4096, 100⟩)) <
        s.rings.sq.entries.countP (·.read == some (.write 5 ⟨4096, 100⟩)))) (by decide +kernel)
    exact ⟨s, hr, fun ids hin => Nat.not_lt_of_le (hin.asks_le _) (of_decide_eq_true hs)⟩
  · obtain ⟨s, hr, hs⟩ := exists_run step (fun s x => decide (Fits s x ∧ Kept s x)) (fun _ _ => of_decide_eq_true)
      (new 1) [.call (.write 5 ⟨4096, 64⟩) (some 7), .call (.write 6 ⟨8192, 32⟩) (some 8), .allocated 0 100,
        .allocated 1 100, .fill 0, .fill 1, .append 0, .append 1, .loop (.submit 100 { taken := 2, ret := 2 })]
      (fun s => decide ((List.range s.rings.loop.accepted.length).countP (s.asksFor (.write 6 ⟨8192, 32⟩)) <
        s.rings.sq.entries.countP (·.read == some (.write 6 ⟨8192, 32⟩)))) (by decide +kernel)
    exact ⟨s, hr, fun ids hin => Nat.not_lt_of_le (hin.asks_le _) (of_decide_eq_true hs)⟩

end Threads

end RingNet
