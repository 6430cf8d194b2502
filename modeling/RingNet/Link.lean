import RingNet.Wire
/-!
# From one loop to another

Two programs with a loop each and a connection between them. What the first
one's kernel takes of the writes on the socket `out` is a stream (`Wire.lean`);
the second one's kernel takes what comes next of that stream, in pieces of any
size, into the buffers of the multi-shot reads on the socket `inn`
(`Streams.lean`). A single-shot read there takes its bytes too; these go to
the program's own memory, which is not looked at here, and so the results are
about sockets without such reads (`ReadBy`). The loops run on independently.

`heard_is_sent`: what the subscriber at the far end is shown is what was
asked to be written, from its beginning and without a gap, and all of it once
there is nothing on the way any more.
-/

namespace RingNet

open Lib

structure Link where
  sender : Sending
  receiver : Receiving
  /-- How much of the stream has been taken at the far end. -/
  arrived : Nat := 0

namespace Link

inductive Step
  | sender (x : Sending.Step)
  | receiver (x : Receiving.Step)

def new (n m : Nat) : Link := { sender := .new n, receiver := .new m }

/-- The entry of a read that the kernel has at the far end is one on `inn`. -/
def readsFrom (r : Receiving) (inn : Fd) (i : Nat) : Bool :=
  match r.loop.ring.inflight[i]? with
  | some e => e.prep.fd == inn
  | none => false

/-- It is a single-shot read on `inn`. -/
def readsOnce (r : Receiving) (inn : Fd) (i : Nat) : Bool :=
  match r.loop.ring.inflight[i]? with
  | some ⟨.read fd _, _, _⟩ => fd == inn
  | _ => false

/-- How much of the stream has been taken after a step of the far end: what
comes next, by a multi-shot read on `inn` into a buffer of the loop's, or by a
single-shot one, as many bytes as its result says, into the program's own. -/
def taken (r : Receiving) (inn : Fd) (stream : List UInt8) (arrived : Nat) : Receiving.Step → Option Nat
  | .receive i _ data =>
    if readsFrom r inn i then
      if (stream.drop arrived).take data.length = data then some (arrived + data.length) else none
    else some arrived
  | .act (.post i res _) =>
    if readsOnce r inn i then
      if arrived + res.toNat ≤ stream.length then some (arrived + res.toNat) else none
    else some arrived
  | .act _ => some arrived

def step (out inn : Fd) (k : Link) : Step → Except Stop Link
  | .sender x =>
    match k.sender.step x with
    | .error e => .error e
    | .ok sender => .ok { k with sender }
  | .receiver x =>
    match k.receiver.step x, taken k.receiver inn (k.sender.wire out) k.arrived x with
    | .ok receiver, some arrived => .ok { k with receiver, arrived }
    | .error e, _ => .error e
    | _, none => .error .disabled

/-- The writes are awaited and taken whole, and the reads' streams do not end. -/
def Steady (k : Link) : Step → Prop
  | .sender x => Sending.Whole k.sender x
  | .receiver x => Receiving.Open k.receiver x

instance (k : Link) : (x : Step) → Decidable (Steady k x)
  | .sender x => inferInstanceAs (Decidable (Sending.Whole k.sender x))
  | .receiver x => inferInstanceAs (Decidable (Receiving.Open k.receiver x))

/-- What is read from `inn` is read by multi-shot reads of `s`. -/
structure ReadBy (l : EventLoop) (inn : Fd) (s : SubscriberId) : Prop where
  own : ∀ a ∈ l.accepted, a.request.op = .readMultishot → a.request.fd = inn → a.subscriber = some s
  once : ∀ a ∈ l.accepted, a.request.op = .read → a.request.fd ≠ inn

/-! ## What has landed -/

/-- A completion's piece of what the far end has taken from `inn`. -/
def landed (l : EventLoop) (inn : Fd) (c : Cqe) (data : List UInt8) : List UInt8 :=
  match c.owner with
  | some (.request id) =>
    match l.accepted[id]? with
    | some a => if a.request.fd = inn then data else []
    | none => []
  | _ => []

/-- What the far end has taken from `inn`. -/
def landedOn (r : Receiving) (inn : Fd) : List UInt8 :=
  (r.loop.ring.posted.zip r.received).flatMap fun x => landed r.loop inn x.1 x.2

theorem landed_nil (l : EventLoop) (inn : Fd) (c : Cqe) : landed l inn c [] = [] := by
  unfold landed
  split
  · split
    · split <;> rfl
    · rfl
  · rfl

/-- One completion more, or none. -/
theorem landedOn_append {r r' : Receiving} {inn : Fd} (h : Receiving.Arrived r)
    (hacc : ∀ (id : Nat) (a : Accepted), r.loop.accepted[id]? = some a → r'.loop.accepted[id]? = some a)
    {cs : List Cqe} {ds : List (List UInt8)} (hc : r'.loop.ring.posted = r.loop.ring.posted ++ cs)
    (hd : r'.received = r.received ++ ds) :
    landedOn r' inn = landedOn r inn ++ (cs.zip ds).flatMap fun x => landed r'.loop inn x.1 x.2 := by
  obtain ⟨hlen, hget⟩ := List.forall₂_iff_get.1 h
  unfold landedOn
  rw [hc, hd, List.zip_append hlen, List.flatMap_append]
  congr 1
  simp only [List.flatMap_def]
  congr 1
  refine List.map_congr_left fun x hx => ?_
  obtain ⟨i, hi, rfl⟩ := List.getElem_of_mem hx
  rw [List.length_zip] at hi
  obtain ⟨id, a, ho, ha, -⟩ := hget i (by omega) (by omega)
  simp only [List.getElem_zip, List.get_eq_getElem] at ho ⊢
  simp only [landed, ho, ha, hacc id a ha]

/-- The piece of the completion that is being posted. -/
theorem landed_post {n : Nat} {l l' : EventLoop} (h : Run EventLoop.step EventLoop.Subscribed (.new n 0) l) {i : Nat}
    {res : Int} {flags : UInt32} {e : Sqe} (he : EventLoop.Effect l (.post i res flags) l')
    (hin : l.ring.inflight[i]? = some e) (inn : Fd) (data : List UInt8) :
    landed l' inn ⟨e.userData, res, flags, e.owner⟩ data = if e.prep.fd = inn then data else [] := by
  obtain ⟨id, a, ho, ha, hprep⟩ := (EventLoop.subscribed_intact h).entry (EventLoop.subscribed_cancels h) hin
  simp only [landed, ho, EventLoop.accepted_mono he ha, hprep, Request.prep_fd]

/-! ## What a step does -/

inductive Effect (out inn : Fd) (k : Link) : Step → Link → Prop
  | sender {x sender} : k.sender.step x = .ok sender → Effect out inn k (.sender x) { k with sender }
  | receiver {x receiver arrived} : k.receiver.step x = .ok receiver →
      taken k.receiver inn (k.sender.wire out) k.arrived x = some arrived →
      Effect out inn k (.receiver x) { k with receiver, arrived }

theorem step_effect {out inn : Fd} {k k' : Link} {x : Step} (h : k.step out inn x = .ok k') :
    Effect out inn k x k' := by
  unfold step at h
  split at h
  · split at h
    · cases h
    · rename_i hs
      cases h
      exact .sender hs
  · split at h
    · rename_i hs ht
      cases h
      exact .receiver hs ht
    · cases h
    · cases h

section Runs
variable {out inn : Fd} {n m : Nat} {k : Link} (h : Run (step out inn) Steady (new n m) k)
include h

/-- Each end runs on its own. -/
theorem sender_run : Run Sending.step Sending.Whole (.new n) k.sender := by
  refine Run.simulate (·.sender) (fun k x k' _ hc hs => ?_) h
  cases step_effect hs with
  | sender hx => exact Run.refl.step hc hx
  | receiver _ _ => exact .refl

theorem receiver_run : Run Receiving.step Receiving.Open (.new m) k.receiver := by
  refine Run.simulate (·.receiver) (fun k x k' _ hc hs => ?_) h
  cases step_effect hs with
  | sender _ => exact .refl
  | receiver hx _ => exact Run.refl.step hc hx

end Runs

/-! ## The ends agree -/

/-- What has landed is the stream as far as it has been taken. -/
structure InStep (out inn : Fd) (k : Link) : Prop where
  stream : landedOn k.receiver inn = (k.sender.wire out).take k.arrived
  within : k.arrived ≤ (k.sender.wire out).length

theorem sender_step {out inn : Fd} {k : Link} (h : InStep out inn k) {x : Sending.Step} {sender : Sending}
    (he : Sending.Effect k.sender x sender) : InStep out inn { k with sender } := by
  obtain ⟨rest, hrest⟩ := Sending.wire_mono he out
  refine ⟨?_, ?_⟩
  · dsimp only
    rw [← hrest, List.take_append_of_le_length h.within]
    exact h.stream
  · dsimp only
    rw [← hrest, List.length_append]
    exact Nat.le_add_right_of_le h.within

section Steps
variable {r : Receiving} {m : Nat} (hr : Run Receiving.step Receiving.Open (.new m) r)
include hr

/-- Nothing comes with a completion that takes no buffer. -/
theorem act_step {a : Action} {receiver : Receiving} (he : Receiving.Effect r (.act a) receiver) (inn : Fd) :
    landedOn receiver inn = landedOn r inn := by
  cases he with
  | @act _ l hb hl =>
    have he := EventLoop.step_effect hl
    obtain ⟨cs, hcs⟩ : ∃ cs, l.ring.posted = r.loop.ring.posted ++ cs := by
      have hp := EventLoop.posted_step he
      cases a with
      | post i res flags =>
        obtain ⟨e, -, hp⟩ := hp
        exact ⟨_, hp⟩
      | _ => exact ⟨[], by simpa using hp⟩
    rw [landedOn_append (Receiving.arrived_run hr) (fun _ _ ha => EventLoop.accepted_mono he ha) hcs rfl]
    refine (List.append_right_eq_self.2 (List.flatMap_eq_nil_iff.2 fun x hx => ?_))
    rw [List.eq_of_mem_replicate (List.of_mem_zip hx).2]
    exact landed_nil _ _ _

/-- Without single-shot reads on `inn`, what takes no buffer takes nothing from the stream. -/
theorem taken_act {inn : Fd} (honce : ∀ a ∈ r.loop.accepted, a.request.op = .read → a.request.fd ≠ inn)
    (stream : List UInt8) (arrived : Nat) (a : Action) : taken r inn stream arrived (.act a) = some arrived := by
  cases a with
  | post i res flags =>
    refine if_neg ?_
    unfold readsOnce
    split
    · rename_i fd buf data owner hin
      have hsub := Receiving.subscribed_loop hr
      obtain ⟨id, a, -, ha, hprep⟩ := (EventLoop.subscribed_intact hsub).entry (EventLoop.subscribed_cancels hsub) hin
      obtain ⟨request, subscriber, addr⟩ := a
      cases request <;> cases hprep
      have hfd : ¬ fd = inn := honce _ (List.mem_of_getElem? ha) rfl
      simpa using hfd
    · simp
  | _ => rfl

/-- What is read from another socket is not on this stream. -/
theorem receive_step {i : Nat} {flags : UInt32} {data : List UInt8} {receiver : Receiving}
    (he : Receiving.Effect r (.receive i flags data) receiver) (inn : Fd) :
    landedOn receiver inn = landedOn r inn ++ (if readsFrom r inn i then data else []) := by
  cases he with
  | @receive _ _ _ b l hfront hb hlen hl =>
    have he := EventLoop.step_effect hl
    obtain ⟨e, hin, hpost⟩ := EventLoop.posted_step he
    rw [landedOn_append (Receiving.arrived_run hr) (fun _ _ ha => EventLoop.accepted_mono he ha) hpost rfl]
    simp [landed_post (Receiving.subscribed_loop hr) he hin, readsFrom, hin]

end Steps

/-- The accepted requests stay accepted. -/
theorem accepted_keep {r r' : Receiving} {x : Receiving.Step} (h : r.step x = .ok r') {a : Accepted}
    (ha : a ∈ r.loop.accepted) : a ∈ r'.loop.accepted := by
  obtain ⟨id, hid⟩ := List.getElem?_of_mem ha
  have hl : ∃ y, r.loop.step y = .ok r'.loop := by
    cases Receiving.step_effect h with
    | act _ hl => exact ⟨_, hl⟩
    | receive _ _ _ hl => exact ⟨_, hl⟩
  obtain ⟨y, hl⟩ := hl
  exact List.mem_of_getElem? (EventLoop.accepted_mono (EventLoop.step_effect hl) hid)

theorem receiver_step {out inn : Fd} {m : Nat} {k : Link} (h : InStep out inn k)
    (hr : Run Receiving.step Receiving.Open (.new m) k.receiver)
    (honce : ∀ a ∈ k.receiver.loop.accepted, a.request.op = .read → a.request.fd ≠ inn) {x : Receiving.Step}
    {receiver : Receiving} {arrived : Nat} (hx : k.receiver.step x = .ok receiver)
    (htaken : taken k.receiver inn (k.sender.wire out) k.arrived x = some arrived) :
    InStep out inn { k with receiver, arrived } := by
  cases x with
  | act a =>
    rw [taken_act hr honce] at htaken
    cases htaken
    exact ⟨(act_step hr (Receiving.step_effect hx) inn).trans h.stream, h.within⟩
  | receive i flags data =>
    have hland := receive_step hr (Receiving.step_effect hx) inn
    dsimp only [taken] at htaken
    split at htaken
    · rename_i hreads
      split at htaken
      · rename_i hdata
        cases htaken
        refine ⟨?_, ?_⟩
        · dsimp only
          rw [hland, if_pos hreads, h.stream, List.take_add, hdata]
        · have hlen := congrArg List.length hdata
          have hin := h.within
          rw [List.length_take, List.length_drop] at hlen
          dsimp only
          omega
      · cases htaken
    · rename_i hreads
      cases htaken
      refine ⟨?_, h.within⟩
      dsimp only
      rw [hland, if_neg hreads, List.append_nil, h.stream]

theorem inStep_run {out inn : Fd} {n m : Nat} {k : Link} (h : Run (step out inn) Steady (new n m) k)
    (honce : ∀ a ∈ k.receiver.loop.accepted, a.request.op = .read → a.request.fd ≠ inn) : InStep out inn k := by
  -- what was never accepted up to now was not accepted before
  refine Run.inv_of (fun k => Run Receiving.step Receiving.Open (.new m) k.receiver)
    (fun k => (∀ a ∈ k.receiver.loop.accepted, a.request.op = .read → a.request.fd ≠ inn) → InStep out inn k)
    (fun _ hr => receiver_run hr) (fun _ => ⟨rfl, Nat.le_refl _⟩) (fun k x k' hr hi _ hs honce => ?_) h honce
  cases step_effect hs with
  | sender hx => exact sender_step (hi honce) (Sending.step_effect hx)
  | receiver hx htaken =>
    have hbefore := fun a ha => honce a (accepted_keep hx ha)
    exact receiver_step (hi hbefore) hr hbefore hx htaken

/-! ## From one end to the other -/

theorem zip_take {α β : Type} (xs : List α) (ys : List β) (k : Nat) : (xs.take k).zip ys = (xs.zip ys).take k := by
  induction xs generalizing ys k with
  | nil => simp
  | cons x xs ih => cases ys <;> cases k <;> simp [ih]

/-- What a subscriber is shown is what has landed with the completions
dispatched so far, if all reads there are its own. -/
theorem heard_landed {n : Nat} {r : Receiving} (hr : Run Receiving.step Receiving.Open (.new n) r) {inn : Fd}
    {s : SubscriberId}
    (hown : ∀ a ∈ r.loop.accepted, a.request.op = .readMultishot → a.request.fd = inn → a.subscriber = some s) :
    r.heard s inn = ((r.loop.ring.posted.zip r.received).take r.loop.dispatched).flatMap
      fun x => landed r.loop inn x.1 x.2 := by
  rw [← zip_take]
  refine Receiving.heard_flatMap hr fun i v c data hv hc hd => ?_
  rw [Receiving.heardOn_eq hr hv hc hd]
  obtain ⟨data', hd', id, a, ho, ha, hcase⟩ := Receiving.came_with hr hc
  obtain rfl : data = data' := Option.some.inj (hd.symm.trans hd')
  simp only [Receiving.arrivedOn, landed, ho, ha]
  rcases hcase with ⟨-, hop, -⟩ | ⟨-, rfl, -⟩
  · -- what has data is a read, and the reads there are the subscriber's
    by_cases hfd : a.request.fd = inn
    · rw [if_pos ⟨hown a (List.mem_of_getElem? ha) hop hfd, hfd⟩, if_pos hfd]
    · rw [if_neg fun hx => hfd hx.2, if_neg hfd]
  · rw [ite_self, ite_self]

section Runs
variable {out inn : Fd} {s : SubscriberId} {n m : Nat} {k : Link} (h : Run (step out inn) Steady (new n m) k)
  (hown : ReadBy k.receiver.loop inn s)
include h hown

/-- What the subscriber is shown is the stream as far as it was taken and dispatched. -/
theorem heard_stream :
    k.receiver.heard s inn <+: k.sender.wire out ∧
      (k.arrived = (k.sender.wire out).length → k.receiver.loop.dispatched = k.receiver.loop.ring.posted.length →
        k.receiver.heard s inn = k.sender.wire out) := by
  have hstream := (inStep_run h hown.once).stream
  rw [heard_landed (receiver_run h) hown.own]
  constructor
  · have hlanded : landedOn k.receiver inn <+: k.sender.wire out := hstream ▸ List.take_prefix _ _
    exact ((List.take_prefix _ _).flatMap _).trans hlanded
  · intro hwhole hdone
    rw [← List.take_length (l := k.sender.wire out), ← hwhole, ← hstream, hdone, List.take_of_length_le]
    · rfl
    · exact List.length_zip ▸ Nat.min_le_left _ _

/-- In every run of both ends, whatever pieces the stream is taken in and in
whatever order the two loops, their kernels and their programs go on, if only
the multi-shot reads of `s` read from the socket: what `s` is shown is the
beginning of what was asked to be written; and it is all of that when no write
is outstanding, the whole stream has been taken and each completion at the far
end has been dispatched. -/
theorem heard_is_sent :
    k.receiver.heard s inn <+: concat (k.sender.asked out) k.sender.loop.accepted.length ∧
      ((∀ w ∈ k.sender.loop.outstandingWrites, w.1 ≠ out) → k.arrived = (k.sender.wire out).length →
        k.receiver.loop.dispatched = k.receiver.loop.ring.posted.length →
        k.receiver.heard s inn = concat (k.sender.asked out) k.sender.loop.accepted.length) := by
  obtain ⟨hpre, hall⟩ := Sending.wire_prefix (sender_run h) out
  obtain ⟨hheard, hwhole⟩ := heard_stream h hown
  exact ⟨hheard.trans hpre, fun hout harr hdone => (hwhole harr hdone).trans (hall hout)⟩

end Runs

/-- One write taken at the far end in two pieces, the first of them shown
before the writing loop has heard that its write is done, and a read elsewhere
in between. -/
def onePiece : List Step :=
  [.sender (.store 4096 [1, 2, 3]), .sender (.act (.add (.write 5 ⟨4096, 3⟩) (some 7) 100)),
    .sender (.act (.submit 100 { taken := 1, ret := 1 })), .receiver (.act (.add (.multiShotRead 6 0) (some 8) 100)),
    .receiver (.act (.add (.multiShotRead 9 0) (some 8) 200)), .receiver (.act (.submit 100 { taken := 2, ret := 2 })),
    .sender (.transmit 0 3), .receiver (.receive 0 3 [1, 2]), .receiver (.receive 1 65539 [9]),
    .receiver (.act .begin), .receiver (.act .next)]

/-- The rest of the stream. -/
def bothPieces : List Step :=
  onePiece ++ [.receiver (.receive 0 131075 [3]), .sender (.act (.post 0 3 0)), .receiver (.act .callbackReturn),
    .receiver (.act .next), .receiver (.act .callbackReturn), .receiver (.act .next)]

theorem heard_is_sent_pieces :
    (∃ k, Run (step 5 6) Steady (new 2 2) k ∧ k.receiver.heard 8 6 = [1, 2] ∧
      [1, 2] <+: concat (k.sender.asked 5) k.sender.loop.accepted.length) ∧
    ∃ k, Run (step 5 6) Steady (new 2 2) k ∧ k.receiver.heard 8 6 = [1, 2, 3] ∧
      concat (k.sender.asked 5) k.sender.loop.accepted.length = [1, 2, 3] := by
  constructor
  · obtain ⟨k, hr, hk⟩ := exists_run (step 5 6) (fun k x => decide (Steady k x)) (fun _ _ => of_decide_eq_true) (new 2 2)
      onePiece (fun k => k.receiver.heard 8 6 == [1, 2] && k.receiver.loop.accepted.all (·.subscriber == some 8) &&
        k.receiver.loop.accepted.all (·.request.op != .read)) (by decide +kernel)
    simp only [Bool.and_eq_true, beq_iff_eq, bne_iff_ne, ne_eq, List.all_eq_true] at hk
    obtain ⟨⟨hheard, hown⟩, honce⟩ := hk
    exact ⟨k, hr, hheard, hheard ▸ (heard_is_sent hr
      ⟨fun a ha _ _ => hown a ha, fun a ha hop => absurd hop (honce a ha)⟩).1⟩
  · obtain ⟨k, hr, hk⟩ := exists_run (step 5 6) (fun k x => decide (Steady k x)) (fun _ _ => of_decide_eq_true) (new 2 2)
      bothPieces (fun k => k.receiver.heard 8 6 == [1, 2, 3] && k.receiver.loop.accepted.all (·.subscriber == some 8) &&
        k.receiver.loop.accepted.all (·.request.op != .read) && k.sender.loop.outstandingWrites.isEmpty &&
        decide (k.arrived = (k.sender.wire 5).length) &&
        decide (k.receiver.loop.dispatched = k.receiver.loop.ring.posted.length)) (by decide +kernel)
    simp only [Bool.and_eq_true, beq_iff_eq, bne_iff_ne, ne_eq, decide_eq_true_eq, List.isEmpty_iff,
      List.all_eq_true] at hk
    obtain ⟨⟨⟨⟨⟨hheard, hown⟩, honce⟩, hout⟩, harr⟩, hdone⟩ := hk
    have hby : ReadBy k.receiver.loop 6 8 := ⟨fun a ha _ _ => hown a ha, fun a ha hop => absurd hop (honce a ha)⟩
    refine ⟨k, hr, hheard, ?_⟩
    rw [← hheard, (heard_is_sent hr hby).2 (by simp [hout]) harr hdone]

end Link

end RingNet
