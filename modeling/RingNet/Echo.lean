import RingNet.Peer
/-!
# The echo server

`ringnetEchoServer.hpp` over the loop: an acceptor, the connections it has
accepted, and one `send_buffer` for all of them. Whatever a client sends is
copied into that buffer and written back to it. The server's memory is in two
parts, the loop's buffers, which the kernel fills (`Streams.lean`), and the
rest, which the kernel takes the writes' bytes from (`Wire.lean`).

`connections` is a map that is never erased from, so a client descriptor is
not among its keys yet and each connection stays where it is. The handlers of
the connections terminate the program on an error; the acceptor's prints a
text, which is left out.

`echoed_back`: as long as an echo is made only when the one before it has been
taken, each client gets back what it sent. Otherwise it can get back what
another one sent (`echo_mixed_up`).
-/

namespace RingNet

open Lib
open Peer (askedOn quiet)

/-- What a callback of the server is called with. The acceptor's `Subscriber`
is 0, the `k`-th connection's is `k + 1`. -/
inductive EchoServer.Due
  | newConnection (clientFd : Fd)
  | read (k : Nat) (bytesRead : Span)
  deriving DecidableEq, Repr

structure EchoServer extends Peer where
  /-- The sockets of the connections, in the order they were accepted. -/
  connections : List Fd := []
  sendBuffer : Span := ⟨0, 0⟩
  capacity : Nat := 0
  due : Option EchoServer.Due := none

namespace EchoServer

/-- What the loop and the kernels do on their own, the accept request of a
`listen` that succeeded, and the two callbacks; `moved` is where `send_buffer`
is after growing. -/
inductive Step
  | own (x : Peer.Step)
  | listen (listeningFd : Fd) (addr : Nat)
  | onNewConnection (addr : Nat)
  | onRead (moved : Nat) (addr : Nat)

def new (ringEntries : Nat) : EchoServer := { toPeer := .new ringEntries }

/-- What the callback that was called is there for; no others are registered. -/
def callback : Invocation → Option Due
  | .subscriber 0 (.accept clientFd) => some (.newConnection clientFd)
  | .subscriber (k + 1) (.read _ bytes) => some (.read k bytes)
  | _ => none

/-- `std::terminate` in the error callback of a connection. -/
def terminates : Invocation → Bool
  | .subscriber (_ + 1) (.error _) => true
  | _ => false

def goOn (e : EchoServer) (x : Peer.Step) : Except Stop EchoServer :=
  match e.toPeer.step x with
  | .error stop => .error stop
  | .ok toPeer => .ok { e with toPeer }

/-- `send_buffer.resize`, which moves the buffer if there is no room; what it
holds then is copied over next. -/
def resize (e : EchoServer) (size moved : Nat) : EchoServer :=
  { e with
    sendBuffer := ⟨if size ≤ e.capacity then e.sendBuffer.data else moved, size⟩
    capacity := max e.capacity size }

/-- `std::ranges::copy(event.bytes_read, send_buffer.begin())`. -/
def copy (e : EchoServer) (bytesRead : Span) : Except Stop EchoServer :=
  e.goOn (.store e.sendBuffer.data (readAt e.receiving.memory bytesRead.data bytesRead.size))

def step (e : EchoServer) : Step → Except Stop EchoServer
  | .own (.act .next) =>
    match e.goOn (.act .next) with
    | .error stop => .error stop
    | .ok e => .ok { e with due := e.receiving.loop.running.bind callback }
  | .own (.act .callbackReturn) =>
    if e.due.isSome || e.receiving.loop.running.any terminates then .error .disabled
    else e.goOn (.act .callbackReturn)
  | .own x => if quiet x then e.goOn x else .error .disabled
  | .listen listeningFd addr => e.goOn (.act (.add (.accept listeningFd) (some 0) addr))
  | .onNewConnection addr =>
    match e.due with
    | some (.newConnection clientFd) =>
      -- the kernel hands out a number that is not in use
      if clientFd ∈ e.connections then .error .disabled
      else
        { e with connections := e.connections ++ [clientFd], due := none }.goOn
          (.act (.add (.multiShotRead clientFd 0) (some (e.connections.length + 1)) addr))
    | _ => .error .disabled
  | .onRead moved addr =>
    match e.due with
    | some (.read k bytesRead) =>
      match e.connections[k]? with
      | none => .error .disabled
      | some fd =>
        match (e.resize bytesRead.size moved).copy bytesRead with
        | .error stop => .error stop
        | .ok e => { e with due := none }.goOn (.act (.add (.write fd e.sendBuffer) (some (k + 1)) addr))
    | _ => .error .disabled

/-- Streams do not end, writes are taken whole, an echo is made only when no
other is outstanding, and nothing else is stored over one. -/
def Calm (e : EchoServer) : Step → Prop
  | .own x => Peer.Orderly e.toPeer x
  | .onRead .. => e.sending.loop.outstandingWrites = []
  | _ => True

instance (e : EchoServer) : (x : Step) → Decidable (Calm e x)
  | .own x => inferInstanceAs (Decidable (Peer.Orderly e.toPeer x))
  | .onRead .. => inferInstanceAs (Decidable (e.sending.loop.outstandingWrites = []))
  | .listen .. | .onNewConnection .. => inferInstanceAs (Decidable True)

/-! ## What a step does -/

/-- Room is made for what was read, and it is copied there. -/
def filled (e : EchoServer) (bytesRead : Span) (moved : Nat) : EchoServer :=
  let e := e.resize bytesRead.size moved
  let bytes := readAt e.receiving.memory bytesRead.data bytesRead.size
  { e with sending := { e.sending with memory := writeAt e.sending.memory e.sendBuffer.data bytes } }

inductive Effect (e : EchoServer) : Step → EchoServer → Prop
  | own {x p} : quiet x = true → (x = .act .callbackReturn → e.due = none) → e.toPeer.step x = .ok p →
      Effect e (.own x) { e with toPeer := p }
  | next {p} : e.toPeer.step (.act .next) = .ok p →
      Effect e (.own (.act .next)) { e with toPeer := p, due := p.receiving.loop.running.bind callback }
  | listen {fd addr p} : e.toPeer.step (.act (.add (.accept fd) (some 0) addr)) = .ok p →
      Effect e (.listen fd addr) { e with toPeer := p }
  | onNewConnection {fd addr p} : e.due = some (.newConnection fd) → fd ∉ e.connections →
      e.toPeer.step (.act (.add (.multiShotRead fd 0) (some (e.connections.length + 1)) addr)) = .ok p →
      Effect e (.onNewConnection addr) { e with toPeer := p, connections := e.connections ++ [fd], due := none }
  | onRead {k bytesRead fd moved addr p} : e.due = some (.read k bytesRead) → e.connections[k]? = some fd →
      (e.filled bytesRead moved).toPeer.step
        (.act (.add (.write fd (e.filled bytesRead moved).sendBuffer) (some (k + 1)) addr)) = .ok p →
      Effect e (.onRead moved addr) { e.filled bytesRead moved with toPeer := p, due := none }

theorem goOn_eq_ok {e e' : EchoServer} {x : Peer.Step} (h : e.goOn x = .ok e') :
    e.toPeer.step x = .ok e'.toPeer ∧ e' = { e with toPeer := e'.toPeer } := by
  unfold goOn at h
  split at h
  · cases h
  · rename_i p hp
    cases h
    exact ⟨hp, rfl⟩

theorem own_effect {e e' : EchoServer} {x : Peer.Step} (h : e.step (.own x) = .ok e') : Effect e (.own x) e' := by
  unfold step at h
  split at h
  · rename_i heq
    cases heq
    split at h
    · cases h
    · rename_i e₁ hg
      cases h
      obtain ⟨hp, he⟩ := goOn_eq_ok hg
      rw [he]
      exact .next hp
  · rename_i heq
    cases heq
    split at h
    · cases h
    · rename_i hdue
      obtain ⟨hp, he⟩ := goOn_eq_ok h
      simp only [Bool.or_eq_true, not_or] at hdue
      rw [he]
      exact .own rfl (fun _ => by simpa using hdue.1) hp
  · rename_i x' hnext hret heq
    cases heq
    split at h
    · rename_i hq
      obtain ⟨hp, he⟩ := goOn_eq_ok h
      rw [he]
      exact .own hq (fun hx => absurd (congrArg Step.own hx) (by simpa using hret)) hp
    · cases h
  all_goals
    rename_i heq
    cases heq

theorem own_peer {e e' : EchoServer} {x : Peer.Step} (h : e.step (.own x) = .ok e') :
    e.toPeer.step x = .ok e'.toPeer := by
  cases own_effect h with
  | own _ _ hp => exact hp
  | next hp => exact hp

theorem step_effect {e e' : EchoServer} {x : Step} (h : e.step x = .ok e') : Effect e x e' := by
  cases x with
  | own x => exact own_effect h
  | listen fd addr =>
    obtain ⟨hp, he⟩ := goOn_eq_ok h
    rw [he]
    exact .listen hp
  | onNewConnection addr =>
    simp only [step] at h
    split at h
    · rename_i fd hdue
      split at h
      · cases h
      · rename_i hnew
        obtain ⟨hp, he⟩ := goOn_eq_ok h
        rw [he]
        exact .onNewConnection hdue hnew hp
    · cases h
  | onRead moved addr =>
    simp only [step] at h
    split at h
    · rename_i k bytesRead hdue
      split at h
      · cases h
      · rename_i fd hfd
        split at h
        · cases h
        · rename_i e₁ hc
          cases hc
          obtain ⟨hp, he⟩ := goOn_eq_ok h
          rw [he]
          exact .onRead hdue hfd hp
    · cases h

/-! ## The program behind it -/

theorem orderly_add {p : Peer} {r : Request} {s : SubscriberId} {addr : Nat} (hr : ∀ fd bytes, r ≠ .write fd bytes) :
    Peer.Orderly p (.act (.add r (some s) addr)) := by
  refine ⟨rfl, ?_⟩
  cases r with
  | write fd bytes => exact absurd rfl (hr fd bytes)
  | _ => trivial

/-- With nothing outstanding anything may be stored. -/
theorem orderly_store {p : Peer} (h : p.sending.loop.outstandingWrites = []) (addr : Nat) (bytes : List UInt8) :
    Peer.Orderly p (.store addr bytes) := by
  intro w hw
  rw [h] at hw
  cases hw

/-- What a calm step of the server is to the program: nothing is outstanding
that a copy could hit, and requests are completed by steps of its own only. -/
theorem calm_steps {e e' : EchoServer} {x : Step} (hc : Calm e x) (he : Effect e x e') :
    Run Peer.step (fun p y => Peer.Orderly p y ∧ (y.completes = true → x = .own y))
      e.toPeer e'.toPeer := by
  cases he with
  | own _ _ hp => exact Run.refl.step ⟨hc, fun _ => rfl⟩ hp
  | next hp => exact Run.refl.step (a := .act .next) ⟨hc, nofun⟩ hp
  | listen hp | onNewConnection _ _ hp => exact Run.refl.step ⟨orderly_add (by simp), nofun⟩ hp
  | @onRead k bytesRead fd moved addr p _ _ hp =>
    have hnone : e.sending.loop.outstandingWrites = [] := hc
    have hadd : Peer.Orderly (e.filled bytesRead moved).toPeer
        (.act (.add (.write fd (e.filled bytesRead moved).sendBuffer) (some (k + 1)) addr)) := by
      refine ⟨rfl, fun w hx => ?_⟩
      rw [show (e.filled bytesRead moved).sending.loop.outstandingWrites = [] from hnone] at hx
      cases hx
    have hstore : e.toPeer.step (.store (e.filled bytesRead moved).sendBuffer.data
        (readAt e.receiving.memory bytesRead.data bytesRead.size)) = .ok (e.filled bytesRead moved).toPeer := rfl
    exact (Run.refl.step ⟨orderly_store hnone _ _, nofun⟩ hstore).step ⟨hadd, nofun⟩ hp

theorem peer_run {n : Nat} {e : EchoServer} (h : Run step Calm (new n) e) :
    Run Peer.step Peer.Orderly (.new n) e.toPeer :=
  Run.simulate (·.toPeer) (fun _ _ _ _ hc hs => (calm_steps hc (step_effect hs)).mono fun _ _ => And.left) h

theorem filled_run {n : Nat} {e : EchoServer} (h : Run Peer.step Peer.Orderly (.new n) e.toPeer)
    (hnone : e.sending.loop.outstandingWrites = []) (bytesRead : Span) (moved : Nat) :
    Run Peer.step Peer.Orderly (.new n) (e.filled bytesRead moved).toPeer :=
  h.step (a := .store (e.filled bytesRead moved).sendBuffer.data
    (readAt e.receiving.memory bytesRead.data bytesRead.size)) (orderly_store hnone _ _) rfl

/-! ## What is still to be written back -/

/-- What the callback that was called, if any, has not written back yet of what
was read from the `k`-th connection. -/
def rest (e : EchoServer) (k : Nat) : List UInt8 :=
  match e.due with
  | some (.read j _) => if j = k then e.receiving.shown.getLast?.getD [] else []
  | _ => []

/-- A request of the acceptor or of one of the connections. -/
def Made (connections : List Fd) (a : Accepted) : Prop :=
  (∃ fd, a.request = .accept fd) ∧ a.subscriber = some 0 ∨
    ∃ k fd, connections[k]? = some fd ∧ a.subscriber = some (k + 1) ∧
      ((∃ group, a.request = .multiShotRead fd group) ∨ ∃ bytes, a.request = .write fd bytes)

theorem Made.mono {connections : List Fd} {a : Accepted} (h : Made connections a) (fd : Fd) :
    Made (connections ++ [fd]) a := by
  rcases h with h | ⟨k, fd', hk, h⟩
  · exact .inl h
  · refine .inr ⟨k, fd', ?_, h⟩
    rw [List.getElem?_append_left (List.getElem?_eq_some_iff.1 hk).1, hk]

theorem Made.writes {connections : List Fd} {a : Accepted} (h : Made connections a) {fd : Fd} {bytes : Span}
    (hw : a.request = .write fd bytes) : fd ∈ connections := by
  rcases h with ⟨⟨fd', h⟩, -⟩ | ⟨k, fd', hk, -, ⟨group, h⟩ | ⟨span, h⟩⟩
  · rw [hw] at h
    cases h
  · rw [hw] at h
    cases h
  · rw [hw] at h
    cases h
    exact List.mem_of_getElem? hk

theorem Made.subscriber_lt {connections : List Fd} {a : Accepted} (h : Made connections a) {k : Nat}
    (hs : a.subscriber = some (k + 1)) : k < connections.length := by
  rcases h with ⟨-, h0⟩ | ⟨j, fd, hj, hs', -⟩
  · rw [hs] at h0
    cases h0
  · rw [hs, Option.some.injEq, Nat.add_right_cancel_iff] at hs'
    exact hs' ▸ (List.getElem?_eq_some_iff.1 hj).1

structure Echoing (e : EchoServer) : Prop where
  requests : ∀ a ∈ e.receiving.loop.accepted, Made e.connections a
  distinct : e.connections.Nodup
  due : ∀ d, e.due = some d → ∃ what, e.receiving.loop.running = some what ∧ callback what = some d
  echoed : ∀ k fd, e.connections[k]? = some fd → askedOn e.sending fd ++ e.rest k = e.receiving.heard (k + 1) fd

/-- Only the reads of the connections lead to a read event. -/
theorem Made.read {connections : List Fd} {a : Accepted} (h : Made connections a) {res : Int} {flags : UInt32} {fd : Fd}
    {bytes : Span} (he : a.request.event res flags = .read fd bytes) :
    a.request.op = .readMultishot ∧ a.request.fd = fd ∧ ¬ res < 0 ∧
      bytes = ⟨1024 * (flags >>> IORING_CQE_BUFFER_SHIFT).toNat, res.toNat⟩ := by
  obtain ⟨request, subscriber, addr⟩ := a
  unfold Request.event at he
  split at he
  · cases he
  · rename_i hres
    rcases h with ⟨⟨fd', rfl⟩, -⟩ | ⟨k, fd', -, -, ⟨group, rfl⟩ | ⟨span, rfl⟩⟩
    · cases he
    · cases he
      exact ⟨rfl, rfl, hres, rfl⟩
    · cases he

open EventLoop in
/-- While the callback of a read event runs, the span still holds what it held when it was called. -/
theorem span_bytes {n : Nat} {p : Receiving} (h : Run Receiving.step Receiving.Open (.new n) p) {connections : List Fd}
    (hmade : ∀ a ∈ p.loop.accepted, Made connections a) {s : SubscriberId} {fd : Fd} {bytes : Span}
    (hrun : p.loop.running = some (.subscriber s (.read fd bytes))) :
    p.shown.getLast? = some (readAt p.memory bytes.data bytes.size) ∧
      ∃ a ∈ p.loop.accepted, a.subscriber = some s ∧ a.request.fd = fd := by
  have hpos := reach_position (Receiving.loop_run h).any
  have hinv := congrArg List.length (reach_inOrder (Receiving.loop_run h).any)
  rw [List.length_map, List.length_range] at hinv
  unfold running at hrun
  split at hrun
  · rename_i head processed cqe rb hph
    have hfin : p.loop.finished = head := (hpos.handling hph).1
    have hdis : p.loop.dispatched = head + 1 := by simp [dispatched, hph]
    obtain ⟨v, hv, hwhat⟩ := Option.map_eq_some_iff.1 hrun
    rw [List.getLast?_eq_getElem?, hinv, hdis, Nat.add_sub_cancel] at hv
    obtain ⟨c, id, a, -, hc, ho, ha, hreply⟩ := called_with (Receiving.subscribed_loop h) hv
    obtain ⟨data, hd, id', a', ho', ha', hcase⟩ := Receiving.came_with h hc
    obtain rfl : id = id' := by simpa [ho] using ho'
    obtain rfl : a = a' := Option.some.inj (ha.symm.trans ha')
    have hmem := List.mem_of_getElem? ha
    obtain ⟨s', hs⟩ := accepted_subscribed (Receiving.subscribed_loop h) a hmem
    have hval : c.report.value = (c.res, c.flags) := rfl
    simp only [hwhat, reply, hs, hval, Invocation.subscriber.injEq] at hreply
    obtain ⟨rfl, hevent⟩ := hreply
    have hlast : p.shown.getLast? = some data := by
      rw [Receiving.shown_run h, hdis, List.getLast?_take]
      simp [hd]
    obtain ⟨hop, hfd, hres, rfl⟩ := (hmade a hmem).read hevent.symm
    rcases hcase with ⟨hb, -, hcount⟩ | ⟨-, -, hneg⟩
    · obtain ⟨hst, -⟩ := Receiving.held_run h head c data (Nat.le_of_eq hfin) hc hd hb
      rw [hlast, hcount, Int.toNat_natCast]
      exact ⟨congrArg some hst.symm, a, hmem, hs, hfd⟩
    · exact absurd (hneg hop) hres
  · cases hrun

theorem askedOn_eq_nil {q : Sending} {fd : Fd} (h : ∀ a ∈ q.loop.accepted, ∀ bytes, a.request ≠ .write fd bytes) :
    askedOn q fd = [] := by
  refine List.flatMap_eq_nil_iff.2 fun id _ => Sending.asked_eq_nil ?_
  rintro bytes ⟨a, ha, hr⟩
  exact h a (List.mem_of_getElem? ha) bytes hr

theorem heard_eq_nil {n : Nat} {p : Receiving} (hr : Run Receiving.step Receiving.Open (.new n) p) {s : SubscriberId}
    (h : ∀ a ∈ p.loop.accepted, a.subscriber ≠ some s) (fd : Fd) : p.heard s fd = [] := by
  rw [Receiving.heard_flatMap hr (f := fun _ _ => []) fun i v c data hv hc hd => ?_]
  · simp
  · rw [Receiving.heardOn_eq hr hv hc hd]
    obtain ⟨data', -, id, a, ho, ha, -⟩ := Receiving.came_with hr hc
    simp only [Receiving.arrivedOn, ho, ha]
    exact if_neg fun hx => h a (List.mem_of_getElem? ha) hx.1

/-- A read event is one of the connection that its `Subscriber` belongs to. -/
theorem read_fd {n : Nat} {p : Receiving} (hr : Run Receiving.step Receiving.Open (.new n) p) {connections : List Fd}
    (hmade : ∀ a ∈ p.loop.accepted, Made connections a) {k : Nat} {fd fd' : Fd} {bytes : Span}
    (hk : connections[k]? = some fd) (hrun : p.loop.running = some (.subscriber (k + 1) (.read fd' bytes))) :
    fd' = fd := by
  obtain ⟨-, a, ha, hs, rfl⟩ := span_bytes hr hmade hrun
  rcases hmade a ha with ⟨-, h0⟩ | ⟨j, fd'', hj, hj', hreq⟩
  · rw [hs] at h0
    cases h0
  · rw [hs, Option.some.injEq, Nat.add_right_cancel_iff] at hj'
    subst hj'
    obtain rfl : fd = fd'' := Option.some.inj (hk.symm.trans hj)
    rcases hreq with ⟨group, hreq⟩ | ⟨span, hreq⟩
    · rw [hreq]
      rfl
    · rw [hreq]
      rfl

theorem callback_read {w : Invocation} {k : Nat} {bytes : Span} (h : callback w = some (.read k bytes)) :
    ∃ fd, w = .subscriber (k + 1) (.read fd bytes) := by
  unfold callback at h
  split at h
  · cases h
  · rename_i fd bytes'
    cases h
    exact ⟨fd, rfl⟩
  · cases h

section Steps
variable {e : EchoServer} (h : Echoing e)
include h

/-- Nothing is due while no handler runs. -/
theorem Echoing.due_none (hrun : e.receiving.loop.running = none) : e.due = none := by
  cases hd : e.due with
  | none => rfl
  | some d =>
    obtain ⟨what, hw, -⟩ := h.due d hd
    rw [hrun] at hw
    cases hw

/-- A step that calls no handler and makes no request of a connection. -/
theorem Echoing.frame {p : Peer} (hacc : ∀ a ∈ p.receiving.loop.accepted, Made e.connections a)
    (hrun : e.due = none ∨ ∀ what, e.receiving.loop.running = some what → p.receiving.loop.running = some what)
    (hshown : p.receiving.shown = e.receiving.shown)
    (hheard : ∀ s fd, p.receiving.heard s fd = e.receiving.heard s fd)
    (hasked : ∀ fd, askedOn p.sending fd = askedOn e.sending fd) : Echoing { e with toPeer := p } := by
  refine ⟨hacc, h.distinct, fun d hd => ?_, fun k fd hk => ?_⟩
  · rcases hrun with hnone | hrun
    · rw [show e.due = some d from hd] at hnone
      cases hnone
    · obtain ⟨what, hw, hc⟩ := h.due d hd
      exact ⟨what, hrun what hw, hc⟩
  · have hrest : rest { e with toPeer := p } k = e.rest k := by
      simp only [rest, hshown]
    rw [hrest]
    exact (congrArg (· ++ e.rest k) (hasked fd)).trans ((h.echoed k fd hk).trans (hheard (k + 1) fd).symm)

variable {n : Nat} (hr : Run Peer.step Peer.Orderly (.new n) e.toPeer)
include hr

theorem Echoing.own {x : Peer.Step} {p : Peer} (hx : quiet x = true) (hreturn : x = .act .callbackReturn → e.due = none)
    (hp : e.toPeer.step x = .ok p) : Echoing { e with toPeer := p } := by
  obtain ⟨hacc, hshown, hheard, hasked, hrun⟩ := Peer.quiet_spec hr hx hp
  refine h.frame (hacc ▸ h.requests) ?_ hshown hheard hasked
  by_cases hret : x = .act .callbackReturn
  · exact .inl (hreturn hret)
  · exact .inr (hrun hret)

theorem Echoing.listen {fd : Fd} {addr : Nat} {p : Peer}
    (hp : e.toPeer.step (.act (.add (.accept fd) (some 0) addr)) = .ok p) : Echoing { e with toPeer := p } := by
  obtain ⟨hacc, hshown, hheard, hasked, hrun⟩ := Peer.add_spec hr hp
  refine h.frame (fun a ha => ?_) (.inr hrun) hshown hheard fun fd' => ?_
  · rw [hacc, List.mem_append, List.mem_singleton] at ha
    rcases ha with ha | rfl
    · exact h.requests a ha
    · exact .inl ⟨⟨fd, rfl⟩, rfl⟩
  · rw [hasked]
    simp [Sending.spanBytes]

/-- The callback of a read event is called for what was read. -/
theorem Echoing.next {p : Peer} (hp : e.toPeer.step (.act .next) = .ok p)
    (hr' : Run Peer.step Peer.Orderly (.new n) p) :
    Echoing { e with toPeer := p, due := p.receiving.loop.running.bind callback } := by
  obtain ⟨hidle, hacc, hasked, hcase⟩ := Peer.next_spec hr hp
  refine ⟨hacc ▸ h.requests, h.distinct, fun d hd => Option.bind_eq_some_iff.1 hd, fun k fd hk => ?_⟩
  have hecho : askedOn e.sending fd = e.receiving.heard (k + 1) fd := by
    have hecho := h.echoed k fd hk
    rwa [show e.rest k = [] by simp [rest, h.due_none hidle], List.append_nil] at hecho
  dsimp only
  rw [hasked, hecho]
  rcases hcase with ⟨hrun, hheard⟩ | ⟨v, bytes, hrun, hshown, hheard⟩
  · rw [hheard]
    simp [rest, hrun]
  · rw [hheard]
    refine congrArg (_ ++ ·) ?_
    simp only [rest, hrun, Option.bind_some, hshown, List.getLast?_concat, Option.getD_some]
    by_cases hv : ∃ fd' span, v.what = .subscriber (k + 1) (.read fd' span)
    · obtain ⟨fd', span, hv⟩ := hv
      rw [hv] at hrun
      obtain rfl := read_fd (Peer.receiving_run hr') (hacc ▸ h.requests) hk hrun
      simp [hv, callback, Receiving.heardOn]
    · -- it is not about this connection
      have hheardOn : Receiving.heardOn (k + 1) fd v bytes = [] := by
        unfold Receiving.heardOn
        split
        · rename_i s fd' span hw
          refine if_neg ?_
          rintro ⟨rfl, -⟩
          exact hv ⟨fd', span, hw⟩
        · rfl
      rw [hheardOn]
      split
      · rename_i j span hc
        obtain ⟨fd', hw⟩ := callback_read hc
        refine if_neg ?_
        rintro rfl
        exact hv ⟨fd', span, hw⟩
      · rfl

/-- Nothing was read from a new connection, and nothing asked for. -/
theorem Echoing.onNewConnection {fd : Fd} {addr : Nat} {p : Peer} (hdue : e.due = some (.newConnection fd))
    (hnew : fd ∉ e.connections)
    (hp : e.toPeer.step (.act (.add (.multiShotRead fd 0) (some (e.connections.length + 1)) addr)) = .ok p) :
    Echoing { e with toPeer := p, connections := e.connections ++ [fd], due := none } := by
  obtain ⟨hacc, -, hheard, hasked, -⟩ := Peer.add_spec hr hp
  refine ⟨fun a ha => ?_, ?_, nofun, fun k fd' hk => ?_⟩
  · dsimp only at ha ⊢
    rw [hacc, List.mem_append, List.mem_singleton] at ha
    rcases ha with ha | rfl
    · exact (h.requests a ha).mono fd
    · exact .inr ⟨e.connections.length, fd, List.getElem?_concat_length, rfl, .inl ⟨_, rfl⟩⟩
  · exact List.nodup_append'.2 ⟨h.distinct, List.nodup_singleton fd, List.disjoint_singleton.2 hnew⟩
  · have hnone : askedOn p.sending fd' = askedOn e.sending fd' := by
      rw [hasked]
      simp [Sending.spanBytes]
    dsimp only at hk ⊢
    rw [hnone, hheard, rest, List.append_nil]
    rcases Nat.lt_or_ge k e.connections.length with hlt | hge
    · rw [List.getElem?_append_left hlt] at hk
      have hecho := h.echoed k fd' hk
      rwa [show e.rest k = [] by simp [rest, hdue], List.append_nil] at hecho
    · obtain ⟨hk', -⟩ := List.getElem?_eq_some_iff.1 hk
      rw [List.length_append, List.length_singleton] at hk'
      obtain rfl : k = e.connections.length := by omega
      rw [List.getElem?_concat_length, Option.some.injEq] at hk
      subst hk
      rw [askedOn_eq_nil, heard_eq_nil (Peer.receiving_run hr)]
      · exact fun a ha hs => Nat.lt_irrefl _ ((h.requests a ha).subscriber_lt hs)
      · exact fun a ha bytes hw => hnew ((h.requests a (Peer.same_run hr ▸ ha)).writes hw)

/-- What was read is asked to be written back to the connection it came from. -/
theorem Echoing.onRead {k : Nat} {bytesRead : Span} {fd : Fd} {moved addr : Nat} {p : Peer}
    (hf : Run Peer.step Peer.Orderly (.new n) (e.filled bytesRead moved).toPeer)
    (hdue : e.due = some (.read k bytesRead))
    (hfd : e.connections[k]? = some fd)
    (hp : (e.filled bytesRead moved).toPeer.step
      (.act (.add (.write fd (e.filled bytesRead moved).sendBuffer) (some (k + 1)) addr)) = .ok p) :
    Echoing { e.filled bytesRead moved with toPeer := p, due := none } := by
  obtain ⟨hacc, -, hheard, hasked, -⟩ := Peer.add_spec hf hp
  refine ⟨fun a ha => ?_, h.distinct, nofun, fun j fd' hj => ?_⟩
  · dsimp only at ha ⊢
    rw [hacc, List.mem_append, List.mem_singleton] at ha
    rcases ha with ha | rfl
    · exact h.requests a ha
    · exact .inr ⟨k, fd, hfd, rfl, .inr ⟨_, rfl⟩⟩
  · obtain ⟨what, hrun, hcall⟩ := h.due _ hdue
    obtain ⟨fd'', rfl⟩ := callback_read hcall
    obtain ⟨hshown, -⟩ := span_bytes (Peer.receiving_run hr) h.requests hrun
    have hold : askedOn (e.filled bytesRead moved).sending fd' = askedOn e.sending fd' := rfl
    have hsame : (e.filled bytesRead moved).receiving = e.receiving := rfl
    have hcopied : Sending.spanBytes (e.filled bytesRead moved).sending.memory
        (.write fd (e.filled bytesRead moved).sendBuffer) = readAt e.receiving.memory bytesRead.data bytesRead.size := by
      have hst := stored_writeAt e.sending.memory (e.filled bytesRead moved).sendBuffer.data
        (readAt e.receiving.memory bytesRead.data bytesRead.size)
      rw [Stored, readAt_length] at hst
      exact hst
    have hecho := h.echoed j fd' hj
    simp only [rest, hdue, hshown, Option.getD_some] at hecho
    dsimp only
    rw [hasked, hold, hcopied, hheard, hsame, ← hecho, rest, List.append_nil]
    refine congrArg (_ ++ ·) (if_congr ?_ rfl rfl)
    -- the connections have different sockets
    constructor
    · rintro rfl
      exact (List.getElem?_inj (List.getElem?_eq_some_iff.1 hfd).1 h.distinct).1 (hfd.trans hj.symm)
    · rintro rfl
      exact Option.some.inj (hfd.symm.trans hj)

end Steps

theorem echoing_run {n : Nat} {e : EchoServer} (h : Run step Calm (new n) e) : Echoing e := by
  refine Run.inv_of (fun e => Run step Calm (new n) e) Echoing (fun _ hr => hr) ?_ (fun e x e' hrun hi hc hs => ?_) h
  · exact ⟨by simp [new, Peer.new, Receiving.new], List.nodup_nil, by simp [new], by simp [new]⟩
  · have hr := peer_run hrun
    cases step_effect hs with
    | own hq hreturn hp => exact hi.own hr hq hreturn hp
    | next hp => exact hi.next hr hp (hr.step (a := .act .next) hc hp)
    | listen hp => exact hi.listen hr hp
    | onNewConnection hdue hnew hp => exact hi.onNewConnection hr hdue hnew hp
    | @onRead k bytesRead fd moved _ _ hdue hfd hp => exact hi.onRead hr (filled_run hr hc bytesRead moved) hdue hfd hp

/-- What a client gets is the beginning of what the callbacks were called with. -/
theorem wire_heard {n : Nat} {e : EchoServer} (h : Run step Calm (new n) e) {k : Nat} {fd : Fd}
    (hk : e.connections[k]? = some fd) :
    e.sending.wire fd <+: e.receiving.heard (k + 1) fd ∧
      ((∀ w ∈ e.sending.loop.outstandingWrites, w.1 ≠ fd) → (∀ bytes, e.due ≠ some (.read k bytes)) →
        e.sending.wire fd = e.receiving.heard (k + 1) fd) := by
  obtain ⟨hpre, hall⟩ := Sending.wire_prefix (Peer.sending_run (peer_run h)) fd
  have hecho := (echoing_run h).echoed k fd hk
  refine ⟨?_, fun hout hdue => ?_⟩
  · rw [← hecho]
    exact hpre.trans (List.prefix_append _ _)
  · have hrest : e.rest k = [] := by
      unfold rest
      split
      · rename_i j bytes hd
        refine if_neg ?_
        rintro rfl
        exact hdue bytes hd
      · rfl
    rw [hrest, List.append_nil] at hecho
    rw [hall hout]
    exact hecho

/-- In every calm run, for any number of clients and any order of arrivals,
completions and callbacks: what a client gets is the beginning of what was
read from it, and all of that when no write to it is outstanding and the
callback of a read event has done its work. -/
theorem echoed_back {n : Nat} {e : EchoServer} (h : Run step Calm (new n) e) {k : Nat} {fd : Fd}
    (hk : e.connections[k]? = some fd) :
    e.sending.wire fd <+: e.receiving.arrivedFor (k + 1) fd ∧
      ((∀ w ∈ e.sending.loop.outstandingWrites, w.1 ≠ fd) → (∀ bytes, e.due ≠ some (.read k bytes)) →
        e.sending.wire fd = e.receiving.arrivedFor (k + 1) fd) := by
  have hr := Peer.receiving_run (peer_run h)
  have hheard : e.receiving.heard (k + 1) fd = e.receiving.arrivedFor (k + 1) fd :=
    Receiving.heard_flatMap hr fun _ _ _ _ hv hc hd => Receiving.heardOn_eq hr hv hc hd (k + 1) fd
  rw [← hheard]
  exact wire_heard h hk

/-- Two clients, on the sockets 5 and 6. -/
def twoClients : List Step :=
  [.listen 3 100, .own (.act (.submit 100 { taken := 1, ret := 1 })), .own (.act (.post 0 5 2)),
    .own (.act (.post 0 6 2)), .own (.act .begin), .own (.act .next), .onNewConnection 200,
    .own (.act .callbackReturn), .own (.act .next), .onNewConnection 300, .own (.act .callbackReturn),
    .own (.act .next), .own (.act (.submit 100 { taken := 2, ret := 2 }))]

/-- The second one sends when the first one's bytes are on their way back. -/
def inTurn : List Step :=
  twoClients ++ [.own (.receive 1 3 [1, 2]), .own (.act .begin), .own (.act .next), .onRead 8192 400,
    .own (.act .callbackReturn), .own (.act .next), .own (.act (.submit 100 { taken := 1, ret := 1 })),
    .own (.transmit 3 2), .own (.act (.post 3 2 0)), .own (.receive 2 65539 [3, 4, 5]), .own (.act .begin),
    .own (.act .next), .own (.act .callbackReturn), .own (.act .next), .onRead 12288 400, .own (.act .callbackReturn),
    .own (.act .next), .own (.act (.submit 100 { taken := 1, ret := 1 })), .own (.transmit 3 3)]

theorem echoed_back_two :
    ∃ e, Run step Calm (new 4) e ∧ e.sending.wire 5 = [1, 2] ∧ e.receiving.arrivedFor 1 5 = [1, 2] ∧
      e.sending.wire 6 = [3, 4, 5] ∧ [3, 4, 5] <+: e.receiving.arrivedFor 2 6 := by
  obtain ⟨e, hr, he⟩ := exists_run step (fun e x => decide (Calm e x)) (fun _ _ => of_decide_eq_true) (new 4) inTurn
    (fun e => e.connections == [5, 6] && e.due.isNone && e.sending.loop.outstandingWrites.map (·.1) == [6] &&
      e.sending.wire 5 == [1, 2] && e.sending.wire 6 == [3, 4, 5]) (by decide +kernel)
  simp only [Bool.and_eq_true, beq_iff_eq, Option.isNone_iff_eq_none] at he
  obtain ⟨⟨⟨⟨hconn, hdue⟩, hout⟩, h5⟩, h6⟩ := he
  refine ⟨e, hr, h5, ?_, h6, h6 ▸ (echoed_back hr (k := 1) (by rw [hconn]; rfl)).1⟩
  rw [← (echoed_back hr (k := 0) (by rw [hconn]; rfl)).2 (fun w hw => ?_) (by simp [hdue]), h5]
  have hfd : w.1 ∈ [6] := hout ▸ List.mem_map_of_mem hw
  rw [List.mem_singleton.1 hfd]
  decide

/-- Both send before the loop's next pass: the second echo is copied over the
first one, which the kernel has not taken yet, and both get the same. -/
theorem echo_mixed_up :
    ∃ e, Run step anyAction (new 4) e ∧ e.receiving.arrivedFor 1 5 = [1, 2] ∧ e.receiving.arrivedFor 2 6 = [3, 4] ∧
      e.sending.wire 5 = [3, 4] ∧ e.sending.wire 6 = [3, 4] := by
  obtain ⟨e, hr, he⟩ := exists_run_any step (new 4)
    (twoClients ++ [.own (.receive 1 3 [1, 2]), .own (.receive 2 65539 [3, 4]), .own (.act .begin), .own (.act .next),
      .onRead 8192 400, .own (.act .callbackReturn), .own (.act .next), .onRead 8192 500, .own (.act .callbackReturn),
      .own (.act .next), .own (.act (.submit 100 { taken := 2, ret := 2 })), .own (.transmit 3 2),
      .own (.transmit 4 2)])
    (fun e => e.receiving.arrivedFor 1 5 == [1, 2] && e.receiving.arrivedFor 2 6 == [3, 4] &&
      e.sending.wire 5 == [3, 4] && e.sending.wire 6 == [3, 4]) (by decide +kernel)
  simp only [Bool.and_eq_true, beq_iff_eq] at he
  exact ⟨e, hr, he.1.1.1, he.1.1.2, he.1.2, he.2⟩

end EchoServer

end RingNet
