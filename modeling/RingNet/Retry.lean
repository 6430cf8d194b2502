import RingNet.Dialing
import RingNet.Release
/-!
# Trying to connect again

The status is `PENDING` from `asyncConnect` until the callback of the connect
event writes `CONNECTED`. Nothing else writes it: an `ErrorEvent` goes to
whatever `onError` registered, and without `onConnection` a success goes
nowhere. `connects` rules both out, and then `PENDING` ends with the request.
-/

namespace RingNet

open Lib

namespace EventLoop

/-- A success that leads to the block of a connect request is answered with the connect event. -/
theorem next_connects {l l' : EventLoop} (ht : Traced l) (he : Effect l .next l') {c : Cqe} {a : Accepted} {k : Nat}
    {s : SubscriberId} (hc : l.nextCompletion = some c) (hb : blockOf a k ∈ l.pool) (hu : c.userData = a.addr)
    (hs : a.subscriber = some s) (hop : a.request.op = .connect) (hres : 0 ≤ c.res) :
    l'.running = some (.subscriber s .connect) := by
  obtain ⟨d, hd, -, -, -, hrun⟩ := next_step he hc
  have h0 : c.userData ≠ 0 := by
    rw [hu]
    exact ht.nonnull _ hb
  have hfind : RequestPool.find l.pool c.userData = some (blockOf a k) := by
    rw [hu]
    exact find_of_mem ht.addrs hb
  rw [dispatch_eq h0 hfind, Except.ok.injEq] at hd
  subst hd
  rw [hrun]
  unfold handlerFor
  rw [hs]
  dsimp only
  rw [if_neg (by omega)]
  cases hreq : a.request <;> rw [hreq] at hop <;> first | rfl | cases hop

end EventLoop

namespace Dial

/-- One thread: while it is in `asyncConnect`, only the kernel goes on. -/
def oneThread (d : Dial) : Step → Bool
  | .loop (.post ..) => true
  | .register | .setConnected | .loop _ => d.stage == .idle
  | _ => true

/-- A completion handed to the connector's `Subscriber` is a success, and `onConnection` was called. -/
def connects (d : Dial) : Step → Bool
  | .loop .next => d.loop.nextCompletion.all fun c =>
    !d.loop.leadsTo c.userData d.connector.subscriber || (decide (0 ≤ c.res) && d.registered)
  | _ => true

/-- The request has its block, and the loop thread is still to write the status
if it is in the handler of its completion. -/
structure Held (d : Dial) (k : Nat) (a : Accepted) : Prop where
  last : d.requests.getLast? = some k
  made : d.loop.accepted[k]? = some a
  subscriber : a.subscriber = some d.connector.subscriber
  connect : a.request.op = .connect
  block : EventLoop.blockOf a k ∈ d.loop.pool
  inside : ∀ head processed c rb, d.loop.phase = .handling head processed c rb → c.userData = a.addr →
    d.inCallback = true

/-- An attempt that is under way is the last request's. -/
def Awaited (d : Dial) : Prop :=
  d.connector.connectionStatus = .PENDING ∨ d.stage = .added → ∃ k a, Held d k a

/-- The block of a request stays until the handler of its own completion returns. -/
theorem Held.block_step {d : Dial} {l : EventLoop} {act : Action} {k : Nat} {a : Accepted} (h : Held d k a)
    (hpos : EventLoop.Position d.loop) (ht : EventLoop.Traced d.loop) (he : EventLoop.Effect d.loop act l)
    (hcb : act = .callbackReturn → d.inCallback = false) : EventLoop.blockOf a k ∈ l.pool := by
  by_cases hact : act = .callbackReturn
  · subst hact
    obtain ⟨c, b, x, hc, -, hba, -, -, -, hq⟩ := EventLoop.callbackReturn_spec hpos ht he
    have hne : (EventLoop.blockOf a k).addr ≠ b.addr := by
      intro heq
      cases he with
      | @callbackReturn head processed cqe rb _ _ hp _ _ =>
        rw [(hpos.handling hp).2] at hc
        cases hc
        have hin := h.inside head processed c rb hp (hba.symm.trans heq.symm)
        rw [hcb rfl] at hin
        cases hin
    exact (EventLoop.released_pool hq).2 ⟨h.block, .inr hne⟩
  · exact EventLoop.pool_mono hpos he hact h.block

/-- A step of the loop keeps it, given that its completion is answered by the callback. -/
theorem Held.loop_step {d d' : Dial} {act : Action} {k : Nat} {a : Accepted} (h : Held d k a)
    (hpos : EventLoop.Position d.loop) (ht : EventLoop.Traced d.loop) (he : EventLoop.Effect d.loop act d'.loop)
    (hreq : d'.requests = d.requests) (hsub : d'.connector.subscriber = d.connector.subscriber)
    (hcb : act = .callbackReturn → d.inCallback = false) (hin : d.inCallback = true → d'.inCallback = true)
    (hnext : act = .next → ∀ c, d.loop.nextCompletion = some c → c.userData = a.addr → d'.inCallback = true) :
    Held d' k a where
  last := hreq ▸ h.last
  made := EventLoop.accepted_mono he h.made
  subscriber := hsub ▸ h.subscriber
  connect := h.connect
  block := h.block_step hpos ht he hcb
  inside := by
    intro head processed c rb hph hu
    rcases EventLoop.handling_step he hph with ⟨-, hold⟩ | ⟨hact, hc, -⟩
    · exact hin (h.inside head processed c rb hold hu)
    · exact hnext hact c hc hu

/-- The block of a new request is not the one being handled. -/
theorem held_add {n : Nat} {st : Int} {d : Dial} {r : Request} {addr : Nat} (hr : EventLoop.Reachable n st d.loop)
    (hreq : d.request = some r) (hf : RequestPool.free d.loop.pool addr = true) :
    Held { d with
      loop := (d.loop.add r (some d.connector.subscriber) addr).2
      stage := .added
      requests := d.requests ++ [d.loop.accepted.length] } d.loop.accepted.length
      ⟨EventLoop.stored r, some d.connector.subscriber, addr⟩ where
  last := by simp
  made := List.getElem?_concat_length
  subscriber := rfl
  connect := by
    unfold request at hreq
    split at hreq <;> cases hreq
    rfl
  block := List.mem_cons_self
  inside := by
    intro head processed c rb hph hu
    obtain ⟨h0, hne⟩ := EventLoop.free_iff.1 hf
    rcases EventLoop.reach_handled hr (show d.loop.phase = .handling head processed c rb from hph) with hz | ⟨b, hb, hba⟩
    · exact absurd (hu.symm.trans hz) h0
    · exact absurd (hba.trans hu) (hne b hb)

/-- A completion that leads to the request is handed to the callback. -/
theorem Held.enters {d : Dial} {l : EventLoop} {k : Nat} {a : Accepted} {c : Cqe} (h : Held d k a)
    (ht : EventLoop.Traced d.loop) (hc : d.connects (.loop .next) = true) (he : EventLoop.Effect d.loop .next l)
    (hn : d.loop.nextCompletion = some c) (hu : c.userData = a.addr) : d.enters .next l = true := by
  have hleads : d.loop.leadsTo c.userData d.connector.subscriber = true :=
    EventLoop.leadsTo_iff.2 ⟨_, h.block, hu.symm, h.subscriber⟩
  simp only [connects, hn, Option.all_some, hleads, Bool.not_true, Bool.false_or, Bool.and_eq_true,
    decide_eq_true_eq] at hc
  have hrun := EventLoop.next_connects ht he hn h.block hu h.subscriber h.connect hc.1
  simp [Dial.enters, hc.2, hrun]

theorem awaited_step {n : Nat} {st : Int} {d d' : Dial} {x : Step} (h : Awaited d)
    (hr : EventLoop.Reachable n st d.loop) (ho : d.oneThread x = true) (hc : d.connects x = true) (he : Effect d x d') :
    Awaited d' := by
  have hpos := EventLoop.reach_position hr
  have ht := EventLoop.reach_traced hr
  intro hway
  -- all but the loop's own steps leave the loop and the callback alone
  have hsame : ∀ {e : Dial}, e.loop = d.loop → e.requests = d.requests → e.inCallback = d.inCallback →
      e.connector.subscriber = d.connector.subscriber → d.connector.connectionStatus = .PENDING ∨ d.stage = .added →
      ∃ k a, Held e k a := by
    intro e hl hq hi hs hw
    obtain ⟨k, a, hk⟩ := h hw
    exact ⟨k, a, hq ▸ hk.last, hl ▸ hk.made, hs ▸ hk.subscriber, hk.connect, hl ▸ hk.block, hl ▸ hi ▸ hk.inside⟩
  cases he with
  | rejected _ hp => exact h (.inl hp)
  | check _ hp =>
    rcases hway with hway | hway
    · exact absurd hway hp
    · cases hway
  | @resolve resolved _ =>
    rcases hway with hway | hway
    · exact hsame rfl rfl rfl rfl (.inl hway)
    · cases resolved <;> cases hway
  | @openSocket socket option _ =>
    rcases hway with hway | hway
    · exact hsame rfl rfl rfl rfl (.inl hway)
    · dsimp only at hway
      split at hway <;> cases hway
  | add hreq _ hf => exact ⟨_, _, held_add hr hreq hf⟩
  | setPending hs => exact hsame rfl rfl rfl rfl (.inr hs)
  | register _ => exact hsame rfl rfl rfl rfl hway
  | setConnected _ =>
    -- the caller is not in `asyncConnect`
    rcases hway with hway | hway
    · cases hway
    · have hidle : d.stage = .idle := by simpa [oneThread] using ho
      have hadded : d.stage = .added := hway
      rw [hidle] at hadded
      cases hadded
  | @loop act l hf hl hent =>
    obtain ⟨k, a, hk⟩ := h hway
    have hle := EventLoop.step_effect hl
    refine ⟨k, a, hk.loop_step hpos ht hle rfl rfl ?_ (fun hi => hi) ?_⟩
    · rintro rfl
      simpa [foreign] using hf
    · rintro rfl c hn hu
      rw [hk.enters ht hc hle hn hu] at hent
      cases hent
  | @enter l hl _ _ =>
    obtain ⟨k, a, hk⟩ := h hway
    exact ⟨k, a, hk.loop_step hpos ht (EventLoop.step_effect hl) rfl rfl (fun hne => by cases hne) (fun _ => rfl)
      (fun _ _ _ _ => rfl)⟩

/-- On one thread, and as long as every completion handed to the connector is a
success that finds its callback: the status is `PENDING` only while a connect
request has not had its completion processed, and when all have, the next
`asyncConnect` is not rejected as pending. -/
theorem pending_until_processed {n : Nat} {st : Int} {self : Nat} {s : SubscriberId} {d : Dial}
    (h : Run step (fun d x => d.oneThread x = true ∧ d.connects x = true) (new n st self s) d) :
    (d.connector.connectionStatus = .PENDING → ∃ id ∈ d.requests, d.loop.settled id = false) ∧
      ((∀ id ∈ d.requests, d.loop.settled id = true) → ∀ address port o,
        (d.connector.asyncConnect d.self address port o).status ≠ ⟨false, .text "Already pending connection"⟩) := by
  have hreach : ∀ e, Run step (fun d x => d.oneThread x = true ∧ d.connects x = true) (new n st self s) e →
      EventLoop.Reachable n st e.loop := fun e hr => run_loop (fun _ _ _ _ => trivial) (fun _ _ _ => trivial) hr
  have haw : Awaited d := by
    refine Run.inv_of (fun d => EventLoop.Reachable n st d.loop) Awaited hreach ?_ ?_ h
    · rintro (hp | hp) <;> cases hp
    · intro e x e' hr hi hc hs
      exact awaited_step hi hr hc.1 hc.2 (step_effect hs)
  have hpend : d.connector.connectionStatus = .PENDING → ∃ id ∈ d.requests, d.loop.settled id = false := by
    intro hp
    obtain ⟨k, a, hk⟩ := haw (.inl hp)
    refine ⟨k, List.mem_of_getLast? hk.last, ?_⟩
    cases hset : d.loop.settled k with
    | false => rfl
    | true =>
      -- a request whose completion has been processed has no block
      have hm : a.request.op.multishot = false := by rw [hk.connect]; rfl
      exact absurd rfl (EventLoop.reach_settled (hreach d h) k a hset hk.made hm _ hk.block)
  refine ⟨hpend, fun hall address port o => ?_⟩
  have hne : d.connector.connectionStatus ≠ .PENDING := by
    intro hp
    obtain ⟨id, hid, hset⟩ := hpend hp
    rw [hall id hid] at hset
    cases hset
  unfold Connector.asyncConnect
  rw [if_neg hne]
  split
  · simp [errorAbout]
  · dsimp only
    split
    · simp [errorAbout]
    · simp [addStatus]

/-- A connection is made, and another attempt from the same thread goes
through while the kernel is busy with something else. -/
theorem pending_until_processed_again :
    ∃ d, Run step (fun d x => d.oneThread x = true ∧ d.connects x = true) (new 4 0 1000 0) d ∧ d.requests = [0, 2] ∧
      d.loop.settled 0 = true ∧ d.connector.connectionStatus = .PENDING ∧
      ∃ id ∈ d.requests, d.loop.settled id = false := by
  obtain ⟨d, hr, hp⟩ := exists_run step (fun d x => d.oneThread x && d.connects x)
    (fun _ _ h => by simpa using h) (new 4 0 1000 0)
    [.register, .check, .resolve (.ok (.sockaddrIn [])), .openSocket (.ok 5) ⟨0⟩, .add 100, .setPending,
      .loop (.add (.write 7 ⟨4096, 64⟩) (some 9) 200), .loop (.submit 100 { taken := 2, ret := 2 }),
      .loop (.post 0 0 0), .loop .begin, .loop .next, .setConnected, .loop .callbackReturn, .loop .next,
      .check, .resolve (.ok (.sockaddrIn [])), .openSocket (.ok 6) ⟨0⟩, .loop (.post 0 64 0), .add 100, .setPending]
    (fun d => d.requests == [0, 2] && d.loop.settled 0 && d.connector.connectionStatus == .PENDING) (by decide +kernel)
  simp only [Bool.and_eq_true, beq_iff_eq] at hp
  obtain ⟨⟨hreq, hset⟩, hst⟩ := hp
  exact ⟨d, hr, hreq, hset, hst, (pending_until_processed hr).1 hst⟩

/-- The attempt is refused and its `ErrorEvent` delivered; the connector stays
`PENDING`, and every later `asyncConnect` is rejected. -/
theorem refused_attempt_stays_pending :
    ∃ d, Run step (fun d x => d.oneThread x = true) (new 4 0 1000 0) d ∧ d.stage = .idle ∧ d.registered = true ∧
      d.loop.invocations.map (·.what) = [.subscriber 0 (.error 111)] ∧ d.requests = [0] ∧
      (∀ id ∈ d.requests, d.loop.settled id = true) ∧ d.connector.connectionStatus = .PENDING ∧
      ∀ address port o,
        (d.connector.asyncConnect d.self address port o).status = ⟨false, .text "Already pending connection"⟩ := by
  obtain ⟨d, hr, hp⟩ := exists_run step oneThread (fun _ _ h => h) (new 4 0 1000 0)
    [.register, .check, .resolve (.ok (.sockaddrIn [])), .openSocket (.ok 5) ⟨0⟩, .add 100, .setPending,
      .loop (.submit 100 { taken := 1, ret := 1 }), .loop (.post 0 (-111) 0), .loop .begin, .loop .next,
      .loop .callbackReturn, .loop .next]
    (fun d => d.stage == .idle && d.registered && d.loop.invocations.map (·.what) == [.subscriber 0 (.error 111)] &&
      d.requests == [0] && d.loop.settled 0 && d.connector.connectionStatus == .PENDING) (by decide +kernel)
  simp only [Bool.and_eq_true, beq_iff_eq] at hp
  obtain ⟨⟨⟨⟨⟨hidle, hreg⟩, hinv⟩, hreq⟩, hset⟩, hst⟩ := hp
  refine ⟨d, hr, hidle, hreg, hinv, hreq, ?_, hst, ?_⟩
  · intro id hid
    rw [hreq, List.mem_singleton] at hid
    rw [hid]
    exact hset
  · intro address port o
    unfold Connector.asyncConnect
    rw [if_pos hst]

end Dial

end RingNet
