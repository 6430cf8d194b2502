import RingNet.Lifetime
/-!
# A connector and the loop thread

One `Connector`, with `asyncConnect` cut into the steps between which the loop
thread can run: look at the status, store the resolved address, make the
socket, add the request, and only then write `PENDING`. On the other side the
callback that `onConnection` registers moves the socket into a `Connection`,
runs the user's callback and writes `CONNECTED`.

Everything else that uses the loop is there too: `loop` steps are the loop
thread's and the kernel's own, and requests and cancels of other objects.

`requests`, `connected` and `handed` are for the proofs only: the connect
requests the connector made, those whose callback has written `CONNECTED`, and
the connections given to the user, each with the call it was made in.
-/

namespace RingNet

open Lib

/-- Where the caller of `asyncConnect` is. -/
inductive Stage
  | idle
  /-- The status was not `PENDING`. -/
  | checked
  | resolved
  | opened
  /-- The request is with the loop, and `PENDING` is not written yet. -/
  | added
  deriving DecidableEq, Repr

structure Dial where
  loop : EventLoop
  /-- Where the connector keeps its resolved address. -/
  self : Nat
  connector : Connector
  stage : Stage := .idle
  /-- Whether `onConnection` has been called. -/
  registered : Bool := false
  /-- Whether the loop thread is in that callback, and `CONNECTED` not written yet. -/
  inCallback : Bool := false
  nextSubscriber : SubscriberId
  requests : List Nat := []
  connected : List Nat := []
  handed : List (Invoked × Connection) := []

namespace Dial

inductive Step
  -- `asyncConnect`
  | check
  | resolve (resolved : ResolvedAddress)
  | openSocket (socket : SysResult) (option : FileDescriptorStatus)
  | add (addr : Nat)
  | setPending
  -- `onConnection`, and what it registers
  | register
  | setConnected
  -- everything else
  | loop (a : Action)

def new (ringEntries : Nat) (status : Int) (self : Nat) (subscriber : SubscriberId) : Dial :=
  { loop := .new ringEntries status, self, connector := { subscriber }, nextSubscriber := subscriber + 1 }

/-- The connect request for the stored address. -/
def request (d : Dial) : Option Request :=
  match d.connector.resolvedAddress with
  | .ok address =>
    some (.connect d.connector.socket.fd (address.asSockaddr d.self).1 (address.asSockaddr d.self).2)
  | .error _ => none

/-- The subscriber's callback for the connect event has been called. -/
def enters (d : Dial) (a : Action) (l : EventLoop) : Bool :=
  a == .next && d.registered && l.running == some (.subscriber d.connector.subscriber .connect)

/-- The beginning of that callback: the socket is moved into a `Connection`. -/
def enterCallback (d : Dial) (l : EventLoop) : Dial :=
  let made := Connection.new d.connector.socket d.nextSubscriber
  { d with
    loop := l
    connector := { d.connector with socket := made.2 }
    nextSubscriber := d.nextSubscriber + 1
    inCallback := true
    handed := d.handed ++ l.invocations.getLast?.toList.map fun v => (v, made.1) }

/-- The request whose completion is being handled. -/
def handling (d : Dial) : Option Nat := d.loop.invocations.getLast?.bind (·.request)

/-- A step of the loop that is not the connector's. -/
def foreign (d : Dial) : Action → Bool
  | .add _ subscriber _ => subscriber != some d.connector.subscriber
  -- the handler returns after it has written `CONNECTED`
  | .callbackReturn => !d.inCallback
  | _ => true

def step (d : Dial) : Step → Except Stop Dial
  | .check =>
    if d.stage = .idle then
      if d.connector.connectionStatus = .PENDING then .ok d else .ok { d with stage := .checked }
    else .error .disabled
  | .resolve resolved =>
    if d.stage = .checked then
      .ok { d with
        connector := { d.connector with resolvedAddress := resolved }
        stage := match resolved with
          | .ok _ => .resolved
          | .error _ => .idle }
    else .error .disabled
  | .openSocket socket option =>
    if d.stage = .resolved then
      .ok { d with
        connector := (d.connector.assignSocket socket.returned).1
        stage := if option.success then .opened else .idle }
    else .error .disabled
  | .add addr =>
    match d.request with
    | some r =>
      if d.stage = .opened ∧ RequestPool.free d.loop.pool addr = true then
        .ok { d with
          loop := (d.loop.add r (some d.connector.subscriber) addr).2
          stage := .added
          requests := d.requests ++ [d.loop.accepted.length] }
      else .error .disabled
    | none => .error .disabled
  | .setPending =>
    if d.stage = .added then
      .ok { d with connector := { d.connector with connectionStatus := .PENDING }, stage := .idle }
    else .error .disabled
  | .register => if d.inCallback then .error .disabled else .ok { d with registered := true }
  | .setConnected =>
    if d.inCallback then
      .ok { d with
        connector := { d.connector with connectionStatus := .CONNECTED }
        inCallback := false
        connected := d.connected ++ d.handling.toList }
    else .error .disabled
  | .loop a =>
    if d.foreign a then
      match d.loop.step a with
      | .error e => .error e
      | .ok l => .ok (if d.enters a l then d.enterCallback l else { d with loop := l })
    else .error .disabled

/-! ## What a step does -/

/-- The effect of each step that is possible. -/
inductive Effect (d : Dial) : Step → Dial → Prop
  -- the caller
  | rejected : d.stage = .idle → d.connector.connectionStatus = .PENDING → Effect d .check d
  | check : d.stage = .idle → d.connector.connectionStatus ≠ .PENDING → Effect d .check { d with stage := .checked }
  | resolve {resolved} : d.stage = .checked →
      Effect d (.resolve resolved) { d with
        connector := { d.connector with resolvedAddress := resolved }
        stage := match resolved with
          | .ok _ => .resolved
          | .error _ => .idle }
  | openSocket {socket option} : d.stage = .resolved →
      Effect d (.openSocket socket option) { d with
        connector := (d.connector.assignSocket socket.returned).1
        stage := if option.success then .opened else .idle }
  | add {r addr} : d.request = some r → d.stage = .opened → RequestPool.free d.loop.pool addr = true →
      Effect d (.add addr) { d with
        loop := (d.loop.add r (some d.connector.subscriber) addr).2
        stage := .added
        requests := d.requests ++ [d.loop.accepted.length] }
  | setPending : d.stage = .added →
      Effect d .setPending { d with connector := { d.connector with connectionStatus := .PENDING }, stage := .idle }
  | register : d.inCallback = false → Effect d .register { d with registered := true }
  -- the loop thread
  | setConnected : d.inCallback = true →
      Effect d .setConnected { d with
        connector := { d.connector with connectionStatus := .CONNECTED }
        inCallback := false
        connected := d.connected ++ d.handling.toList }
  | loop {a l} : d.foreign a = true → d.loop.step a = .ok l → d.enters a l = false →
      Effect d (.loop a) { d with loop := l }
  | enter {l} : d.loop.step .next = .ok l → d.registered = true →
      l.running = some (.subscriber d.connector.subscriber .connect) → Effect d (.loop .next) (d.enterCallback l)

theorem step_effect {d d' : Dial} {x : Step} (h : d.step x = .ok d') : Effect d x d' := by
  cases x with
  | check =>
    simp only [step] at h
    split at h
    · rename_i hs
      split at h
      · rename_i hp
        cases h
        exact .rejected hs hp
      · rename_i hp
        cases h
        exact .check hs hp
    · cases h
  | resolve resolved =>
    simp only [step] at h
    split at h
    · rename_i hs
      cases h
      exact .resolve hs
    · cases h
  | openSocket socket option =>
    simp only [step] at h
    split at h
    · rename_i hs
      cases h
      exact .openSocket hs
    · cases h
  | add addr =>
    simp only [step] at h
    split at h
    · rename_i r hr
      split at h
      · rename_i hg
        cases h
        exact .add hr hg.1 hg.2
      · cases h
    · cases h
  | setPending =>
    simp only [step] at h
    split at h
    · rename_i hs
      cases h
      exact .setPending hs
    · cases h
  | register =>
    simp only [step] at h
    split at h
    · cases h
    · rename_i hi
      cases h
      exact .register (by simpa using hi)
  | setConnected =>
    simp only [step] at h
    split at h
    · rename_i hi
      cases h
      exact .setConnected hi
    · cases h
  | loop a =>
    simp only [step] at h
    split at h
    · rename_i hf
      split at h
      · cases h
      · rename_i l hl
        cases he : d.enters a l with
        | false =>
          rw [he] at h
          cases h
          exact .loop hf hl he
        | true =>
          rw [he] at h
          cases h
          simp only [enters, Bool.and_eq_true, beq_iff_eq] at he
          obtain ⟨⟨rfl, hreg⟩, hrun⟩ := he
          exact .enter hl hreg hrun
    · cases h

/-- Every step is at most one step of the loop, with a request for the connector only from `add`. -/
theorem effect_loop {d d' : Dial} {x : Step} (h : Effect d x d') :
    d'.loop = d.loop ∨ (∃ a, x = .loop a ∧ d.foreign a = true ∧ d.loop.step a = .ok d'.loop) ∨
      ∃ r addr, x = .add addr ∧ d.request = some r ∧
        d.loop.step (.add r (some d.connector.subscriber) addr) = .ok d'.loop := by
  cases h with
  | @add r addr hr _ hf => exact .inr (.inr ⟨r, addr, rfl, hr, if_pos hf⟩)
  | @loop a l hf hl _ => exact .inr (.inl ⟨a, rfl, hf, hl⟩)
  | enter hl _ _ => exact .inr (.inl ⟨.next, rfl, rfl, hl⟩)
  | _ => exact .inl rfl

/-- A condition on the loop's steps that holds of a run of the connector. -/
theorem run_loop {C : Dial → Step → Prop} {D : EventLoop → Action → Prop} {n : Nat} {st : Int} {self : Nat}
    {s : SubscriberId} {d : Dial} (hadd : ∀ l r u addr, D l (.add r u addr))
    (hC : ∀ d a, C d (.loop a) → D d.loop a) (h : Run step C (new n st self s) d) :
    Run EventLoop.step D (.new n st) d.loop := by
  refine Run.simulate (·.loop) ?_ h
  intro e x e' _ hc hs
  rcases effect_loop (step_effect hs) with hl | ⟨a, rfl, -, hl⟩ | ⟨r, addr, -, -, hl⟩
  · show Run EventLoop.step D e.loop e'.loop
    rw [hl]
    exact .refl
  · exact Run.refl.step (hC e a hc) hl
  · exact Run.refl.step (hadd _ _ _ _) hl

/-! ## The steps of one call -/

/-- Run one after the other, the caller's steps are `asyncConnect`. -/
theorem asyncConnect_steps (d : Dial) (address : String) (port : UInt16) (o : SocketOutcome) (addr : Nat)
    (hs : d.stage = .idle) (hfree : RequestPool.free d.loop.pool addr = true) :
    ∃ d', Run step anyAction d d' ∧ d'.stage = .idle ∧
      d'.connector = (d.connector.asyncConnect d.self address port o).object ∧
      d'.loop = match (d.connector.asyncConnect d.self address port o).request with
        | some r => (d.loop.add r (some d.connector.subscriber) addr).2
        | none => d.loop := by
  have run : ∀ {e e' : Dial} {x : Step}, e.step x = .ok e' → Run step anyAction e e' := fun h => Run.refl.step trivial h
  unfold Connector.asyncConnect
  by_cases hp : d.connector.connectionStatus = .PENDING
  · refine ⟨d, .refl, hs, ?_, ?_⟩ <;> rw [if_pos hp]
  · rw [if_neg hp]
    have h₁ : d.step .check = .ok { d with stage := .checked } := by simp [step, hs, hp]
    cases hres : o.resolved with
    | error code =>
      have h₂ : ({ d with stage := .checked } : Dial).step (.resolve (.error code)) = .ok { d with
          connector := { d.connector with resolvedAddress := .error code }, stage := .idle } := by simp [step]
      exact ⟨_, (run h₁).trans (run h₂), rfl, rfl, rfl⟩
    | ok resolved =>
      have h₂ : ({ d with stage := .checked } : Dial).step (.resolve (.ok resolved)) = .ok { d with
          connector := { d.connector with resolvedAddress := .ok resolved }, stage := .resolved } := by simp [step]
      cases hopt : o.setOptionStatus.success with
      | false =>
        have h₃ := (run h₁).trans ((run h₂).step (a := .openSocket o.socket o.setOptionStatus) trivial
          (by simp only [step]; rfl))
        exact ⟨_, h₃, by simp [hopt], by simp, by simp⟩
      | true =>
        have h₃ := (run h₁).trans ((run h₂).step (a := .openSocket o.socket o.setOptionStatus) trivial
          (by simp only [step]; rfl))
        have h₄ := h₃.step (a := .add addr) trivial (by
          simp only [step, request, Connector.assignSocket, hopt, if_true]
          exact if_pos ⟨trivial, hfree⟩)
        have h₅ := h₄.step (a := .setPending) trivial (by simp only [step]; rfl)
        exact ⟨_, h₅, rfl, rfl, rfl⟩

/-! ## The two writes of the status -/

/-- `CONNECTED` is written for the request whose `PENDING` is still to come. -/
def overtakes (d : Dial) : Step → Bool
  | .setConnected => d.stage == .added && d.handling == d.requests.getLast?
  | _ => false

/-- Once its callback has written `CONNECTED`, the last request has the last word. -/
structure LastWord (d : Dial) : Prop where
  known : ∀ id ∈ d.connected, ∃ a, d.loop.accepted[id]? = some a
  last : ∀ k, d.requests.getLast? = some k → k ∈ d.connected →
    d.connector.connectionStatus = .CONNECTED ∧ d.stage ≠ .added

/-- A connected request stays known. -/
theorem connected_known_step {d d' : Dial} {x : Step} (h : ∀ id ∈ d.connected, ∃ a, d.loop.accepted[id]? = some a)
    (hinv : ∀ v ∈ d.loop.invocations, ∀ id, v.request = some id → ∃ a, d.loop.accepted[id]? = some a)
    (he : Effect d x d') : ∀ id ∈ d'.connected, ∃ a, d'.loop.accepted[id]? = some a := by
  have hmono : ∀ (id : Nat) (a : Accepted), d.loop.accepted[id]? = some a → d'.loop.accepted[id]? = some a := by
    intro id a ha
    rcases effect_loop he with hl | ⟨_, -, -, hl⟩ | ⟨_, _, -, -, hl⟩
    · rw [hl]
      exact ha
    · exact EventLoop.accepted_mono (EventLoop.step_effect hl) ha
    · exact EventLoop.accepted_mono (EventLoop.step_effect hl) ha
  intro id hid
  have hknown : ∃ a, d.loop.accepted[id]? = some a := by
    cases he with
    | setConnected _ =>
      rcases List.mem_append.1 hid with hid | hid
      · exact h id hid
      · obtain ⟨v, hv, hr⟩ := Option.bind_eq_some_iff.1 (Option.mem_toList.1 hid)
        exact hinv v (List.mem_of_getLast? hv) id hr
    | _ => exact h id hid
  obtain ⟨a, ha⟩ := hknown
  exact ⟨a, hmono id a ha⟩

theorem lastWord_step {d d' : Dial} {x : Step} (h : LastWord d)
    (hinv : ∀ v ∈ d.loop.invocations, ∀ id, v.request = some id → ∃ a, d.loop.accepted[id]? = some a)
    (hc : d.overtakes x = false) (he : Effect d x d') : LastWord d' := by
  refine ⟨connected_known_step h.known hinv he, ?_⟩
  intro k hk hmem
  cases he with
  | check _ _ => exact ⟨(h.last k hk hmem).1, by simp⟩
  | @resolve resolved _ =>
    refine ⟨(h.last k hk hmem).1, ?_⟩
    cases resolved <;> simp
  | @openSocket socket option _ =>
    refine ⟨(h.last k hk hmem).1, ?_⟩
    dsimp only
    split <;> simp
  | add _ _ _ =>
    -- a number that was not given out before
    have hnew : k = d.loop.accepted.length := by simpa using hk.symm
    obtain ⟨a, ha⟩ := h.known k hmem
    have := (List.getElem?_eq_some_iff.1 ha).1
    omega
  | setPending hs => exact absurd hs (h.last k hk hmem).2
  | setConnected _ =>
    refine ⟨rfl, fun hs => ?_⟩
    have hs' : d.stage = .added := hs
    rcases List.mem_append.1 hmem with hmem | hmem
    · exact (h.last k hk hmem).2 hs
    · have hhand : d.handling = d.requests.getLast? := (Option.mem_toList.1 hmem).trans hk.symm
      simp [overtakes, hs', hhand] at hc
  | _ => exact h.last k hk hmem

/-- In every interleaving of `asyncConnect` with the loop thread in which no
callback writes `CONNECTED` between `loop.add` and the caller's `PENDING` for the
same request: once the callback of the last request is done the status is
`CONNECTED`, wherever the caller is. -/
theorem connected_not_lost {n : Nat} {st : Int} {self : Nat} {s : SubscriberId} {d : Dial} {k : Nat}
    (h : Run step (fun d x => d.overtakes x = false) (new n st self s) d) (hk : d.requests.getLast? = some k)
    (hdone : k ∈ d.connected) : d.connector.connectionStatus = .CONNECTED := by
  have hset : LastWord d := by
    refine Run.inv_of (fun d => EventLoop.Reachable n st d.loop) LastWord ?_ ⟨?_, ?_⟩ ?_ h
    · intro e hr
      exact run_loop (fun _ _ _ _ => trivial) (fun _ _ _ => trivial) hr
    · intro id hid
      cases hid
    · intro k hk
      cases hk
    · intro e x e' hr hi hc hs
      exact lastWord_step hi (EventLoop.reach_invoked hr) hc (step_effect hs)
  exact (hset.last k hk hdone).1

/-- Two attempts, each connected; the loop thread submits and completes the
second while the caller is still in `asyncConnect`, but its callback comes after. -/
theorem connected_not_lost_twice :
    ∃ d, Run step (fun d x => d.overtakes x = false) (new 4 0 1000 0) d ∧ d.stage = .idle ∧
      d.requests = [0, 1] ∧ d.connected = [0, 1] ∧ d.connector.connectionStatus = .CONNECTED := by
  obtain ⟨d, hr, hp⟩ := exists_run step (fun d x => !d.overtakes x) (fun _ _ h => by simpa using h) (new 4 0 1000 0)
    [.register, .check, .resolve (.ok (.sockaddrIn [])), .openSocket (.ok 5) ⟨0⟩, .add 100, .setPending,
      .loop (.submit 100 { taken := 1, ret := 1 }), .loop (.post 0 0 0), .loop .begin, .loop .next, .setConnected,
      .loop .callbackReturn, .loop .next,
      .check, .resolve (.ok (.sockaddrIn [])), .openSocket (.ok 6) ⟨0⟩, .add 100,
      .loop (.submit 100 { taken := 1, ret := 1 }), .loop (.post 0 0 0), .loop .begin, .loop .next, .setPending,
      .setConnected, .loop .callbackReturn]
    (fun d => d.stage == .idle && d.requests == [0, 1] && d.connected == [0, 1]) (by decide +kernel)
  simp only [Bool.and_eq_true, beq_iff_eq] at hp
  obtain ⟨⟨hidle, hreq⟩, hcon⟩ := hp
  refine ⟨d, hr, hidle, hreq, hcon, connected_not_lost (k := 1) hr ?_ ?_⟩
  · rw [hreq]
    rfl
  · rw [hcon]
    simp

/-- The connection is made before the caller writes `PENDING`, which then stays. -/
theorem connected_overwritten :
    ∃ d, Run step anyAction (new 4 0 1000 0) d ∧ d.stage = .idle ∧ d.inCallback = false ∧ d.requests = [0] ∧
      d.connected = [0] ∧ d.connector.connectionStatus = .PENDING := by
  obtain ⟨d, hr, hp⟩ := exists_run_any step (new 4 0 1000 0)
    [.register, .check, .resolve (.ok (.sockaddrIn [])), .openSocket (.ok 5) ⟨0⟩, .add 100,
      .loop (.submit 100 { taken := 1, ret := 1 }), .loop (.post 0 0 0), .loop .begin, .loop .next, .setConnected,
      .loop .callbackReturn, .setPending]
    (fun d => d.stage == .idle && !d.inCallback && d.requests == [0] && d.connected == [0] &&
      d.connector.connectionStatus == .PENDING) (by decide +kernel)
  simp only [Bool.and_eq_true, beq_iff_eq, Bool.not_eq_true'] at hp
  obtain ⟨⟨⟨⟨hidle, hin⟩, hreq⟩, hcon⟩, hst⟩ := hp
  exact ⟨d, hr, hidle, hin, hreq, hcon, hst⟩

end Dial

end RingNet
