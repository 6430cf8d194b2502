import RingNet.Descriptors
/-!
# Descriptors the program is given

`::socket` hands descriptors to `listen` and `asyncConnect`, and the kernel hands
one over with each completion of an accept. `Process` is a program (`Net`) in
which accepted descriptors are followed too: the kernel opens one when it posts
the completion, and the loop makes a `Connection` of it if `onNewConnection` has
registered a callback, and otherwise drops the number.

`received` is for the proofs only: the sockets the program was given.
-/

namespace RingNet

open Lib

/-! ## The sockets of an attempt -/

/-- An attempt leaves the socket alone, or assigns what `::socket` returned and closes the old one. -/
def Assigns (old new : FileDescriptor) (opened closed : Option Fd) (socket : SysResult) : Prop :=
  (new = old ∧ opened = none ∧ closed = none) ∨
    new = ⟨socket.returned⟩ ∧ opened = socket.descriptor ∧ closed = old.closes

/-- What was opened is what the object has now. -/
theorem Assigns.opened {old new : FileDescriptor} {opened closed : Option Fd} {socket : SysResult} {fd : Fd}
    (h : Assigns old new opened closed socket) (ho : opened = some fd) : socket = .ok fd ∧ new.fd = fd := by
  subst ho
  rcases h with ⟨-, hnone, -⟩ | ⟨hnew, hopened, -⟩
  · cases hnone
  · cases socket with
    | ok v =>
      cases hopened
      rw [hnew]
      exact ⟨rfl, rfl⟩
    | error code => cases hopened

theorem Acceptor.listen_assigns (a : Acceptor) (address : String) (port : UInt16) (o : SocketOutcome) :
    Assigns a.listeningSocket (a.listen address port o).object.listeningSocket (a.listen address port o).opened
      (a.listen address port o).closed o.socket := by
  unfold listen
  split
  · exact .inl ⟨rfl, rfl, rfl⟩
  · split
    · exact .inl ⟨rfl, rfl, rfl⟩
    · repeat' split
      all_goals exact .inr ⟨rfl, rfl, rfl⟩

theorem Connector.asyncConnect_assigns (c : Connector) (self : Nat) (address : String) (port : UInt16)
    (o : SocketOutcome) : Assigns c.socket (c.asyncConnect self address port o).object.socket
      (c.asyncConnect self address port o).opened (c.asyncConnect self address port o).closed o.socket := by
  unfold asyncConnect
  split
  · exact .inl ⟨rfl, rfl, rfl⟩
  · dsimp only
    split
    · exact .inl ⟨rfl, rfl, rfl⟩
    · repeat' split
      all_goals exact .inr ⟨rfl, rfl, rfl⟩

namespace Net

/-- The descriptor `::socket` returns to a call. -/
def openedBy (n : Net) : Call → Option Fd
  | .listen obj address port o _ =>
    (n.objects obj).bind Object.asAcceptor |>.bind fun a => (a.listen address port o).opened
  | .asyncConnect obj address port o _ =>
    (n.objects obj).bind Object.asConnector |>.bind fun c => (c.asyncConnect obj address port o).opened
  | _ => none

/-- Only `listen` and `asyncConnect` call `::socket`. -/
theorem openedBy_cases {n : Net} {c : Call} {fd : Fd} (h : n.openedBy c = some fd) :
    ∃ obj address port o addr,
      (c = .listen obj address port o addr ∨ c = .asyncConnect obj address port o addr) ∧ o.socket = .ok fd := by
  cases c with
  | listen obj address port o addr =>
    obtain ⟨a, -, h⟩ := Option.bind_eq_some_iff.1 h
    exact ⟨obj, address, port, o, addr, .inl rfl, ((a.listen_assigns address port o).opened h).1⟩
  | asyncConnect obj address port o addr =>
    obtain ⟨c, -, h⟩ := Option.bind_eq_some_iff.1 h
    exact ⟨obj, address, port, o, addr, .inr rfl, ((c.asyncConnect_assigns obj address port o).opened h).1⟩
  | _ => cases h

/-- Whatever an object's attempt does, it is `Assigns`. -/
theorem attempt_assigns {n n' : Net} {obj : Nat} {address : String} {port : UInt16} {o : SocketOutcome} {addr : Nat}
    {c : Call} (hc : c = .listen obj address port o addr ∨ c = .asyncConnect obj address port o addr)
    (h : n.step c = .ok n') : ∃ old new closed request, n.objects obj = some old ∧
      n.attempt obj new (n.openedBy c) closed request addr = .ok n' ∧
      Assigns old.socket new.socket (n.openedBy c) closed o.socket := by
  rcases hc with rfl | rfl
  · obtain ⟨a, ha, hatt⟩ := listen_spec h
    have hopen : n.openedBy (.listen obj address port o addr) = (a.listen address port o).opened := by
      simp only [openedBy, Object.asAcceptor_eq.2 ha, Option.bind_some]
    rw [hopen]
    exact ⟨_, _, _, _, ha, hatt, a.listen_assigns address port o⟩
  · obtain ⟨c, hc, hatt⟩ := asyncConnect_spec h
    have hopen : n.openedBy (.asyncConnect obj address port o addr) = (c.asyncConnect obj address port o).opened := by
      simp only [openedBy, Object.asConnector_eq.2 hc, Option.bind_some]
    rw [hopen]
    exact ⟨_, _, _, _, hc, hatt, c.asyncConnect_assigns obj address port o⟩

/-! ## Holding a socket -/

/-- If the socket `q` is open, some object has its descriptor, and will close it. -/
def Holds (n : Net) (q : Nat) : Prop :=
  ∀ fd, n.sockets fd = some q → 0 < fd ∧ ∃ obj o, n.objects obj = some o ∧ o.socket.fd = fd

/-- The objects change, and what is open was open. -/
theorem Holds.mono {n n' : Net} {q : Nat} (h : Holds n q)
    (hopen : ∀ fd, n'.sockets fd = some q → n.sockets fd = some q)
    (hobj : ∀ fd obj o, n'.sockets fd = some q → 0 < fd → n.objects obj = some o → o.socket.fd = fd →
      ∃ obj' o', n'.objects obj' = some o' ∧ o'.socket.fd = fd) : Holds n' q := by
  intro fd hfd
  obtain ⟨hpos, obj, o, ho, hs⟩ := h fd (hopen fd hfd)
  exact ⟨hpos, hobj fd obj o hfd hpos ho hs⟩

/-- What is put in an empty place takes nobody's descriptor. -/
theorem put_holder {f : Nat → Option Object} {i : Nat} (x : Option Object) (hi : f i = none) {fd : Fd} {obj : Nat}
    {o : Object} (ho : f obj = some o) (hs : o.socket.fd = fd) :
    ∃ obj' o', Function.update f i x obj' = some o' ∧ o'.socket.fd = fd := by
  have hne : obj ≠ i := by
    rintro rfl
    rw [hi] at ho
    cases ho
  exact ⟨obj, o, by rw [Function.update_of_ne hne]; exact ho, hs⟩

/-- An object that keeps its socket is replaced. -/
theorem replace_holder {f : Nat → Option Object} {i : Nat} {x y : Object} (hi : f i = some x)
    (hxy : y.socket = x.socket) {fd : Fd} {obj : Nat} {o : Object} (ho : f obj = some o) (hs : o.socket.fd = fd) :
    ∃ obj' o', Function.update f i (some y) obj' = some o' ∧ o'.socket.fd = fd := by
  by_cases he : obj = i
  · subst he
    rw [hi] at ho
    cases ho
    exact ⟨obj, y, Function.update_self .., by rw [hxy]; exact hs⟩
  · exact ⟨obj, o, by rw [Function.update_of_ne he]; exact ho, hs⟩

/-- Two objects change, and each has the socket of one of the two. -/
theorem exchange_holder {f : Nat → Option Object} {i j : Nat} {x y : Object} (hne : i ≠ j) {fd : Fd} {obj : Nat}
    {o : Object} (hi : f i = some o → y.socket.fd = o.socket.fd) (hj : f j = some o → x.socket.fd = o.socket.fd)
    (ho : f obj = some o) (hs : o.socket.fd = fd) :
    ∃ obj' o', Function.update (Function.update f i (some x)) j (some y) obj' = some o' ∧ o'.socket.fd = fd := by
  by_cases h1 : obj = i
  · subst h1
    exact ⟨j, y, Function.update_self .., (hi ho).trans hs⟩
  · by_cases h2 : obj = j
    · subst h2
      exact ⟨i, x, by rw [Function.update_of_ne hne, Function.update_self], (hj ho).trans hs⟩
    · exact ⟨obj, o, by rw [Function.update_of_ne h2, Function.update_of_ne h1]; exact ho, hs⟩

/-- A new socket is not one of the old ones. -/
theorem open_old {n : Net} {fd fd' : Fd} {q : Nat} (hq : q < n.nextSocket)
    (h : (n.openSocket fd).sockets fd' = some q) : n.sockets fd' = some q := by
  rcases update_some_cases h with ⟨-, rfl⟩ | ⟨-, h⟩
  · exact absurd hq (Nat.lt_irrefl _)
  · exact h

/-- What is open after `close` was open, and is not what was closed. -/
theorem close_open {n : Net} {closed : Option Fd} {fd : Fd} {q : Nat} (h : (n.close closed).sockets fd = some q) :
    n.sockets fd = some q ∧ closed ≠ some fd := by
  cases closed with
  | none => exact ⟨h, nofun⟩
  | some fd' =>
    obtain ⟨hne, h⟩ := update_none_cases h
    refine ⟨h, fun heq => hne ?_⟩
    cases heq
    rfl

theorem holds_attempt {n n' : Net} {obj : Nat} {old new : Object} {opened closed : Option Fd}
    {request : Option Request} {addr : Nat} {socket : SysResult} {q : Nat} (h : Holds n q) (hq : q < n.nextSocket)
    (ho : n.objects obj = some old) (has : Assigns old.socket new.socket opened closed socket)
    (ha : n.attempt obj new opened closed request addr = .ok n') : Holds n' q := by
  obtain ⟨-, hsock, -⟩ := attempt_sockets ha
  have hobj := attempt_objects ha
  have hopen : ∀ fd, n'.sockets fd = some q → n.sockets fd = some q ∧ closed ≠ some fd := by
    intro fd hfd
    rw [hsock] at hfd
    obtain ⟨hfd, hne⟩ := close_open hfd
    cases opened with
    | none => exact ⟨hfd, hne⟩
    | some fd' => exact ⟨open_old hq hfd, hne⟩
  refine h.mono (fun fd hfd => (hopen fd hfd).1) ?_
  intro fd i x hfd hpos hx hs
  rw [hobj]
  rcases has with ⟨hsame, -, -⟩ | ⟨-, -, hclosed⟩
  · exact replace_holder ho hsame hx hs
  · -- the old socket was closed
    have hne : i ≠ obj := by
      rintro rfl
      rw [ho] at hx
      cases hx
      apply (hopen fd hfd).2
      rw [hclosed, FileDescriptor.closes, hs, if_pos hpos]
    exact ⟨i, x, by rw [Function.update_of_ne hne]; exact hx, hs⟩

theorem holds_destroy {n : Net} {obj taken : Nat} {o : Object} {q : Nat} (h : Holds n q) (ho : n.objects obj = some o) :
    Holds ((((n.cancelIfValid o.socket taken).put obj none).close o.socket.closes).kill o.subscriber) q := by
  rw [cancelIfValid_same]
  refine h.mono (fun fd hfd => (close_open hfd).1) ?_
  intro fd i x hfd hpos hx hs
  have hne : i ≠ obj := by
    rintro rfl
    rw [ho] at hx
    cases hx
    apply (close_open hfd).2
    rw [FileDescriptor.closes, hs, if_pos hpos]
  refine ⟨i, x, ?_, hs⟩
  rw [close_same]
  show Function.update n.objects obj none i = some x
  rw [Function.update_of_ne hne]
  exact hx

/-- Every call keeps a socket that is open with an object, or closes it. -/
theorem holds_step {n n' : Net} {c : Call} {q : Nat} (h : Holds n q) (hq : q < n.nextSocket) (hs : n.step c = .ok n') :
    Holds n' q := by
  have he := step_effect hs
  cases he with
  | attempt hcall _ _ _ _ =>
    obtain ⟨address, port, o, hcall⟩ := hcall
    obtain ⟨old, new, closed, request, hold, hatt, has⟩ := attempt_assigns hcall hs
    exact holds_attempt h hq hold has hatt
  | destroy ho => exact holds_destroy h ho
  | newConnection hobj _ _ =>
    exact h.mono (fun _ hfd => open_old hq hfd) (fun _ _ _ _ _ ho hs => put_holder _ hobj ho hs)
  | newAcceptor hobj => exact h.mono (fun _ hfd => hfd) (fun _ _ _ _ _ ho hs => put_holder _ hobj ho hs)
  | newConnector hobj => exact h.mono (fun _ hfd => hfd) (fun _ _ _ _ _ ho hs => put_holder _ hobj ho hs)
  | @setConnected connector c hc =>
    exact h.mono (fun _ hfd => hfd) (fun _ _ _ _ _ ho hs =>
      replace_holder (y := .connector { c with connectionStatus := .CONNECTED }) hc rfl ho hs)
  | @moveConstruct obj other c hobj hother =>
    refine h.mono (fun _ hfd => hfd) fun fd i x _ _ hx hs => ?_
    have hne : obj ≠ other := by
      rintro rfl
      rw [hother] at hobj
      cases hobj
    refine exchange_holder hne (fun hi => ?_) (fun hj => ?_) hx hs
    · rw [hobj] at hi
      cases hi
    · rw [hother, Option.some.injEq] at hj
      rw [← hj]
      rfl
  | @moveAssign obj other c d hne hobj hother =>
    refine h.mono (fun _ hfd => hfd) fun fd i x _ _ hx hs => ?_
    refine exchange_holder hne (fun hi => ?_) (fun hj => ?_) hx hs
    · rw [hobj, Option.some.injEq] at hi
      rw [← hi]
      rfl
    · rw [hother, Option.some.injEq] at hj
      rw [← hj]
      rfl
  | @onConnection connector obj c hc hobj =>
    refine h.mono (fun _ hfd => hfd) fun fd i x _ _ hx hs => ?_
    have hne : connector ≠ obj := by
      rintro rfl
      rw [hc] at hobj
      cases hobj
    refine exchange_holder hne (fun hi => ?_) (fun hj => ?_) hx hs
    · rw [hc, Option.some.injEq] at hi
      rw [← hi]
      rfl
    · rw [hobj] at hj
      cases hj
  | _ => exact h

theorem nextSocket_mono {n n' : Net} {c : Call} (he : Effect n c n') : n.nextSocket ≤ n'.nextSocket := by
  have hclose : ∀ (m : Net) (fd : Option Fd), (m.close fd).nextSocket = m.nextSocket := by
    intro m fd
    rw [close_same]
  cases he with
  | newConnection _ _ _ => exact Nat.le_succ _
  | @destroy obj taken o _ =>
    show n.nextSocket ≤ (((n.cancelIfValid o.socket taken).put obj none).close o.socket.closes).nextSocket
    rw [hclose, cancelIfValid_same]
    exact Nat.le_refl _
  | @attempt _ _ _ _ opened closed _ _ _ _ _ _ _ ha =>
    obtain ⟨-, -, hn⟩ := attempt_sockets ha
    rw [hn, hclose]
    cases opened with
    | none => exact Nat.le_refl _
    | some fd => exact Nat.le_succ _
  | _ => exact Nat.le_refl _

/-- A socket an object has just got is its own. -/
theorem holds_opened {n n' : Net} {c : Call} {dead : List Nat} (hown : Owners n.sockets n.nextSocket dead)
    (hs : n.step c = .ok n') {fd : Fd} (hfd : n.openedBy c = some fd) (hpos : 0 < fd) :
    n.nextSocket < n'.nextSocket ∧ Holds n' n.nextSocket := by
  obtain ⟨obj, address, port, o, addr, hcall, -⟩ := openedBy_cases hfd
  obtain ⟨old, new, closed, request, hold, hatt, has⟩ := attempt_assigns hcall hs
  obtain ⟨-, hsock, hnext⟩ := attempt_sockets hatt
  rw [hfd] at hsock hnext
  constructor
  · rw [hnext, close_same]
    exact Nat.lt_succ_self _
  · intro fd' hfd'
    rw [hsock] at hfd'
    rcases update_some_cases (close_open hfd').1 with ⟨rfl, -⟩ | ⟨-, hold'⟩
    · exact ⟨hpos, obj, new, by rw [attempt_objects hatt, Function.update_self], (has.opened hfd).2⟩
    · exact absurd (hown.made fd' _ hold') (Nat.lt_irrefl _)

end Net

namespace EventLoop

/-- The accept event that `next` is about to deliver. -/
def nextAccept (l : EventLoop) : Option (SubscriberId × Fd) :=
  l.nextCompletion.bind fun c =>
    match l.dispatch c with
    | .ok ⟨_, .subscriber s (.accept fd), _⟩ => some (s, fd)
    | _ => none

end EventLoop

/-! ## Programs that are given descriptors -/

structure Process where
  net : Net
  /-- The subscribers of the acceptors whose `onNewConnection` has been called. -/
  registered : List SubscriberId := []
  received : List Nat := []

namespace Process

inductive Step
  | call (c : Call)
  | post (i : Nat) (res : Int) (flags : UInt32)
  /-- `obj` is where the `Connection` goes if one is made. -/
  | next (obj : Nat)
  | onNewConnection (obj : Nat)

def new (ringEntries : Nat) (status : Int) : Process := { net := .new ringEntries status }

/-- The calls that are steps of their own here. -/
def followed : Call → Bool
  | .loop .next | .loop (.post ..) => true
  | _ => false

/-- The completion is of an accept, with a descriptor. -/
def delivers (p : Process) (i : Nat) (res : Int) : Bool :=
  decide (0 ≤ res) && p.net.loop.ring.inflight[i]?.any fun e =>
    match e.prep with
    | .multishotAccept _ => true
    | _ => false

/-- The socket that a call was given. -/
def given (n : Net) (c : Call) : List Nat := ((n.openedBy c).filter (0 ≤ ·)).toList.map fun _ => n.nextSocket

def step (p : Process) : Step → Except Stop Process
  | .call c =>
    if followed c then .error .disabled
    else
      match p.net.step c with
      | .error e => .error e
      | .ok n => .ok { p with net := n, received := p.received ++ given p.net c }
  | .post i res flags =>
    match p.net.step (.loop (.post i res flags)) with
    | .error e => .error e
    | .ok n =>
      if p.delivers i res then
        -- the kernel opens a descriptor that is not in use
        if (p.net.sockets res).isNone then .ok { p with net := n.openSocket res } else .error .disabled
      else .ok { p with net := n }
  | .next obj =>
    match p.net.step (.loop .next) with
    | .error e => .error e
    | .ok n =>
      match p.net.loop.nextAccept with
      | none => .ok { p with net := n }
      | some (s, fd) =>
        let p' := { p with net := n, received := p.received ++ (n.sockets fd).toList }
        if p.registered.contains s then
          if (n.objects obj).isNone then
            .ok { p' with net := n.create obj (.connection (Connection.new ⟨fd⟩ n.nextSubscriber).1) }
          else .error .disabled
        -- no handler is set for the event
        else .ok p'
  | .onNewConnection obj =>
    match p.net.objects obj with
    | some (.acceptor a) => .ok { p with registered := p.registered ++ [a.subscriber] }
    | _ => .error .disabled

/-- No descriptor 0 is given, and an accepted connection finds its callback. -/
def keeps (p : Process) : Step → Bool
  | .call (.listen _ _ _ o _) | .call (.asyncConnect _ _ _ o _) => o.socket != .ok 0
  | .next _ => p.net.loop.nextAccept.all fun x => decide (0 < x.2) && p.registered.contains x.1
  | _ => true

/-- Every socket the program was given is closed, or open with an object that will close it. -/
structure Kept (p : Process) : Prop where
  sockets : ∃ dead, Owners p.net.sockets p.net.nextSocket dead
  held : ∀ q ∈ p.received, q < p.net.nextSocket ∧ p.net.Holds q

/-- A call keeps what was received. -/
theorem Kept.call {p : Process} {c : Call} {n : Net} (h : Kept p) (hs : p.net.step c = .ok n) :
    (∃ dead, Owners n.sockets n.nextSocket dead) ∧ ∀ q ∈ p.received, q < n.nextSocket ∧ n.Holds q := by
  have he := Net.step_effect hs
  obtain ⟨dead, hown⟩ := h.sockets
  obtain ⟨dead', hown', -⟩ := Net.effect_sockets hown he
  refine ⟨⟨dead', hown'⟩, fun q hq => ?_⟩
  obtain ⟨hlt, hh⟩ := h.held q hq
  exact ⟨Nat.lt_of_lt_of_le hlt (Net.nextSocket_mono he), Net.holds_step hh hlt hs⟩

/-- Steps of the loop leave the objects and the descriptors alone. -/
theorem loop_same {n n' : Net} {a : Action} (h : n.step (.loop a) = .ok n') :
    n'.sockets = n.sockets ∧ n'.nextSocket = n.nextSocket ∧ n'.objects = n.objects := by
  cases Net.step_effect h with
  | loop _ _ _ => exact ⟨rfl, rfl, rfl⟩
  | attempt hcall _ _ _ _ => obtain ⟨_, _, _, hc | hc⟩ := hcall <;> cases hc

theorem kept_call {p p' : Process} {c : Call} (h : Kept p) (hc : p.keeps (.call c) = true)
    (hs : p.step (.call c) = .ok p') : Kept p' := by
  simp only [step] at hs
  split at hs
  · cases hs
  · split at hs
    · cases hs
    · rename_i n hn
      cases hs
      obtain ⟨hsock, hold⟩ := h.call hn
      refine ⟨hsock, fun q hq => ?_⟩
      rcases List.mem_append.1 hq with hq | hq
      · exact hold q hq
      · -- the socket the call was given
        obtain ⟨fd, hfd, rfl⟩ := List.mem_map.1 hq
        obtain ⟨hopen, hle⟩ := Option.filter_eq_some_iff.1 (Option.mem_toList.1 hfd)
        have hne : fd ≠ 0 := by
          rintro rfl
          obtain ⟨obj, address, port, o, addr, rfl | rfl, ho⟩ := Net.openedBy_cases hopen <;> simp [keeps, ho] at hc
        have hpos : 0 < fd := lt_of_le_of_ne (of_decide_eq_true hle) (Ne.symm hne)
        obtain ⟨dead, hown⟩ := h.sockets
        exact Net.holds_opened hown hn hopen hpos

theorem kept_post {p p' : Process} {i : Nat} {res : Int} {flags : UInt32} (h : Kept p)
    (hs : p.step (.post i res flags) = .ok p') : Kept p' := by
  simp only [step] at hs
  split at hs
  · cases hs
  · rename_i n hn
    obtain ⟨⟨dead, hown⟩, hold⟩ := h.call hn
    split at hs
    · split at hs
      · rename_i hfree
        cases hs
        have hnone : n.sockets res = none := by
          rw [(loop_same hn).1]
          simpa using hfree
        refine ⟨⟨dead, hown.create hnone⟩, fun q hq => ?_⟩
        obtain ⟨hlt, hh⟩ := hold q hq
        exact ⟨Nat.lt_succ_of_lt hlt,
          hh.mono (fun _ hfd => Net.open_old hlt hfd) (fun _ obj o _ _ ho hs => ⟨obj, o, ho, hs⟩)⟩
      · cases hs
    · cases hs
      exact ⟨⟨dead, hown⟩, hold⟩

/-- The descriptor of the next accept event goes to a `Connection`. -/
theorem kept_next {p p' : Process} {obj : Nat} (h : Kept p) (hc : p.keeps (.next obj) = true)
    (hs : p.step (.next obj) = .ok p') : Kept p' := by
  simp only [step] at hs
  split at hs
  · cases hs
  · rename_i n hn
    obtain ⟨⟨dead, hown⟩, hold⟩ := h.call hn
    split at hs
    · cases hs
      exact ⟨⟨dead, hown⟩, hold⟩
    · rename_i s fd hacc
      simp only [keeps, hacc, Option.all_some, Bool.and_eq_true, decide_eq_true_eq] at hc
      rw [if_pos hc.2] at hs
      split at hs
      · rename_i hobj
        have hobj : n.objects obj = none := by simpa using hobj
        cases hs
        refine ⟨⟨dead, hown⟩, fun q hq => ?_⟩
        rcases List.mem_append.1 hq with hq | hq
        · obtain ⟨hlt, hh⟩ := hold q hq
          exact ⟨hlt, hh.mono (fun _ hfd => hfd) (fun _ _ _ _ _ ho hs => Net.put_holder _ hobj ho hs)⟩
        · have hfd : n.sockets fd = some q := Option.mem_toList.1 hq
          refine ⟨hown.made fd q hfd, fun fd' hfd' => ?_⟩
          rw [hown.unique fd' fd q hfd' hfd]
          exact ⟨hc.1, obj, _, Function.update_self .., rfl⟩
      · cases hs

theorem kept_run {k : Nat} {st : Int} {p : Process} (h : Run step (fun p x => p.keeps x = true) (new k st) p) :
    Kept p := by
  refine Run.inv Kept ⟨⟨[], Owners.empty⟩, fun q hq => by cases hq⟩ ?_ h
  intro p x p' hi hc hs
  cases x with
  | call c => exact kept_call hi hc hs
  | post i res flags => exact kept_post hi hs
  | next obj => exact kept_next hi hc hs
  | onNewConnection obj =>
    simp only [step] at hs
    split at hs
    · cases hs
      exact ⟨hi.sockets, hi.held⟩
    · cases hs

/-- In every run in which no descriptor 0 is given to the program and every
accepted connection finds its callback: every socket that `::socket` returned to
`listen` or `asyncConnect`, or that came with a processed accept completion, is
closed or is the one an object's descriptor denotes; and once the objects are
gone, all are closed. -/
theorem descriptors_not_lost {k : Nat} {st : Int} {p : Process}
    (h : Run step (fun p x => p.keeps x = true) (new k st) p) :
    (∀ q ∈ p.received, (∀ fd, p.net.sockets fd ≠ some q) ∨
      ∃ obj o, p.net.objects obj = some o ∧ p.net.sockets o.socket.fd = some q) ∧
    ((∀ obj, p.net.objects obj = none) → ∀ q ∈ p.received, ∀ fd, p.net.sockets fd ≠ some q) := by
  have hk := kept_run h
  constructor
  · intro q hq
    by_cases hopen : ∃ fd, p.net.sockets fd = some q
    · obtain ⟨fd, hfd⟩ := hopen
      obtain ⟨-, obj, o, ho, hs⟩ := (hk.held q hq).2 fd hfd
      exact .inr ⟨obj, o, ho, by rw [hs]; exact hfd⟩
    · exact .inl (not_exists.1 hopen)
  · intro hnone q hq fd hfd
    obtain ⟨-, obj, o, ho, -⟩ := (hk.held q hq).2 fd hfd
    rw [hnone obj] at ho
    cases ho

/-- An acceptor whose first attempt fails; a connection is accepted and moved. -/
theorem descriptors_not_lost_server :
    ∃ p, Run step (fun p x => p.keeps x = true) (new 4 0) p ∧ p.received = [0, 1, 2] ∧
      p.net.sockets 5 = none ∧ p.net.sockets 6 = some 1 ∧ p.net.sockets 7 = some 2 ∧
      ∀ q ∈ p.received, (∀ fd, p.net.sockets fd ≠ some q) ∨
        ∃ obj o, p.net.objects obj = some o ∧ p.net.sockets o.socket.fd = some q := by
  obtain ⟨p, hr, hp⟩ := exists_run step keeps (fun _ _ h => h) (new 4 0)
    [.call (.newAcceptor 0), .onNewConnection 0,
      .call (.listen 0 "::1" 80 { resolved := .ok (.sockaddrIn6 []), socket := .ok 5, bind := .error 98 } 100),
      .call (.listen 0 "::1" 80 { resolved := .ok (.sockaddrIn6 []), socket := .ok 6 } 100),
      .call (.loop (.submit 100 { taken := 1, ret := 1 })), .post 0 7 2, .call (.loop .begin), .next 1,
      .call (.moveConstruct 2 1), .call (.destroy 1 0)]
    (fun p => p.received == [0, 1, 2] && p.net.sockets 5 == none && p.net.sockets 6 == some 1 &&
      p.net.sockets 7 == some 2) (by decide +kernel)
  simp only [Bool.and_eq_true, beq_iff_eq] at hp
  obtain ⟨⟨⟨hrec, h5⟩, h6⟩, h7⟩ := hp
  exact ⟨p, hr, hrec, h5, h6, h7, (descriptors_not_lost hr).1⟩

/-- A run that can be computed and leaves no object. -/
theorem exists_run_emptied (as : List Step) (f : Process → Bool)
    (h : ∀ obj, (exec step (fun _ _ => true) (new 4 0) as).map (fun p => (p.net.objects obj).isNone && f p) = some true) :
    ∃ p, Run step anyAction (new 4 0) p ∧ f p = true ∧ ∀ obj, p.net.objects obj = none := by
  cases he : exec step (fun _ _ => true) (new 4 0) as with
  | none =>
    have := h 0
    rw [he] at this
    cases this
  | some p =>
    have hp : ∀ obj, p.net.objects obj = none ∧ f p = true := by
      intro obj
      have := h obj
      rw [he] at this
      simpa using this
    exact ⟨p, exec_run (fun _ _ _ => trivial) he, (hp 0).2, fun obj => (hp obj).1⟩

/-- An acceptor without a callback drops the descriptor of a connection: it
stays open when there is no object left. So does descriptor 0, which `listen` was given. -/
theorem dropped_descriptors :
    (∃ p, Run step anyAction (new 4 0) p ∧ 1 ∈ p.received ∧ p.net.sockets 7 = some 1 ∧ ∀ obj, p.net.objects obj = none) ∧
      ∃ p, Run step anyAction (new 4 0) p ∧ 0 ∈ p.received ∧ p.net.sockets 0 = some 0 ∧
        ∀ obj, p.net.objects obj = none := by
  constructor
  · obtain ⟨p, hr, hp, hnone⟩ := exists_run_emptied
      [.call (.newAcceptor 0),
        .call (.listen 0 "::1" 80 { resolved := .ok (.sockaddrIn6 []), socket := .ok 6 } 100),
        .call (.loop (.submit 100 { taken := 1, ret := 1 })), .post 0 7 2, .call (.loop .begin), .next 1,
        .call (.loop .callbackReturn), .next 1, .call (.destroy 0 0)]
      (fun p => p.received == [0, 1] && p.net.sockets 7 == some 1) (by rintro (_ | _) <;> rfl)
    simp only [Bool.and_eq_true, beq_iff_eq] at hp
    exact ⟨p, hr, by rw [hp.1]; simp, hp.2, hnone⟩
  · obtain ⟨p, hr, hp, hnone⟩ := exists_run_emptied
      [.call (.newAcceptor 0),
        .call (.listen 0 "::1" 80 { resolved := .ok (.sockaddrIn6 []), socket := .ok 0 } 100), .call (.destroy 0 0)]
      (fun p => p.received == [0] && p.net.sockets 0 == some 0) (by rintro (_ | _) <;> rfl)
    simp only [Bool.and_eq_true, beq_iff_eq] at hp
    exact ⟨p, hr, by rw [hp.1]; simp, hp.2, hnone⟩

end Process

end RingNet
