import RingNet.Link
import RingNet.Echo
/-!
# A client and the echo server

A client, which may be any program, and the echo server, with a connection
between the client's socket `mine` and the server's socket `theirs`. Each end
has its own loop, kernel and memory; each kernel takes what comes next of the
other's stream, in pieces of any size.

Looked at from one end to the other it is a link (`Link.lean`) in both
directions, and at the server what comes in goes out again (`Echo.lean`). So
the client gets back what it sent: `gets_back_what_it_sent`.
-/

namespace RingNet

open Lib
open Peer (askedOn)

structure RoundTrip where
  client : Peer
  server : EchoServer
  /-- How much of the client's stream the server's end has taken, and of the server's the client's. -/
  up : Nat := 0
  down : Nat := 0

namespace RoundTrip

inductive Step
  | client (x : Peer.Step)
  | server (x : EchoServer.Step)

def new (n m : Nat) : RoundTrip := { client := .new n, server := .new m }

/-- How much of the stream has been taken after a step of the end that reads it. -/
def taken (r : Receiving) (inn : Fd) (stream : List UInt8) (arrived : Nat) : Peer.Step → Option Nat
  | .act a => Link.taken r inn stream arrived (.act a)
  | .receive i flags data => Link.taken r inn stream arrived (.receive i flags data)
  | .transmit .. | .store .. => some arrived

def step (mine theirs : Fd) (t : RoundTrip) : Step → Except Stop RoundTrip
  | .client x =>
    match t.client.step x, taken t.client.receiving mine (t.server.sending.wire theirs) t.down x with
    | .ok client, some down => .ok { t with client, down }
    | .error stop, _ => .error stop
    | _, none => .error .disabled
  | .server (.own x) =>
    match t.server.step (.own x), taken t.server.receiving theirs (t.client.sending.wire mine) t.up x with
    | .ok server, some up => .ok { t with server, up }
    | .error stop, _ => .error stop
    | _, none => .error .disabled
  | .server x =>
    match t.server.step x with
    | .error stop => .error stop
    | .ok server => .ok { t with server }

/-- The client is an orderly program, the server runs calmly. -/
def Calm (t : RoundTrip) : Step → Prop
  | .client x => Peer.Orderly t.client x
  | .server x => EchoServer.Calm t.server x

instance (t : RoundTrip) : (x : Step) → Decidable (Calm t x)
  | .client x => inferInstanceAs (Decidable (Peer.Orderly t.client x))
  | .server x => inferInstanceAs (Decidable (EchoServer.Calm t.server x))

/-- From the client to the server. -/
def toServer (t : RoundTrip) : Link := ⟨t.client.sending, t.server.receiving, t.up⟩

/-- And back. -/
def toClient (t : RoundTrip) : Link := ⟨t.server.sending, t.client.receiving, t.down⟩

/-! ## What a step does -/

inductive Effect (mine theirs : Fd) (t : RoundTrip) : Step → RoundTrip → Prop
  | client {x client down} : t.client.step x = .ok client →
      taken t.client.receiving mine (t.server.sending.wire theirs) t.down x = some down →
      Effect mine theirs t (.client x) { t with client, down }
  | own {x server up} : t.server.step (.own x) = .ok server →
      taken t.server.receiving theirs (t.client.sending.wire mine) t.up x = some up →
      Effect mine theirs t (.server (.own x)) { t with server, up }
  | server {x server} : (∀ y, x ≠ .own y) → t.server.step x = .ok server →
      Effect mine theirs t (.server x) { t with server }

theorem step_effect {mine theirs : Fd} {t t' : RoundTrip} {x : Step} (h : t.step mine theirs x = .ok t') :
    Effect mine theirs t x t' := by
  unfold step at h
  split at h
  · split at h
    · rename_i hs ht
      cases h
      exact .client hs ht
    · cases h
    · cases h
  · split at h
    · rename_i hs ht
      cases h
      exact .own hs ht
    · cases h
    · cases h
  · rename_i x hown
    split at h
    · cases h
    · rename_i hs
      cases h
      exact .server (fun y hy => hown y (by rw [hy])) hs

/-! ## Both directions -/

section Ends
variable {p p' : Peer} {x : Peer.Step} (hc : Peer.Orderly p x) (hs : p.step x = .ok p')
include hc hs

/-- A step of the end that writes. -/
theorem link_sender (hsame : p.receiving.loop = p.sending.loop) (out inn : Fd) (r : Receiving) (arrived : Nat) :
    Run (Link.step out inn) Link.Steady ⟨p.sending, r, arrived⟩ ⟨p'.sending, r, arrived⟩ := by
  have hlink : ∀ {y : Sending.Step} {sending}, p.sending.step y = .ok sending → Sending.Whole p.sending y →
      Run (Link.step out inn) Link.Steady ⟨p.sending, r, arrived⟩ ⟨sending, r, arrived⟩ := by
    intro y sending hy hw
    refine Run.refl.step (a := .sender y) hw ?_
    simp only [Link.step, hy]
  cases Peer.step_effect hs with
  | act _ hq => exact hlink hq hc.2
  | receive hp hq => exact hlink hq (Peer.receive_whole hsame hp)
  | @transmit i count _ hq => exact hlink (y := .transmit i count) hq trivial
  | @store addr bytes _ hq => exact hlink (y := .store addr bytes) hq hc

/-- A step of the end that reads. -/
theorem link_receiver (out inn : Fd) (q : Sending) {arrived arrived' : Nat}
    (ht : taken p.receiving inn (q.wire out) arrived x = some arrived') :
    Run (Link.step out inn) Link.Steady ⟨q, p.receiving, arrived⟩ ⟨q, p'.receiving, arrived'⟩ := by
  have hlink : ∀ {y : Receiving.Step} {receiving}, p.receiving.step y = .ok receiving → Receiving.Open p.receiving y →
      Link.taken p.receiving inn (q.wire out) arrived y = some arrived' →
      Run (Link.step out inn) Link.Steady ⟨q, p.receiving, arrived⟩ ⟨q, receiving, arrived'⟩ := by
    intro y receiving hy ho ht
    refine Run.refl.step (a := .receiver y) ho ?_
    simp only [Link.step, hy, ht]
  cases Peer.step_effect hs with
  | act hp _ => exact hlink hp hc.1 ht
  | receive hp _ => exact hlink hp trivial ht
  | transmit _ | store _ =>
    cases ht
    exact .refl

end Ends

/-- Where nothing is completed nothing is taken. -/
theorem taken_same {x : Peer.Step} (hx : x.completes = false) (r : Receiving) (inn : Fd) (stream : List UInt8)
    (arrived : Nat) : taken r inn stream arrived x = some arrived := by
  cases x with
  | act a => cases a <;> first | rfl | cases hx
  | receive _ _ _ => cases hx
  | _ => rfl

/-- The same over several steps. -/
theorem link_senders {C : Peer → Peer.Step → Prop} (hC : ∀ p x, C p x → Peer.Orderly p x) {p p' : Peer}
    (hr : Run Peer.step C p p') (hsame : p.receiving.loop = p.sending.loop) (out inn : Fd) (r : Receiving)
    (arrived : Nat) : Run (Link.step out inn) Link.Steady ⟨p.sending, r, arrived⟩ ⟨p'.sending, r, arrived⟩ := by
  refine Run.simulate (fun p => (⟨p.sending, r, arrived⟩ : Link)) (fun p x p' hrun hc hs => ?_) hr
  have hsame : p.receiving.loop = p.sending.loop :=
    Run.inv (fun p => p.receiving.loop = p.sending.loop) hsame
      (fun _ _ _ hi _ hs => Peer.same_step hi (Peer.step_effect hs)) hrun
  exact link_sender (hC p x hc) hs hsame out inn r arrived

theorem link_receivers {C : Peer → Peer.Step → Prop}
    (hC : ∀ p x, C p x → Peer.Orderly p x ∧ x.completes = false) {p p' : Peer}
    (hr : Run Peer.step C p p') (out inn : Fd) (q : Sending) (arrived : Nat) :
    Run (Link.step out inn) Link.Steady ⟨q, p.receiving, arrived⟩ ⟨q, p'.receiving, arrived⟩ := by
  refine Run.simulate (fun p => (⟨q, p.receiving, arrived⟩ : Link)) (fun p x p' _ hc hs => ?_) hr
  exact link_receiver (hC p x hc).1 hs out inn q (taken_same (hC p x hc).2 _ _ _ _)

section Runs
variable {mine theirs : Fd} {n m : Nat} {t : RoundTrip} (h : Run (step mine theirs) Calm (new n m) t)
include h

theorem client_run : Run Peer.step Peer.Orderly (.new n) t.client := by
  refine Run.simulate (·.client) (fun t x t' _ hc hs => ?_) h
  cases step_effect hs with
  | client hp _ => exact Run.refl.step hc hp
  | own _ _ | server _ _ => exact .refl

theorem server_run : Run EchoServer.step EchoServer.Calm (.new m) t.server := by
  refine Run.simulate (·.server) (fun t x t' _ hc hs => ?_) h
  cases step_effect hs with
  | client _ _ => exact .refl
  | @own x _ _ hp _ => exact Run.refl.step (a := .own x) hc hp
  | server _ hp => exact Run.refl.step hc hp

/-- From the client to the server. -/
theorem toServer_run : Run (Link.step mine theirs) Link.Steady (.new n m) t.toServer := by
  refine Run.simulate toServer (fun t x t' hrun hc hs => ?_) h
  cases step_effect hs with
  | client hp _ => exact link_sender hc hp (Peer.same_run (client_run hrun)) _ _ _ _
  | own hp ht => exact link_receiver hc (EchoServer.own_peer hp) _ _ _ ht
  | server hown hp =>
    refine link_receivers (fun p y hy => ⟨hy.1, ?_⟩) (EchoServer.calm_steps hc (EchoServer.step_effect hp)) _ _ _ _
    exact Bool.eq_false_iff.2 fun hdone => hown y (hy.2 hdone)

/-- And back. -/
theorem toClient_run : Run (Link.step theirs mine) Link.Steady (.new m n) t.toClient := by
  refine Run.simulate toClient (fun t x t' hrun hc hs => ?_) h
  have hsame := Peer.same_run (EchoServer.peer_run (server_run hrun))
  cases step_effect hs with
  | client hp ht => exact link_receiver hc hp _ _ _ ht
  | own hp _ => exact link_sender hc (EchoServer.own_peer hp) hsame _ _ _ _
  | server _ hp =>
    exact link_senders (fun _ _ => And.left) (EchoServer.calm_steps hc (EchoServer.step_effect hp)) hsame _ _ _ _

/-- All reads on the server's socket are those of its connection. -/
theorem server_own {k : Nat} (hk : t.server.connections[k]? = some theirs) :
    Link.ReadBy t.server.receiving.loop theirs (k + 1) := by
  have hi := EchoServer.echoing_run (server_run h)
  constructor <;> intro a ha hop
  · intro hfd
    rcases hi.requests a ha with ⟨⟨fd, hreq⟩, -⟩ | ⟨j, fd, hj, hs, ⟨group, hreq⟩ | ⟨bytes, hreq⟩⟩
    · rw [hreq] at hop
      cases hop
    · rw [hreq] at hfd
      obtain rfl : fd = theirs := hfd
      obtain rfl := (List.getElem?_inj (List.getElem?_eq_some_iff.1 hj).1 hi.distinct).1 (hj.trans hk.symm)
      exact hs
    · rw [hreq] at hop
      cases hop
  · -- the server makes no single-shot reads
    rcases hi.requests a ha with ⟨⟨fd, hreq⟩, -⟩ | ⟨j, fd, -, -, ⟨group, hreq⟩ | ⟨bytes, hreq⟩⟩ <;>
      rw [hreq] at hop <;> cases hop

end Runs

/-- Nothing is on the way any more. -/
structure Settled (mine theirs : Fd) (k : Nat) (t : RoundTrip) : Prop where
  asked : ∀ w ∈ t.client.sending.loop.outstandingWrites, w.1 ≠ mine
  up : t.up = (t.client.sending.wire mine).length
  server : t.server.receiving.loop.dispatched = t.server.receiving.loop.ring.posted.length
  due : ∀ bytes, t.server.due ≠ some (.read k bytes)
  answered : ∀ w ∈ t.server.sending.loop.outstandingWrites, w.1 ≠ theirs
  down : t.down = (t.server.sending.wire theirs).length
  client : t.client.receiving.loop.dispatched = t.client.receiving.loop.ring.posted.length

/-- In every run of an orderly client and a calm server, however the two
streams are cut into pieces and whatever the server does for other clients
meanwhile: what the client is shown is the beginning of what it asked to be
written, and all of it once nothing is on the way any more. (Only the
multi-shot reads of `s` read from the client's socket.) -/
theorem gets_back_what_it_sent {mine theirs : Fd} {n m : Nat} {t : RoundTrip}
    (h : Run (step mine theirs) Calm (new n m) t) {k : Nat} {s : SubscriberId}
    (hk : t.server.connections[k]? = some theirs)
    (hown : Link.ReadBy t.client.receiving.loop mine s) :
    t.client.receiving.heard s mine <+: askedOn t.client.sending mine ∧
      (Settled mine theirs k t → t.client.receiving.heard s mine = askedOn t.client.sending mine) := by
  obtain ⟨hsent, hsentAll⟩ := Sending.wire_prefix (Peer.sending_run (client_run h)) mine
  obtain ⟨hread, hreadAll⟩ := Link.heard_stream (toServer_run h) (server_own h hk)
  obtain ⟨hback, hbackAll⟩ := EchoServer.wire_heard (server_run h) hk
  obtain ⟨hgot, hgotAll⟩ := Link.heard_stream (toClient_run h) hown
  refine ⟨hgot.trans (hback.trans (hread.trans hsent)), fun hs => ?_⟩
  calc t.client.receiving.heard s mine
      = t.server.sending.wire theirs := hgotAll hs.down hs.client
    _ = t.server.receiving.heard (k + 1) theirs := hbackAll hs.answered hs.due
    _ = t.client.sending.wire mine := hreadAll hs.up hs.server
    _ = askedOn t.client.sending mine := hsentAll hs.asked

/-- The server is sent one write in two pieces, and the client gets it back in one. -/
def oneMessage : List Step :=
  [.server (.listen 3 100), .server (.own (.act (.submit 100 { taken := 1, ret := 1 }))),
    .server (.own (.act (.post 0 5 2))), .server (.own (.act .begin)), .server (.own (.act .next)),
    .server (.onNewConnection 200), .server (.own (.act .callbackReturn)), .server (.own (.act .next)),
    .server (.own (.act (.submit 100 { taken := 1, ret := 1 }))),
    .client (.act (.add (.multiShotRead 7 0) (some 1) 100)), .client (.store 4096 [1, 2, 3]),
    .client (.act (.add (.write 7 ⟨4096, 3⟩) (some 1) 200)), .client (.act (.submit 100 { taken := 2, ret := 2 })),
    .client (.transmit 1 3), .client (.act (.post 1 3 0)), .server (.own (.receive 1 3 [1, 2])),
    .server (.own (.act .begin)), .server (.own (.act .next)), .server (.onRead 8192 400),
    .server (.own (.act .callbackReturn)), .server (.own (.act .next)),
    .server (.own (.act (.submit 100 { taken := 1, ret := 1 }))), .server (.own (.transmit 2 2)),
    .server (.own (.act (.post 2 2 0))), .server (.own (.receive 1 65539 [3])), .server (.own (.act .begin)),
    .server (.own (.act .next)), .server (.own (.act .callbackReturn)), .server (.own (.act .next)),
    .server (.onRead 8192 400), .server (.own (.act .callbackReturn)), .server (.own (.act .next)),
    .server (.own (.act (.submit 100 { taken := 1, ret := 1 }))), .server (.own (.transmit 2 1)),
    .server (.own (.act (.post 2 1 0))), .server (.own (.act .begin)), .server (.own (.act .next)),
    .server (.own (.act .callbackReturn)), .client (.receive 0 3 [1, 2, 3]), .client (.act .begin),
    .client (.act .next), .client (.act .callbackReturn), .client (.act .next)]

theorem gets_back_what_it_sent_message :
    ∃ t, Run (step 7 5) Calm (new 4 4) t ∧ t.client.receiving.heard 1 7 = [1, 2, 3] ∧
      askedOn t.client.sending 7 = [1, 2, 3] := by
  obtain ⟨t, hr, ht⟩ := exists_run (step 7 5) (fun t x => decide (Calm t x)) (fun _ _ => of_decide_eq_true) (new 4 4)
    oneMessage (fun t => t.client.receiving.heard 1 7 == [1, 2, 3] && t.server.connections == [5] &&
      t.client.receiving.loop.accepted.all (·.subscriber == some 1) &&
      t.client.receiving.loop.accepted.all (·.request.op != .read) && t.client.sending.loop.outstandingWrites.isEmpty &&
      t.server.sending.loop.outstandingWrites.isEmpty && t.server.due.isNone &&
      decide (t.up = (t.client.sending.wire 7).length) && decide (t.down = (t.server.sending.wire 5).length) &&
      decide (t.server.receiving.loop.dispatched = t.server.receiving.loop.ring.posted.length) &&
      decide (t.client.receiving.loop.dispatched = t.client.receiving.loop.ring.posted.length)) (by decide +kernel)
  simp only [Bool.and_eq_true, beq_iff_eq, bne_iff_ne, ne_eq, decide_eq_true_eq, List.isEmpty_iff, List.all_eq_true,
    Option.isNone_iff_eq_none] at ht
  obtain ⟨⟨⟨⟨⟨⟨⟨⟨⟨⟨hheard, hconn⟩, hown⟩, honce⟩, hasked⟩, hanswered⟩, hdue⟩, hup⟩, hdown⟩, hserver⟩, hclient⟩ := ht
  have hby : Link.ReadBy t.client.receiving.loop 7 1 :=
    ⟨fun a ha _ _ => hown a ha, fun a ha hop => absurd hop (honce a ha)⟩
  refine ⟨t, hr, hheard, ?_⟩
  rw [← hheard, (gets_back_what_it_sent hr (k := 0) (by rw [hconn]; rfl) hby).2]
  exact ⟨by simp [hasked], hup, hserver, by simp [hdue], by simp [hanswered], hdown, hclient⟩

end RoundTrip

end RingNet
