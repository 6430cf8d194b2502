import RingNet.Attribution
import RingNet.Dialing
/-!
# One attempt at a time

`asyncConnect` overwrites the resolved address and the socket, which an earlier
request still points to and names, and is kept from it by the status alone. The
status stays `PENDING`, or the caller before it, as long as a request is
outstanding (`Guarded`), if completions reach their own request. A cancel that
takes over the pointer of a connect request breaks this: its completion is
taken for the connection.
-/

namespace RingNet

open Lib

namespace EventLoop

/-- The request `id` is pending, prepared or in flight, or has a completion that was not dispatched. -/
def awaits (l : EventLoop) (id : Nat) : Bool :=
  l.active id || (l.ring.posted.drop l.dispatched).any (·.owner == some (.request id))

end EventLoop

/-- The caller has seen that no attempt is pending, and has not made its own yet. -/
def Stage.prepares : Stage → Bool
  | .checked | .resolved | .opened => true
  | _ => false

namespace Dial

/-- No cancel gets a slot with a pointer in it. -/
def clean (d : Dial) : Step → Prop
  | .loop a => EventLoop.CancelClean d.loop a
  | _ => True

instance (d : Dial) : (x : Step) → Decidable (d.clean x)
  | .loop a => inferInstanceAs (Decidable (EventLoop.CancelClean d.loop a))
  | .check | .resolve _ | .openSocket .. | .add _ | .setPending | .register | .setConnected =>
    inferInstanceAs (Decidable True)

/-- The steps of `asyncConnect`. -/
def Step.calls : Step → Bool
  | .check | .resolve _ | .openSocket .. | .add _ | .setPending => true
  | _ => false

/-- An attempt has been made and not answered. -/
def underWay (d : Dial) : Prop := d.connector.connectionStatus = .PENDING ∨ d.stage = .added

/-- None of the connector's requests is outstanding, and its callback is not running. -/
structure Quiet (d : Dial) : Prop where
  outside : ¬d.inCallback = true
  none : ∀ id ∈ d.requests, ¬d.loop.awaits id = true

/-- The connection was made for the completion of a connect request of the connector, and of its descriptor. -/
def Fits (d : Dial) (p : Invoked × Connection) : Prop :=
  ∃ c id a q len, d.loop.ring.posted[p.1.completion]? = some c ∧ c.owner = some (.request id) ∧ id ∈ d.requests ∧
    d.loop.accepted[id]? = some a ∧ a.request = .connect p.2.socket.fd q len

/-- What the status guards. -/
structure Guarded (d : Dial) : Prop where
  made : ∀ id ∈ d.requests, ∃ a, d.loop.accepted[id]? = some a ∧ a.request.op = .connect
  own : ∀ (id : Nat) (a : Accepted), d.loop.accepted[id]? = some a → a.subscriber = some d.connector.subscriber →
    id ∈ d.requests
  sole : ∀ id ∈ d.requests, d.loop.awaits id = true → d.requests.getLast? = some id ∧ d.underWay ∧
    ¬d.inCallback = true ∧ ∃ a len, d.loop.accepted[id]? = some a ∧ a.request = .connect d.connector.socket.fd d.self len
  busy : d.inCallback = true → d.underWay ∧ ∀ id ∈ d.requests, ¬d.loop.awaits id = true
  early : d.stage.prepares = true → Quiet d
  handed : ∀ p ∈ d.handed, Fits d p

/-- Nothing is outstanding when an attempt can begin. -/
theorem Guarded.quiet {d : Dial} (h : Guarded d) (hs : d.stage = .idle)
    (hp : d.connector.connectionStatus ≠ .PENDING) : Quiet d := by
  have hnot : ¬d.underWay := by
    rintro (hw | hw)
    · exact hp hw
    · rw [hs] at hw
      cases hw
  constructor
  · intro hi
    exact hnot (h.busy hi).1
  · intro id hid ha
    exact hnot (h.sole id hid ha).2.1

theorem Fits.step {d d' : Dial} {act : Action} {p : Invoked × Connection} (h : Fits d p)
    (he : EventLoop.Effect d.loop act d'.loop) (hr : d'.requests = d.requests) : Fits d' p := by
  obtain ⟨c, id, a, q, len, hc, ho, hid, ha, hreq⟩ := h
  exact ⟨c, id, a, q, len, EventLoop.posted_mono he hc, ho, hr ▸ hid, EventLoop.accepted_mono he ha, hreq⟩

end Dial

end RingNet
