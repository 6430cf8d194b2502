import RingNet.Delivery
import RingNet.Net
/-!
# Read streams

`asyncRead` makes one multi-shot read, and the program is not told that the
kernel ended it other than by the event of the last completion: neither the
loop nor the connection looks at `IORING_CQE_F_MORE`, and no read is ever
armed again. So a stream may end with an ordinary data event. What does hold
is that it never ends without an event.
-/

namespace RingNet

open Lib

namespace Net

/-- A call of `asyncRead` is noted with the request it made; nothing else is. -/
theorem effect_reads {n n' : Net} {c : Call} (he : Effect n c n') :
    n'.reads = n.reads ∨ ∃ (d : Connection) (addr : Nat), n'.reads = n.reads ++ [(d.subscriber, n.loop.accepted.length)] ∧
      n.loop.step (.add d.readRequest d.subscriber addr) = .ok n'.loop := by
  cases he with
  | @asyncRead obj addr d hd hf => exact .inr ⟨d, addr, rfl, if_pos hf⟩
  | @destroy obj taken o ho =>
    rw [close_same, cancelIfValid_same]
    exact .inl rfl
  | attempt _ _ _ _ ha =>
    obtain ⟨sockets, nextSocket, ⟨-, rfl⟩ | ⟨r, -, -, rfl⟩⟩ := attempt_cases ha <;> exact .inl rfl
  | _ => exact .inl rfl

/-- Every call of `asyncRead` made a multi-shot read for the connection's subscriber. -/
def ReadsMade (n : Net) : Prop :=
  ∀ r ∈ n.reads, ∃ a, n.loop.accepted[r.2]? = some a ∧ a.request.op = .readMultishot ∧ a.subscriber = r.1

theorem readsMade_step {n n' : Net} {c : Call} (h : ReadsMade n) (he : Effect n c n') : ReadsMade n' := by
  -- what was made before is still there
  have hold : ∀ r ∈ n.reads, ∃ a, n'.loop.accepted[r.2]? = some a ∧ a.request.op = .readMultishot ∧ a.subscriber = r.1 := by
    intro r hr
    obtain ⟨a, ha, hop, hs⟩ := h r hr
    rcases effect_loop he with hl | ⟨act, hstep, -⟩
    · exact ⟨a, by rw [hl, ha], hop, hs⟩
    · exact ⟨a, EventLoop.accepted_mono (EventLoop.step_effect hstep) ha, hop, hs⟩
  intro r hr
  rcases effect_reads he with hreads | ⟨d, addr, hreads, hstep⟩
  · rw [hreads] at hr
    exact hold r hr
  · rw [hreads, List.mem_append, List.mem_singleton] at hr
    rcases hr with hr | rfl
    · exact hold r hr
    · have hacc := EventLoop.accepted_step (EventLoop.step_effect hstep)
      dsimp only at hacc
      exact ⟨_, by rw [hacc, List.getElem?_concat_length], rfl, rfl⟩

theorem readsMade_run {k : Nat} {st : Int} {n : Net} (h : Run step anyAction (new k st) n) : ReadsMade n :=
  Run.inv ReadsMade (fun _ hr => by cases hr) (fun _ _ _ hi _ hs => readsMade_step hi (step_effect hs)) h

/-- On every run, each read a connection was asked for is under way, or its
last completion waits to be dispatched, or the subscriber was handed the event
of that completion: the error, or as much as was read. Requests that never got
an entry are left out. -/
theorem read_streams_end_with_event {k : Nat} {st : Int} {n : Net} (h : Run step anyAction (new k st) n)
    {s : SubscriberId} {id : Nat} (hr : (some s, id) ∈ n.reads) :
    ∃ a, n.loop.accepted[id]? = some a ∧ a.request.op = .readMultishot ∧ a.subscriber = some s ∧
      (n.loop.ReadPending id ∨ n.loop.Dropped id ∨ n.loop.ReadEnded id s a.request.fd) := by
  obtain ⟨a, ha, hop, hs⟩ := readsMade_run h (some s, id) hr
  exact ⟨a, ha, hop, hs, EventLoop.read_accounted (run_loop h) ha hop hs⟩

/-- One connection has received data and is still being read from when the
read of another one fails. -/
theorem read_streams_end_with_event_reset :
    ∃ n, Run step anyAction (new 4 0) n ∧ n.reads = [(some 0, 0), (some 1, 1)] ∧
      n.loop.invocations.map (·.what) = [.subscriber 0 (.read 5 ⟨0, 10⟩), .subscriber 1 (.error 104)] ∧
      (∃ fd, n.loop.ReadPending 0 ∨ n.loop.Dropped 0 ∨ n.loop.ReadEnded 0 0 fd) ∧
      (∃ fd, n.loop.ReadPending 1 ∨ n.loop.Dropped 1 ∨ n.loop.ReadEnded 1 1 fd) := by
  obtain ⟨n, hr, hp⟩ := exists_run_any step (new 4 0)
    [.newConnection 0 5, .newConnection 1 6, .asyncRead 0 100, .asyncRead 1 200,
      .loop (.submit 100 { taken := 2, ret := 2 }), .loop (.post 0 10 3), .loop (.post 1 (-104) 0), .loop .begin,
      .loop .next, .loop .callbackReturn, .loop .next, .loop .callbackReturn]
    (fun n => n.reads == [(some 0, 0), (some 1, 1)] &&
      n.loop.invocations.map (·.what) == [.subscriber 0 (.read 5 ⟨0, 10⟩), .subscriber 1 (.error 104)])
    (by decide +kernel)
  simp only [Bool.and_eq_true, beq_iff_eq] at hp
  have h0 : (some 0, 0) ∈ n.reads := by simp [hp.1]
  have h1 : (some 1, 1) ∈ n.reads := by simp [hp.1]
  obtain ⟨a, -, -, -, hacc⟩ := read_streams_end_with_event hr h0
  obtain ⟨b, -, -, -, hbcc⟩ := read_streams_end_with_event hr h1
  exact ⟨n, hr, hp.1, hp.2, ⟨_, hacc⟩, ⟨_, hbcc⟩⟩

/-- The kernel ends a read with its first data. The connection hears of the
ten bytes and of nothing else, and no read is under way any more. -/
theorem read_stream_stops_after_data :
    ∃ n, Run step anyAction (new 4 0) n ∧ n.reads = [(some 0, 0)] ∧ n.destroyed = [] ∧
      n.loop.pending = [] ∧ n.loop.ring.unsubmitted = [] ∧ n.loop.ring.inflight = [] ∧
      n.loop.dispatched = n.loop.ring.posted.length ∧
      n.loop.invocations.map (·.what) = [.subscriber 0 (.read 5 ⟨0, 10⟩)] := by
  obtain ⟨n, hr, hp⟩ := exists_run_any step (new 4 0)
    [.newConnection 0 5, .asyncRead 0 100, .loop (.submit 100 { taken := 1, ret := 1 }), .loop (.post 0 10 1),
      .loop .begin, .loop .next, .loop .callbackReturn, .loop .next]
    (fun n => n.reads == [(some 0, 0)] && n.destroyed == [] && n.loop.pending == [] &&
      n.loop.ring.unsubmitted == [] && n.loop.ring.inflight == [] &&
      n.loop.dispatched == n.loop.ring.posted.length &&
      n.loop.invocations.map (·.what) == [.subscriber 0 (.read 5 ⟨0, 10⟩)]) (by decide +kernel)
  simp only [Bool.and_eq_true, beq_iff_eq] at hp
  obtain ⟨⟨⟨⟨⟨⟨h1, h2⟩, h3⟩, h4⟩, h5⟩, h6⟩, h7⟩ := hp
  exact ⟨n, hr, h1, h2, h3, h4, h5, h6, h7⟩

end Net

end RingNet
