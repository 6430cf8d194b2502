import RingNet.Wire
/-!
# A program at one end of its connections

A loop with both parts of the memory behind it: the loop's own buffers, which
the kernel fills (`Streams.lean`), and the rest, where the program's writes
point to (`Wire.lean`). What the program does, it does to the one loop.
-/

namespace RingNet

open Lib

structure Peer where
  receiving : Receiving
  sending : Sending

namespace Peer

inductive Step
  | act (a : Action)
  | receive (i : Nat) (flags : UInt32) (data : List UInt8)
  | transmit (i : Nat) (count : Nat)
  | store (addr : Nat) (bytes : List UInt8)

/-- The kernel completes a request. -/
def Step.completes : Step → Bool
  | .act (.post ..) | .receive .. => true
  | _ => false

def new (ringEntries : Nat) : Peer := ⟨.new ringEntries, .new ringEntries⟩

/-- What a step of the loop with its buffers is to the loop. -/
def action : Receiving.Step → Action
  | .act a => a
  | .receive i flags data => .post i data.length flags

/-- A step of the loop, in both parts of memory. -/
def both (p : Peer) (x : Receiving.Step) : Except Stop Peer :=
  match p.receiving.step x, p.sending.step (.act (action x)) with
  | .ok receiving, .ok sending => .ok ⟨receiving, sending⟩
  | .error stop, _ => .error stop
  | _, .error stop => .error stop

def step (p : Peer) : Step → Except Stop Peer
  | .act a => p.both (.act a)
  | .receive i flags data => p.both (.receive i flags data)
  | .transmit i count =>
    match p.sending.step (.transmit i count) with
    | .error stop => .error stop
    | .ok sending => .ok { p with sending }
  | .store addr bytes => .ok { p with sending := { p.sending with memory := writeAt p.sending.memory addr bytes } }

/-- Requests come with subscribers, nothing is cancelled, streams end with an
error only, and writes are awaited and taken whole. -/
def Orderly (p : Peer) : Step → Prop
  | .act a => Receiving.Open p.receiving (.act a) ∧ Sending.Whole p.sending (.act a)
  | .store addr bytes => Sending.Whole p.sending (.store addr bytes)
  | .receive .. | .transmit .. => True

instance (p : Peer) : (x : Step) → Decidable (Orderly p x)
  | .act a => inferInstanceAs (Decidable (Receiving.Open p.receiving (.act a) ∧ Sending.Whole p.sending (.act a)))
  | .store addr bytes => inferInstanceAs (Decidable (Sending.Whole p.sending (.store addr bytes)))
  | .receive .. | .transmit .. => inferInstanceAs (Decidable True)

/-! ## What a step does -/

inductive Effect (p : Peer) : Step → Peer → Prop
  | act {a receiving sending} : p.receiving.step (.act a) = .ok receiving → p.sending.step (.act a) = .ok sending →
      Effect p (.act a) ⟨receiving, sending⟩
  | receive {i flags data receiving sending} : p.receiving.step (.receive i flags data) = .ok receiving →
      p.sending.step (.act (.post i data.length flags)) = .ok sending →
      Effect p (.receive i flags data) ⟨receiving, sending⟩
  | transmit {i count sending} : p.sending.step (.transmit i count) = .ok sending →
      Effect p (.transmit i count) { p with sending }
  | store {addr bytes sending} : p.sending.step (.store addr bytes) = .ok sending →
      Effect p (.store addr bytes) { p with sending }

theorem both_eq_ok {p p' : Peer} {x : Receiving.Step} (h : p.both x = .ok p') :
    p.receiving.step x = .ok p'.receiving ∧ p.sending.step (.act (action x)) = .ok p'.sending := by
  unfold both at h
  split at h
  · rename_i receiving sending hr hs
    cases h
    exact ⟨hr, hs⟩
  · cases h
  · cases h

theorem step_effect {p p' : Peer} {x : Step} (h : p.step x = .ok p') : Effect p x p' := by
  cases x with
  | act a =>
    obtain ⟨hr, hs⟩ := both_eq_ok h
    exact .act hr hs
  | receive i flags data =>
    obtain ⟨hr, hs⟩ := both_eq_ok h
    exact .receive hr hs
  | transmit i count =>
    simp only [step] at h
    split at h
    · cases h
    · rename_i hs
      cases h
      exact .transmit hs
  | store addr bytes =>
    cases h
    exact .store rfl

/-! ## One loop -/

theorem sending_loop {q q' : Sending} {a : Action} (h : q.step (.act a) = .ok q') : q.loop.step a = .ok q'.loop := by
  cases Sending.step_effect h with
  | add hl => exact hl
  | act hl _ _ => exact hl

theorem receiving_loop {p p' : Receiving} {x : Receiving.Step} (h : p.step x = .ok p') :
    p.loop.step (action x) = .ok p'.loop := by
  cases Receiving.step_effect h with
  | act _ hl => exact hl
  | receive _ _ _ hl => exact hl

/-- The loop goes on in both parts alike. -/
theorem same_loop {p p' : Receiving} {q q' : Sending} (h : p.loop = q.loop) {x : Receiving.Step}
    (hp : p.step x = .ok p') (hq : q.step (.act (action x)) = .ok q') : p'.loop = q'.loop :=
  Except.ok.inj ((receiving_loop hp).symm.trans (h ▸ sending_loop hq))

theorem same_step {p p' : Peer} {x : Step} (h : p.receiving.loop = p.sending.loop) (he : Effect p x p') :
    p'.receiving.loop = p'.sending.loop := by
  cases he with
  | act hr hs | receive hr hs => exact same_loop h hr hs
  | transmit hs =>
    cases Sending.step_effect hs with
    | transmit _ _ _ => exact h
  | store hs =>
    cases Sending.step_effect hs with
    | store => exact h

/-- A completion that comes with data is not a write's. -/
theorem receive_whole {p : Peer} (hsame : p.receiving.loop = p.sending.loop) {i : Nat} {flags : UInt32}
    {data : List UInt8} {receiving : Receiving} (h : p.receiving.step (.receive i flags data) = .ok receiving) :
    Sending.Whole p.sending (.act (.post i data.length flags)) := by
  intro x hx
  cases Receiving.step_effect h with
  | receive hfront hb hfits hl =>
    obtain ⟨hsel, -⟩ := Receiving.buffer_selects (e := x) (EventLoop.step_effect hl) (hsame ▸ hx) hb
    unfold Sending.tookAll
    split
    · rename_i hp
      rw [hp] at hsel
      cases hsel
    · rfl

section Runs
variable {n : Nat} {p : Peer} (h : Run step Orderly (new n) p)
include h

theorem same_run : p.receiving.loop = p.sending.loop :=
  Run.inv (fun p => p.receiving.loop = p.sending.loop) rfl (fun _ _ _ hi _ hs => same_step hi (step_effect hs)) h

theorem receiving_run : Run Receiving.step Receiving.Open (.new n) p.receiving := by
  refine Run.simulate (·.receiving) (fun p x p' _ hc hs => ?_) h
  cases step_effect hs with
  | act hr _ => exact Run.refl.step hc.1 hr
  | @receive i flags data _ _ hr _ => exact Run.refl.step (a := .receive i flags data) trivial hr
  | transmit _ | store _ => exact .refl

theorem sending_run : Run Sending.step Sending.Whole (.new n) p.sending := by
  refine Run.simulate (·.sending) (fun p x p' hrun hc hs => ?_) h
  cases step_effect hs with
  | act _ hw => exact Run.refl.step hc.2 hw
  | receive hr hw => exact Run.refl.step (receive_whole (same_run hrun) hr) hw
  | @transmit i count _ hw => exact Run.refl.step (a := .transmit i count) trivial hw
  | @store addr bytes _ hw => exact Run.refl.step (a := .store addr bytes) hc hw

end Runs

/-! ## What is asked for and what is heard -/

/-- All that was asked to be put on the stream of `fd`. -/
def askedOn (q : Sending) (fd : Fd) : List UInt8 := concat (q.asked fd) q.loop.accepted.length

theorem askedOn_same (q q' : Sending) (hacc : q'.loop.accepted = q.loop.accepted) (hpay : q'.payload = q.payload)
    (fd : Fd) : askedOn q' fd = askedOn q fd := by
  unfold askedOn
  rw [hacc]
  refine concat_congr fun j _ => ?_
  simp only [Sending.asked, hacc, hpay]

/-- Adding a write asks for what its span holds. -/
theorem askedOn_add {q q' : Sending} (hlen : q.payload.length = q.loop.accepted.length) {r : Request}
    {s : Option SubscriberId} {addr : Nat} (h : q.step (.act (.add r s addr)) = .ok q') (fd : Fd) :
    askedOn q' fd = askedOn q fd ++ if r.fd = fd then Sending.spanBytes q.memory r else [] := by
  cases Sending.step_effect h with
  | @add _ _ _ l hl =>
    have hacc : l.accepted = q.loop.accepted ++ [⟨EventLoop.stored r, s, addr⟩] :=
      EventLoop.accepted_step (EventLoop.step_effect hl)
    unfold askedOn
    dsimp only
    rw [hacc, List.length_append, List.length_singleton, concat_succ]
    congr 1
    · refine concat_congr fun j hj => ?_
      simp only [Sending.asked, hacc, List.getElem?_append_left hj, List.getD_eq_getElem?_getD,
        List.getElem?_append_left (hlen.symm ▸ hj)]
    · have hpay : (q.payload ++ [Sending.spanBytes q.memory r])[q.loop.accepted.length]? =
          some (Sending.spanBytes q.memory r) := by
        rw [← hlen, List.getElem?_concat_length]
      simp only [Sending.asked, hacc, List.getElem?_concat_length, List.getD_eq_getElem?_getD, hpay]
      by_cases hfd : r.fd = fd
      · rw [if_pos hfd]
        cases r <;> simp_all [EventLoop.stored, Sending.spanBytes, Request.fd]
      · rw [if_neg hfd]
        cases r <;> simp_all [EventLoop.stored, Request.fd]
  | act _ hne _ => exact absurd rfl (hne r s addr)

/-- No action but `add` asks for anything. -/
theorem askedOn_act {q q' : Sending} {a : Action} (hq : ∀ r s addr, a ≠ .add r s addr) (h : q.step (.act a) = .ok q')
    (fd : Fd) : askedOn q' fd = askedOn q fd := by
  cases Sending.step_effect h with
  | add _ => exact absurd rfl (hq _ _ _)
  | @act _ l hl _ _ =>
    exact askedOn_same q { q with loop := l } (EventLoop.accepted_frame (EventLoop.step_effect hl) hq) rfl fd

theorem running_next {l l' : EventLoop} {v : Invoked} (he : EventLoop.Effect l .next l')
    (hinv : l'.invocations = l.invocations ++ [v]) : l'.running = some v.what := by
  have hph : ∃ head processed c rb, l'.phase = .handling head processed c rb := by
    cases he with
    | finish _ _ => simp at hinv
    | dispatch _ _ _ => exact ⟨_, _, _, _, rfl⟩
  obtain ⟨head, processed, c, rb, hph⟩ := hph
  simp only [EventLoop.running, hph, hinv, List.getLast?_concat]
  rfl

theorem running_done {l l' : EventLoop} (he : EventLoop.Effect l .next l') (hinv : l'.invocations = l.invocations) :
    l'.running = none := by
  cases he with
  | finish _ _ => rfl
  | dispatch _ _ _ => simp at hinv

/-- A handler goes on until it returns. -/
theorem running_step {l l' : EventLoop} {a : Action} (he : EventLoop.Effect l a l') {what : Invocation}
    (h : l.running = some what) : a = .callbackReturn ∨ a ≠ .next ∧ l'.running = some what := by
  have hidle : l.phase ≠ .idle := by
    intro hp
    simp [EventLoop.running, hp] at h
  have hiterating : ∀ head processed, l.phase ≠ .iterating head processed := by
    intro head processed hp
    simp [EventLoop.running, hp] at h
  cases he with
  | callbackReturn _ _ _ => exact .inl rfl
  | add _ => exact .inr ⟨by simp, h⟩
  | @cancel fd taken => exact .inr ⟨by simp, h⟩
  | submit hp _ => exact absurd hp hidle
  | begin hp => exact absurd hp hidle
  | checkStatus hp => exact absurd hp hidle
  | finish hp _ => exact absurd hp (hiterating _ _)
  | dispatch hp _ _ => exact absurd hp (hiterating _ _)
  | post _ _ _ => exact .inr ⟨by simp, h⟩

/-- A step calls a handler and shows it what came with its completion, or it
changes nothing that was shown. -/
theorem heard_step {n : Nat} {p p' : Receiving} (hr : Run Receiving.step Receiving.Open (.new n) p) {x : Receiving.Step}
    (h : p.step x = .ok p') :
    (p'.loop.invocations = p.loop.invocations ∧ p'.shown = p.shown ∧ ∀ s fd, p'.heard s fd = p.heard s fd) ∨
      ∃ v bytes, x = .act .next ∧ p'.loop.running = some v.what ∧ p'.loop.invocations = p.loop.invocations ++ [v] ∧
        p'.shown = p.shown ++ [bytes] ∧ ∀ s fd, p'.heard s fd = p.heard s fd ++ Receiving.heardOn s fd v bytes := by
  have hpos := EventLoop.reach_position (Receiving.loop_run hr).any
  have hshown : p.shown.length = p.loop.invocations.length := by
    have hlen := (List.forall₂_iff_get.1 (Receiving.arrived_run hr)).1
    have hinv := congrArg List.length (EventLoop.reach_inOrder (Receiving.loop_run hr).any)
    have hle := EventLoop.dispatched_le hpos
    rw [List.length_map, List.length_range] at hinv
    rw [Receiving.shown_run hr, List.length_take]
    omega
  cases Receiving.step_effect h with
  | @act a l hb hl =>
    have he := EventLoop.step_effect hl
    rcases EventLoop.invocations_step hpos he with ⟨hinv, -⟩ | ⟨processed, c, d, rfl, -, -, -, -, -, hinv⟩
    · have hsame : p.shown ++ (l.invocations.drop p.loop.invocations.length).map (Receiving.eventBytes l p.memory) =
          p.shown := by
        rw [hinv, List.drop_length, List.map_nil, List.append_nil]
      refine .inl ⟨hinv, hsame, fun s fd => ?_⟩
      unfold Receiving.heard
      dsimp only
      rw [hsame, hinv]
    · refine .inr ⟨_, Receiving.eventBytes l p.memory ⟨p.loop.dispatched, c.owner, d.request, d.what⟩, rfl, ?_, hinv, ?_,
        fun s fd => ?_⟩
      · exact running_next he hinv
      · simp only [hinv, List.drop_left, List.map_singleton]
      · simp only [Receiving.heard, hinv, List.drop_left, List.map_singleton]
        rw [List.zip_append hshown.symm, List.flatMap_append]
        simp
  | receive _ _ _ hl =>
    rcases EventLoop.invocations_step hpos (EventLoop.step_effect hl) with ⟨hinv, -⟩ | ⟨_, _, _, hx, -⟩
    · refine .inl ⟨hinv, rfl, fun s fd => ?_⟩
      simp only [Receiving.heard, hinv]
    · cases hx

/-- Whether a step is the kernel's, or the loop thread's outside the handlers. -/
def quiet : Step → Bool
  | .act (.add ..) | .act (.cancel ..) | .act .next => false
  | _ => true

section Spec
variable {n : Nat} {p p' : Peer} (h : Run step Orderly (new n) p)
include h

/-- What a step that calls no handler and adds no request leaves as it is. -/
theorem quiet_spec {x : Step} (hx : quiet x = true) (hs : p.step x = .ok p') :
    p'.receiving.loop.accepted = p.receiving.loop.accepted ∧ p'.receiving.shown = p.receiving.shown ∧
      (∀ s fd, p'.receiving.heard s fd = p.receiving.heard s fd) ∧
      (∀ fd, askedOn p'.sending fd = askedOn p.sending fd) ∧
      (x ≠ .act .callbackReturn →
        ∀ what, p.receiving.loop.running = some what → p'.receiving.loop.running = some what) := by
  have hr := receiving_run h
  cases step_effect hs with
  | @act a receiving sending hp hq =>
    have he := EventLoop.step_effect (receiving_loop hp)
    have hadd : ∀ r s addr, a ≠ .add r s addr := by
      rintro r s addr rfl
      cases hx
    rcases heard_step hr hp with ⟨-, hshown, hheard⟩ | ⟨v, bytes, hnext, -⟩
    · refine ⟨EventLoop.accepted_frame he hadd, hshown, hheard, askedOn_act hadd hq, fun hne what hw => ?_⟩
      exact ((running_step he hw).resolve_left fun ha => hne (congrArg Step.act ha)).2
    · cases hnext
      cases hx
  | @receive i flags data receiving sending hp hq =>
    have he := EventLoop.step_effect (receiving_loop hp)
    rcases heard_step hr hp with ⟨-, hshown, hheard⟩ | ⟨v, bytes, hnext, -⟩
    · refine ⟨EventLoop.accepted_frame he (by simp [action]), hshown, hheard, askedOn_act (by simp) hq, ?_⟩
      intro _ what hw
      exact ((running_step he hw).resolve_left (by simp [action])).2
    · cases hnext
  | transmit hq =>
    cases Sending.step_effect hq with
    | transmit _ _ _ => exact ⟨rfl, rfl, fun _ _ => rfl, fun _ => rfl, fun _ _ hw => hw⟩
  | store hq =>
    cases Sending.step_effect hq with
    | store => exact ⟨rfl, rfl, fun _ _ => rfl, fun _ => rfl, fun _ _ hw => hw⟩

/-- A request that is added asks for what it has to write, and no more is heard for now. -/
theorem add_spec {r : Request} {s : SubscriberId} {addr : Nat} (hs : p.step (.act (.add r (some s) addr)) = .ok p') :
    p'.receiving.loop.accepted = p.receiving.loop.accepted ++ [⟨EventLoop.stored r, some s, addr⟩] ∧
      p'.receiving.shown = p.receiving.shown ∧ (∀ s fd, p'.receiving.heard s fd = p.receiving.heard s fd) ∧
      (∀ fd, askedOn p'.sending fd =
        askedOn p.sending fd ++ if r.fd = fd then Sending.spanBytes p.sending.memory r else []) ∧
      ∀ what, p.receiving.loop.running = some what → p'.receiving.loop.running = some what := by
  have hlen := (Sending.kept_run ((sending_run h).mono fun _ _ => Sending.Whole.awaits)).payload
  cases step_effect hs with
  | act hp hq =>
    have he := EventLoop.step_effect (receiving_loop hp)
    rcases heard_step (receiving_run h) hp with ⟨-, hshown, hheard⟩ | ⟨v, bytes, hnext, -⟩
    · refine ⟨EventLoop.accepted_step he, hshown, hheard, askedOn_add hlen hq, fun what hw => ?_⟩
      exact ((running_step he hw).resolve_left (by simp [action])).2
    · cases hnext

/-- `next` calls a handler, or ends the iteration. -/
theorem next_spec (hs : p.step (.act .next) = .ok p') :
    p.receiving.loop.running = none ∧ p'.receiving.loop.accepted = p.receiving.loop.accepted ∧
      (∀ fd, askedOn p'.sending fd = askedOn p.sending fd) ∧
      ((p'.receiving.loop.running = none ∧ ∀ s fd, p'.receiving.heard s fd = p.receiving.heard s fd) ∨
        ∃ v bytes, p'.receiving.loop.running = some v.what ∧ p'.receiving.shown = p.receiving.shown ++ [bytes] ∧
          ∀ s fd, p'.receiving.heard s fd = p.receiving.heard s fd ++ Receiving.heardOn s fd v bytes) := by
  cases step_effect hs with
  | act hp hq =>
    have he := EventLoop.step_effect (receiving_loop hp)
    refine ⟨?_, EventLoop.accepted_step he, askedOn_act (by simp) hq, ?_⟩
    · cases hw : p.receiving.loop.running with
      | none => rfl
      | some what => exact absurd rfl ((running_step he hw).resolve_left (by simp [action])).1
    · rcases heard_step (receiving_run h) hp with ⟨hinv, -, hheard⟩ | ⟨v, bytes, -, hrun, -, hshown, hheard⟩
      · exact .inl ⟨running_done he hinv, hheard⟩
      · exact .inr ⟨v, bytes, hrun, hshown, hheard⟩

end Spec

end Peer

end RingNet
