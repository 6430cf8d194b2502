import Mathlib.Data.List.Perm.Subperm
import RingNet.Conservation
/-!
# What is given back to the pool

`release` finds a block by the completion's `user_data` and gives it back if
the request in it is single-shot. On every run, whatever the completions are
attributed to: a block is given back once and as the type it was allocated for
(`Books`), and a single-shot request whose last completion has been processed
has no block any more (`Settled`). Multi-shot requests keep their block for
good, the ones that have ended included.
-/

namespace RingNet

open Lib IoUring

namespace EventLoop

abbrev returned (l : EventLoop) : List Returned := l.submissionQueue.returned

@[simp] theorem new_returned (n : Nat) (st : Int) : (new n st).returned = [] := rfl

/-- Allocated and returned blocks account for every accepted request. -/
structure Books (l : EventLoop) : Prop where
  held : ∀ id a, l.accepted[id]? = some a → blockOf a id ∈ l.pool ∨ id ∈ l.returned.map (·.id)
  once : (l.returned.map (·.id)).Nodup
  gone : ∀ r ∈ l.returned, ∀ b ∈ l.pool, b.id ≠ r.id
  types : ∀ r ∈ l.returned, ∃ a, l.accepted[r.id]? = some a ∧ a.request.op = r.type ∧ r.type.multishot = false

theorem books_add {l : EventLoop} (h : Books l) (r : Request) (s : Option SubscriberId) (addr : Nat) :
    Books (l.add r s addr).2 := by
  have hold : ∀ {id : Nat} {a : Accepted}, l.accepted[id]? = some a → id ≠ l.accepted.length := by
    intro id a ha
    exact Nat.ne_of_lt (List.getElem?_eq_some_iff.1 ha).1
  refine ⟨?_, h.once, ?_, ?_⟩
  · intro id a ha
    by_cases hid : id = l.accepted.length
    · -- the new request
      subst hid
      have hnew : (l.accepted ++ [⟨stored r, s, addr⟩])[l.accepted.length]? = some ⟨stored r, s, addr⟩ :=
        List.getElem?_concat_length
      have hea : a = ⟨stored r, s, addr⟩ := Option.some.inj (ha.symm.trans hnew)
      subst hea
      exact .inl List.mem_cons_self
    · have ha' : (l.accepted ++ [⟨stored r, s, addr⟩])[id]? = some a := ha
      have hlt : id < l.accepted.length := by
        have hlen := (List.getElem?_eq_some_iff.1 ha').1
        rw [List.length_append, List.length_singleton] at hlen
        omega
      rw [List.getElem?_append_left hlt] at ha'
      exact (h.held id a ha').imp (List.mem_cons_of_mem _) (fun h' => h')
  · intro x hx b hb
    rcases List.mem_cons.1 hb with rfl | hb
    · obtain ⟨a, ha, -⟩ := h.types x hx
      exact (hold ha).symm
    · exact h.gone x hx b hb
  · intro x hx
    obtain ⟨a, ha, ht⟩ := h.types x hx
    exact ⟨a, accepted_append ha _, ht⟩

/-- Giving the block of a single-shot request back keeps the books. -/
theorem books_return {l l' : EventLoop} (h : Books l) (ht : Traced l) {b : Block} {a : Accepted} {o : Option Owner}
    (hb : b ∈ l.pool) (ha : l.accepted[b.id]? = some a) (hm : a.request.op.multishot = false)
    (hpool : l'.pool = l.pool.filter (·.addr ≠ b.addr)) (hacc : l'.accepted = l.accepted)
    (hret : l'.returned = l.returned ++ [⟨o, b.id, a.request.op⟩]) : Books l' := by
  have hsub : ∀ x ∈ l'.pool, x ∈ l.pool ∧ x.addr ≠ b.addr := by
    intro x hx
    rw [hpool] at hx
    simpa using List.mem_filter.1 hx
  constructor
  · intro id x hx
    rw [hacc] at hx
    rw [hret, List.map_append, List.mem_append]
    rcases h.held id x hx with hmem | hmem
    · by_cases he : (blockOf x id).addr = b.addr
      · have heq := ht.eq_of_addr hmem hb he
        exact .inr (.inr (by rw [← heq]; exact List.mem_singleton_self _))
      · left
        rw [hpool]
        exact List.mem_filter.2 ⟨hmem, by simpa using he⟩
    · exact .inr (.inl hmem)
  · rw [hret, List.map_append]
    apply h.once.append (List.nodup_singleton _)
    intro id hid hid'
    obtain ⟨r, hr, rfl⟩ := List.mem_map.1 hid
    rw [List.mem_singleton] at hid'
    exact h.gone r hr b hb hid'.symm
  · intro r hr x hx
    obtain ⟨hxp, hxa⟩ := hsub x hx
    rw [hret, List.mem_append, List.mem_singleton] at hr
    rcases hr with hr | rfl
    · exact h.gone r hr x hxp
    · intro he
      exact hxa (congrArg Block.addr (List.inj_on_of_nodup_map ht.ids hxp hb he))
  · intro r hr
    rw [hacc]
    rw [hret, List.mem_append, List.mem_singleton] at hr
    rcases hr with hr | rfl
    · exact h.types r hr
    · exact ⟨a, ha, rfl, hm⟩

theorem books_frame {l l' : EventLoop} (h : Books l) (hpool : l'.pool = l.pool) (hacc : l'.accepted = l.accepted)
    (hret : l'.returned = l.returned) : Books l' := by
  constructor
  · rw [hpool, hacc, hret]; exact h.held
  · rw [hret]; exact h.once
  · rw [hpool, hret]; exact h.gone
  · rw [hacc, hret]; exact h.types

theorem books_step {l l' : EventLoop} {x : Action} (h : Books l) (hp : Position l) (ht : Traced l)
    (he : Effect l x l') : Books l' := by
  cases x with
  | add r s addr => cases he; exact books_add h r s addr
  | callbackReturn =>
    obtain ⟨c, b, a, -, hb, -, ha, -, -, hq⟩ := callbackReturn_spec hp ht he
    cases hm : a.request.op.multishot with
    | true =>
      rw [hm, if_pos rfl] at hq
      exact books_frame h (congrArg (·.requestPool) hq) (congrArg (·.accepted) hq) (congrArg (·.returned) hq)
    | false =>
      rw [hm, if_neg (by decide)] at hq
      exact books_return h ht hb ha hm (congrArg (·.requestPool) hq) (congrArg (·.accepted) hq)
        (congrArg (·.returned) hq)
  | _ =>
    obtain ⟨-, hret, hpool⟩ := finished_frame hp he (by simp)
    exact books_frame h hpool (accepted_step he) hret

theorem reach_books {n : Nat} {st : Int} {l : EventLoop} (h : Reachable n st l) : Books l := by
  refine Run.inv_of (fun l => Position l ∧ Traced l) Books (fun l hr => ⟨reach_position hr, reach_traced hr⟩) ?_ ?_ h
  · constructor <;> simp
  · intro s a s' hj hi _ hs
    exact books_step hi hj.1 hj.2 (step_effect hs)

/-- A multi-shot request's block is never given back. -/
theorem Books.kept {l : EventLoop} (h : Books l) {id : Nat} {a : Accepted} (ha : l.accepted[id]? = some a)
    (hm : a.request.op.multishot = true) : blockOf a id ∈ l.pool := by
  rcases h.held id a ha with hb | hr
  · exact hb
  · obtain ⟨r, hmem, rfl⟩ := List.mem_map.1 hr
    obtain ⟨a', ha', ht, hs⟩ := h.types r hmem
    rw [ha] at ha'
    cases ha'
    rw [← ht, hm] at hs
    cases hs

/-! ## Single-shot requests that have ended -/

/-- The last completion of the request `id` has been processed. -/
def settled (l : EventLoop) (id : Nat) : Bool := (l.ring.posted.take l.finished).any (Cqe.endsFor id)

/-- A single-shot request that is settled has no block. -/
def Settled (l : EventLoop) : Prop :=
  ∀ id a, l.settled id = true → l.accepted[id]? = some a → a.request.op.multishot = false → ∀ b ∈ l.pool, b.id ≠ id

/-- The completions processed so far do not change when more are posted. -/
theorem processed_step {l l' : EventLoop} {a : Action} (hp : Position l) (he : Effect l a l') :
    l'.ring.posted.take l.finished = l.ring.posted.take l.finished := by
  have h := posted_step he
  cases a with
  | post i res flags =>
    obtain ⟨e, -, h⟩ := h
    rw [h, List.take_append_of_le_length hp.finished_le]
  | _ => dsimp only at h; rw [h]

/-- Who is settled: unchanged, but for the one whose last completion just was. -/
theorem settled_step {l l' : EventLoop} {a : Action} (hp : Position l) (ht : Traced l) (he : Effect l a l') (id : Nat) :
    l'.settled id = true → l.settled id = true ∨
      a = .callbackReturn ∧ ∃ c, l.ring.posted[l.finished]? = some c ∧ c.endsFor id = true := by
  intro h
  by_cases ha : a = .callbackReturn
  · subst ha
    obtain ⟨c, b, x, hc, -, -, -, -, hf, -⟩ := callbackReturn_spec hp ht he
    have hpost := posted_step he
    dsimp only at hpost
    rw [settled, hf, hpost, List.take_add_one, hc, List.any_append, Bool.or_eq_true] at h
    rcases h with h | h
    · exact .inl h
    · exact .inr ⟨rfl, c, hc, by simpa using h⟩
  · obtain ⟨hf, -, -⟩ := finished_frame hp he ha
    rw [settled, hf, processed_step hp he] at h
    exact .inl h

/-- A completion that has been posted is of an accepted request. -/
theorem settled_accepted {l : EventLoop} (ht : Traced l) {id : Nat} (h : l.settled id = true) :
    ∃ a, l.accepted[id]? = some a := by
  obtain ⟨c, hc, he⟩ := List.any_eq_true.1 h
  obtain ⟨a, ha, -⟩ := ht.completions c (List.mem_of_mem_take hc) id (Cqe.endsFor_owner he)
  exact ⟨a, ha⟩

/-- Processing the last completion of a single-shot request leaves it without a block. -/
theorem settled_now {l l' : EventLoop} (hp : Position l) (ht : Traced l) (he : Effect l .callbackReturn l') {id : Nat}
    {a : Accepted} {c : Cqe} (hc : l.ring.posted[l.finished]? = some c) (hends : c.endsFor id = true)
    (ha : l.accepted[id]? = some a) (hm : a.request.op.multishot = false) : ∀ b ∈ l'.pool, b.id ≠ id := by
  obtain ⟨c', b, y, hc', hb, hba, hy, -, -, hq⟩ := callbackReturn_spec hp ht he
  rw [hc] at hc'
  cases hc'
  obtain ⟨a', ha', hu⟩ := ht.completions c (List.mem_of_getElem? hc) id (Cqe.endsFor_owner hends)
  rw [ha] at ha'
  cases ha'
  intro z hz hzid
  have hzl : z ∈ l.pool := by
    rcases block_step hp ht he hz with hz | ⟨r, s, addr, hadd, -⟩
    · exact hz
    · cases hadd
  -- the completion led to the request's own block, which went with it
  have hzb : z = b := by
    apply ht.eq_of_addr hzl hb
    rw [ht.addr_of_id hzl hzid ha, hba, hu]
    rfl
  subst hzb
  rw [hzid, ha] at hy
  cases hy
  rcases ((released_pool hq).1 hz).2 with hm' | hne
  · rw [hm] at hm'
    cases hm'
  · exact hne rfl

theorem settled_blocks_step {l l' : EventLoop} {x : Action} (h : Settled l) (hp : Position l) (ht : Traced l)
    (he : Effect l x l') : Settled l' := by
  intro id a hset ha hm
  -- an ended request was accepted before this action
  have hacc : ∀ a₀, l.accepted[id]? = some a₀ → l.accepted[id]? = some a := by
    intro a₀ ha₀
    have haa := accepted_mono he ha₀
    rw [ha] at haa
    rw [ha₀, haa]
  rcases settled_step hp ht he id hset with hset | ⟨rfl, c, hc, hends⟩
  · obtain ⟨a₀, ha₀⟩ := settled_accepted ht hset
    intro z hz
    rcases block_step hp ht he hz with hz | ⟨r, s, addr, -, rfl⟩
    · exact h id a hset (hacc a₀ ha₀) hm z hz
    · exact Nat.ne_of_gt (List.getElem?_eq_some_iff.1 ha₀).1
  · obtain ⟨a₀, ha₀, -⟩ := ht.completions c (List.mem_of_getElem? hc) id (Cqe.endsFor_owner hends)
    exact settled_now hp ht he hc hends (hacc a₀ ha₀) hm

theorem reach_settled {n : Nat} {st : Int} {l : EventLoop} (h : Reachable n st l) : Settled l := by
  refine Run.inv_of (fun l => Position l ∧ Traced l) Settled (fun l hr => ⟨reach_position hr, reach_traced hr⟩) ?_ ?_ h
  · intro id a _ _ _ b hb
    cases hb
  · intro s a s' hj hi _ hs
    exact settled_blocks_step hi hj.1 hj.2 (step_effect hs)

/-! ## How many blocks are allocated -/

/-- The request `id` is pending, prepared or with the kernel, or its last
completion waits to be processed. -/
def underway (l : EventLoop) (id : Nat) : Bool :=
  l.pending.any (·.id == id) || l.ring.unsubmitted.any (Sqe.isFor id) || l.ring.inflight.any (Sqe.isFor id) ||
    l.unfinished.any (Cqe.endsFor id)

/-- A submission found no entry for the request `id`, which is nowhere now. -/
def lost (l : EventLoop) (id : Nat) : Bool := l.places id == 0

/-- The requests that may have a block: multi-shot, or under way. -/
def mayHold (l : EventLoop) (id : Nat) : Bool :=
  match l.accepted[id]? with
  | none => false
  | some a => a.request.op.multishot || l.underway id

/-- A request that was not lost and is not settled is under way. -/
theorem underway_of_places {l : EventLoop} {id : Nat} (hp : l.lost id = false) (hs : l.settled id = false) :
    l.underway id = true := by
  rw [lost, beq_eq_false_iff_ne, ← Nat.pos_iff_ne_zero, places] at hp
  -- a last completion that is not among the processed ones is among the others
  have hsplit : l.ring.posted.countP (Cqe.endsFor id) =
      (l.ring.posted.take l.finished).countP (Cqe.endsFor id) + l.unfinished.countP (Cqe.endsFor id) := by
    rw [unfinished, ← List.countP_append, List.take_append_drop]
  have hdone : (l.ring.posted.take l.finished).countP (Cqe.endsFor id) = 0 := by
    rw [List.countP_eq_zero]
    intro c hc hends
    rw [settled, List.any_eq_false] at hs
    exact hs c hc hends
  have hsome : 0 < l.pending.countP (·.id == id) ∨ 0 < l.ring.unsubmitted.countP (Sqe.isFor id) ∨
      0 < l.ring.inflight.countP (Sqe.isFor id) ∨ 0 < l.unfinished.countP (Cqe.endsFor id) := by omega
  simp only [List.countP_pos_iff, ← List.any_eq_true] at hsome
  simp only [underway, Bool.or_eq_true]
  tauto

theorem mayHold_of_block {l : EventLoop} (ht : Traced l) (hs : Settled l) {b : Block} (hb : b ∈ l.pool)
    (hp : l.lost b.id = false) : l.mayHold b.id = true := by
  obtain ⟨a, ha, -⟩ := ht.blocks b hb
  simp only [mayHold, ha, Bool.or_eq_true]
  by_cases hm : a.request.op.multishot = true
  · exact .inl hm
  · right
    refine underway_of_places hp ?_
    by_contra hset
    exact hs b.id a (by simpa using hset) ha (by simpa using hm) b hb rfl

/-- The blocks of requests that were not lost are at most as many as there are requests that may have one. -/
theorem pool_le {l : EventLoop} (ht : Traced l) (hs : Settled l) :
    l.pool.countP (fun b => !l.lost b.id) ≤ (List.range l.accepted.length).countP l.mayHold := by
  have hsub : (l.pool.filter fun b => !l.lost b.id).map (·.id) ⊆
      (List.range l.accepted.length).filter l.mayHold := by
    intro id hid
    obtain ⟨b, hb, rfl⟩ := List.mem_map.1 hid
    obtain ⟨hb, hp⟩ := List.mem_filter.1 hb
    obtain ⟨a, ha, -⟩ := ht.blocks b hb
    exact List.mem_filter.2 ⟨List.mem_range.2 (List.getElem?_eq_some_iff.1 ha).1,
      mayHold_of_block ht hs hb (by simpa using hp)⟩
  have hnodup : ((l.pool.filter fun b => !l.lost b.id).map (·.id)).Nodup :=
    ht.ids.sublist (List.filter_sublist.map _)
  have hle := (List.subperm_of_subset hnodup hsub).length_le
  rwa [List.length_map, ← List.countP_eq_length_filter, ← List.countP_eq_length_filter] at hle

/-- While every submission finds entries, no request is lost. -/
theorem Conserved.not_lost {l : EventLoop} (h : Conserved l) {id : Nat} {a : Accepted}
    (ha : l.accepted[id]? = some a) : l.lost id = false := by
  rw [lost, h id, if_pos (List.getElem?_eq_some_iff.1 ha).1]
  rfl

/-- Once the last completion of a single-shot request has been processed, its
block is back in the pool; multi-shot requests keep theirs; so the allocated
blocks, but for those of requests that found no entry, are at most one for
each multi-shot request and one for each single-shot request that is pending,
prepared or with the kernel, or whose last completion waits to be processed. -/
theorem single_shot_blocks_released {n : Nat} {st : Int} {l : EventLoop} (h : Reachable n st l) :
    (∀ id a, l.accepted[id]? = some a → a.request.op.multishot = false → l.settled id = true →
        (∀ b ∈ l.pool, b.id ≠ id) ∧ id ∈ l.returned.map (·.id)) ∧
      (∀ id a, l.accepted[id]? = some a → a.request.op.multishot = true → blockOf a id ∈ l.pool) ∧
      l.pool.countP (fun b => !l.lost b.id) ≤ (List.range l.accepted.length).countP l.mayHold ∧
      -- all blocks, if no submission loses a request
      (Run step DrainFits (new n st) l → l.pool.length ≤ (List.range l.accepted.length).countP l.mayHold) := by
  have ht := reach_traced h
  have hs := reach_settled h
  have hb := reach_books h
  refine ⟨fun id a ha hm hset => ?_, fun id a ha hm => hb.kept ha hm, pool_le ht hs, fun hfits => ?_⟩
  · have hno := hs id a hset ha hm
    refine ⟨hno, (hb.held id a ha).resolve_left ?_⟩
    intro hmem
    exact hno _ hmem rfl
  · have hall : l.pool.countP (fun b => !l.lost b.id) = l.pool.length := by
      rw [List.countP_eq_length]
      intro b hmem
      obtain ⟨a, ha, -⟩ := ht.blocks b hmem
      rw [(conserved_run hfits).not_lost ha]
      rfl
    exact hall ▸ pool_le ht hs

/-- A write and a multi-shot read, both ended and processed: the write's block
is back, and one block is allocated. -/
theorem single_shot_blocks_released_write :
    ∃ l, Run step DrainFits (new 2 0) l ∧ l.accepted[0]? = some ⟨.write 5 ⟨4096, 64⟩, some 0, 100⟩ ∧
      l.settled 0 = true ∧ (∀ b ∈ l.pool, b.id ≠ 0) ∧ 0 ∈ l.returned.map (·.id) ∧ l.pool.length ≤ 1 := by
  obtain ⟨l, hr, hp⟩ := exists_run step (fun l a => decide (DrainFits l a)) (fun _ _ => of_decide_eq_true) (new 2 0)
    [.add (.write 5 ⟨4096, 64⟩) (some 0) 100, .add (.multiShotRead 5 0) (some 0) 200, .submit 100 { taken := 2, ret := 2 },
      .post 0 (-104) 0, .post 0 64 0, .begin, .next, .callbackReturn, .next, .callbackReturn]
    (fun l => l.accepted[0]? == some ⟨.write 5 ⟨4096, 64⟩, some 0, 100⟩ && l.settled 0 &&
      (List.range l.accepted.length).countP l.mayHold == 1) (by decide +kernel)
  simp only [Bool.and_eq_true, beq_iff_eq] at hp
  obtain ⟨⟨hacc, hset⟩, hcount⟩ := hp
  obtain ⟨hback, -, -, hle⟩ := single_shot_blocks_released hr.any
  obtain ⟨hno, hret⟩ := hback 0 _ hacc rfl hset
  exact ⟨l, hr, hacc, hset, hno, hret, hcount ▸ hle hr⟩

/-- A multi-shot read that has ended keeps its block: nothing is pending,
prepared or in flight, and one block is allocated. -/
theorem ended_read_keeps_block :
    ∃ l, Reachable 1 0 l ∧ l.settled 0 = true ∧ l.pool.map (·.id) = [0] ∧ l.pending = [] ∧
      l.ring.unsubmitted = [] ∧ l.ring.inflight = [] := by
  obtain ⟨l, hr, hp⟩ := exists_run_any step (new 1 0)
    [.add (.multiShotRead 5 0) (some 0) 100, .submit 100 { taken := 1, ret := 1 }, .post 0 (-104) 0,
      .begin, .next, .callbackReturn]
    (fun l => l.settled 0 && l.pool.map (·.id) == [0] && l.pending == [] && l.ring.unsubmitted == [] &&
      l.ring.inflight == []) (by decide +kernel)
  simp only [Bool.and_eq_true, beq_iff_eq] at hp
  obtain ⟨⟨⟨⟨h1, h2⟩, h3⟩, h4⟩, h5⟩ := hp
  exact ⟨l, hr, h1, h2, h3, h4, h5⟩

end EventLoop

end RingNet
