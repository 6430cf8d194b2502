import RingNet.Release
/-!
# Whose completion is it

A completion leads to a request only through its `user_data`. The entries
`prepare` makes carry the request's pointer; `cancel` leaves whatever the
slot's last user wrote. `Intact` is what holds as long as no cancel picks up
such a pointer: every request that is waiting, with the kernel or completed
but not processed still has its block, so its completion leads to it and to
nothing else.
-/

namespace RingNet

open Lib IoUring

namespace EventLoop

/-- No cancel gets a slot with a pointer in it. -/
def CancelClean (l : EventLoop) : Action → Prop
  | .cancel _ taken => l.ring.obtains taken = true → l.ring.leftOver = 0
  | _ => True

instance (l : EventLoop) : (a : Action) → Decidable (CancelClean l a)
  | .cancel _ taken => inferInstanceAs (Decidable (l.ring.obtains taken = true → l.ring.leftOver = 0))
  | .add .. | .submit .. | .begin | .next | .callbackReturn | .checkStatus | .post .. =>
    inferInstanceAs (Decidable True)

/-- The loop without `cancel`. -/
def NotCancel (_ : EventLoop) : Action → Prop
  | .cancel .. => False
  | _ => True

theorem NotCancel.clean {l : EventLoop} {a : Action} (h : NotCancel l a) : CancelClean l a := by
  cases a <;> first | exact trivial | exact h.elim

/-- An owner whose request has its block and meets `P`, or a cancel without a pointer. -/
def Owned (l : EventLoop) (owner : Option Owner) (userData : Nat) (P : Accepted → Prop) : Prop :=
  match owner with
  | some (.request id) => ∃ a, l.accepted[id]? = some a ∧ blockOf a id ∈ l.pool ∧ P a
  | some (.cancel _) => userData = 0 ∧ l.submissionQueue.cancels ≠ 0
  | none => False

/-- Every request whose last completion has not been processed has its block. -/
structure Intact (l : EventLoop) : Prop where
  pending : ∀ x ∈ l.pending, l.Owned (some (.request x.id)) x.ptr fun _ => True
  entries : ∀ e, e ∈ l.ring.unsubmitted ∨ e ∈ l.ring.inflight →
    l.Owned e.owner e.userData fun a => e.prep = a.request.prep
  completions : ∀ c ∈ l.unfinished, l.Owned c.owner c.userData fun a => c.hasMore = true → a.request.op.multishot = true

theorem Owned.mono {l l' : EventLoop} {o : Option Owner} {u : Nat} {P : Accepted → Prop} (h : l.Owned o u P)
    (hacc : ∀ (id : Nat) (a : Accepted), l.accepted[id]? = some a → l'.accepted[id]? = some a)
    (hpool : ∀ id a, o = some (.request id) → blockOf a id ∈ l.pool → blockOf a id ∈ l'.pool)
    (hcan : l.submissionQueue.cancels ≤ l'.submissionQueue.cancels) : l'.Owned o u P := by
  rcases o with _ | id | i
  · exact h
  · obtain ⟨a, ha, hb, hP⟩ := h
    exact ⟨a, hacc id a ha, hpool id a rfl hb, hP⟩
  · exact ⟨h.1, fun h0 => h.2 (Nat.le_zero.1 (h0 ▸ hcan))⟩

theorem cancels_step {l l' : EventLoop} {a : Action} (he : Effect l a l') :
    match a with
    | .cancel .. => l'.submissionQueue.cancels = l.submissionQueue.cancels + 1
    | _ => l'.submissionQueue.cancels = l.submissionQueue.cancels := by
  cases he with
  | @cancel fd taken =>
    obtain ⟨new, -, hq, -⟩ := l.cancel_spec fd taken
    exact congrArg (·.cancels) hq
  | submit _ hs => exact congrArg (·.cancels) (SubmissionQueue.submit_moves hs).1
  | callbackReturn _ _ hq => exact congrArg (·.cancels) (SubmissionQueue.release_same hq)
  | checkStatus _ => exact congrArg (·.submissionQueue.cancels) l.checkStatus_same
  | _ => rfl

theorem cancels_mono {l l' : EventLoop} {a : Action} (he : Effect l a l') :
    l.submissionQueue.cancels ≤ l'.submissionQueue.cancels := by
  have h := cancels_step he
  cases a <;> dsimp only at h <;> omega

/-- Actions that give no block back keep every owner. -/
theorem Owned.step {l l' : EventLoop} {a : Action} (hp : Position l) (he : Effect l a l') (ha : a ≠ .callbackReturn)
    {o : Option Owner} {u : Nat} {P : Accepted → Prop} (h : l.Owned o u P) : l'.Owned o u P := by
  exact Owned.mono h (fun id a => accepted_mono he) (fun id x _ hb => pool_mono hp he ha hb) (cancels_mono he)

/-- If a completion was the last of its request, the request is nowhere else. -/
theorem Unique.alone {l : EventLoop} (h : Unique l) {k id : Nat} {c : Cqe} (hk : l.ring.posted[k]? = some c)
    (hc : c.endsFor id = true) :
    (∀ x ∈ l.pending, x.id ≠ id) ∧
      (∀ e, e ∈ l.ring.unsubmitted ∨ e ∈ l.ring.inflight → e.owner ≠ some (.request id)) ∧
      ∀ c' ∈ l.ring.posted.drop (k + 1), c'.endsFor id = false := by
  obtain ⟨hlt, rfl⟩ := List.getElem?_eq_some_iff.1 hk
  have hsplit : l.ring.posted.countP (Cqe.endsFor id) =
      (l.ring.posted.take k).countP (Cqe.endsFor id) + ((l.ring.posted.drop (k + 1)).countP (Cqe.endsFor id) + 1) := by
    conv_lhs => rw [← List.take_append_drop k l.ring.posted, List.drop_eq_getElem_cons hlt]
    rw [List.countP_append, List.countP_cons_of_pos hc]
  have hle : l.places id ≤ 1 := by
    have := h id
    split at this <;> omega
  simp only [places] at hle
  refine ⟨fun x hx he => ?_, fun e he ho => ?_, fun c' hc' => ?_⟩
  · have : 0 < l.pending.countP (·.id == id) := List.countP_pos_iff.2 ⟨x, hx, by simpa using he⟩
    omega
  · have hfor : Sqe.isFor id e = true := by simp [Sqe.isFor, ho]
    rcases he with he | he
    · have : 0 < l.ring.unsubmitted.countP (Sqe.isFor id) := List.countP_pos_iff.2 ⟨e, he, hfor⟩
      omega
    · have : 0 < l.ring.inflight.countP (Sqe.isFor id) := List.countP_pos_iff.2 ⟨e, he, hfor⟩
      omega
  · by_contra hne
    have : 0 < (l.ring.posted.drop (k + 1)).countP (Cqe.endsFor id) :=
      List.countP_pos_iff.2 ⟨c', hc', by simpa using hne⟩
    omega

/-- The completion being processed is of a request that has its block, or of a cancel without a pointer. -/
theorem Intact.owner {l : EventLoop} (h : Intact l) (ht : Traced l) {c : Cqe}
    (hc : l.ring.posted[l.finished]? = some c) :
    (∃ id a, c.owner = some (.request id) ∧ l.accepted[id]? = some a ∧ blockOf a id ∈ l.pool ∧ c.userData = a.addr ∧
      (c.hasMore = true → a.request.op.multishot = true)) ∨ c.userData = 0 ∧ l.submissionQueue.cancels ≠ 0 := by
  have hown := h.completions c (unfinished_cons hc ▸ List.mem_cons_self)
  rcases ho : c.owner with _ | id | i
  · rw [ho] at hown
    exact hown.elim
  · rw [ho] at hown
    obtain ⟨a, ha, hmem, hmore⟩ := hown
    obtain ⟨a', ha', hua⟩ := ht.completions c (List.mem_of_getElem? hc) id ho
    rw [ha] at ha'
    cases ha'
    exact .inl ⟨id, a, rfl, ha, hmem, hua, hmore⟩
  · rw [ho] at hown
    exact .inr hown

/-- The owner of the completion being processed is a request, and the block it
leads to is that request's. -/
theorem Intact.front {l : EventLoop} (h : Intact l) (ht : Traced l) {c : Cqe}
    (hc : l.ring.posted[l.finished]? = some c) {b : Block} (hb : b ∈ l.pool) (hu : b.addr = c.userData) :
    ∃ a, c.owner = some (.request b.id) ∧ l.accepted[b.id]? = some a ∧ b = blockOf a b.id ∧
      (c.hasMore = true → a.request.op.multishot = true) := by
  rcases h.owner ht hc with ⟨id, a, ho, ha, hmem, hua, hmore⟩ | ⟨h0, -⟩
  · have hbe : b = blockOf a id := ht.eq_of_addr hb hmem (hu.trans hua)
    subst hbe
    exact ⟨a, ho, ha, rfl, hmore⟩
  · exact absurd (hu.trans h0) (ht.nonnull b hb)

/-! ## One action -/

/-- The shape of a step that gives no block back: what is waiting was waiting
or is new, and the unfinished completions were unfinished or are new. -/
theorem intact_frame {l l' : EventLoop} {a : Action} (h : Intact l) (hp : Position l) (he : Effect l a l')
    (ha : a ≠ .callbackReturn)
    (hpend : ∀ x ∈ l'.pending, x ∈ l.pending ∨ l'.Owned (some (.request x.id)) x.ptr fun _ => True)
    (hent : ∀ e, e ∈ l'.ring.unsubmitted ∨ e ∈ l'.ring.inflight →
      (e ∈ l.ring.unsubmitted ∨ e ∈ l.ring.inflight) ∨ l'.Owned e.owner e.userData fun a => e.prep = a.request.prep)
    (hcom : ∀ c ∈ l'.unfinished, c ∈ l.unfinished ∨
      l'.Owned c.owner c.userData fun a => c.hasMore = true → a.request.op.multishot = true) : Intact l' := by
  refine ⟨fun x hx => ?_, fun e hx => ?_, fun c hx => ?_⟩
  · rcases hpend x hx with hx | hx
    · exact Owned.step hp he ha (h.pending x hx)
    · exact hx
  · rcases hent e hx with hx | hx
    · exact Owned.step hp he ha (h.entries e hx)
    · exact hx
  · rcases hcom c hx with hx | hx
    · exact Owned.step hp he ha (h.completions c hx)
    · exact hx

/-- Moving entries keeps `Intact` if the new entries are owned. -/
theorem intact_moves {l l' : EventLoop} {a : Action} (h : Intact l) (hp : Position l) (he : Effect l a l')
    (ha : a ≠ .callbackReturn) {new : List Sqe} (hm : Moves l.ring l'.ring new)
    (hpend : l'.pending = l.pending ∨ l'.pending = [])
    (hnew : ∀ e ∈ new, l'.Owned e.owner e.userData fun a => e.prep = a.request.prep) : Intact l' := by
  apply intact_frame h hp he ha
  · intro x hx
    rcases hpend with hq | hq <;> rw [hq] at hx
    · exact .inl hx
    · cases hx
  · intro e hx
    rcases hm.mem hx with hx | hx | hx
    · exact .inl (.inl hx)
    · exact .inl (.inr hx)
    · exact .inr (hnew e hx)
  · intro c hx
    rw [unfinished_eq (finished_frame hp he ha).1 hm.posted] at hx
    exact .inl hx

theorem intact_same {l l' : EventLoop} {a : Action} (h : Intact l) (hp : Position l) (he : Effect l a l')
    (ha : a ≠ .callbackReturn) (hr : l'.ring = l.ring) (hpend : l'.pending = l.pending) : Intact l' := by
  have hm : Moves l.ring l'.ring [] := by
    rw [hr]
    exact Moves.refl _
  exact intact_moves h hp he ha hm (.inl hpend) (by simp)

theorem intact_add {l : EventLoop} (h : Intact l) (hp : Position l) {r : Request} {s : Option SubscriberId} {addr : Nat}
    (he : Effect l (.add r s addr) (l.add r s addr).2) : Intact (l.add r s addr).2 := by
  refine intact_frame h hp he (by simp) ?_ (fun e hx => .inl hx) (fun c hx => .inl hx)
  intro x hx
  rcases List.mem_cons.1 ((PendingRequests.push_perm _ _ _).mem_iff.1 hx) with rfl | hx
  · exact .inr ⟨⟨stored r, s, addr⟩, List.getElem?_concat_length, List.mem_cons_self, trivial⟩
  · exact .inl hx

/-- A pending request is prepared from its own block. -/
theorem intact_submit {l : EventLoop} (h : Intact l) (hp : Position l) (ht : Traced l) {timeout : Int}
    {reply : SubmitReply} {st : SubmitStatus} {q : SubmissionQueue} (hi : l.phase = .idle)
    (hs : l.submissionQueue.submit timeout reply = .ok (st, q)) :
    Intact { l with submissionQueue := q, submitStatus := st } := by
  obtain ⟨hq, got, hsub, hfind, hm, -⟩ := SubmissionQueue.submit_moves hs
  apply intact_moves h hp (.submit hi hs) (by simp) hm (.inr (congrArg (·.pendingRequests.toList) hq))
  intro e hx
  obtain ⟨g, hg, rfl⟩ := List.mem_map.1 hx
  have hmem := hsub.subset (List.mem_map_of_mem hg)
  obtain ⟨a, ha, hb, -⟩ := h.pending g.1 hmem
  obtain ⟨a', ha', hptr⟩ := ht.pending g.1 hmem
  rw [ha] at ha'
  cases ha'
  have hblock : g.2 = blockOf a g.1.id := by
    have hf := hfind g hg
    rw [hptr] at hf
    exact Option.some.inj (hf.symm.trans (find_of_mem ht.addrs hb))
  have hpool : q.requestPool = l.pool := congrArg (·.requestPool) hq
  have hacc : q.accepted = l.accepted := congrArg (·.accepted) hq
  refine ⟨a, ?_, ?_, ?_⟩
  · show q.accepted[g.1.id]? = some a
    rw [hacc]
    exact ha
  · show blockOf a g.1.id ∈ q.requestPool
    rw [hpool]
    exact hb
  · simp only [SubmissionQueue.entryFor, hblock, blockOf]

theorem intact_cancel {l : EventLoop} (h : Intact l) (hp : Position l) {fd : Fd} {taken : Nat}
    (hc : CancelClean l (.cancel fd taken)) : Intact (l.cancel fd taken) := by
  obtain ⟨new, hm, hq, hnew⟩ := l.cancel_spec fd taken
  refine intact_moves h hp (.cancel : Effect l (.cancel fd taken) _) (by simp) hm
    (.inl (congrArg (·.pendingRequests.toList) hq)) ?_
  intro e hx
  have hcan : (l.cancel fd taken).submissionQueue.cancels = l.submissionQueue.cancels + 1 := congrArg (·.cancels) hq
  rw [hnew] at hx
  split at hx
  · rename_i ho
    rw [List.mem_singleton] at hx
    subst hx
    exact ⟨hc ho, by omega⟩
  · cases hx

theorem intact_post {l l' : EventLoop} (h : Intact l) (hp : Position l) {i : Nat} {res : Int} {flags : UInt32}
    (he : Effect l (.post i res flags) l') : Intact l' := by
  have hf := (finished_frame hp he (by simp)).1
  obtain ⟨e₀, he₀, hpost⟩ := posted_step he
  have hown := h.entries e₀ (.inr (List.mem_of_getElem? he₀))
  apply intact_frame h hp he (by simp)
  · intro x hx
    cases he
    exact .inl hx
  · intro e hx
    cases he
    refine .inl (hx.imp (fun h' => h') fun h' => ?_)
    simp only [IoUring.post] at h'
    split at h'
    · exact h'
    · exact List.mem_of_mem_eraseIdx h'
  · intro c hx
    rw [unfinished, hf, hpost, List.drop_append_of_le_length hp.finished_le, List.mem_append,
      List.mem_singleton] at hx
    rcases hx with hx | rfl
    · exact .inl hx
    · -- a completion says more will come only for a multi-shot entry
      refine .inr (Owned.step hp he (by simp) ?_)
      rcases ho : e₀.owner with _ | id | j
      · rw [ho] at hown; exact hown
      · rw [ho] at hown
        obtain ⟨a, ha, hb, hprep⟩ := hown
        refine ⟨a, ha, hb, fun hmore => ?_⟩
        cases he with
        | post he' hm _ =>
          rw [he₀] at he'
          cases he'
          have := hm (by rw [ho]; exact hmore)
          rwa [hprep, Request.prep_multishot] at this
      · rw [ho] at hown; exact hown

/-- Processing a completion of a single-shot request gives its block back, and
nothing else of that request is left. -/
theorem intact_callbackReturn {l l' : EventLoop} (h : Intact l) (hp : Position l) (ht : Traced l) (hu : Unique l)
    (he : Effect l .callbackReturn l') : Intact l' := by
  obtain ⟨c, b, a, hc, hb, hba, ha, -, hf, hq⟩ := callbackReturn_spec hp ht he
  obtain ⟨a', ho, ha', hbe, hmore⟩ := h.front ht hc hb hba
  rw [ha] at ha'
  cases ha'
  have hpost := posted_step he
  dsimp only at hpost
  have hunf : l'.unfinished = l.ring.posted.drop (l.finished + 1) := by rw [unfinished, hf, hpost]
  have hrest : ∀ x ∈ l'.unfinished, x ∈ l.unfinished := by
    intro x hx
    rw [unfinished_cons hc, ← hunf]
    exact List.mem_cons_of_mem _ hx
  have hsame : l'.pending = l.pending ∧ l'.ring.unsubmitted = l.ring.unsubmitted ∧
      l'.ring.inflight = l.ring.inflight := by
    cases he with
    | callbackReturn _ _ hrel =>
      rw [SubmissionQueue.release_same hrel]
      exact ⟨rfl, rfl, rfl⟩
  -- an owner other than the request whose block went keeps its block
  have hkeep : ∀ {o : Option Owner} {u : Nat} {P : Accepted → Prop}, l.Owned o u P →
      (a.request.op.multishot = false → o ≠ some (.request b.id)) → l'.Owned o u P := by
    intro o u P hown hne
    refine Owned.mono hown (fun id x => accepted_mono he) (fun id x hid hx => ?_) (cancels_mono he)
    refine (released_pool hq).2 ⟨hx, or_iff_not_imp_left.2 fun hm heq => ?_⟩
    have hidb : id = b.id := congrArg Block.id (ht.eq_of_addr hx hb heq)
    exact hne (by simpa using hm) (by rw [hid, hidb])
  have hends : a.request.op.multishot = false → c.endsFor b.id = true := by
    intro hm
    have : c.hasMore = false := by
      by_contra hne
      rw [hmore (by simpa using hne)] at hm
      cases hm
    simp [Cqe.endsFor, ho, this]
  refine ⟨fun x hx => ?_, fun e hx => ?_, fun d hx => ?_⟩
  · rw [hsame.1] at hx
    apply hkeep (h.pending x hx)
    intro hm heq
    exact (hu.alone hc (hends hm)).1 x hx (by simpa using heq)
  · rw [hsame.2.1, hsame.2.2] at hx
    exact hkeep (h.entries e hx) fun hm => (hu.alone hc (hends hm)).2.1 e hx
  · have hown := h.completions d (hrest d hx)
    apply hkeep hown
    intro hm heq
    have hnot := (hu.alone hc (hends hm)).2.2 d (hunf ▸ hx)
    rw [heq] at hown
    obtain ⟨x, hx', -, hmx⟩ := hown
    rw [ha] at hx'
    cases hx'
    simp only [Cqe.endsFor, heq, beq_self_eq_true, Bool.true_and, Bool.not_eq_false'] at hnot
    rw [hmx hnot] at hm
    cases hm

theorem intact_step {l l' : EventLoop} {a : Action} (h : Intact l) (hp : Position l) (ht : Traced l) (hu : Unique l)
    (hc : CancelClean l a) (he : Effect l a l') : Intact l' := by
  have he' := he
  cases he with
  | add _ => exact intact_add h hp he'
  | cancel => exact intact_cancel h hp hc
  | submit hi hs => exact intact_submit h hp ht hi hs
  | callbackReturn _ _ _ => exact intact_callbackReturn h hp ht hu he'
  | post _ _ _ => exact intact_post h hp he'
  | checkStatus _ =>
    have hsame := congrArg (·.submissionQueue) l.checkStatus_same
    exact intact_same h hp he' (by simp) (congrArg (·.ring) hsame) (congrArg (·.pendingRequests.toList) hsame)
  | begin _ => exact intact_same h hp he' (by simp) rfl rfl
  | dispatch _ _ _ => exact intact_same h hp he' (by simp) rfl rfl
  | finish _ _ =>
    refine intact_frame h hp he' (by simp) (fun x hx => .inl hx) (fun e hx => .inl hx) (fun c hx => .inl ?_)
    rwa [unfinished_eq (finished_frame hp he' (by simp)).1 rfl] at hx

theorem intact_run {n : Nat} {st : Int} {l : EventLoop} (h : Run step CancelClean (new n st) l) : Intact l := by
  refine Run.inv_of (fun l => Position l ∧ Traced l ∧ Unique l) Intact ?_ ?_ ?_ h
  · intro s hr
    exact ⟨reach_position hr.any, reach_traced hr.any, reach_unique hr.any⟩
  · constructor <;> simp [unfinished]
  · rintro s a s' ⟨hp, ht, hu⟩ hi hc hs
    exact intact_step hi hp ht hu hc (step_effect hs)

/-! ## Completions reach their own request -/

/-- Every subscriber was called for a completion of its own request's entry,
and every block was given back for one of its own request's. -/
structure Attributed (l : EventLoop) : Prop where
  calls : ∀ v ∈ l.invocations, ∀ s e, v.what = .subscriber s e →
    ∃ c id a, l.ring.posted[v.completion]? = some c ∧ c.owner = some (.request id) ∧ v.request = some id ∧
      l.accepted[id]? = some a ∧ a.subscriber = some s
  returns : ∀ r ∈ l.returned, r.owner = some (.request r.id)

theorem attributed_calls_step {l l' : EventLoop} {x : Action} (h : Attributed l) (hp : Position l) (ht : Traced l)
    (hi : Intact l) (he : Effect l x l') : ∀ v ∈ l'.invocations, ∀ s e, v.what = .subscriber s e →
      ∃ c id a, l'.ring.posted[v.completion]? = some c ∧ c.owner = some (.request id) ∧ v.request = some id ∧
        l'.accepted[id]? = some a ∧ a.subscriber = some s := by
  have hold : ∀ v ∈ l.invocations, ∀ s e, v.what = .subscriber s e →
      ∃ c id a, l'.ring.posted[v.completion]? = some c ∧ c.owner = some (.request id) ∧ v.request = some id ∧
        l'.accepted[id]? = some a ∧ a.subscriber = some s := by
    intro v hv s e hw
    obtain ⟨c, id, a, hc, ho, hr, ha, hs⟩ := h.calls v hv s e hw
    exact ⟨c, id, a, posted_mono he hc, ho, hr, accepted_mono he ha, hs⟩
  rcases invocations_step hp he with ⟨hinv, -⟩ | ⟨processed, c, d, -, -, hfd, hc, hd, -, hinv⟩
  · rw [hinv]; exact hold
  · rw [hinv]
    intro v hv s e hw
    rcases List.mem_append.1 hv with hv | hv
    · exact hold v hv s e hw
    · rw [List.mem_singleton] at hv
      subst hv
      rcases dispatch_cases ht hd with ⟨-, rfl⟩ | ⟨b, a, hb, hba, ha, -, rfl⟩
      · cases hw
      · obtain ⟨a', ho, -, -, -⟩ := hi.front ht (hfd ▸ hc) hb hba
        exact ⟨c, b.id, a, posted_mono he hc, ho, rfl, accepted_mono he ha, (handlerFor_subscriber hw).1⟩

theorem attributed_returns_step {l l' : EventLoop} {x : Action} (h : Attributed l) (hp : Position l) (ht : Traced l)
    (hi : Intact l) (he : Effect l x l') : ∀ r ∈ l'.returned, r.owner = some (.request r.id) := by
  by_cases hx : x = .callbackReturn
  · subst hx
    obtain ⟨c, b, a, hc, hb, hba, -, -, -, hq⟩ := callbackReturn_spec hp ht he
    obtain ⟨a', ho, -, -, -⟩ := hi.front ht hc hb hba
    intro r hr
    have hret : l'.returned = (if a.request.op.multishot then l.submissionQueue else _).returned :=
      congrArg (·.returned) hq
    rw [hret] at hr
    split at hr
    · exact h.returns r hr
    · rcases List.mem_append.1 hr with hr | hr
      · exact h.returns r hr
      · rw [List.mem_singleton] at hr
        subst hr
        exact ho
  · have hret : l'.returned = l.returned := (finished_frame hp he hx).2.1
    rw [hret]
    exact h.returns

theorem attributed_run {n : Nat} {st : Int} {l : EventLoop} (h : Run step CancelClean (new n st) l) : Attributed l := by
  refine Run.inv_of (fun l => Position l ∧ Traced l ∧ Intact l) Attributed ?_ ?_ ?_ h
  · intro s hr
    exact ⟨reach_position hr.any, reach_traced hr.any, intact_run hr⟩
  · constructor <;> simp
  · rintro s a s' ⟨hp, ht, hi⟩ ha - hs
    exact ⟨attributed_calls_step ha hp ht hi (step_effect hs), attributed_returns_step ha hp ht hi (step_effect hs)⟩

/-- As long as no cancel gets a slot in which a pointer was left, a subscriber
is called and a block given back only for a completion of the entry prepared
for that very request, and never for a completion of a cancel. -/
theorem completions_attributed {n : Nat} {st : Int} {l : EventLoop} (h : Run step CancelClean (new n st) l) :
    (∀ v ∈ l.invocations, ∀ s e, v.what = .subscriber s e →
      ∃ c id a, l.ring.posted[v.completion]? = some c ∧ c.owner = some (.request id) ∧ v.request = some id ∧
        l.accepted[id]? = some a ∧ a.subscriber = some s) ∧
      ∀ r ∈ l.returned, r.owner = some (.request r.id) :=
  ⟨(attributed_run h).calls, (attributed_run h).returns⟩

/-- A connection's read fails and a cancel in a fresh slot is submitted with a
second request. -/
def cleanCancelRun : List Action :=
  [.add (.multiShotRead 5 0) (some 7) 100, .submit 100 { taken := 1, ret := 1 }, .cancel 5 0,
    .add (.write 6 ⟨4096, 64⟩) (some 8) 200, .submit 100 { taken := 2, ret := 2 }, .post 0 (-125) 0, .post 1 64 0,
    .begin, .next, .callbackReturn, .next, .callbackReturn]

theorem completions_attributed_clean :
    ∃ l, Run step CancelClean (new 4 0) l ∧ l.submissionQueue.cancels = 1 ∧
      l.invocations.map (·.what) = [.subscriber 7 (.error 125), .subscriber 8 (.write 64 ⟨4096, 64⟩)] ∧
      l.returned.map (·.id) = [1] ∧ ∀ r ∈ l.returned, r.owner = some (.request r.id) := by
  obtain ⟨l, hr, hp⟩ := exists_run step (fun l a => decide (CancelClean l a)) (fun _ _ => of_decide_eq_true) (new 4 0)
    cleanCancelRun (fun l => l.submissionQueue.cancels == 1 &&
      l.invocations.map (·.what) == [.subscriber 7 (.error 125), .subscriber 8 (.write 64 ⟨4096, 64⟩)] &&
      l.returned.map (·.id) == [1]) (by decide +kernel)
  simp only [Bool.and_eq_true, beq_iff_eq] at hp
  exact ⟨l, hr, hp.1.1, hp.1.2, hp.2, (completions_attributed hr).2⟩

/-- With one slot, the cancel takes over the read's pointer, and its own
completion is handed to the read's subscriber. -/
theorem cancel_completion_dispatched :
    ∃ l, Reachable 1 0 l ∧ ∃ v ∈ l.invocations, v.owner = some (.cancel 0) ∧
      (∃ c, l.ring.posted[v.completion]? = some c ∧ c.owner = some (.cancel 0)) ∧
      v.what = .subscriber 7 (.error 2) := by
  obtain ⟨l, hr, hp⟩ := exists_run_any step (new 1 0)
    [.add (.multiShotRead 5 0) (some 7) 100, .submit 100 { taken := 1, ret := 1 }, .cancel 5 0,
      .add (.write 6 ⟨4096, 64⟩) (some 8) 200, .submit 100 { takes := [1], taken := 1, ret := 1 }, .post 1 (-2) 0,
      .begin, .next]
    (fun l => l.invocations == [⟨0, some (.cancel 0), some 0, .subscriber 7 (.error 2)⟩] &&
      l.ring.posted == [⟨100, -2, 0, some (.cancel 0)⟩]) (by decide +kernel)
  simp only [Bool.and_eq_true, beq_iff_eq] at hp
  obtain ⟨hinv, hpost⟩ := hp
  refine ⟨l, hr, ⟨0, some (.cancel 0), some 0, .subscriber 7 (.error 2)⟩, ?_, rfl,
    ⟨⟨100, -2, 0, some (.cancel 0)⟩, ?_, rfl⟩, rfl⟩
  · rw [hinv]; exact List.mem_singleton_self _
  · rw [hpost]; rfl

/-! ## No header is read outside an allocated block -/

/-- Without cancels, a completion that is not processed leads to its request's block. -/
theorem Intact.block {l : EventLoop} (h : Intact l) (ht : Traced l) (h0 : l.submissionQueue.cancels = 0) {c : Cqe}
    (hc : l.ring.posted[l.finished]? = some c) :
    ∃ id a, c.owner = some (.request id) ∧ l.accepted[id]? = some a ∧ c.userData ≠ 0 ∧
      RequestPool.find l.pool c.userData = some (blockOf a id) := by
  rcases h.owner ht hc with ⟨id, a, ho, ha, hb, hu, -⟩ | ⟨-, hcan⟩
  · refine ⟨id, a, ho, ha, ?_, ?_⟩
    · rw [hu]
      exact ht.nonnull _ hb
    · rw [hu]
      exact find_of_mem ht.addrs hb
  · exact absurd h0 hcan

theorem submit_ok {l : EventLoop} (h : Intact l) (ht : Traced l) (timeout : Int) (reply : SubmitReply) :
    ∃ r, l.submissionQueue.submit timeout reply = .ok r := by
  have hprep : ∃ r, SubmissionQueue.prepareEach l.pending 0 l.submissionQueue reply.takes = .ok r := by
    apply SubmissionQueue.prepareEach_ok
    intro x hx
    obtain ⟨a, ha, hb, -⟩ := h.pending x hx
    obtain ⟨a', ha', hptr⟩ := ht.pending x hx
    rw [ha] at ha'
    cases ha'
    exact ⟨_, by rw [hptr]; exact find_of_mem ht.addrs hb⟩
  obtain ⟨⟨count, q, takes⟩, hprep⟩ := hprep
  simp only [SubmissionQueue.submit, SubmissionQueue.preparePendingRequests, hprep]
  repeat' split
  all_goals exact ⟨_, rfl⟩

/-- `release` succeeds on the block of a request. -/
theorem release_ok {q : SubmissionQueue} {c : Cqe} {a : Accepted} {id : Nat} (h0 : c.userData ≠ 0)
    (hf : RequestPool.find q.requestPool c.userData = some (blockOf a id)) : ∃ q', q.release c = .ok q' := by
  unfold SubmissionQueue.release RequestPool.read
  rw [if_neg h0, hf]
  simp only [blockOf, Request.header_valid, Request.header_op, Bool.not_true, Bool.false_eq_true, if_false]
  cases hop : a.request.op <;> simp [SubmissionQueue.deallocate, hop]

/-- Only giving a buffer back can go wrong. -/
theorem fault_cases {l : EventLoop} (hp : Position l) (ht : Traced l) (hi : Intact l)
    (h0 : l.submissionQueue.cancels = 0) {x : Action} {f : Fault} (h : l.step x = .error (.fault f)) :
    f = .bufferIndex ∧ ∃ head processed c, l.phase = .handling head processed c true ∧
      l.bufferRing.release c = .error f := by
  cases x with
  | add | cancel | begin | checkStatus => simp only [step] at h; (repeat' split at h) <;> cases h
  | post i res flags => simp only [step] at h; split at h <;> cases h
  | submit timeout reply =>
    obtain ⟨r, hr⟩ := submit_ok hi ht timeout reply
    simp only [step, hr] at h
    split at h <;> cases h
  | next =>
    simp only [step] at h
    split at h
    · rename_i head processed hph
      have hf : l.finished = head := by simp [finished, hph]
      split at h
      · cases h
      · rename_i c hc
        obtain ⟨id, a, -, -, hne, hfind⟩ := hi.block ht h0 (hf ▸ hc)
        rw [dispatch_eq hne hfind] at h
        cases h
    · cases h
  | callbackReturn =>
    simp only [step] at h
    split at h
    · rename_i head processed c rb hph
      obtain ⟨-, hc⟩ := hp.handling hph
      obtain ⟨id, a, -, -, hne, hfind⟩ := hi.block ht h0 hc
      obtain ⟨q, hq⟩ := release_ok hne hfind
      unfold afterHandler at h
      rw [hq] at h
      split at h
      · rename_i f' hl
        split at hl
        · rename_i f'' hb
          cases hl
          cases h
          cases rb with
          | false => cases hb
          | true => exact ⟨BufferRing.release_error hb, head, processed, c, hph, hb⟩
        · cases hl
      · cases h
    · cases h

theorem cancels_zero {n : Nat} {st : Int} {l : EventLoop} (h : Run step NotCancel (new n st) l) :
    l.submissionQueue.cancels = 0 := by
  refine Run.inv (fun l => l.submissionQueue.cancels = 0) rfl ?_ h
  intro s a s' h0 hc hs
  have := cancels_step (step_effect hs)
  cases a with
  | cancel => exact hc.elim
  | _ => dsimp only at this; rw [this]; exact h0

/-- Without cancels: a block is allocated as long as its request is pending,
prepared or in flight; it is given back at most once, and as the type it was
allocated for; and no action reads a header outside an allocated block. -/
theorem blocks_safe {n : Nat} {st : Int} {l : EventLoop} (h : Run step NotCancel (new n st) l) :
    -- pending, prepared and in flight
    (∀ x ∈ l.pending, ∃ a, l.accepted[x.id]? = some a ∧ x.ptr = a.addr ∧ blockOf a x.id ∈ l.pool) ∧
      (∀ e, e ∈ l.ring.unsubmitted ∨ e ∈ l.ring.inflight → ∃ id a, e.owner = some (.request id) ∧
        l.accepted[id]? = some a ∧ e.userData = a.addr ∧ blockOf a id ∈ l.pool) ∧
      -- given back
      (l.returned.map (·.id)).Nodup ∧
      (∀ r ∈ l.returned, ∃ a, l.accepted[r.id]? = some a ∧ a.request.op = r.type) ∧
      -- read
      ∀ x f, l.step x = .error (.fault f) → f = .bufferIndex := by
  have h0 := cancels_zero h
  have hclean : Run step CancelClean (new n st) l := h.mono fun _ _ => NotCancel.clean
  have hi := intact_run hclean
  have ht := reach_traced h.any
  have hb := reach_books h.any
  refine ⟨fun x hx => ?_, fun e he => ?_, hb.once, fun r hr => ?_, fun x f hf => ?_⟩
  · obtain ⟨a, ha, hmem, -⟩ := hi.pending x hx
    obtain ⟨a', ha', hptr⟩ := ht.pending x hx
    rw [ha] at ha'
    cases ha'
    exact ⟨a, ha, hptr, hmem⟩
  · have hown := hi.entries e he
    rcases ho : e.owner with _ | id | i
    · rw [ho] at hown; exact hown.elim
    · rw [ho] at hown
      obtain ⟨a, ha, hmem, -⟩ := hown
      obtain ⟨a', ha', hu⟩ := ht.entries e he id ho
      rw [ha] at ha'
      cases ha'
      exact ⟨id, a, rfl, ha, hu, hmem⟩
    · rw [ho] at hown; exact absurd h0 hown.2
  · obtain ⟨a, ha, hop, -⟩ := hb.types r hr
    exact ⟨a, ha, hop⟩
  · exact (fault_cases (reach_position h.any) ht hi h0 hf).1

instance (l : EventLoop) : (a : Action) → Decidable (NotCancel l a)
  | .cancel .. => inferInstanceAs (Decidable False)
  | .add .. | .submit .. | .begin | .next | .callbackReturn | .checkStatus | .post .. =>
    inferInstanceAs (Decidable True)

/-- A write completes; its block is given back and used again for a request
added in the meantime. -/
theorem blocks_safe_reused :
    ∃ l, Run step NotCancel (new 2 0) l ∧ l.returned.map (·.id) = [0] ∧ l.pool.map (·.addr) = [100, 200] ∧
      l.pending.length = 1 ∧ (∀ x ∈ l.pending, ∃ a, l.accepted[x.id]? = some a ∧ blockOf a x.id ∈ l.pool) := by
  obtain ⟨l, hr, hp⟩ := exists_run step (fun l a => decide (NotCancel l a)) (fun _ _ => of_decide_eq_true) (new 2 0)
    [.add (.write 5 ⟨4096, 64⟩) (some 0) 100, .submit 100 { taken := 1, ret := 1 }, .post 0 64 0, .begin, .next,
      .add (.accept 3) (some 1) 200, .callbackReturn, .next, .submit 100 { taken := 1, ret := 1 },
      .add (.read 6 ⟨8192, 64⟩) (some 2) 100]
    (fun l => l.returned.map (·.id) == [0] && l.pool.map (·.addr) == [100, 200] && l.pending.length == 1)
    (by decide +kernel)
  simp only [Bool.and_eq_true, beq_iff_eq] at hp
  refine ⟨l, hr, hp.1.1, hp.1.2, hp.2, fun x hx => ?_⟩
  obtain ⟨a, ha, -, hb⟩ := (blocks_safe hr).1 x hx
  exact ⟨a, ha, hb⟩

end EventLoop

end RingNet
