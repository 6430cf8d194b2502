import Mathlib.Data.List.Basic
import RingNet.Lib.Runs
/-!
# Jobs that somebody else does

A program asks for jobs, which are numbered in the order they are asked for.
Somebody else does them, in any order, and reports results: one for most jobs,
any number for the jobs that repeat, and a job's last report says so. Reports
are handed over in the order they were made.

`Lawful` is what no order of asking, reporting and handing over can break. The
answers to a job then end with its last report, and a job that does not repeat
gets one answer.
-/

namespace Lib

variable {ρ β : Type}

/-- A result of the job numbered `job`, and whether it is the last one. -/
structure Report (β : Type) where
  job : Nat
  value : β
  last : Bool

structure Proactor (ρ β : Type) where
  jobs : List ρ := []
  reports : List (Report β) := []
  handed : Nat := 0

namespace Proactor

inductive Action (ρ β : Type)
  | ask (j : ρ)
  | report (r : Report β)
  | hand

/-- The job's last report has been made. -/
def ended (p : Proactor ρ β) (id : Nat) : Bool := p.reports.any fun r => r.job == id && r.last

/-- Only a job that was asked for and has not ended is reported on, and only
one that repeats without ending. -/
def step (repeats : ρ → Bool) (p : Proactor ρ β) : Action ρ β → Except Unit (Proactor ρ β)
  | .ask j => .ok { p with jobs := p.jobs ++ [j] }
  | .report r =>
    match p.jobs[r.job]? with
    | none => .error ()
    | some j =>
      if !p.ended r.job && (r.last || repeats j) then .ok { p with reports := p.reports ++ [r] } else .error ()
  | .hand => if p.handed < p.reports.length then .ok { p with handed := p.handed + 1 } else .error ()

/-- The reports handed over, each with its job. -/
def answers (p : Proactor ρ β) : List (ρ × Report β) :=
  (p.reports.take p.handed).filterMap fun r => p.jobs[r.job]?.map (·, r)

/-- The reports on one job that were handed over. -/
def answersOf (p : Proactor ρ β) (id : Nat) : List (Report β) := (p.reports.take p.handed).filter (·.job == id)

structure Lawful (repeats : ρ → Bool) (p : Proactor ρ β) : Prop where
  handed : p.handed ≤ p.reports.length
  asked : ∀ r ∈ p.reports, ∃ j, p.jobs[r.job]? = some j ∧ (r.last = true ∨ repeats j = true)
  ends : p.reports.Pairwise fun r r' => r.job = r'.job → r.last = false

variable {repeats : ρ → Bool} {p p' : Proactor ρ β}

/-! ## One step -/

theorem report_ok {r : Report β} : p.step repeats (.report r) = .ok p' ↔
    ∃ j, p.jobs[r.job]? = some j ∧ p.ended r.job = false ∧ (r.last = true ∨ repeats j = true) ∧
      p' = { p with reports := p.reports ++ [r] } := by
  simp only [step]
  constructor
  · intro h
    split at h
    · cases h
    · rename_i j hj
      split at h
      · rename_i hc
        simp only [Bool.and_eq_true, Bool.not_eq_true', Bool.or_eq_true] at hc
        cases h
        exact ⟨j, hj, hc.1, hc.2, rfl⟩
      · cases h
  · rintro ⟨j, hj, he, hl, rfl⟩
    rw [hj]
    have hl' : (r.last || repeats j) = true := by simpa using hl
    simp only [he, hl', Bool.not_false, Bool.and_self, if_true]

theorem hand_ok : p.step repeats (.hand : Action ρ β) = .ok p' ↔
    p.handed < p.reports.length ∧ p' = { p with handed := p.handed + 1 } := by
  simp only [step]
  split
  · rename_i h
    simp only [Except.ok.injEq, h, true_and]
    exact eq_comm
  · rename_i h
    simp [h]

theorem not_ended {id : Nat} (h : p.ended id = false) {r : Report β} (hr : r ∈ p.reports) (hid : r.job = id) :
    r.last = false := by
  simp only [ended, List.any_eq_false, Bool.and_eq_true, beq_iff_eq, not_and, Bool.not_eq_true] at h
  exact h r hr hid

/-- The job of an earlier report stays where it was. -/
theorem jobs_append {r : Report β} {j : ρ} (h : p.jobs[r.job]? = some j) (k : ρ) :
    (p.jobs ++ [k])[r.job]? = some j := by
  rw [List.getElem?_append_left (List.getElem?_eq_some_iff.1 h).1, h]

theorem lawful_step {a : Action ρ β} (h : Lawful repeats p) (hs : p.step repeats a = .ok p') : Lawful repeats p' := by
  cases a with
  | ask j =>
    cases hs
    refine ⟨h.handed, fun r hr => ?_, h.ends⟩
    obtain ⟨k, hk, hl⟩ := h.asked r hr
    exact ⟨k, jobs_append hk j, hl⟩
  | report r =>
    obtain ⟨j, hj, he, hl, rfl⟩ := report_ok.1 hs
    refine ⟨?_, ?_, ?_⟩
    · have := h.handed
      simp only [List.length_append, List.length_singleton]
      omega
    · intro x hx
      rcases List.mem_append.1 hx with hx | hx
      · exact h.asked x hx
      · rw [List.mem_singleton] at hx
        subst hx
        exact ⟨j, hj, hl⟩
    · refine List.pairwise_append.2 ⟨h.ends, List.pairwise_singleton .., fun x hx y hy hid => ?_⟩
      rw [List.mem_singleton] at hy
      subst hy
      exact not_ended he hx hid
  | hand =>
    obtain ⟨hlt, rfl⟩ := hand_ok.1 hs
    exact ⟨hlt, h.asked, h.ends⟩

/-- Answers are added one at a time, by handing over the next report. -/
theorem answers_step {a : Action ρ β} (h : Lawful repeats p) (hs : p.step repeats a = .ok p') :
    match a with
    | .hand => ∃ r j, p.reports[p.handed]? = some r ∧ p.jobs[r.job]? = some j ∧ p'.answers = p.answers ++ [(j, r)]
    | _ => p'.answers = p.answers := by
  cases a with
  | ask j =>
    cases hs
    refine List.filterMap_congr fun r hr => ?_
    obtain ⟨k, hk, -⟩ := h.asked r (List.mem_of_mem_take hr)
    rw [hk, jobs_append hk j]
  | report r =>
    obtain ⟨j, -, -, -, rfl⟩ := report_ok.1 hs
    show ((p.reports ++ [r]).take p.handed).filterMap _ = _
    rw [List.take_append_of_le_length h.handed]
    rfl
  | hand =>
    obtain ⟨hlt, rfl⟩ := hand_ok.1 hs
    have hr := List.getElem?_eq_getElem hlt
    obtain ⟨j, hj, -⟩ := h.asked _ (List.getElem_mem hlt)
    refine ⟨p.reports[p.handed], j, hr, hj, ?_⟩
    show (p.reports.take (p.handed + 1)).filterMap _ = _
    rw [List.take_add_one, hr, List.filterMap_append]
    simp only [Option.toList_some, List.filterMap_cons, List.filterMap_nil, hj, Option.map_some]
    rfl

/-- The answers are the reports handed over, each with its job. -/
theorem Lawful.answers_reports (h : Lawful repeats p) : p.answers.map (·.2) = p.reports.take p.handed := by
  unfold answers
  have hasked : ∀ r ∈ p.reports.take p.handed, ∃ j, p.jobs[r.job]? = some j := by
    intro r hr
    obtain ⟨j, hj, -⟩ := h.asked r (List.mem_of_mem_take hr)
    exact ⟨j, hj⟩
  generalize p.reports.take p.handed = rs at hasked ⊢
  induction rs with
  | nil => rfl
  | cons r rs ih =>
    obtain ⟨j, hj⟩ := hasked r List.mem_cons_self
    rw [List.filterMap_cons_some (by rw [hj]; rfl), List.map_cons, ih fun x hx => hasked x (List.mem_cons_of_mem _ hx)]

theorem mem_answers {x : ρ × Report β} (h : x ∈ p.answers) : p.jobs[x.2.job]? = some x.1 := by
  obtain ⟨r, -, hr⟩ := List.mem_filterMap.1 h
  rw [Option.map_eq_some_iff] at hr
  obtain ⟨j, hj, rfl⟩ := hr
  exact hj

theorem lawful_run (h : Run (step repeats) anyAction ({} : Proactor ρ β) p) : Lawful repeats p :=
  Run.inv (Lawful repeats) ⟨Nat.le_refl _, by simp, .nil⟩ (fun _ _ _ hi _ hs => lawful_step hi hs) h

/-! ## The answers to one job -/

theorem answers_filter {id : Nat} {j : ρ} (hj : p.jobs[id]? = some j) :
    p.answers.filter (·.2.job == id) = (p.answersOf id).map (j, ·) := by
  unfold answers answersOf
  induction p.reports.take p.handed with
  | nil => rfl
  | cons r rs ih =>
    by_cases hr : r.job = id
    · subst hr
      rw [List.filterMap_cons_some (by rw [hj]; rfl), List.filter_cons_of_pos (by simp), List.filter_cons_of_pos (by simp),
        ih, List.map_cons]
    · cases hk : p.jobs[r.job]? <;> simp [hk, hr, ih]

/-- No answer comes after the last. -/
theorem Lawful.answersOf_ends (h : Lawful repeats p) (id : Nat) :
    (p.answersOf id).Pairwise fun r _ => r.last = false := by
  have hsub : (p.answersOf id).Sublist p.reports := List.filter_sublist.trans (List.take_sublist ..)
  refine (h.ends.sublist hsub).imp_of_mem fun {r r'} hr hr' hrr => hrr ?_
  have h1 : r.job = id := by simpa using (List.mem_filter.1 hr).2
  have h2 : r'.job = id := by simpa using (List.mem_filter.1 hr').2
  rw [h1, h2]

/-- Of reports that are all last, one is all there is. -/
theorem one_last {rs : List (Report β)} (hp : rs.Pairwise fun r _ => r.last = false)
    (hl : ∀ r ∈ rs, r.last = true) : rs.length ≤ 1 := by
  match rs with
  | [] => simp
  | [_] => simp
  | r :: r' :: rs =>
    have hf := List.rel_of_pairwise_cons hp (@List.mem_cons_self _ r' rs)
    rw [hl r List.mem_cons_self] at hf
    cases hf

/-- A job that does not repeat is answered once. -/
theorem Lawful.answersOf_once (h : Lawful repeats p) {id : Nat} {j : ρ} (hj : p.jobs[id]? = some j)
    (hr : repeats j = false) : (p.answersOf id).length ≤ 1 := by
  refine one_last (h.answersOf_ends id) fun r hmem => ?_
  obtain ⟨hmem, hid⟩ := List.mem_filter.1 hmem
  obtain ⟨k, hk, hl⟩ := h.asked r (List.mem_of_mem_take hmem)
  have hid : r.job = id := by simpa using hid
  rw [hid, hj, Option.some.injEq] at hk
  subst hk
  exact hl.resolve_right (by rw [hr]; decide)

/-- When everything reported is handed over, the answers to a job that ended
are its last one and others before it. -/
theorem Lawful.last_answer (h : Lawful repeats p) (hall : p.handed = p.reports.length) {id : Nat}
    (he : p.ended id = true) :
    ∃ init r, p.answersOf id = init ++ [r] ∧ r.last = true ∧ ∀ x ∈ init, x.last = false := by
  obtain ⟨r, hr, hrl⟩ := List.any_eq_true.1 he
  rw [Bool.and_eq_true] at hrl
  have hmem : r ∈ p.answersOf id := by
    rw [answersOf, hall, List.take_length]
    exact List.mem_filter.2 ⟨hr, hrl.1⟩
  have hends := h.answersOf_ends id
  obtain ⟨init, rest, heq⟩ := List.append_of_mem hmem
  rw [heq] at hends ⊢
  obtain ⟨-, hcons, hcross⟩ := List.pairwise_append.1 hends
  cases rest with
  | nil => exact ⟨init, r, rfl, hrl.2, fun x hx => hcross x hx r List.mem_cons_self⟩
  | cons y rest =>
    -- nothing comes after the last
    have hf := List.rel_of_pairwise_cons hcons (List.mem_cons_self (a := y))
    rw [hrl.2] at hf
    cases hf

end Proactor

end Lib
