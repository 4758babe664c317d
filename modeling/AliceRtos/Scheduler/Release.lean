import AliceRtos.Scheduler.Run

/-! When tasks are released.

Alongside a run we keep, per slot, the clock at the task's registration or its
last resume (`base`) and the number of ticks since then that dispatched it
(`runs`). This bookkeeping is ours, not the scheduler's: `Releases.record` says
how each call moves it, and `Tracked` pairs every reachable state with it. A
resume counts only when it takes effect, on a suspended task.

`release_times`: in every tracked state, a ready task is due, its next
activation is exactly `base + runs · period`, and a tick that dispatches it
happens no earlier than that activation. So a task is never released early, and
no activation is skipped or counted twice. -/
namespace AliceRtos.Scheduler

/-- Per slot, the clock at the task's registration or last resume, and the ticks
since then that dispatched it. -/
structure Releases where
  base : Nat → Nat
  runs : Nat → Nat

namespace Releases

def zero : Releases := ⟨fun _ => 0, fun _ => 0⟩

/-- Slot `i` starts over at time `now`. -/
def restart (g : Releases) (i now : Nat) : Releases :=
  ⟨Function.update g.base i now, Function.update g.runs i 0⟩

/-- Slot `i` was dispatched once more. -/
def count (g : Releases) (i : Nat) : Releases :=
  { g with runs := Function.update g.runs i (g.runs i + 1) }

/-- The bookkeeping after a call on `s` that returned `r`. -/
def record (g : Releases) (s : Scheduler) : Op → Option Nat → Releases
  | .register _, some i => g.restart i s.tickUs.toNat
  | .tick _, some i => g.count i
  | .resume idx, _ =>
    if idx < s.taskCount ∧ (s.slot idx).state = .suspended then g.restart idx s.tickUs.toNat else g
  | _, _ => g

end Releases

/-- Reachable states, each with its bookkeeping. -/
inductive Tracked : Scheduler → Releases → Prop
  | new : Tracked Scheduler.new Releases.zero
  | step {s s' : Scheduler} {g : Releases} (op : Op) {r : Option Nat} :
      Tracked s g → s.step op = some (s', r) → Tracked s' (g.record s op r)

theorem Tracked.reachable {s : Scheduler} {g : Releases} (h : Tracked s g) : Reachable s := by
  induction h with
  | new => exact .new
  | step _ _ hs ih => exact ih.step (fun _ _ => trivial) hs

theorem Reachable.tracked {s : Scheduler} (h : Reachable s) : ∃ g, Tracked s g := by
  induction h with
  | new => exact ⟨_, .new⟩
  | @register s task _ _ ih =>
    obtain ⟨g, hg⟩ := ih
    exact ⟨_, hg.step (.register task) rfl⟩
  | @tick s s' d r _ ht ih =>
    obtain ⟨g, hg⟩ := ih
    exact ⟨_, hg.step (.tick d) ht⟩
  | suspend idx _ ih =>
    obtain ⟨g, hg⟩ := ih
    exact ⟨_, hg.step (.suspend idx) rfl⟩
  | resume idx _ ih =>
    obtain ⟨g, hg⟩ := ih
    exact ⟨_, hg.step (.resume idx) rfl⟩

/-- The release invariant of a registered slot. -/
def ReleaseInv (s : Scheduler) (g : Releases) : Prop :=
  ∀ j : Fin maxTasks, j.val < s.taskCount →
    ((s.tasks j).state = .ready → (s.tasks j).nextActivation.toNat ≤ s.tickUs.toNat) ∧
      (s.tasks j).nextActivation.toNat = g.base j + g.runs j * (s.tasks j).periodUs.toNat

section
variable {s : Scheduler} {g : Releases}

theorem releaseInv_new : ReleaseInv Scheduler.new Releases.zero :=
  fun _ hj => absurd hj (Nat.not_lt_zero _)

/-- A slot whose activation and period are kept, under bookkeeping that is kept. -/
theorem ReleaseInv.kept {s' : Scheduler} {g' : Releases} (h : ReleaseInv s g) {j : Fin maxTasks}
    (hj : j.val < s.taskCount) (hclock : s.tickUs.toNat ≤ s'.tickUs.toNat)
    (hstate : (s'.tasks j).state = .ready → (s.tasks j).state = .ready)
    (hnext : (s'.tasks j).nextActivation = (s.tasks j).nextActivation)
    (hperiod : (s'.tasks j).periodUs = (s.tasks j).periodUs)
    (hbase : g'.base j = g.base j) (hruns : g'.runs j = g.runs j) :
    ((s'.tasks j).state = .ready → (s'.tasks j).nextActivation.toNat ≤ s'.tickUs.toNat) ∧
      (s'.tasks j).nextActivation.toNat = g'.base j + g'.runs j * (s'.tasks j).periodUs.toNat := by
  rw [hnext, hperiod, hbase, hruns]
  exact ⟨fun hr => Nat.le_trans ((h j hj).1 (hstate hr)) hclock, (h j hj).2⟩

theorem ReleaseInv.register (h : ReleaseInv s g) (task : Task) :
    ReleaseInv (s.register task).1 (g.record s (.register task) (s.register task).2) := by
  intro j hj
  rw [register_taskCount] at hj
  by_cases hfull : s.taskCount < maxTasks
  · rw [if_pos hfull] at hj
    rw [register_snd, if_pos hfull]
    by_cases hjc : j.val = s.taskCount
    · simp [Releases.record, Releases.restart, register_tasks, hjc]
    · have hupd : ∀ f : Nat → Nat, Function.update f s.taskCount s.tickUs.toNat j = f j ∧
          Function.update f s.taskCount 0 j = f j :=
        fun f => ⟨Function.update_noteq hjc _ _, Function.update_noteq hjc _ _⟩
      exact h.kept (by omega) (by simp) (by simp [register_tasks, hjc]) (by simp [register_tasks, hjc])
        (by simp [register_tasks, hjc]) (hupd g.base).1 (hupd g.runs).2
  · rw [if_neg hfull] at hj
    have hs : s.register task = (s, none) := dif_pos (Nat.not_lt.mp hfull)
    rw [hs]
    exact h j hj

theorem ReleaseInv.tick {s' : Scheduler} {d : UInt64} {r : Option Nat} (h : ReleaseInv s g)
    (ht : s.tick d = some (s', r)) : ReleaseInv s' (g.record s (.tick d) r) := by
  intro j hj
  rw [tick_taskCount ht] at hj
  by_cases hr : r = some j.val
  · subst hr
    obtain ⟨exec, next, misses, he, -, hnext, -⟩ := tick_dispatched_slot ht
    rw [he]
    refine ⟨fun e => (by cases e), ?_⟩
    simp only [Releases.record, Releases.count, Function.update_same, hnext, (h j hj).2]
    rw [Nat.succ_mul]
    omega
  · have hg : (g.record s (.tick d) r).base j = g.base j ∧ (g.record s (.tick d) r).runs j = g.runs j := by
      cases r with
      | none => exact ⟨rfl, rfl⟩
      | some i =>
        have hi : j.val ≠ i := fun e => hr (by rw [e])
        exact ⟨rfl, Function.update_noteq hi _ _⟩
    have hslot := tick_other_slot ht j hr
    by_cases hdue : j.val < s.taskCount ∧ (s.tasks j).state = .sleeping ∧
        (s.tasks j).nextActivation ≤ s'.tickUs
    · rw [if_pos hdue] at hslot
      rw [hslot, hg.1, hg.2]
      exact ⟨fun _ => le_iff_toNat64.mp hdue.2.2, (h j hj).2⟩
    · rw [if_neg hdue] at hslot
      exact h.kept hj (by rw [tick_clock ht]; omega) (by rw [hslot]; exact id) (by rw [hslot]) (by rw [hslot]) hg.1 hg.2

theorem ReleaseInv.suspend (h : ReleaseInv s g) (idx : Nat) :
    ReleaseInv (s.suspend idx) (g.record s (.suspend idx) none) := by
  intro j hj
  rw [suspend_taskCount] at hj
  refine h.kept hj (by simp) ?_ ?_ ?_ rfl rfl <;> rw [suspend_tasks] <;> split
  · exact fun e => by cases e
  all_goals first | exact id | rfl

theorem ReleaseInv.resume (h : ReleaseInv s g) (idx : Nat) :
    ReleaseInv (s.resume idx) (g.record s (.resume idx) none) := by
  intro j hj
  rw [resume_taskCount] at hj
  by_cases hji : j.val = idx
  · subst hji
    have hslot : s.slot j.val = s.tasks j := slot_eq s j
    by_cases hs : (s.tasks j).state = .suspended
    · simp [Releases.record, Releases.restart, resume_tasks, hslot, hj, hs]
    · have hrec : g.record s (.resume j.val) none = g := by
        simp [Releases.record, hslot, hs]
      rw [hrec]
      exact h.kept hj (by simp) (by simp [resume_tasks, hs]) (by simp [resume_tasks, hs])
        (by simp [resume_tasks, hs]) rfl rfl
  · have hg : (g.record s (.resume idx) none).base j = g.base j ∧
        (g.record s (.resume idx) none).runs j = g.runs j := by
      simp only [Releases.record]
      split
      · exact ⟨Function.update_noteq hji _ _, Function.update_noteq hji _ _⟩
      · exact ⟨rfl, rfl⟩
    exact h.kept hj (by simp) (by simp [resume_tasks, hji]) (by simp [resume_tasks, hji])
      (by simp [resume_tasks, hji]) hg.1 hg.2

theorem ReleaseInv.step {s' : Scheduler} {op : Op} {r : Option Nat} (h : ReleaseInv s g)
    (hs : s.step op = some (s', r)) : ReleaseInv s' (g.record s op r) := by
  cases op with
  | register task =>
    obtain rfl : s' = (s.register task).1 := congrArg Prod.fst (Option.some.inj hs).symm
    obtain rfl : r = (s.register task).2 := congrArg Prod.snd (Option.some.inj hs).symm
    exact h.register task
  | tick d => exact h.tick hs
  | suspend idx => cases hs; exact h.suspend idx
  | resume idx => cases hs; exact h.resume idx

end

theorem Tracked.releaseInv {s : Scheduler} {g : Releases} (h : Tracked s g) : ReleaseInv s g := by
  induction h with
  | new => exact releaseInv_new
  | step _ _ hs ih => exact ih.step hs

/-- A slot ready in the woken table was ready, or due. -/
theorem woken_ready {s : Scheduler} {now : UInt64} {j : Fin maxTasks}
    (h : ((s.woken now).tasks j).state = .ready) :
    (s.tasks j).state = .ready ∨ (s.tasks j).nextActivation ≤ now := by
  rw [woken_tasks] at h
  split at h
  · exact .inr ‹_ ∧ _ ∧ _›.2.2
  · exact .inl h

/-- **Release times.** In a reachable state with its bookkeeping, a registered
task that is ready is due; its next activation is `base + runs · period`, with
`base` the clock at its registration or last resume and `runs` the ticks since
that dispatched it; and a tick that dispatches it again happens no earlier than
that activation. -/
theorem release_times {s : Scheduler} {g : Releases} (h : Tracked s g) (j : Fin maxTasks)
    (hj : j.val < s.taskCount) :
    ((s.tasks j).state = .ready → (s.tasks j).nextActivation.toNat ≤ s.tickUs.toNat) ∧
      (s.tasks j).nextActivation.toNat = g.base j + g.runs j * (s.tasks j).periodUs.toNat ∧
      ∀ d s', s.tick d = some (s', some j.val) →
        (s.tasks j).nextActivation.toNat ≤ s'.tickUs.toNat ∧
          g.base j + g.runs j * (s.tasks j).periodUs.toNat ≤ s'.tickUs.toNat := by
  obtain ⟨hready, hnext⟩ := h.releaseInv j hj
  refine ⟨hready, hnext, fun d s' ht => ?_⟩
  rw [← hnext]
  have hdue : (s.tasks j).nextActivation.toNat ≤ s'.tickUs.toNat := by
    obtain ⟨hd, -⟩ := tick_eq_some.mp ht
    have hclock := tick_clock ht
    have hw := (tick_dispatches_best ht).1.2
    rw [slot_eq] at hw
    rcases woken_ready hw with hr | hle
    · exact Nat.le_trans (hready hr) (by omega)
    · rw [le_iff_toNat64, toNat_add_of_lt _ _ hd] at hle
      omega
  exact ⟨hdue, hdue⟩

/-- A tick whose result is known steps to the state it computes, named by `getD`
so that later ticks can be evaluated from it. -/
theorem tick_eq_of_result {s : Scheduler} {d : UInt64} {r : Option Nat} (h : (s.tick d).map Prod.snd = some r) :
    s.tick d = some (((s.tick d).getD (s, none)).1, r) := by
  obtain ⟨⟨s', r'⟩, hx, rfl⟩ := Option.map_eq_some'.mp h
  rw [hx]
  rfl

/-- A task of period 100 registered at 0 and dispatched at 0 and at 100: two runs
since its release, so its activation is `0 + 2 · 100`. -/
theorem release_times_first_task :
    ∃ s g, Tracked s g ∧ 0 < s.taskCount ∧ g.runs 0 = 2 ∧ (s.tasks ⟨0, maxTasks_pos⟩).nextActivation = 200 ∧
      ((s.tasks ⟨0, maxTasks_pos⟩).state = .ready →
        (s.tasks ⟨0, maxTasks_pos⟩).nextActivation.toNat ≤ s.tickUs.toNat) ∧
      (s.tasks ⟨0, maxTasks_pos⟩).nextActivation.toNat =
        g.base 0 + g.runs 0 * (s.tasks ⟨0, maxTasks_pos⟩).periodUs.toNat ∧
      ∀ d s', s.tick d = some (s', some 0) →
        (s.tasks ⟨0, maxTasks_pos⟩).nextActivation.toNat ≤ s'.tickUs.toNat ∧
          g.base 0 + g.runs 0 * (s.tasks ⟨0, maxTasks_pos⟩).periodUs.toNat ≤ s'.tickUs.toNat := by
  let task := Task.new [] (fun scratch => some scratch) TaskPriority.normal 100 10
  let s₁ := (Scheduler.new.register task).1
  have h₂ := (Tracked.new.step (.register task) rfl).step (.tick 0)
    (tick_eq_of_result (s := s₁) (r := some 0) (by decide))
  have h₃ := h₂.step (.tick 100) (tick_eq_of_result (r := some 0) (by decide))
  exact ⟨_, _, h₃, by decide, rfl, by decide, release_times h₃ ⟨0, maxTasks_pos⟩ (by decide)⟩

end AliceRtos.Scheduler
