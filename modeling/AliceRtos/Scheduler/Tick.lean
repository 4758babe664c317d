import AliceRtos.Scheduler.Select

/-! What one `tick` does, said once.

`tick_eq_some` inverts the dispatcher: the clock did not overflow, and either
nothing was picked and only the clock, the woken tasks and `current_task` moved,
or slot `i` was picked, its bookkeeping did not overflow, and the state is the
woken table with slot `i` dispatched (`Task.afterDispatch`) and the context
switch counted. Every later result about a tick goes through it.

On top of it: what the dispatcher picks (`tick_dispatches_best`,
`tick_eq_none_iff`), where a ready task at `IDLE` is never run
(`tick_idle_task_not_dispatched`), and what one tick leaves alone
(`tick_frame`). A slot that wins the selection against every other registered
slot (`Wins`) is picked whenever it is ready (`Wins.find`), so a tick that finds
it ready dispatches it, and it still wins after the tick (`Wins.tick`). -/
namespace AliceRtos

namespace Task

/-- The task after its dispatch at `now`, each counter moved one step. -/
def afterDispatch (t : Task) (now : UInt64) : Task :=
  { t with
    state := .sleeping
    execCount := t.execCount + 1
    nextActivation := t.nextActivation + t.periodUs.toUInt64
    deadlineMisses := if t.nextActivation.toNat + t.periodUs.toNat < now.toNat
      then t.deadlineMisses + 1 else t.deadlineMisses }

/-- No addition of the dispatch at `now` overflows. -/
def DispatchFits (t : Task) (now : UInt64) : Prop :=
  t.nextActivation.toNat + t.periodUs.toNat < 2 ^ 64 ∧ t.execCount.toNat + 1 < 2 ^ 32 ∧
    (t.nextActivation.toNat + t.periodUs.toNat < now.toNat → t.deadlineMisses.toNat + 1 < 2 ^ 32)

theorem deadline_lt_iff {t : Task} {now : UInt64}
    (h : t.nextActivation.toNat + t.periodUs.toNat < 2 ^ 64) :
    t.nextActivation + t.periodUs.toUInt64 < now ↔
      t.nextActivation.toNat + t.periodUs.toNat < now.toNat := by
  rw [lt_iff_toNat64, toNat_add_of_lt t.nextActivation t.periodUs.toUInt64 h]
  rfl

theorem dispatch_of_fits {t : Task} {now : UInt64} (h : t.DispatchFits now) :
    t.dispatch now = some (t.afterDispatch now) := by
  obtain ⟨h1, h4, h3⟩ := h
  have hc := checkedAdd_of_lt t.nextActivation t.periodUs.toUInt64 h1
  have he := checkedAdd_of_lt t.execCount 1 h4
  by_cases h2 : t.nextActivation.toNat + t.periodUs.toNat < now.toNat
  · have hm := checkedAdd_of_lt t.deadlineMisses 1 (h3 h2)
    simp [dispatch, afterDispatch, hc, he, hm, deadline_lt_iff h1, h2]
  · simp [dispatch, afterDispatch, hc, he, deadline_lt_iff h1, h2]

theorem dispatch_of_not_fits {t : Task} {now : UInt64} (h : ¬t.DispatchFits now) :
    t.dispatch now = none := by
  simp only [DispatchFits, not_and_or, Classical.not_imp, Nat.not_lt] at h
  by_cases h1 : t.nextActivation.toNat + t.periodUs.toNat < 2 ^ 64
  · have hc := checkedAdd_of_lt t.nextActivation t.periodUs.toUInt64 h1
    by_cases h2 : t.nextActivation.toNat + t.periodUs.toNat < now.toNat
    · by_cases h3 : t.deadlineMisses.toNat + 1 < 2 ^ 32
      · have hm := checkedAdd_of_lt t.deadlineMisses 1 h3
        have he : checkedAdd t.execCount 1 = none := checkedAdd_eq_none.mpr (by simp; omega)
        simp [dispatch, hc, hm, he, deadline_lt_iff h1, h2]
      · have hm : checkedAdd t.deadlineMisses 1 = none :=
          checkedAdd_eq_none.mpr (by simp; omega)
        simp [dispatch, hc, hm, deadline_lt_iff h1, h2]
    · have he : checkedAdd t.execCount 1 = none := checkedAdd_eq_none.mpr (by simp; omega)
      simp [dispatch, hc, he, deadline_lt_iff h1, h2]
  · have hn : checkedAdd t.nextActivation t.periodUs.toUInt64 = none :=
      checkedAdd_eq_none.mpr (by simp; omega)
    simp [dispatch, hn]

theorem dispatch_eq_some {t t' : Task} {now : UInt64} :
    t.dispatch now = some t' ↔ t.DispatchFits now ∧ t' = t.afterDispatch now := by
  by_cases h : t.DispatchFits now
  · rw [dispatch_of_fits h, Option.some.injEq, eq_comm]
    exact ⟨fun e => ⟨h, e⟩, And.right⟩
  · rw [dispatch_of_not_fits h]
    exact ⟨fun e => (by cases e), fun e => absurd e.1 h⟩

theorem afterDispatch_execCount {t : Task} {now : UInt64} (h : t.DispatchFits now) :
    (t.afterDispatch now).execCount.toNat = t.execCount.toNat + 1 :=
  toNat_add_of_lt t.execCount 1 h.2.1

theorem afterDispatch_nextActivation {t : Task} {now : UInt64} (h : t.DispatchFits now) :
    (t.afterDispatch now).nextActivation.toNat = t.nextActivation.toNat + t.periodUs.toNat :=
  toNat_add_of_lt t.nextActivation t.periodUs.toUInt64 h.1

theorem afterDispatch_deadlineMisses {t : Task} {now : UInt64} (h : t.DispatchFits now) :
    (t.afterDispatch now).deadlineMisses.toNat =
      if t.nextActivation.toNat + t.periodUs.toNat < now.toNat
      then t.deadlineMisses.toNat + 1 else t.deadlineMisses.toNat := by
  unfold afterDispatch
  split
  · exact toNat_add_of_lt t.deadlineMisses 1 (h.2.2 ‹_›)
  · rfl

/-- The dispatch does not read the state it overwrites. -/
theorem afterDispatch_with_state (t : Task) (x : TaskState) (now : UInt64) :
    ({ t with state := x }).afterDispatch now = t.afterDispatch now := rfl

theorem dispatchFits_with_state (t : Task) (x : TaskState) (now : UInt64) :
    ({ t with state := x }).DispatchFits now ↔ t.DispatchFits now := Iff.rfl

end Task

namespace Scheduler

/-- The table `tick` selects from: the clock at `now`, due sleeping tasks ready. -/
def woken (s : Scheduler) (now : UInt64) : Scheduler := markReady { s with tickUs := now }

@[simp] theorem woken_taskCount (s : Scheduler) (now : UInt64) :
    (s.woken now).taskCount = s.taskCount := rfl
@[simp] theorem woken_tickUs (s : Scheduler) (now : UInt64) : (s.woken now).tickUs = now := rfl
@[simp] theorem woken_currentTask (s : Scheduler) (now : UInt64) :
    (s.woken now).currentTask = s.currentTask := rfl
@[simp] theorem woken_contextSwitches (s : Scheduler) (now : UInt64) :
    (s.woken now).contextSwitches = s.contextSwitches := rfl

/-- A slot of the woken table: due sleeping registered tasks are ready, the rest as they were. -/
theorem woken_tasks (s : Scheduler) (now : UInt64) (j : Fin maxTasks) :
    (s.woken now).tasks j =
      if j.val < s.taskCount ∧ (s.tasks j).state = .sleeping ∧ now ≥ (s.tasks j).nextActivation
      then { s.tasks j with state := .ready } else s.tasks j := rfl

/-- The state after a context switch to `i` is counted (or not). -/
def switched (s : Scheduler) (i : Nat) : Scheduler :=
  { s with
    currentTask := some i
    contextSwitches := if s.currentTask ≠ some i then s.contextSwitches + 1 else s.contextSwitches }

@[simp] theorem switched_currentTask (s : Scheduler) (i : Nat) : (s.switched i).currentTask = some i := rfl
theorem switched_contextSwitches (s : Scheduler) (i : Nat) : (s.switched i).contextSwitches =
    if s.currentTask ≠ some i then s.contextSwitches + 1 else s.contextSwitches := rfl

theorem switchTo_eq_some {s s' : Scheduler} {i : Nat} :
    s.switchTo i = some s' ↔
      (s.currentTask ≠ some i → s.contextSwitches.toNat + 1 < 2 ^ 32) ∧ s' = s.switched i := by
  unfold switchTo switched
  by_cases hc : s.currentTask = some i
  · have : s = { s with currentTask := some i } := by cases s; simp_all
    simp only [hc, ne_eq, not_true_eq_false, if_false, pure, Option.some.injEq, false_implies,
      true_and]
    exact ⟨fun e => e.symm.trans this, fun e => (e.trans this.symm).symm⟩
  · by_cases h : s.contextSwitches.toNat + 1 < 2 ^ 32
    · simp [hc, checkedAdd_of_lt s.contextSwitches 1 h, eq_comm]
      omega
    · have hn : checkedAdd s.contextSwitches 1 = none :=
        checkedAdd_eq_none.mpr (by simp; omega)
      simp [hc, hn]
      omega

/-- **One dispatch, said once.** -/
theorem dispatch_eq_some {s s' : Scheduler} {r : Option Nat} :
    s.dispatch = some (s', r) ↔
      (s.findHighestPriorityReady = none ∧ r = none ∧ s' = { s with currentTask := none }) ∨
      ∃ i, ∃ h : i < maxTasks, s.findHighestPriorityReady = some i ∧ r = some i ∧
        (s.currentTask ≠ some i → s.contextSwitches.toNat + 1 < 2 ^ 32) ∧
        (s.tasks ⟨i, h⟩).DispatchFits s.tickUs ∧
        s' = (s.switched i).setTask ⟨i, h⟩ ((s.tasks ⟨i, h⟩).afterDispatch s.tickUs) := by
  unfold dispatch
  split
  · rename_i hf
    simp only [pure, Option.some.injEq, Prod.mk.injEq, hf, true_and, reduceCtorEq, false_and,
      exists_false, or_false]
    constructor <;> rintro ⟨rfl, rfl⟩ <;> exact ⟨rfl, rfl⟩
  · rename_i i hf
    simp only [hf, reduceCtorEq, false_and, Option.some.injEq, false_or]
    split
    · rename_i h
      simp only [bind, Option.bind_eq_some, switchTo_eq_some, Task.dispatch_eq_some, pure,
        Option.some.injEq, Prod.mk.injEq]
      constructor
      · rintro ⟨s1, ⟨hcs, rfl⟩, t, ⟨hfit, rfl⟩, rfl, rfl⟩
        exact ⟨i, h, rfl, rfl, hcs, hfit, rfl⟩
      · rintro ⟨_, _, rfl, rfl, hcs, hfit, rfl⟩
        exact ⟨_, ⟨hcs, rfl⟩, _, ⟨hfit, rfl⟩, rfl, rfl⟩
    · rename_i h
      simp only [reduceCtorEq, false_iff, not_exists, not_and]
      intro i' hi' e
      cases e
      exact absurd hi' h

/-- Waking changes the state of a slot and nothing else. -/
theorem woken_tasks_eq (s : Scheduler) (now : UInt64) (j : Fin maxTasks) :
    (s.woken now).tasks j = { s.tasks j with state := ((s.woken now).tasks j).state } := by
  rw [woken_tasks]
  split <;> rfl

theorem woken_priority (s : Scheduler) (now : UInt64) (j : Fin maxTasks) :
    ((s.woken now).tasks j).priority = (s.tasks j).priority := by
  rw [woken_tasks_eq]

theorem tick_eq_some {s : Scheduler} {d : UInt64} {x : Scheduler × Option Nat} :
    s.tick d = some x ↔
      s.tickUs.toNat + d.toNat < 2 ^ 64 ∧ (s.woken (s.tickUs + d)).dispatch = some x := by
  unfold tick
  by_cases h : s.tickUs.toNat + d.toNat < 2 ^ 64
  · simp [checkedAdd_of_lt _ _ h, woken]
    omega
  · have hn : checkedAdd s.tickUs d = none := checkedAdd_eq_none.mpr (by omega)
    simp [hn]
    omega

/-- After a tick, the current task is the one it returned. -/
theorem tick_currentTask {s s' : Scheduler} {d : UInt64} {r : Option Nat}
    (h : s.tick d = some (s', r)) : s'.currentTask = r := by
  rcases dispatch_eq_some.mp (tick_eq_some.mp h).2 with ⟨-, rfl, rfl⟩ | ⟨i, hi, -, rfl, -, -, rfl⟩
  · rfl
  · rfl

@[simp] theorem tick_taskCount {s s' : Scheduler} {d : UInt64} {r : Option Nat}
    (h : s.tick d = some (s', r)) : s'.taskCount = s.taskCount := by
  rcases dispatch_eq_some.mp (tick_eq_some.mp h).2 with ⟨-, -, rfl⟩ | ⟨i, hi, -, -, -, -, rfl⟩
  · rfl
  · rfl

/-! ### What a tick dispatches -/

/-- **What a tick dispatches.** A tick that returns `some i` picked a registered
slot that is ready in the woken table and below `IDLE`, with no ready slot of a
smaller priority number and every ready slot of the same number at a larger index. -/
theorem tick_dispatches_best {s s' : Scheduler} {d : UInt64} {i : Nat}
    (h : s.tick d = some (s', some i)) :
    (s.woken (s.tickUs + d)).ReadyAt i ∧
      ((s.woken (s.tickUs + d)).slot i).priority < TaskPriority.idle ∧
      (∀ j, (s.woken (s.tickUs + d)).ReadyAt j →
        ((s.woken (s.tickUs + d)).slot i).priority ≤ ((s.woken (s.tickUs + d)).slot j).priority) ∧
      ∀ j, (s.woken (s.tickUs + d)).ReadyAt j →
        ((s.woken (s.tickUs + d)).slot j).priority = ((s.woken (s.tickUs + d)).slot i).priority →
        i ≤ j := by
  obtain ⟨-, hd⟩ := tick_eq_some.mp h
  rcases dispatch_eq_some.mp hd with ⟨-, hr, -⟩ | ⟨i', -, hf, hr, -⟩
  · cases hr
  · cases hr
    obtain ⟨hready, hidle, hle, hbefore⟩ := findHighestPriorityReady_eq_some _ hf
    refine ⟨hready, hidle, hle, fun j hj he => Nat.le_of_not_lt fun hji => ?_⟩
    have := hbefore j hji hj
    rw [he] at this
    exact Nat.lt_irrefl _ this

/-- A tick that does not overflow the clock returns `None` exactly when every
ready slot of the woken table is at `IDLE`. -/
theorem tick_eq_none_iff {s : Scheduler} {d : UInt64} (hd : s.tickUs.toNat + d.toNat < 2 ^ 64) :
    (∃ s', s.tick d = some (s', none)) ↔
      ∀ j, (s.woken (s.tickUs + d)).ReadyAt j →
        ((s.woken (s.tickUs + d)).slot j).priority = TaskPriority.idle := by
  rw [← findHighestPriorityReady_eq_none]
  constructor
  · rintro ⟨s', h⟩
    rcases dispatch_eq_some.mp (tick_eq_some.mp h).2 with ⟨hf, -⟩ | ⟨_, _, _, hr, -⟩
    · exact hf
    · cases hr
  · intro hf
    exact ⟨_, tick_eq_some.mpr ⟨hd, dispatch_eq_some.mpr (.inl ⟨hf, rfl, rfl⟩)⟩⟩

/-- A task registered at `IDLE` is ready after its registration, whatever its other
arguments, and the next tick still returns `None`: the selection loop starts from
`IDLE` and only takes a strictly smaller number. -/
theorem tick_idle_task_not_dispatched (name : List UInt8) (func : TaskFn) (periodUs wcetUs : UInt32) :
    ((Scheduler.new.register (Task.new name func TaskPriority.idle periodUs wcetUs)).1.woken 0).ReadyAt 0 ∧
      ∃ s', (Scheduler.new.register (Task.new name func TaskPriority.idle periodUs wcetUs)).1.tick 0 =
        some (s', none) :=
  ⟨⟨Nat.zero_lt_one, rfl⟩, _, rfl⟩

/-! ### What a tick leaves alone -/

theorem tick_clock {s s' : Scheduler} {d : UInt64} {r : Option Nat} (h : s.tick d = some (s', r)) :
    s'.tickUs.toNat = s.tickUs.toNat + d.toNat := by
  obtain ⟨hd, hdisp⟩ := tick_eq_some.mp h
  rcases dispatch_eq_some.mp hdisp with ⟨-, -, rfl⟩ | ⟨i, hi, -, -, -, -, rfl⟩ <;>
    exact toNat_add_of_lt _ _ hd

/-- The slot a tick dispatches: sleeping, one more execution, the activation one
period on, and a deadline miss counted when the new clock is past the deadline. -/
theorem tick_dispatched_slot {s s' : Scheduler} {d : UInt64} {j : Fin maxTasks}
    (h : s.tick d = some (s', some j.val)) : ∃ exec next misses, s'.tasks j =
        { s.tasks j with
          state := .sleeping, execCount := exec, nextActivation := next, deadlineMisses := misses } ∧
      exec.toNat = (s.tasks j).execCount.toNat + 1 ∧
      next.toNat = (s.tasks j).nextActivation.toNat + (s.tasks j).periodUs.toNat ∧
      misses.toNat = if (s.tasks j).nextActivation.toNat + (s.tasks j).periodUs.toNat < s'.tickUs.toNat
        then (s.tasks j).deadlineMisses.toNat + 1 else (s.tasks j).deadlineMisses.toNat := by
  rcases dispatch_eq_some.mp (tick_eq_some.mp h).2 with ⟨-, e, -⟩ | ⟨i, hi, -, e, -, hfit, rfl⟩
  · cases e
  · have hj : j = ⟨i, hi⟩ := Fin.ext (Option.some.inj e)
    subst hj
    rw [woken_tasks_eq, Task.dispatchFits_with_state] at hfit
    refine ⟨_, _, _, ?_, Task.afterDispatch_execCount hfit, Task.afterDispatch_nextActivation hfit,
      Task.afterDispatch_deadlineMisses hfit⟩
    simp only [setTask_tasks, Function.update_same]
    rw [woken_tasks_eq, Task.afterDispatch_with_state]
    rfl

/-- Every slot a tick does not dispatch is as the waking left it. -/
theorem tick_other_slot {s s' : Scheduler} {d : UInt64} {r : Option Nat} (h : s.tick d = some (s', r))
    (j : Fin maxTasks) (hne : r ≠ some j.val) :
    s'.tasks j = if j.val < s.taskCount ∧ (s.tasks j).state = .sleeping ∧
        (s.tasks j).nextActivation ≤ s'.tickUs
      then { s.tasks j with state := .ready } else s.tasks j := by
  rcases dispatch_eq_some.mp (tick_eq_some.mp h).2 with ⟨-, -, rfl⟩ | ⟨i, hi, -, rfl, -, -, rfl⟩
  · exact woken_tasks s _ j
  · have hj : j ≠ ⟨i, hi⟩ := fun e => hne (by rw [e])
    simp only [setTask_tasks, Function.update_noteq hj]
    exact woken_tasks s _ j

/-- A tick moves no task's priority or period. -/
theorem tick_priority_period {s s' : Scheduler} {d : UInt64} {r : Option Nat} (h : s.tick d = some (s', r))
    (j : Fin maxTasks) :
    (s'.tasks j).priority = (s.tasks j).priority ∧ (s'.tasks j).periodUs = (s.tasks j).periodUs := by
  by_cases hr : r = some j.val
  · subst hr
    obtain ⟨_, _, _, he, -⟩ := tick_dispatched_slot h
    rw [he]
    exact ⟨rfl, rfl⟩
  · rw [tick_other_slot h j hr]
    split <;> exact ⟨rfl, rfl⟩

/-- A tick moves no task's function. -/
theorem tick_func {s s' : Scheduler} {d : UInt64} {r : Option Nat} (h : s.tick d = some (s', r))
    (j : Fin maxTasks) : (s'.tasks j).func = (s.tasks j).func := by
  by_cases hr : r = some j.val
  · subst hr
    obtain ⟨_, _, _, he, -⟩ := tick_dispatched_slot h
    rw [he]
  · rw [tick_other_slot h j hr]
    split <;> rfl

/-- **The frame of a tick.** The task count is kept and the clock moves by `d`.
The dispatched slot ends sleeping with one more execution, its activation one
period on, a deadline miss counted exactly when the new clock is more than a
period past the old activation, and every other field as it was. Every other
slot is untouched but for a registered sleeping task that is due, which becomes
ready. -/
theorem tick_frame {s s' : Scheduler} {d : UInt64} {r : Option Nat} (h : s.tick d = some (s', r)) :
    s'.taskCount = s.taskCount ∧ s'.tickUs.toNat = s.tickUs.toNat + d.toNat ∧
      ∀ j : Fin maxTasks,
        (r = some j.val → ∃ exec next misses, s'.tasks j =
            { s.tasks j with
              state := .sleeping, execCount := exec, nextActivation := next, deadlineMisses := misses } ∧
          exec.toNat = (s.tasks j).execCount.toNat + 1 ∧
          next.toNat = (s.tasks j).nextActivation.toNat + (s.tasks j).periodUs.toNat ∧
          misses.toNat = if (s.tasks j).nextActivation.toNat + (s.tasks j).periodUs.toNat < s'.tickUs.toNat
            then (s.tasks j).deadlineMisses.toNat + 1 else (s.tasks j).deadlineMisses.toNat) ∧
        (r ≠ some j.val → s'.tasks j =
          if j.val < s.taskCount ∧ (s.tasks j).state = .sleeping ∧
            (s.tasks j).nextActivation ≤ s'.tickUs
          then { s.tasks j with state := .ready } else s.tasks j) :=
  ⟨tick_taskCount h, tick_clock h, fun j =>
    ⟨fun e => tick_dispatched_slot (e ▸ h), tick_other_slot h j⟩⟩

theorem tick_frame_first_dispatch :
    let s := (Scheduler.new.register (Task.new [116] (fun scratch => some scratch)
      TaskPriority.normal 100 10)).1
    ∃ s', s.tick 0 = some (s', some 0) ∧ s'.taskCount = s.taskCount ∧
      s'.tickUs.toNat = s.tickUs.toNat + (0 : UInt64).toNat := by
  intro s
  obtain ⟨s', h⟩ : ∃ s', s.tick 0 = some (s', some 0) := ⟨_, rfl⟩
  exact ⟨s', h, (tick_frame h).1, (tick_frame h).2.1⟩

/-! ### The winner of the selection -/

/-- Slot `i` holds a task below `IDLE` that wins the selection against every other
registered slot: a smaller priority number, or the same number and a smaller index. -/
structure Wins (s : Scheduler) (i : Fin maxTasks) : Prop where
  below_idle : (s.tasks i).priority < TaskPriority.idle
  wins : ∀ j : Fin maxTasks, j.val < s.taskCount → j ≠ i →
    (s.tasks i).priority < (s.tasks j).priority ∨
      (s.tasks i).priority = (s.tasks j).priority ∧ i.val < j.val

section
variable {s s' : Scheduler} {i : Fin maxTasks}

/-- The selection loop picks a winner that is ready. -/
theorem Wins.find (h : Wins s i) (hready : s.ReadyAt i.val) : s.findHighestPriorityReady = some i.val := by
  cases hf : s.findHighestPriorityReady with
  | none =>
    have hidle := (findHighestPriorityReady_eq_none _).mp hf _ hready
    rw [slot_eq] at hidle
    exact absurd (hidle ▸ h.below_idle) (Nat.lt_irrefl _)
  | some k =>
    obtain ⟨hk, -, hmin, hbefore⟩ := findHighestPriorityReady_eq_some _ hf
    have hkm : k < maxTasks := Nat.lt_of_lt_of_le hk.1 s.taskCount_le
    by_contra hne
    have hK : (⟨k, hkm⟩ : Fin maxTasks) ≠ i := fun e => hne (by rw [← e])
    have hle := hmin _ hready
    rw [slot_of_lt _ hkm, slot_eq] at hle
    rcases h.wins ⟨k, hkm⟩ hk.1 hK with hlt | ⟨heq, hik⟩
    · exact absurd (Nat.lt_of_lt_of_le hlt hle) (Nat.lt_irrefl _)
    · have hlt := hbefore i.val hik hready
      rw [slot_of_lt _ hkm, slot_eq, heq] at hlt
      exact Nat.lt_irrefl _ hlt

/-- Waking moves no priority and no registered slot, so a winner stays one. -/
theorem Wins.woken (h : Wins s i) (now : UInt64) : Wins (s.woken now) i := by
  refine ⟨(woken_priority s now i).symm ▸ h.below_idle, fun j hj hji => ?_⟩
  rw [woken_priority, woken_priority]
  exact h.wins j hj hji

/-- A tick that finds the winner ready in its woken table dispatches it. -/
theorem Wins.tick_dispatches_ready {d : UInt64} {r : Option Nat} (h : Wins s i)
    (hready : (s.woken (s.tickUs + d)).ReadyAt i.val) (ht : s.tick d = some (s', r)) : r = some i.val := by
  have hf := (h.woken (s.tickUs + d)).find hready
  rcases dispatch_eq_some.mp (tick_eq_some.mp ht).2 with ⟨hf', -, -⟩ | ⟨k, -, hf', rfl, -⟩
  · rw [hf] at hf'
    cases hf'
  · rw [hf] at hf'
    exact hf'.symm

/-- A tick keeps a winner winning. -/
theorem Wins.tick {d : UInt64} {r : Option Nat} (h : Wins s i) (ht : s.tick d = some (s', r)) : Wins s' i := by
  refine ⟨(tick_priority_period ht i).1 ▸ h.below_idle, fun j hj hji => ?_⟩
  rw [(tick_priority_period ht i).1, (tick_priority_period ht j).1]
  exact h.wins j (tick_taskCount ht ▸ hj) hji

end

end Scheduler

end AliceRtos
