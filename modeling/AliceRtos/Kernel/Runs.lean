import AliceRtos.Kernel
import AliceRtos.Scheduler.Dispatches

/-! Runs of the kernel.

The kernel's API, `add_task` and `tick`, drives its scheduler: every run of the
kernel is a run of its scheduler on the calls it makes, `add_task` registering
the task `Task::new` builds, with the same results (`run_toScheduler`), so every
result about the scheduler's runs holds inside the kernel. Around the scheduler
the kernel keeps three things of its own. The scratch buffer is where the
tasks' work lands: over any run it ends as the functions of the dispatched
tasks applied one after the other, in dispatch order (`run_scratch`). The
counters are exact: `total_ticks` counts the ticks, and the scheduler's counters
count what the ticks returned (`run_counters`). And the timer follows the
scheduler's clock without ever wrapping, so a tick panics exactly where its tick
count, the scheduler's tick or the function of the dispatched task does: the
timer never panics (`reachable_tick_panics`). -/
namespace AliceRtos

/-- What running task `t` does to the scratch buffer: its function, if it has one;
`none` if that function panics. -/
def Task.call (t : Task) (scratch : List UInt8) : Option (List UInt8) :=
  match t.func with
  | some func => func scratch
  | none => some scratch

theorem Scheduler.executeTask_eq (s : Scheduler) {idx : Nat} (h : idx < maxTasks) (scratch : List UInt8) :
    s.executeTask idx scratch = (s.slot idx).call scratch := by
  rw [Scheduler.slot_of_lt _ h]
  cases hf : (s.tasks ⟨idx, h⟩).func <;> simp only [Scheduler.executeTask, Task.call, dif_pos h, hf]

namespace Kernel

/-- A tick dispatches a slot of the table, so running it is its task's call. -/
theorem runExecuted_of_tick {s sch : Scheduler} {d : UInt64} {i : Nat} (hs : s.tick d = some (sch, some i))
    (scratch : List UInt8) : runExecuted sch (some i) scratch = (sch.slot i).call scratch :=
  sch.executeTask_eq (Nat.lt_of_lt_of_le (Scheduler.tick_lt_taskCount hs) s.taskCount_le) scratch

/-! ### Runs -/

/-- The calls of the kernel's API that change it. -/
inductive Op
  | addTask (name : List UInt8) (func : TaskFn) (priority : TaskPriority) (periodUs wcetUs : UInt32)
  | tick (deltaUs : UInt64)

/-- The scheduler call a kernel call makes. -/
def Op.toScheduler : Op → Scheduler.Op
  | .addTask name func priority periodUs wcetUs => .register (Task.new name func priority periodUs wcetUs)
  | .tick deltaUs => .tick deltaUs

/-- One call and the index it returns, if any; `none` is a panic. -/
def step (k : Kernel) : Op → Option (Kernel × Option Nat)
  | .addTask name func priority periodUs wcetUs => some (k.addTask name func priority periodUs wcetUs)
  | .tick deltaUs => k.tick deltaUs

/-- A run: the last kernel and what each call returned. -/
def run (k : Kernel) : List Op → Option (Kernel × List (Option Nat))
  | [] => some (k, [])
  | op :: ops => do
    let (k, r) ← k.step op
    let (k, rs) ← run k ops
    pure (k, r :: rs)

theorem run_eq_some {k k' : Kernel} {op : Op} {ops : List Op} {rs : List (Option Nat)} :
    run k (op :: ops) = some (k', rs) ↔
      ∃ k₁ r rs', k.step op = some (k₁, r) ∧ run k₁ ops = some (k', rs') ∧ rs = r :: rs' := by
  simp only [run, bind, Option.bind_eq_some, pure, Option.some.injEq, Prod.mk.injEq]
  constructor
  · rintro ⟨⟨k₁, r⟩, h₁, ⟨k₂, rs'⟩, h₂, rfl, rfl⟩
    exact ⟨k₁, r, rs', h₁, h₂, rfl⟩
  · rintro ⟨k₁, r, rs', h₁, h₂, rfl⟩
    exact ⟨(k₁, r), h₁, (k', rs'), h₂, rfl, rfl⟩

/-! ### The scheduler inside -/

/-- A kernel call makes the scheduler call it stands for, with the same result. -/
theorem step_scheduler {k k' : Kernel} {op : Op} {r : Option Nat} (h : k.step op = some (k', r)) :
    k.scheduler.step op.toScheduler = some (k'.scheduler, r) := by
  cases op with
  | addTask name func priority periodUs wcetUs =>
    obtain rfl : k' = _ := congrArg Prod.fst (Option.some.inj h).symm
    obtain rfl : r = _ := congrArg Prod.snd (Option.some.inj h).symm
    rfl
  | tick d =>
    obtain ⟨_, _, _, -, -, hs, _, -, rfl⟩ := tick_eq_some.mp h
    exact hs

theorem run_toScheduler {k k' : Kernel} {ops : List Op} {rs : List (Option Nat)} (h : k.run ops = some (k', rs)) :
    k.scheduler.run (ops.map Op.toScheduler) = some (k'.scheduler, rs) := by
  induction ops generalizing k rs with
  | nil =>
    cases h
    rfl
  | cons op ops ih =>
    obtain ⟨k₁, r, rs', h₁, h₂, rfl⟩ := run_eq_some.mp h
    exact Scheduler.run_eq_some.mpr ⟨k₁.scheduler, r, rs', step_scheduler h₁, ih h₂, rfl⟩

/-! ### The scratch buffer -/

/-- One call: a tick runs the dispatched task's function on the scratch buffer,
a registered slot's, and `add_task` leaves the buffer alone. -/
theorem step_scratch {k k' : Kernel} {op : Op} {r : Option Nat} (h : k.step op = some (k', r)) :
    some k'.scratch = ((Scheduler.tickResults [op.toScheduler] [r]).filterMap id).foldl
        (fun scratch i => scratch.bind (k'.scheduler.slot i).call) (some k.scratch) ∧
      ∀ i ∈ (Scheduler.tickResults [op.toScheduler] [r]).filterMap id, i < k.scheduler.taskCount := by
  cases op with
  | addTask name func priority periodUs wcetUs =>
    obtain rfl : k' = _ := congrArg Prod.fst (Option.some.inj h).symm
    exact ⟨rfl, fun _ hi => absurd hi (List.not_mem_nil _)⟩
  | tick d =>
    obtain ⟨_, _, sch, -, -, hs, scratch, hsc, rfl⟩ := tick_eq_some.mp h
    cases r with
    | none =>
      cases hsc
      exact ⟨rfl, fun _ hi => absurd hi (List.not_mem_nil _)⟩
    | some i =>
      rw [runExecuted_of_tick hs] at hsc
      refine ⟨by simpa [Scheduler.tickResults, Op.toScheduler] using hsc.symm, ?_⟩
      intro j hj
      simp only [Op.toScheduler, Scheduler.tickResults, List.filterMap_cons, id, List.filterMap_nil,
        List.mem_singleton] at hj
      exact hj ▸ Scheduler.tick_lt_taskCount hs

/-- **The scratch buffer.** Over any run of the kernel, the scratch buffer ends as
the functions of the tasks the ticks dispatched, applied to it one after the
other in dispatch order; `add_task` leaves it alone. -/
theorem run_scratch {k k' : Kernel} {ops : List Op} {rs : List (Option Nat)} (h : k.run ops = some (k', rs)) :
    some k'.scratch = ((Scheduler.tickResults (ops.map Op.toScheduler) rs).filterMap id).foldl
      (fun scratch i => scratch.bind (k'.scheduler.slot i).call) (some k.scratch) := by
  induction ops generalizing k rs with
  | nil =>
    cases h
    rfl
  | cons op ops ih =>
    obtain ⟨k₁, r, rs', h₁, h₂, rfl⟩ := run_eq_some.mp h
    obtain ⟨hsc₁, hidx⟩ := step_scratch h₁
    obtain ⟨-, hkeep⟩ := Scheduler.run_statics (run_toScheduler h₂)
    have hcount := (Scheduler.step_statics (step_scheduler h₁)).1
    rw [List.map_cons, Scheduler.tickResults_cons, List.filterMap_append, List.foldl_append, ih h₂, hsc₁]
    congr 1
    refine List.foldl_ext _ _ _ fun scratch i hi => ?_
    have hin := Nat.lt_of_lt_of_le (hidx i hi) hcount
    have him : i < maxTasks := Nat.lt_of_lt_of_le hin k₁.scheduler.taskCount_le
    simp only [Scheduler.slot_of_lt _ him, Task.call, (hkeep ⟨i, him⟩ hin).1]

theorem run_scratch_testing :
    let ops := [Op.addTask [116] (fun scratch => some (scratch.map (· + 1))) TaskPriority.normal 100 10, .tick 0]
    ∃ k rs, testing.run ops = some (k, rs) ∧
      some k.scratch = ((Scheduler.tickResults (ops.map Op.toScheduler) rs).filterMap id).foldl
        (fun scratch i => scratch.bind (k.scheduler.slot i).call) (some testing.scratch) := by
  intro ops
  obtain ⟨k, rs, h⟩ : ∃ k rs, testing.run ops = some (k, rs) := ⟨_, _, rfl⟩
  exact ⟨k, rs, h, run_scratch h⟩

/-! ### The counters -/

/-- The scheduler of a reachable kernel is reached registering tasks built by `Task::new`. -/
theorem Reachable.scheduler {k : Kernel} (h : k.Reachable) : Scheduler.ReachableWith Task.IsNew k.scheduler := by
  induction h with
  | new _ | testing => exact .new
  | addTask _ _ _ _ _ _ ih => exact ih.register ⟨_, _, _, _, _, rfl⟩
  | tick _ ht ih =>
    obtain ⟨_, _, _, -, -, hs, _, -, rfl⟩ := tick_eq_some.mp ht
    exact ih.tick hs

/-- The kernel registers only tasks built by `Task::new`. -/
theorem registered_map_toScheduler (ops : List Op) :
    ∀ t ∈ Scheduler.registered (ops.map Op.toScheduler), t.IsNew := by
  induction ops with
  | nil => exact fun _ h => absurd h (List.not_mem_nil _)
  | cons op ops ih =>
    cases op with
    | addTask name func priority periodUs wcetUs =>
      intro t ht
      rcases List.mem_cons.mp ht with rfl | ht
      · exact ⟨_, _, _, _, _, rfl⟩
      · exact ih t ht
    | tick d => exact ih

/-- One call adds one to `total_ticks` exactly when it is a tick. -/
theorem step_totalTicks {k k' : Kernel} {op : Op} {r : Option Nat} (h : k.step op = some (k', r)) :
    k'.totalTicks.toNat = k.totalTicks.toNat + (Scheduler.tickResults [op.toScheduler] [r]).length := by
  cases op with
  | addTask name func priority periodUs wcetUs =>
    obtain rfl : k' = _ := congrArg Prod.fst (Option.some.inj h).symm
    rfl
  | tick d =>
    obtain ⟨_, _, _, -, htt, -, _, -, rfl⟩ := tick_eq_some.mp h
    exact (checkedAdd_eq_some.mp htt).2

theorem run_totalTicks {k k' : Kernel} {ops : List Op} {rs : List (Option Nat)} (h : k.run ops = some (k', rs)) :
    k'.totalTicks.toNat =
      k.totalTicks.toNat + (Scheduler.tickResults (ops.map Op.toScheduler) rs).length := by
  induction ops generalizing k rs with
  | nil =>
    cases h
    rfl
  | cons op ops ih =>
    obtain ⟨k₁, r, rs', h₁, h₂, rfl⟩ := run_eq_some.mp h
    rw [List.map_cons, Scheduler.tickResults_cons, List.length_append, ih h₂, step_totalTicks h₁]
    omega

/-- **The kernel's counters are exact.** Over any run of a reachable kernel,
`total_ticks` grows by the number of ticks; each slot's `exec_count` by the
ticks that returned its index, and its `deadline_misses` by at most as many;
and `context_switches` by the tick results that dispatched a task other than
the result before. -/
theorem run_counters {k k' : Kernel} {ops : List Op} {rs : List (Option Nat)} (hk : k.Reachable)
    (h : k.run ops = some (k', rs)) :
    k'.totalTicks.toNat = k.totalTicks.toNat + (Scheduler.tickResults (ops.map Op.toScheduler) rs).length ∧
      (∀ j : Fin maxTasks,
        (k'.scheduler.tasks j).execCount.toNat = (k.scheduler.tasks j).execCount.toNat +
          (Scheduler.tickResults (ops.map Op.toScheduler) rs).count (some j.val) ∧
        (k'.scheduler.tasks j).deadlineMisses.toNat ≤ (k.scheduler.tasks j).deadlineMisses.toNat +
          (Scheduler.tickResults (ops.map Op.toScheduler) rs).count (some j.val)) ∧
      k'.scheduler.contextSwitches.toNat = k.scheduler.contextSwitches.toNat +
        Scheduler.switches k.scheduler.currentTask (Scheduler.tickResults (ops.map Op.toScheduler) rs) :=
  have hs := run_toScheduler h
  ⟨run_totalTicks h, Scheduler.run_counts hk.scheduler.tableInv (registered_map_toScheduler ops) hs,
    (Scheduler.run_switches hs).2⟩

theorem run_counters_testing :
    let ops := [Op.addTask [116] (fun scratch => some scratch) TaskPriority.normal 100 10, .tick 0, .tick 50]
    ∃ k rs, testing.run ops = some (k, rs) ∧
      k.totalTicks.toNat = testing.totalTicks.toNat + (Scheduler.tickResults (ops.map Op.toScheduler) rs).length ∧
      (∀ j : Fin maxTasks,
        (k.scheduler.tasks j).execCount.toNat = (testing.scheduler.tasks j).execCount.toNat +
          (Scheduler.tickResults (ops.map Op.toScheduler) rs).count (some j.val) ∧
        (k.scheduler.tasks j).deadlineMisses.toNat ≤ (testing.scheduler.tasks j).deadlineMisses.toNat +
          (Scheduler.tickResults (ops.map Op.toScheduler) rs).count (some j.val)) ∧
      k.scheduler.contextSwitches.toNat = testing.scheduler.contextSwitches.toNat +
        Scheduler.switches testing.scheduler.currentTask (Scheduler.tickResults (ops.map Op.toScheduler) rs) := by
  intro ops
  obtain ⟨k, rs, h⟩ : ∃ k rs, testing.run ops = some (k, rs) := ⟨_, _, rfl⟩
  exact ⟨k, rs, h, run_counters .testing h⟩

/-! ### Where a tick can panic -/

/-- A timer that has never wrapped advances without a panic. -/
theorem advance_of_overflows_zero {t : SysTimer} (h : t.overflows = 0) (d : UInt64) :
    ∃ t', t.advance d = some t' := by
  by_cases hw : 2 ^ 64 ≤ t.ticksUs.toNat + d.toNat
  · rw [SysTimer.advance_of_le hw, h, checkedAdd_of_lt 0 1 (by decide)]
    exact ⟨_, rfl⟩
  · exact ⟨_, SysTimer.advance_of_lt (Nat.lt_of_not_le hw)⟩

/-- **Where a kernel tick panics.** In every kernel `add_task` and `tick` reach
from `Kernel::new(c)` or `Kernel::testing()`, the timer has never wrapped and
reads the scheduler's clock, and a tick panics exactly when the tick count, the
scheduler's tick or the function of the task it dispatched does: the timer never
panics, and neither does the lookup of the dispatched slot. -/
theorem reachable_tick_panics {k : Kernel} (h : k.Reachable) (d : UInt64) :
    k.timer.overflows = 0 ∧ k.timer.nowUs = k.scheduler.nowUs ∧
      (k.tick d = none ↔ 2 ^ 64 ≤ k.totalTicks.toNat + 1 ∨ k.scheduler.tick d = none ∨
        ∃ sch i, k.scheduler.tick d = some (sch, some i) ∧ (sch.slot i).call k.scratch = none) := by
  obtain ⟨hclock, hover⟩ := h.clocks
  refine ⟨hover, hclock.symm, ⟨fun hn => ?_, fun hc => ?_⟩⟩
  · by_contra hc
    push_neg at hc
    obtain ⟨htt, hs, hcall⟩ := hc
    obtain ⟨⟨sch, r⟩, hsch⟩ := Option.ne_none_iff_exists'.mp hs
    obtain ⟨timer, htimer⟩ := advance_of_overflows_zero hover d
    obtain ⟨scratch, hsc⟩ : ∃ scratch, runExecuted sch r k.scratch = some scratch := by
      cases r with
      | none => exact ⟨_, rfl⟩
      | some i => exact Option.ne_none_iff_exists'.mp ((runExecuted_of_tick hsch _).trans_ne (hcall sch i hsch))
    have hk := tick_eq_some.mpr ⟨timer, _, sch, htimer, checkedAdd_of_lt _ _ (by simpa using htt), hsch,
      scratch, hsc, rfl⟩
    rw [hn] at hk
    cases hk
  · cases ht : k.tick d with
    | none => rfl
    | some x =>
      obtain ⟨k', r⟩ := x
      obtain ⟨_, _, sch, -, htt, hs, scratch, hsc, -⟩ := tick_eq_some.mp ht
      rcases hc with hc | hc | ⟨sch', i, hs', hcall⟩
      · rw [checkedAdd_eq_none.mpr (by simpa using hc)] at htt
        cases htt
      · rw [hc] at hs
        cases hs
      · obtain ⟨rfl, rfl⟩ := Prod.mk.inj (Option.some.inj (hs'.symm.trans hs))
        rw [runExecuted_of_tick hs, hcall] at hsc
        cases hsc

/-- A task whose function panics, registered on the test kernel: its first tick
panics in the task. -/
theorem reachable_tick_panics_task :
    let k := (testing.addTask [112] (fun _ => none) TaskPriority.normal 100 10).1
    k.Reachable ∧ k.tick 0 = none ∧ k.timer.overflows = 0 ∧ k.timer.nowUs = k.scheduler.nowUs ∧
      (k.tick 0 = none ↔ 2 ^ 64 ≤ k.totalTicks.toNat + 1 ∨ k.scheduler.tick 0 = none ∨
        ∃ sch i, k.scheduler.tick 0 = some (sch, some i) ∧ (sch.slot i).call k.scratch = none) :=
  have hk := Reachable.addTask [112] (fun _ => none) TaskPriority.normal 100 10 .testing
  ⟨hk, Option.isNone_iff_eq_none.mp (by decide), reachable_tick_panics hk 0⟩

end Kernel

end AliceRtos
