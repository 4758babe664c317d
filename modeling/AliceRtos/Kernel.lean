import AliceRtos.Scheduler.Tick
import AliceRtos.Timer

/-! The kernel (`kernel.rs`): a scheduler, a timer and a scratch buffer.

`Kernel::tick` advances the timer, counts the tick, ticks the scheduler and runs
the task it dispatched on the scratch buffer. The timer's counter wraps, but the
scheduler's clock is a checked `+=`: the two agree while the total time fits in
`u64` (`Reachable.clocks`), and the tick that crosses `2⁶⁴` panics in the
scheduler (`tick_eq_none_of_wrap`) where the timer would wrap.

`run_for` loops while the elapsed time is below the budget; it is modelled with
a fuel argument, `none` meaning that the loop was still running when the fuel
ran out, or that a call panicked. With `tick_us = 0` the elapsed time never
grows, and no fuel is enough (`runFor_zero_tick`). The utilisation and the
schedulability test are floats and are not modelled. -/
namespace AliceRtos

/-- Scratch buffer for task execution. -/
def scratchSize : Nat := 1024

structure Kernel where
  scheduler : Scheduler
  timer : SysTimer
  scratch : List UInt8
  running : Bool
  totalTicks : UInt64

/-- Kernel execution statistics, but for the two float-based fields. -/
structure KernelStats where
  totalUs : UInt64
  totalTicks : UInt64
  tasksExecuted : UInt64
  contextSwitches : UInt64

namespace Kernel

/-- A kernel on a hardware clock. -/
def new (clockHz : UInt32) : Kernel :=
  ⟨Scheduler.new, SysTimer.new clockHz, List.replicate scratchSize 0, false, 0⟩

/-- The kernel the tests use, on the software timer. -/
def testing : Kernel :=
  ⟨Scheduler.new, SysTimer.software, List.replicate scratchSize 0, false, 0⟩

def addTask (k : Kernel) (name : List UInt8) (func : TaskFn) (priority : TaskPriority)
    (periodUs wcetUs : UInt32) : Kernel × Option Nat :=
  let r := k.scheduler.register (Task.new name func priority periodUs wcetUs)
  ({ k with scheduler := r.1 }, r.2)

/-- The scratch buffer after the task a tick dispatched, if any, has run on it. -/
def runExecuted (scheduler : Scheduler) (executed : Option Nat) (scratch : List UInt8) :
    Option (List UInt8) :=
  match executed with
  | some idx => scheduler.executeTask idx scratch
  | none => some scratch

/-- One tick: time moves on by `deltaUs` and the dispatched task, if any, runs. -/
def tick (k : Kernel) (deltaUs : UInt64) : Option (Kernel × Option Nat) := do
  let timer ← k.timer.advance deltaUs
  let totalTicks ← checkedAdd k.totalTicks 1
  let (scheduler, executed) ← k.scheduler.tick deltaUs
  let scratch ← runExecuted scheduler executed k.scratch
  pure ({ k with timer, totalTicks, scheduler, scratch }, executed)

/-- The loop of `run_for` from `elapsed` and `tasksExecuted` on, for at most `fuel`
rounds: the kernel, the elapsed time and the tasks executed when it stops. -/
def runLoop (totalUs tickUs : UInt64) : Nat → Kernel → UInt64 → UInt64 → Option (Kernel × UInt64 × UInt64)
  | 0, _, _, _ => none
  | fuel + 1, k, elapsed, tasksExecuted =>
    if elapsed < totalUs ∧ k.running = true then do
      let (k, executed) ← k.tick tickUs
      let tasksExecuted ← (if executed.isSome then checkedAdd tasksExecuted 1 else pure tasksExecuted)
      let elapsed ← checkedAdd elapsed tickUs
      runLoop totalUs tickUs fuel k elapsed tasksExecuted
    else some (k, elapsed, tasksExecuted)

def runFor (k : Kernel) (totalUs tickUs : UInt64) (fuel : Nat) : Option (Kernel × KernelStats) := do
  let (k, elapsed, tasksExecuted) ← runLoop totalUs tickUs fuel { k with running := true } 0 0
  let k := { k with running := false }
  pure (k, ⟨elapsed, k.totalTicks, tasksExecuted, k.scheduler.contextSwitches.toUInt64⟩)

/-- `n` kernel ticks of `deltaUs` in a row, with what each returned. -/
def ticks (k : Kernel) (deltaUs : UInt64) : Nat → Option (Kernel × List (Option Nat))
  | 0 => some (k, [])
  | n + 1 => do
    let (k, r) ← k.tick deltaUs
    let (k, rs) ← ticks k deltaUs n
    pure (k, r :: rs)

def stop (k : Kernel) : Kernel := { k with running := false }

def isRunning (k : Kernel) : Bool := k.running

/-! ### One tick -/

/-- **One kernel tick, said once.** -/
theorem tick_eq_some {k k' : Kernel} {d : UInt64} {r : Option Nat} :
    k.tick d = some (k', r) ↔ ∃ timer totalTicks scheduler,
      k.timer.advance d = some timer ∧ checkedAdd k.totalTicks 1 = some totalTicks ∧
      k.scheduler.tick d = some (scheduler, r) ∧
      ∃ scratch, runExecuted scheduler r k.scratch = some scratch ∧
        k' = { k with timer, totalTicks, scheduler, scratch } := by
  unfold tick
  simp only [bind, Option.bind_eq_some, pure, Option.some.injEq, Prod.mk.injEq]
  constructor
  · rintro ⟨timer, ht, tt, htt, ⟨sch, ex⟩, hs, scratch, hsc, rfl, rfl⟩
    exact ⟨timer, tt, sch, ht, htt, hs, scratch, hsc, rfl⟩
  · rintro ⟨timer, tt, sch, ht, htt, hs, scratch, hsc, rfl⟩
    exact ⟨timer, ht, tt, htt, (sch, r), hs, scratch, hsc, rfl, rfl⟩

theorem tick_running {k k' : Kernel} {d : UInt64} {r : Option Nat} (h : k.tick d = some (k', r)) :
    k'.running = k.running := by
  obtain ⟨_, _, _, -, -, -, _, -, rfl⟩ := tick_eq_some.mp h
  rfl

/-- The tick whose total time leaves `u64` panics, in the scheduler's `+=`. -/
theorem tick_eq_none_of_wrap {k : Kernel} {d : UInt64} (h : 2 ^ 64 ≤ k.scheduler.tickUs.toNat + d.toNat) :
    k.tick d = none := by
  cases ht : k.tick d with
  | none => rfl
  | some x =>
    obtain ⟨_, _, _, -, -, hs, -⟩ := tick_eq_some.mp ht
    exact absurd (Scheduler.tick_eq_some.mp hs).1 (Nat.not_lt_of_le h)

/-! ### The two clocks -/

/-- The kernels `add_task` and `tick` reach from `Kernel::new(c)` or `Kernel::testing()`. -/
inductive Reachable : Kernel → Prop
  | new (clockHz : UInt32) : Reachable (Kernel.new clockHz)
  | testing : Reachable testing
  | addTask {k : Kernel} (name : List UInt8) (func : TaskFn) (priority : TaskPriority) (periodUs wcetUs : UInt32) :
      Reachable k → Reachable (k.addTask name func priority periodUs wcetUs).1
  | tick {k k' : Kernel} {d : UInt64} {r : Option Nat} : Reachable k → k.tick d = some (k', r) → Reachable k'

/-- A tick keeps the scheduler's clock on the timer's, and the timer does not wrap. -/
theorem tick_clocks {k k' : Kernel} {d : UInt64} {r : Option Nat} (h : k.tick d = some (k', r))
    (hc : k.scheduler.tickUs = k.timer.ticksUs) (ho : k.timer.overflows = 0) :
    k'.scheduler.tickUs = k'.timer.ticksUs ∧ k'.timer.overflows = 0 := by
  obtain ⟨timer, _, sch, ht, -, hs, _, -, rfl⟩ := tick_eq_some.mp h
  have hfit := (Scheduler.tick_eq_some.mp hs).1
  rw [hc] at hfit
  rw [SysTimer.advance_of_lt hfit, Option.some.injEq] at ht
  subst ht
  refine ⟨UInt64.ext ?_, ho⟩
  rw [Scheduler.tick_clock hs, hc, toNat_add_of_lt _ _ hfit]

/-- In every reachable kernel the scheduler's clock is the timer's, which has
never wrapped: a tick that would wrap it panics first (`tick_eq_none_of_wrap`). -/
theorem Reachable.clocks {k : Kernel} (h : k.Reachable) :
    k.scheduler.tickUs = k.timer.ticksUs ∧ k.timer.overflows = 0 := by
  induction h with
  | new => exact ⟨rfl, rfl⟩
  | testing => exact ⟨rfl, rfl⟩
  | addTask _ _ _ _ _ _ ih => exact ⟨(Scheduler.register_tickUs _ _).trans ih.1, ih.2⟩
  | tick _ ht ih => exact tick_clocks ht ih.1 ih.2

/-- **The clocks part at `2⁶⁴`.** On `Kernel::testing()`, `tick(u64::MAX)` returns
and `tick(1)` then panics, where the timer alone wraps to `0`. -/
theorem tick_past_u64_panics :
    ∃ k, testing.tick 0xFFFFFFFFFFFFFFFF = some (k, none) ∧ k.tick 1 = none ∧
      (k.timer.advance 1).map SysTimer.nowUs = some 0 :=
  ⟨_, rfl, tick_eq_none_of_wrap (by decide), rfl⟩

/-! ### `run_for` -/

/-- One round of the loop while time is left: a tick, the count of executed
tasks, the elapsed time. -/
theorem runLoop_succ {T t : UInt64} {fuel : Nat} {k : Kernel} {e te : UInt64} (he : e < T)
    (hk : k.running = true) :
    runLoop T t (fuel + 1) k e te = (k.tick t).bind fun x =>
      (if x.2.isSome then checkedAdd te 1 else some te).bind fun te' =>
        (checkedAdd e t).bind fun e' => runLoop T t fuel x.1 e' te' := by
  rw [runLoop, if_pos ⟨he, hk⟩]
  rfl

theorem ticks_succ (k : Kernel) (t : UInt64) (n : Nat) :
    k.ticks t (n + 1) = (k.tick t).bind fun x =>
      (x.1.ticks t n).bind fun y => some (y.1, x.2 :: y.2) := rfl

/-- With `tick_us = 0` the loop never leaves: the elapsed time stays `0`. -/
theorem runLoop_zero_tick {totalUs : UInt64} (htotal : 0 < totalUs) :
    ∀ fuel (k : Kernel) (tasksExecuted : UInt64), k.running = true →
      runLoop totalUs 0 fuel k 0 tasksExecuted = none
  | 0, _, _, _ => rfl
  | fuel + 1, k, te, hk => by
    rw [runLoop_succ htotal hk]
    cases ht : k.tick 0 with
    | none => rfl
    | some x =>
      obtain ⟨k', r⟩ := x
      have ih := fun te' => runLoop_zero_tick htotal fuel k' te' (by rw [tick_running ht]; exact hk)
      simp [checkedAdd_of_lt _ _ (show (0 : UInt64).toNat + (0 : UInt64).toNat < 2 ^ 64 by decide),
        show (0 : UInt64) + 0 = 0 from rfl, ih]

/-- **`run_for` with `tick_us = 0`.** From any kernel and any budget above zero,
`run_for(total_us, 0)` does not return, whatever the fuel. -/
theorem runFor_zero_tick (k : Kernel) {totalUs : UInt64} (htotal : 0 < totalUs) (fuel : Nat) :
    k.runFor totalUs 0 fuel = none := by
  unfold runFor
  rw [runLoop_zero_tick htotal fuel _ 0 rfl]
  rfl

theorem runFor_zero_tick_testing : (0 : UInt64) < 1 ∧ ∀ fuel, testing.runFor 1 0 fuel = none :=
  ⟨by decide, runFor_zero_tick testing (by decide)⟩

/-- **The loop is `j` ticks.** When `j` rounds bring the elapsed time to the
budget and not fewer, and nothing overflows, the loop makes exactly the `j`
ticks: it returns their kernel with the elapsed time `j · tick_us` on and the
ticks that ran a task counted, or panics where one of them does. -/
theorem runLoop_ticks {T t : UInt64} (ht : 0 < t.toNat) (hfit : T.toNat + t.toNat ≤ 2 ^ 64) :
    ∀ j fuel (k : Kernel) (e te : UInt64), k.running = true → j < fuel →
      T.toNat ≤ e.toNat + j * t.toNat → (∀ i < j, e.toNat + i * t.toNat < T.toNat) →
      te.toNat + j < 2 ^ 64 →
      (∀ k' rs, k.ticks t j = some (k', rs) → ∃ e' te', runLoop T t fuel k e te = some (k', e', te') ∧
          e'.toNat = e.toNat + j * t.toNat ∧ te'.toNat = te.toNat + rs.countP Option.isSome) ∧
        (k.ticks t j = none → runLoop T t fuel k e te = none)
  | 0, fuel + 1, k, e, te, _, _, hT, _, _ => by
    have hstop : ¬(e < T ∧ k.running = true) := fun c => absurd (lt_iff_toNat64.mp c.1) (by omega)
    refine ⟨fun k' rs h => ?_, fun h => absurd h (Option.some_ne_none _)⟩
    obtain ⟨rfl, rfl⟩ := Prod.mk.inj (Option.some.inj h)
    exact ⟨e, te, by rw [runLoop, if_neg hstop], by simp, by simp⟩
  | j + 1, fuel + 1, k, e, te, hk, hj, hT, hlt, hte => by
    have he : e < T := lt_iff_toNat64.mpr (by simpa using hlt 0 (Nat.succ_pos _))
    have hfe : e.toNat + t.toNat < 2 ^ 64 := by have := lt_iff_toNat64.mp he; omega
    rw [runLoop_succ he hk, ticks_succ]
    cases hx : k.tick t with
    | none => exact ⟨fun _ _ h => absurd h (by simp), fun _ => rfl⟩
    | some x =>
      obtain ⟨k₁, r⟩ := x
      have hk₁ : k₁.running = true := (tick_running hx).trans hk
      obtain ⟨te₁, hte₁, hte₁'⟩ : ∃ te₁, (if r.isSome then checkedAdd te 1 else some te) = some te₁ ∧
          te₁.toNat = te.toNat + (if r.isSome then 1 else 0) := by
        split
        · exact ⟨te + 1, checkedAdd_of_lt te 1 (by simp; omega), by rw [toNat_add_of_lt te 1 (by simp; omega)]; rfl⟩
        · exact ⟨te, rfl, rfl⟩
      have ih := runLoop_ticks ht hfit j fuel k₁ (e + t) te₁ hk₁ (by omega)
        (by rw [toNat_add_of_lt _ _ hfe]; rw [Nat.succ_mul] at hT; omega)
        (fun i hi => by rw [toNat_add_of_lt _ _ hfe]; have := hlt (i + 1) (by omega); rw [Nat.succ_mul] at this; omega)
        (by rw [hte₁']; split <;> omega)
      simp only [Option.some_bind, hte₁, checkedAdd_of_lt _ _ hfe]
      cases hrs : k₁.ticks t j with
      | none => exact ⟨fun _ _ h => absurd h (by simp), fun _ => ih.2 hrs⟩
      | some y =>
        obtain ⟨k', rs⟩ := y
        obtain ⟨e', te', hrun, he', hte'⟩ := ih.1 k' rs hrs
        refine ⟨fun k'' rs' h => ?_, fun h => absurd h (by simp)⟩
        obtain ⟨rfl, rfl⟩ := Prod.mk.inj (Option.some.inj h)
        refine ⟨e', te', hrun, by rw [he', toNat_add_of_lt _ _ hfe, Nat.succ_mul]; omega, ?_⟩
        rw [hte', hte₁', List.countP_cons]
        cases r <;> simp only [Option.isSome_none, Option.isSome_some, if_true, Bool.false_eq_true, if_false] <;> omega

/-- **`run_for` with `tick_us > 0`.** Let `j` be the number of ticks that brings
the elapsed time to the budget: `(j - 1) · tick_us < total_us ≤ j · tick_us`, and
`j = 0` when `total_us = 0`. When the elapsed time cannot overflow, `run_for`
makes exactly those `j` ticks: it returns with `running` false, `total_us` equal
to `j · tick_us`, the kernel's tick count and the number of ticks that ran a
task, or panics where one of the ticks does. -/
theorem runFor_ticks (k : Kernel) {T t : UInt64} (ht : 0 < t.toNat) (hfit : T.toNat + t.toNat ≤ 2 ^ 64)
    {j : Nat} (hT : T.toNat ≤ j * t.toNat) (hlt : ∀ i < j, i * t.toNat < T.toNat) {fuel : Nat}
    (hfuel : j < fuel) :
    (∀ k' rs, ({ k with running := true } : Kernel).ticks t j = some (k', rs) →
      ∃ stats, k.runFor T t fuel = some ({ k' with running := false }, stats) ∧
        stats.totalUs.toNat = j * t.toNat ∧ stats.totalTicks = k'.totalTicks ∧
        stats.tasksExecuted.toNat = rs.countP Option.isSome) ∧
      (({ k with running := true } : Kernel).ticks t j = none → k.runFor T t fuel = none) := by
  have hj : 0 + j < 2 ^ 64 := by
    rcases Nat.eq_zero_or_pos j with rfl | hpos
    · decide
    · have h₁ := hlt (j - 1) (by omega)
      have h₂ := Nat.le_mul_of_pos_right (j - 1) ht
      have := T.toNat_lt
      omega
  have hloop := runLoop_ticks ht hfit j fuel { k with running := true } 0 0 rfl hfuel
    (by simpa using hT) (by simpa using hlt) (by simpa using hj)
  unfold runFor
  refine ⟨fun k' rs h => ?_, fun h => by rw [hloop.2 h]; rfl⟩
  obtain ⟨e', te', hrun, he', hte'⟩ := hloop.1 k' rs h
  rw [hrun]
  exact ⟨_, rfl, by simpa using he', rfl, by simpa using hte'⟩

end Kernel

end AliceRtos
