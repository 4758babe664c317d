import AliceRtos.Scheduler.Run

/-! Tasks of period zero.

`Task::new` takes any `u32` period, and neither `register` nor `tick` looks at
it before use. A task of period 0 is never moved into the future: its activation
is the clock at its registration or last resume, and each dispatch adds 0 to it.
So in every reachable state it is due (`ReachableWith.zeroPeriodDue`), and a tick
finds it ready unless it is suspended. When it wins the selection against every
other registered slot (`Dominates`) it is dispatched, and wins again at the next
tick (`Dominates.tick`): every tick of every run of ticks dispatches it, and the
tasks it wins against never run (`zero_period_task_dispatched_every_tick`). -/
namespace AliceRtos.Scheduler

/-! ### Always due -/

/-- Every registered task of period 0 is due. -/
def ZeroPeriodDue (s : Scheduler) : Prop :=
  ∀ j : Fin maxTasks, j.val < s.taskCount → (s.tasks j).periodUs = 0 →
    (s.tasks j).nextActivation.toNat ≤ s.tickUs.toNat

section
variable {s : Scheduler}

/-- A slot whose activation and period are kept, under a clock that does not go back. -/
theorem ZeroPeriodDue.kept {s' : Scheduler} (h : ZeroPeriodDue s) {j : Fin maxTasks}
    (hj : j.val < s.taskCount) (hclock : s.tickUs.toNat ≤ s'.tickUs.toNat)
    (hnext : (s'.tasks j).nextActivation = (s.tasks j).nextActivation)
    (hperiod : (s'.tasks j).periodUs = (s.tasks j).periodUs) :
    (s'.tasks j).periodUs = 0 → (s'.tasks j).nextActivation.toNat ≤ s'.tickUs.toNat := by
  rw [hnext, hperiod]
  exact fun hp => Nat.le_trans (h j hj hp) hclock

theorem ZeroPeriodDue.register (h : ZeroPeriodDue s) (task : Task) : ZeroPeriodDue (s.register task).1 := by
  intro j hj
  rw [register_tasks, register_tickUs]
  split
  · exact fun _ => Nat.le_refl _
  · rw [register_taskCount] at hj
    exact h j (by split at hj <;> omega)

theorem ZeroPeriodDue.tick {s' : Scheduler} {d : UInt64} {r : Option Nat} (h : ZeroPeriodDue s)
    (ht : s.tick d = some (s', r)) : ZeroPeriodDue s' := by
  intro j hj
  rw [tick_taskCount ht] at hj
  have hclock := tick_clock ht
  by_cases hr : r = some j.val
  · subst hr
    obtain ⟨_, next, _, he, -, hnext, -⟩ := tick_dispatched_slot ht
    rw [he]
    intro hp
    have hp' : (s.tasks j).periodUs = 0 := hp
    have hdue := h j hj hp'
    rw [hp', show (0 : UInt32).toNat = 0 from rfl] at hnext
    show next.toNat ≤ s'.tickUs.toNat
    omega
  · have hslot := tick_other_slot ht j hr
    exact h.kept hj (by omega) (by rw [hslot]; split <;> rfl) (by rw [hslot]; split <;> rfl)

theorem ZeroPeriodDue.suspend (h : ZeroPeriodDue s) (idx : Nat) : ZeroPeriodDue (s.suspend idx) := by
  intro j hj
  rw [suspend_taskCount] at hj
  exact h.kept hj (by simp) (by rw [suspend_tasks]; split <;> rfl) (by rw [suspend_tasks]; split <;> rfl)

theorem ZeroPeriodDue.resume (h : ZeroPeriodDue s) (idx : Nat) : ZeroPeriodDue (s.resume idx) := by
  intro j hj
  rw [resume_taskCount] at hj
  rw [resume_tasks, resume_tickUs]
  split
  · exact fun _ => Nat.le_refl _
  · exact h j hj

end

theorem ReachableWith.zeroPeriodDue {P : Task → Prop} {s : Scheduler} (h : ReachableWith P s) :
    ZeroPeriodDue s := by
  induction h with
  | new => exact fun _ hj => absurd hj (Nat.not_lt_zero _)
  | register _ _ ih => exact ih.register _
  | tick _ ht ih => exact ih.tick ht
  | suspend idx _ ih => exact ih.suspend idx
  | resume idx _ ih => exact ih.resume idx

/-! ### Dispatched at every tick -/

/-- Slot `i` holds a registered task of period 0, not suspended, that wins the
selection against every other registered slot. -/
structure Dominates (s : Scheduler) (i : Fin maxTasks) extends Wins s i : Prop where
  registered : i.val < s.taskCount
  period : (s.tasks i).periodUs = 0
  active : (s.tasks i).state = .ready ∨ (s.tasks i).state = .sleeping

section
variable {s : Scheduler} {i : Fin maxTasks}

/-- Once the clock has not gone back, the woken table has the task ready. -/
theorem Dominates.woken_ready (h : Dominates s i) (hdue : ZeroPeriodDue s) (now : UInt64)
    (hnow : s.tickUs.toNat ≤ now.toNat) : (s.woken now).ReadyAt i.val := by
  refine ⟨h.registered, ?_⟩
  rw [slot_eq, woken_tasks]
  rcases h.active with hr | hs
  · rw [if_neg (fun c => absurd (hr.symm.trans c.2.1) (by decide))]
    exact hr
  · rw [if_pos ⟨h.registered, hs, le_iff_toNat64.mpr (Nat.le_trans (hdue i h.registered h.period) hnow)⟩]

/-- The selection of the woken table picks the task. -/
theorem Dominates.find (h : Dominates s i) (hdue : ZeroPeriodDue s) (now : UInt64)
    (hnow : s.tickUs.toNat ≤ now.toNat) : (s.woken now).findHighestPriorityReady = some i.val :=
  (h.toWins.woken now).find (h.woken_ready hdue now hnow)

/-- **One tick.** A tick dispatches the task, and it dominates again after. -/
theorem Dominates.tick {s' : Scheduler} {d : UInt64} {r : Option Nat} (h : Dominates s i)
    (hdue : ZeroPeriodDue s) (ht : s.tick d = some (s', r)) : r = some i.val ∧ Dominates s' i := by
  have hd := (tick_eq_some.mp ht).1
  obtain rfl := h.tick_dispatches_ready (h.woken_ready hdue _ (by rw [toNat_add_of_lt _ _ hd]; omega)) ht
  obtain ⟨_, _, _, he, -⟩ := tick_dispatched_slot ht
  exact ⟨rfl, h.toWins.tick ht, (tick_taskCount ht).symm ▸ h.registered,
    (tick_priority_period ht i).2.trans h.period, .inr (by rw [he])⟩

/-- The next tick returns when nothing it counts overflows. -/
theorem Dominates.tick_returns (h : Dominates s i) (hdue : ZeroPeriodDue s) {d : UInt64}
    (hd : s.tickUs.toNat + d.toNat < 2 ^ 64) (hexec : (s.tasks i).execCount.toNat + 1 < 2 ^ 32)
    (hmiss : (s.tasks i).deadlineMisses.toNat + 1 < 2 ^ 32)
    (hcs : s.contextSwitches.toNat + 1 < 2 ^ 32) : ∃ s', s.tick d = some (s', some i.val) := by
  have hf := h.find hdue (s.tickUs + d) (by rw [toNat_add_of_lt _ _ hd]; omega)
  have hfits : ((s.woken (s.tickUs + d)).tasks i).DispatchFits (s.woken (s.tickUs + d)).tickUs := by
    rw [woken_tasks_eq, Task.dispatchFits_with_state]
    refine ⟨?_, hexec, fun _ => hmiss⟩
    rw [h.period, show (0 : UInt32).toNat = 0 from rfl, Nat.add_zero]
    exact (s.tasks i).nextActivation.toNat_lt
  exact ⟨_, tick_eq_some.mpr ⟨hd, dispatch_eq_some.mpr (.inr ⟨i.val, i.isLt, hf, rfl, fun _ => hcs, hfits, rfl⟩)⟩⟩

/-- Every tick of a run of ticks dispatches the task. -/
theorem Dominates.run_ticks (h : Dominates s i) (hdue : ZeroPeriodDue s) {ds : List UInt64}
    {s' : Scheduler} {rs : List (Option Nat)} (hrun : run s (ds.map Op.tick) = some (s', rs)) :
    rs = ds.map fun _ => some i.val := by
  induction ds generalizing s rs with
  | nil =>
    cases hrun
    rfl
  | cons d ds ih =>
    obtain ⟨s₁, r, rs', h₁, h₂, rfl⟩ := run_eq_some.mp hrun
    obtain ⟨rfl, h₁'⟩ := h.tick hdue h₁
    rw [ih h₁' (hdue.tick h₁) h₂]
    rfl

end

/-- **A task of period 0 is dispatched at every tick.** In a reachable state,
let slot `i` hold a registered task of period 0 that is not suspended, below
`IDLE`, and that wins the selection against every other registered slot. The
next tick dispatches it whenever nothing overflows, and every tick of any run of
ticks from there returns `Some(i)`: the task is never inert, and the tasks it
wins against never run. -/
theorem zero_period_task_dispatched_every_tick {s : Scheduler} (hs : Reachable s) {i : Fin maxTasks}
    (h : Dominates s i) :
    (∀ d : UInt64, s.tickUs.toNat + d.toNat < 2 ^ 64 → (s.tasks i).execCount.toNat + 1 < 2 ^ 32 →
      (s.tasks i).deadlineMisses.toNat + 1 < 2 ^ 32 → s.contextSwitches.toNat + 1 < 2 ^ 32 →
      ∃ s', s.tick d = some (s', some i.val)) ∧
    ∀ (ds : List UInt64) s' rs, run s (ds.map Op.tick) = some (s', rs) → rs = ds.map fun _ => some i.val :=
  ⟨fun _ hd hexec hmiss hcs => h.tick_returns hs.zeroPeriodDue hd hexec hmiss hcs,
    fun _ _ _ hrun => h.run_ticks hs.zeroPeriodDue hrun⟩

/-- The failing input: a period-0 task at `HIGH` and a task of period 100 at
`NORMAL`. The first tick dispatches slot 0, and so does every tick of every run
of ticks. -/
theorem zero_period_task_dispatched_every_tick_high :
    let s := ((Scheduler.new.register (Task.new [122] (fun scratch => some scratch) TaskPriority.high 0 0)).1.register
      (Task.new [108] (fun scratch => some scratch) TaskPriority.normal 100 10)).1
    Reachable s ∧ Dominates s ⟨0, maxTasks_pos⟩ ∧ (∃ s', s.tick 0 = some (s', some 0)) ∧
      ∀ (ds : List UInt64) s' rs, run s (ds.map Op.tick) = some (s', rs) → rs = ds.map fun _ => some 0 := by
  intro s
  have hs : Reachable s := (ReachableWith.new.register trivial).register trivial
  have hd : Dominates s ⟨0, maxTasks_pos⟩ := ⟨⟨by decide, by decide⟩, by decide, rfl, .inl rfl⟩
  have h := zero_period_task_dispatched_every_tick hs hd
  exact ⟨hs, hd, h.1 0 (by decide) (by decide) (by decide) (by decide), h.2⟩

end AliceRtos.Scheduler
