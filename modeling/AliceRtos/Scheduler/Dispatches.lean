import AliceRtos.Scheduler.Switches

/-! What the ticks of a run dispatch, task by task.

`tick_dispatch_rule` is the dispatcher's rule read on the state before the
tick: the dispatched task is registered and ready, or sleeping and due at the
new clock; no such task has a smaller priority number, and none of the same
number a smaller index; and when nothing is dispatched every such task is at
`IDLE`.

Over runs: each dispatch is one execution, so in every run from
`Scheduler::new()` a task's `exec_count` is the number of ticks that returned
its index, and its deadline misses never exceed it
(`execCount_counts_dispatches`). A suspended task is never dispatched and stays
suspended until a `resume` of its index (`suspended_until_resume`). And no task
built by `Task::new` is ever inactive once registered, so `active_task_count`
is the task count (`activeTaskCount_eq_taskCount`). -/
namespace AliceRtos.Scheduler

/-! ### The dispatch rule -/

/-- Slot `j` can be dispatched by a tick to `now`: registered, and ready, or
sleeping and due. -/
def Candidate (s : Scheduler) (now : UInt64) (j : Nat) : Prop :=
  j < s.taskCount ∧ ((s.slot j).state = .ready ∨ (s.slot j).state = .sleeping ∧ (s.slot j).nextActivation ≤ now)

theorem woken_readyAt_iff (s : Scheduler) (now : UInt64) (j : Nat) :
    (s.woken now).ReadyAt j ↔ s.Candidate now j := by
  unfold ReadyAt Candidate
  rw [woken_taskCount]
  refine and_congr_right fun hj => ?_
  have hjm := Nat.lt_of_lt_of_le hj s.taskCount_le
  rw [slot_of_lt _ hjm, slot_of_lt _ hjm, woken_tasks, if_congr (and_iff_right hj) rfl rfl]
  split
  · rename_i hdue
    exact iff_of_true rfl (.inr hdue)
  · rename_i hdue
    refine ⟨.inl, fun h => h.resolve_right hdue⟩

theorem woken_slot_priority (s : Scheduler) (now : UInt64) (j : Nat) :
    ((s.woken now).slot j).priority = (s.slot j).priority := by
  unfold slot
  split
  · exact woken_priority s now _
  · rfl

/-- **The dispatch rule.** A tick that returns `Some(i)` dispatched a task below
`IDLE` that was registered and ready, or sleeping and due at the new clock, and
no such task has a smaller priority number, nor the same number at a smaller
index. A tick that returns `None` found every such task at `IDLE`. -/
theorem tick_dispatch_rule {s s' : Scheduler} {d : UInt64} {r : Option Nat} (h : s.tick d = some (s', r)) :
    (∀ i, r = some i → s.Candidate (s.tickUs + d) i ∧ (s.slot i).priority < TaskPriority.idle ∧
      ∀ j, s.Candidate (s.tickUs + d) j →
        (s.slot i).priority < (s.slot j).priority ∨ (s.slot i).priority = (s.slot j).priority ∧ i ≤ j) ∧
    (r = none → ∀ j, s.Candidate (s.tickUs + d) j → (s.slot j).priority = TaskPriority.idle) := by
  refine ⟨fun i hi => ?_, fun hr j hj => ?_⟩
  · subst hi
    obtain ⟨hready, hidle, hle, hbefore⟩ := tick_dispatches_best h
    simp only [woken_slot_priority, woken_readyAt_iff] at hready hidle hle hbefore
    refine ⟨hready, hidle, fun j hj => ?_⟩
    rcases Nat.lt_or_ge (s.slot i).priority.val.toNat (s.slot j).priority.val.toNat with hlt | hge
    · exact .inl hlt
    · have he := TaskPriority.le_antisymm (hle j hj) hge
      exact .inr ⟨he, hbefore j hj he.symm⟩
  · subst hr
    have hnone := (tick_eq_none_iff (tick_eq_some.mp h).1).mp ⟨s', h⟩ j ((woken_readyAt_iff _ _ _).mpr hj)
    rwa [woken_slot_priority] at hnone

theorem tick_dispatch_rule_registered :
    let s := (Scheduler.new.register (Task.new [116] (fun scratch => some scratch) TaskPriority.normal 100 10)).1
    ∃ s' r, s.tick 0 = some (s', r) ∧
      (∀ i, r = some i → s.Candidate (s.tickUs + 0) i ∧ (s.slot i).priority < TaskPriority.idle ∧
        ∀ j, s.Candidate (s.tickUs + 0) j →
          (s.slot i).priority < (s.slot j).priority ∨ (s.slot i).priority = (s.slot j).priority ∧ i ≤ j) ∧
      (r = none → ∀ j, s.Candidate (s.tickUs + 0) j → (s.slot j).priority = TaskPriority.idle) := by
  intro s
  obtain ⟨s', r, h⟩ : ∃ s' r, s.tick 0 = some (s', r) := ⟨_, _, rfl⟩
  exact ⟨s', r, h, tick_dispatch_rule h⟩

/-! ### Executions and deadline misses -/

theorem tickResults_cons (op : Op) (ops : List Op) (r : Option Nat) (rs : List (Option Nat)) :
    tickResults (op :: ops) (r :: rs) = tickResults [op] [r] ++ tickResults ops rs := by
  cases op <;> rfl

/-- One call adds one execution to the slot a tick dispatched, at most one
deadline miss, and nothing to any other slot; a registration fills an empty
slot with a task that has run nothing. -/
theorem step_counts {s s' : Scheduler} {op : Op} {r : Option Nat} (hinv : TableInv s)
    (hP : ∀ t ∈ registered [op], t.IsNew) (hs : s.step op = some (s', r)) (j : Fin maxTasks) :
    (s'.tasks j).execCount.toNat = (s.tasks j).execCount.toNat + (tickResults [op] [r]).count (some j.val) ∧
      (s'.tasks j).deadlineMisses.toNat ≤
        (s.tasks j).deadlineMisses.toNat + (tickResults [op] [r]).count (some j.val) := by
  cases op with
  | register task =>
    obtain rfl : s' = (s.register task).1 := congrArg Prod.fst (Option.some.inj hs).symm
    obtain ⟨_, _, _, _, _, rfl⟩ := hP _ (List.mem_singleton_self _)
    simp only [tickResults, List.count_nil, Nat.add_zero, register_tasks]
    split
    · rw [hinv.unused j (Nat.le_of_eq ‹j.val = s.taskCount›.symm)]
      exact ⟨rfl, Nat.zero_le _⟩
    · exact ⟨rfl, Nat.le_refl _⟩
  | tick d =>
    simp only [tickResults]
    by_cases hr : r = some j.val
    · subst hr
      obtain ⟨_, _, _, he, hexec, -, hmiss⟩ := tick_dispatched_slot hs
      rw [he, List.count_singleton_self]
      refine ⟨hexec, ?_⟩
      show _ ≤ _
      rw [hmiss]
      split <;> omega
    · rw [tick_other_slot hs j hr, List.count_eq_zero_of_not_mem (by simpa [eq_comm] using hr)]
      split <;> exact ⟨rfl, Nat.le_refl _⟩
  | suspend idx =>
    cases hs
    simp only [tickResults, List.count_nil, Nat.add_zero, suspend_tasks]
    split <;> exact ⟨rfl, Nat.le_refl _⟩
  | resume idx =>
    cases hs
    simp only [tickResults, List.count_nil, Nat.add_zero, resume_tasks]
    split <;> exact ⟨rfl, Nat.le_refl _⟩

/-- Over a run registering tasks built by `Task::new`, a slot's executions grow by
the ticks that dispatched it, and its deadline misses by at most as many. -/
theorem run_counts {s s' : Scheduler} {ops : List Op} {rs : List (Option Nat)} (hinv : TableInv s)
    (hP : ∀ t ∈ registered ops, t.IsNew) (hr : run s ops = some (s', rs)) (j : Fin maxTasks) :
    (s'.tasks j).execCount.toNat = (s.tasks j).execCount.toNat + (tickResults ops rs).count (some j.val) ∧
      (s'.tasks j).deadlineMisses.toNat ≤
        (s.tasks j).deadlineMisses.toNat + (tickResults ops rs).count (some j.val) := by
  induction ops generalizing s rs with
  | nil =>
    cases hr
    exact ⟨rfl, Nat.le_refl _⟩
  | cons op ops ih =>
    obtain ⟨s₁, r, rs', h₁, h₂, rfl⟩ := run_eq_some.mp hr
    rw [show op :: ops = [op] ++ ops from rfl, registered_append] at hP
    obtain ⟨he₁, hm₁⟩ := step_counts hinv (fun t ht => hP t (List.mem_append_left _ ht)) h₁ j
    obtain ⟨he₂, hm₂⟩ := ih (hinv.step h₁) (fun t ht => hP t (List.mem_append_right _ ht)) h₂
    rw [tickResults_cons, List.count_append]
    omega

/-- **Executions count dispatches.** After any run from `Scheduler::new()` that
registers tasks built by `Task::new`, each slot's `exec_count` is the number of
ticks that returned its index, and its `deadline_misses` is at most that. -/
theorem execCount_counts_dispatches {ops : List Op} {s : Scheduler} {rs : List (Option Nat)}
    (hP : ∀ t ∈ registered ops, t.IsNew) (hr : run Scheduler.new ops = some (s, rs)) (j : Fin maxTasks) :
    (s.tasks j).execCount.toNat = (tickResults ops rs).count (some j.val) ∧
      (s.tasks j).deadlineMisses.toNat ≤ (s.tasks j).execCount.toNat := by
  obtain ⟨he, hm⟩ := run_counts tableInv_new hP hr j
  have h0 : (Scheduler.new.tasks j).execCount.toNat = 0 ∧ (Scheduler.new.tasks j).deadlineMisses.toNat = 0 :=
    ⟨rfl, rfl⟩
  omega

theorem execCount_counts_dispatches_two :
    let ops : List Op := [.register (Task.new [101] (fun scratch => some scratch) TaskPriority.normal 100 10),
      .tick 0, .tick 50, .tick 50]
    (∀ t ∈ registered ops, t.IsNew) ∧ ∃ s rs, run Scheduler.new ops = some (s, rs) ∧
      (s.tasks ⟨0, maxTasks_pos⟩).execCount.toNat = (tickResults ops rs).count (some 0) ∧
      (s.tasks ⟨0, maxTasks_pos⟩).deadlineMisses.toNat ≤ (s.tasks ⟨0, maxTasks_pos⟩).execCount.toNat := by
  intro ops
  have hP : ∀ t ∈ registered ops, t.IsNew := fun t ht => by
    rw [List.mem_singleton.mp ht]
    exact ⟨_, _, _, _, _, rfl⟩
  obtain ⟨s, rs, hr⟩ : ∃ s rs, run Scheduler.new ops = some (s, rs) := ⟨_, _, rfl⟩
  exact ⟨hP, s, rs, hr, execCount_counts_dispatches hP hr ⟨0, maxTasks_pos⟩⟩

/-! ### Suspension -/

/-- A call other than `resume(j)` leaves a registered suspended task suspended,
and a tick does not dispatch it. -/
theorem step_suspended {s s' : Scheduler} {op : Op} {r : Option Nat} {j : Fin maxTasks}
    (hj : j.val < s.taskCount) (hsus : (s.tasks j).state = .suspended) (hop : op ≠ .resume j.val)
    (hs : s.step op = some (s', r)) :
    (s'.tasks j).state = .suspended ∧ some j.val ∉ tickResults [op] [r] := by
  cases op with
  | register task =>
    obtain rfl : s' = (s.register task).1 := congrArg Prod.fst (Option.some.inj hs).symm
    rw [register_tasks, if_neg (Nat.ne_of_lt hj)]
    exact ⟨hsus, List.not_mem_nil _⟩
  | tick d =>
    have hstay : ¬(j.val < s.taskCount ∧ (s.tasks j).state = .sleeping ∧
        (s.tasks j).nextActivation ≤ s'.tickUs) := fun c => absurd (hsus.symm.trans c.2.1) (by decide)
    have hr : r ≠ some j.val := by
      rintro rfl
      have hready := (tick_dispatches_best hs).1.2
      rw [slot_eq, woken_tasks, if_neg (fun c => absurd (hsus.symm.trans c.2.1) (by decide)), hsus] at hready
      cases hready
    rw [tick_other_slot hs j hr, if_neg hstay]
    exact ⟨hsus, by simpa [tickResults] using hr.symm⟩
  | suspend idx =>
    cases hs
    rw [suspend_tasks]
    split
    · exact ⟨rfl, List.not_mem_nil _⟩
    · exact ⟨hsus, List.not_mem_nil _⟩
  | resume idx =>
    cases hs
    have hidx : j.val ≠ idx := fun e => hop (by rw [e])
    rw [resume_tasks, if_neg (fun c => hidx c.1)]
    exact ⟨hsus, List.not_mem_nil _⟩

/-- **Suspended until resumed.** Over any run with no `resume` of its index, a
registered suspended task stays suspended and no tick dispatches it. -/
theorem suspended_until_resume {s s' : Scheduler} {j : Fin maxTasks} (hj : j.val < s.taskCount)
    (hsus : (s.tasks j).state = .suspended) {ops : List Op} {rs : List (Option Nat)}
    (hres : Op.resume j.val ∉ ops) (hr : run s ops = some (s', rs)) :
    (s'.tasks j).state = .suspended ∧ some j.val ∉ tickResults ops rs := by
  induction ops generalizing s rs with
  | nil =>
    cases hr
    exact ⟨hsus, List.not_mem_nil _⟩
  | cons op ops ih =>
    obtain ⟨s₁, r, rs', h₁, h₂, rfl⟩ := run_eq_some.mp hr
    have hop : op ≠ .resume j.val := fun e => hres (e ▸ List.mem_cons_self _ _)
    obtain ⟨hsus₁, hnot₁⟩ := step_suspended hj hsus hop h₁
    obtain ⟨hsus', hnot⟩ := ih (Nat.lt_of_lt_of_le hj (step_statics h₁).1) hsus₁
      (fun h => hres (List.mem_cons_of_mem _ h)) h₂
    rw [tickResults_cons, List.mem_append]
    exact ⟨hsus', fun c => c.elim hnot₁ hnot⟩

theorem suspended_until_resume_new :
    let s := ((Scheduler.new.register (Task.new [115] (fun scratch => some scratch) TaskPriority.high 100 10)).1.suspend 0)
    (0 : Nat) < s.taskCount ∧ (s.tasks ⟨0, maxTasks_pos⟩).state = .suspended ∧ Op.resume 0 ∉ [Op.tick 0] ∧
      ∃ s' rs, run s [.tick 0] = some (s', rs) ∧
        (s'.tasks ⟨0, maxTasks_pos⟩).state = .suspended ∧ some 0 ∉ tickResults [.tick 0] rs := by
  intro s
  have hj : (0 : Nat) < s.taskCount := Nat.zero_lt_one
  have hsus : (s.tasks ⟨0, maxTasks_pos⟩).state = .suspended := rfl
  have hres : Op.resume 0 ∉ [Op.tick 0] := by simp
  obtain ⟨s', rs, hr⟩ : ∃ s' rs, run s [.tick 0] = some (s', rs) := ⟨_, _, rfl⟩
  exact ⟨hj, hsus, hres, s', rs, hr, suspended_until_resume hj hsus hres hr⟩

/-! ### Active tasks -/

/-- With tasks built by `Task::new`, no registered slot is ever inactive. -/
theorem ReachableWith.active {s : Scheduler} (h : ReachableWith Task.IsNew s) (j : Fin maxTasks)
    (hj : j.val < s.taskCount) : (s.tasks j).state ≠ .inactive := by
  induction h generalizing j with
  | new => exact absurd hj (Nat.not_lt_zero _)
  | @register s task _ hp ih =>
    rw [register_tasks]
    split
    · rw [Task.isNew_state hp]
      exact nofun
    · rw [register_taskCount] at hj
      exact ih j (by split at hj <;> omega)
  | @tick _ _ _ r _ ht ih =>
    rw [tick_taskCount ht] at hj
    by_cases hr : r = some j.val
    · subst hr
      obtain ⟨_, _, _, he, -⟩ := tick_dispatched_slot ht
      rw [he]
      exact nofun
    · rw [tick_other_slot ht j hr]
      split
      · exact nofun
      · exact ih j hj
  | suspend idx _ ih =>
    rw [suspend_taskCount] at hj
    rw [suspend_tasks]
    split
    · exact nofun
    · exact ih j hj
  | resume idx _ ih =>
    rw [resume_taskCount] at hj
    rw [resume_tasks]
    split
    · exact nofun
    · exact ih j hj

/-- **Every registered task is active.** In every state reached registering tasks
built by `Task::new`, `active_task_count()` is `task_count`. -/
theorem activeTaskCount_eq_taskCount {s : Scheduler} (h : ReachableWith Task.IsNew s) :
    s.activeTaskCount = s.taskCount := by
  unfold activeTaskCount
  rw [List.countP_eq_length.mpr, List.length_map, List.length_range]
  intro t ht
  obtain ⟨i, hi, rfl⟩ := List.mem_map.mp ht
  rw [List.mem_range] at hi
  have him : i < maxTasks := Nat.lt_of_lt_of_le hi s.taskCount_le
  rw [slot_of_lt _ him]
  simpa [Task.isActive] using h.active ⟨i, him⟩ hi

theorem activeTaskCount_eq_taskCount_registered :
    ReachableWith Task.IsNew (Scheduler.new.register (Task.new [97] (fun scratch => some scratch) TaskPriority.low 1000 10)).1 ∧
      (Scheduler.new.register (Task.new [97] (fun scratch => some scratch) TaskPriority.low 1000 10)).1.activeTaskCount =
        (Scheduler.new.register (Task.new [97] (fun scratch => some scratch) TaskPriority.low 1000 10)).1.taskCount :=
  have h := ReachableWith.new.register ⟨_, _, _, _, _, rfl⟩
  ⟨h, activeTaskCount_eq_taskCount h⟩

end AliceRtos.Scheduler
