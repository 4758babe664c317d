import AliceRtos.Scheduler.Tick

/-! Runs of the scheduler, and what holds in every state they reach.

A run is a list of calls — `register`, `tick`, `suspend`, `resume` — from
`Scheduler.new`; `ReachableWith P` is the set of states such runs reach when
every registered task satisfies `P` (`reachableWith_iff_run` ties the two
together). `TableInv` is the invariant of the table: the slots from `taskCount`
on are still empty and the current task is registered. It holds in every
reachable state, and with tasks built by `Task::new` no task is ever left
running (`reachable_table`). From it, the calls on an index that is not
registered do nothing (`unregistered_calls`), except `execute_task`, which
indexes the table unchecked and panics from `maxTasks` on
(`executeTask_beyond_table`). -/
namespace AliceRtos.Scheduler

/-- The calls that change the scheduler. -/
inductive Op
  | register (task : Task)
  | tick (deltaUs : UInt64)
  | suspend (idx : Nat)
  | resume (idx : Nat)

/-- One call and the index it returns, if any; `none` is a panic. -/
def step (s : Scheduler) : Op → Option (Scheduler × Option Nat)
  | .register task => some (s.register task)
  | .tick deltaUs => s.tick deltaUs
  | .suspend idx => some (s.suspend idx, none)
  | .resume idx => some (s.resume idx, none)

/-- A run: the last state and what each call returned. -/
def run (s : Scheduler) : List Op → Option (Scheduler × List (Option Nat))
  | [] => some (s, [])
  | op :: ops => do
    let (s, r) ← s.step op
    let (s, rs) ← run s ops
    pure (s, r :: rs)

/-- The tasks a list of calls registers. -/
def registered : List Op → List Task
  | [] => []
  | .register task :: ops => task :: registered ops
  | _ :: ops => registered ops

/-- The states reachable from `Scheduler::new()`, registering only tasks with `P`. -/
inductive ReachableWith (P : Task → Prop) : Scheduler → Prop
  | new : ReachableWith P Scheduler.new
  | register {s : Scheduler} {task : Task} : ReachableWith P s → P task →
      ReachableWith P (s.register task).1
  | tick {s s' : Scheduler} {d : UInt64} {r : Option Nat} : ReachableWith P s →
      s.tick d = some (s', r) → ReachableWith P s'
  | suspend {s : Scheduler} (idx : Nat) : ReachableWith P s → ReachableWith P (s.suspend idx)
  | resume {s : Scheduler} (idx : Nat) : ReachableWith P s → ReachableWith P (s.resume idx)

/-- Reachable by any calls. -/
def Reachable (s : Scheduler) : Prop := ReachableWith (fun _ => True) s

section Runs
variable {P : Task → Prop}

theorem ReachableWith.step {s s' : Scheduler} {op : Op} {r : Option Nat} (h : ReachableWith P s)
    (hP : ∀ t ∈ registered [op], P t) (hs : s.step op = some (s', r)) : ReachableWith P s' := by
  cases op with
  | register task =>
    obtain rfl : s' = (s.register task).1 := congrArg Prod.fst (Option.some.inj hs).symm
    exact h.register (hP task (List.mem_singleton_self _))
  | tick d => exact h.tick hs
  | suspend idx => cases hs; exact h.suspend idx
  | resume idx => cases hs; exact h.resume idx

theorem registered_append (ops ops' : List Op) :
    registered (ops ++ ops') = registered ops ++ registered ops' := by
  induction ops with
  | nil => rfl
  | cons op ops ih => cases op <;> simp [registered, ih]

theorem run_eq_some {s s' : Scheduler} {op : Op} {ops : List Op} {rs : List (Option Nat)} :
    run s (op :: ops) = some (s', rs) ↔
      ∃ s₁ r rs', s.step op = some (s₁, r) ∧ run s₁ ops = some (s', rs') ∧ rs = r :: rs' := by
  simp only [run, bind, Option.bind_eq_some, pure, Option.some.injEq, Prod.mk.injEq]
  constructor
  · rintro ⟨⟨s₁, r⟩, h₁, ⟨s₂, rs'⟩, h₂, rfl, rfl⟩
    exact ⟨s₁, r, rs', h₁, h₂, rfl⟩
  · rintro ⟨s₁, r, rs', h₁, h₂, rfl⟩
    exact ⟨(s₁, r), h₁, (s', rs'), h₂, rfl, rfl⟩

theorem ReachableWith.run {s s' : Scheduler} {ops : List Op} {rs : List (Option Nat)}
    (h : ReachableWith P s) (hP : ∀ t ∈ registered ops, P t) (hr : run s ops = some (s', rs)) :
    ReachableWith P s' := by
  induction ops generalizing s rs with
  | nil => cases hr; exact h
  | cons op ops ih =>
    obtain ⟨s₁, r, rs', h₁, h₂, -⟩ := run_eq_some.mp hr
    rw [show op :: ops = [op] ++ ops from rfl, registered_append] at hP
    exact ih (h.step (fun t ht => hP t (List.mem_append_left _ ht)) h₁)
      (fun t ht => hP t (List.mem_append_right _ ht)) h₂

theorem run_append {s s' : Scheduler} {ops : List Op} (op : Op) {rs : List (Option Nat)}
    {s'' : Scheduler} {r : Option Nat} (h : run s ops = some (s', rs)) (h' : s'.step op = some (s'', r)) :
    run s (ops ++ [op]) = some (s'', rs ++ [r]) := by
  induction ops generalizing s rs with
  | nil =>
    cases h
    simp [run, h']
  | cons op₁ ops ih =>
    obtain ⟨s₁, r₁, rs', h₁, h₂, rfl⟩ := run_eq_some.mp h
    exact run_eq_some.mpr ⟨s₁, r₁, rs' ++ [r], h₁, ih h₂, rfl⟩

/-- One call registers no fewer tasks and keeps the function, priority and period
of every registered one. -/
theorem step_statics {s s' : Scheduler} {op : Op} {r : Option Nat} (hs : s.step op = some (s', r)) :
    s.taskCount ≤ s'.taskCount ∧ ∀ j : Fin maxTasks, j.val < s.taskCount →
      (s'.tasks j).func = (s.tasks j).func ∧ (s'.tasks j).priority = (s.tasks j).priority ∧
        (s'.tasks j).periodUs = (s.tasks j).periodUs := by
  cases op with
  | register task =>
    obtain rfl : s' = (s.register task).1 := congrArg Prod.fst (Option.some.inj hs).symm
    refine ⟨by rw [register_taskCount]; split <;> omega, fun j hj => ?_⟩
    rw [register_tasks, if_neg (Nat.ne_of_lt hj)]
    exact ⟨rfl, rfl, rfl⟩
  | tick d =>
    exact ⟨Nat.le_of_eq (tick_taskCount hs).symm, fun j _ => ⟨tick_func hs j, tick_priority_period hs j⟩⟩
  | suspend idx =>
    cases hs
    exact ⟨(suspend_taskCount s idx).ge, fun j _ => by rw [suspend_tasks]; split <;> exact ⟨rfl, rfl, rfl⟩⟩
  | resume idx =>
    cases hs
    exact ⟨(resume_taskCount s idx).ge, fun j _ => by rw [resume_tasks]; split <;> exact ⟨rfl, rfl, rfl⟩⟩

/-- A run keeps the function, priority and period of every task registered when it starts. -/
theorem run_statics {s s' : Scheduler} {ops : List Op} {rs : List (Option Nat)}
    (hr : run s ops = some (s', rs)) :
    s.taskCount ≤ s'.taskCount ∧ ∀ j : Fin maxTasks, j.val < s.taskCount →
      (s'.tasks j).func = (s.tasks j).func ∧ (s'.tasks j).priority = (s.tasks j).priority ∧
        (s'.tasks j).periodUs = (s.tasks j).periodUs := by
  induction ops generalizing s rs with
  | nil =>
    cases hr
    exact ⟨Nat.le_refl _, fun _ _ => ⟨rfl, rfl, rfl⟩⟩
  | cons op ops ih =>
    obtain ⟨s₁, r, rs', h₁, h₂, -⟩ := run_eq_some.mp hr
    obtain ⟨hle₁, hs₁⟩ := step_statics h₁
    obtain ⟨hle₂, hs₂⟩ := ih h₂
    refine ⟨Nat.le_trans hle₁ hle₂, fun j hj => ?_⟩
    obtain ⟨a₁, b₁, c₁⟩ := hs₁ j hj
    obtain ⟨a₂, b₂, c₂⟩ := hs₂ j (Nat.lt_of_lt_of_le hj hle₁)
    exact ⟨a₂.trans a₁, b₂.trans b₁, c₂.trans c₁⟩

/-- The reachable states are exactly the states runs from `Scheduler.new` end in. -/
theorem reachableWith_iff_run {s : Scheduler} :
    ReachableWith P s ↔
      ∃ ops rs, (∀ t ∈ registered ops, P t) ∧ run Scheduler.new ops = some (s, rs) := by
  constructor
  · have snoc : ∀ {s s' : Scheduler} (op : Op) {r : Option Nat},
        (∃ ops rs, (∀ t ∈ registered ops, P t) ∧ run Scheduler.new ops = some (s, rs)) →
        (∀ t ∈ registered [op], P t) → s.step op = some (s', r) →
        ∃ ops rs, (∀ t ∈ registered ops, P t) ∧ run Scheduler.new ops = some (s', rs) := by
      rintro s s' op r ⟨ops, rs, hops, hr⟩ hop hs
      refine ⟨ops ++ [op], _, fun t ht => ?_, run_append op hr hs⟩
      rw [registered_append, List.mem_append] at ht
      exact ht.elim (hops t) (hop t)
    intro h
    induction h with
    | new => exact ⟨[], [], fun _ h => absurd h (List.not_mem_nil _), rfl⟩
    | @register s task _ hP ih =>
      exact snoc (.register task) ih (fun t ht => by rw [List.mem_singleton.mp ht]; exact hP) rfl
    | @tick s s' d r _ ht ih => exact snoc (.tick d) ih (fun _ h => absurd h (List.not_mem_nil _)) ht
    | suspend idx _ ih => exact snoc (.suspend idx) ih (fun _ h => absurd h (List.not_mem_nil _)) rfl
    | resume idx _ ih => exact snoc (.resume idx) ih (fun _ h => absurd h (List.not_mem_nil _)) rfl
  · rintro ⟨ops, rs, hP, hr⟩
    exact ReachableWith.new.run hP hr

end Runs

/-! ### The table invariant -/

theorem setTask_tasks_apply (s : Scheduler) (i j : Fin maxTasks) (t : Task) :
    (s.setTask i t).tasks j = if j = i then t else s.tasks j :=
  Function.update_apply _ _ _ _

/-- The slots from `taskCount` on are still empty, and the current task is registered. -/
structure TableInv (s : Scheduler) : Prop where
  unused : ∀ j : Fin maxTasks, s.taskCount ≤ j.val → s.tasks j = Task.empty
  current : ∀ i, s.currentTask = some i → i < s.taskCount

theorem tableInv_new : TableInv Scheduler.new :=
  ⟨fun _ _ => rfl, fun _ h => by cases h⟩

section
variable {s : Scheduler}

/-- A tick dispatches a registered slot. -/
theorem tick_lt_taskCount {s' : Scheduler} {d : UInt64} {i : Nat}
    (h : s.tick d = some (s', some i)) : i < s.taskCount :=
  (tick_dispatches_best h).1.1

theorem TableInv.register (h : TableInv s) (task : Task) : TableInv (s.register task).1 := by
  unfold Scheduler.register
  split
  · exact h
  · rename_i hfull
    refine ⟨fun j hj => ?_, fun i hi => Nat.lt_succ_of_lt (h.current i hi)⟩
    dsimp only at hj ⊢
    have hne : j ≠ ⟨s.taskCount, Nat.lt_of_not_le hfull⟩ := fun e => by
      rw [e] at hj
      exact Nat.not_succ_le_self _ hj
    rw [Function.update_noteq hne]
    exact h.unused j (Nat.le_of_succ_le hj)

theorem TableInv.tick {s' : Scheduler} {d : UInt64} {r : Option Nat} (h : TableInv s)
    (ht : s.tick d = some (s', r)) : TableInv s' := by
  have hcount := tick_taskCount ht
  refine ⟨fun j hj => ?_, fun i hi => ?_⟩
  · rw [hcount] at hj
    have hr : r ≠ some j.val := by
      rintro rfl
      exact Nat.lt_irrefl _ (Nat.lt_of_lt_of_le (tick_lt_taskCount ht) hj)
    rw [tick_other_slot ht j hr, if_neg (fun c => Nat.lt_irrefl _ (Nat.lt_of_lt_of_le c.1 hj))]
    exact h.unused j hj
  · rw [tick_currentTask ht] at hi
    subst hi
    rw [hcount]
    exact tick_lt_taskCount ht

theorem TableInv.setTask (h : TableInv s) {i : Nat} (hi : i < s.taskCount) (t : Task) :
    TableInv (s.setTask (s.index hi) t) := by
  refine ⟨fun j hj => ?_, h.current⟩
  have hne : j ≠ s.index hi := fun e => by
    rw [e] at hj
    exact Nat.lt_irrefl _ (Nat.lt_of_lt_of_le hi hj)
  rw [setTask_tasks_apply, if_neg hne]
  exact h.unused j hj

theorem TableInv.suspend (h : TableInv s) (idx : Nat) : TableInv (s.suspend idx) := by
  unfold Scheduler.suspend
  split
  · exact h.setTask ‹_› _
  · exact h

theorem TableInv.resume (h : TableInv s) (idx : Nat) : TableInv (s.resume idx) := by
  unfold Scheduler.resume
  split
  · split
    · exact h.setTask ‹_› _
    · exact h
  · exact h

end

theorem TableInv.step {s s' : Scheduler} {op : Op} {r : Option Nat} (h : TableInv s)
    (hs : s.step op = some (s', r)) : TableInv s' := by
  cases op with
  | register task =>
    obtain rfl : s' = (s.register task).1 := congrArg Prod.fst (Option.some.inj hs).symm
    exact h.register task
  | tick d => exact h.tick hs
  | suspend idx => cases hs; exact h.suspend idx
  | resume idx => cases hs; exact h.resume idx

theorem ReachableWith.tableInv {P : Task → Prop} {s : Scheduler} (h : ReachableWith P s) :
    TableInv s := by
  induction h with
  | new => exact tableInv_new
  | register _ _ ih => exact ih.register _
  | tick _ ht ih => exact ih.tick ht
  | suspend idx _ ih => exact ih.suspend idx
  | resume idx _ ih => exact ih.resume idx

/-- No operation leaves a task running, when no registered task starts so. -/
theorem ReachableWith.not_running {P : Task → Prop} {s : Scheduler} (h : ReachableWith P s)
    (hP : ∀ t, P t → t.state ≠ .running) (j : Fin maxTasks) : (s.tasks j).state ≠ .running := by
  induction h generalizing j with
  | new => exact fun e => by cases e
  | @register s task _ hp ih =>
    rw [register_tasks]
    split
    · exact hP task hp
    · exact ih j
  | @tick _ _ _ r _ ht ih =>
    by_cases hr : r = some j.val
    · subst hr
      obtain ⟨_, _, _, he, -⟩ := tick_dispatched_slot ht
      rw [he]
      exact fun e => by cases e
    · rw [tick_other_slot ht j hr]
      split
      · exact fun e => by cases e
      · exact ih j
  | suspend idx _ ih =>
    rw [suspend_tasks]
    split
    · exact fun e => by cases e
    · exact ih j
  | resume idx _ ih =>
    rw [resume_tasks]
    split
    · exact fun e => by cases e
    · exact ih j

theorem activeTaskCount_le (s : Scheduler) : s.activeTaskCount ≤ s.taskCount := by
  unfold activeTaskCount
  calc ((List.range s.taskCount).map s.slot).countP (·.isActive)
      ≤ ((List.range s.taskCount).map s.slot).length := List.countP_le_length _
    _ = s.taskCount := by simp

/-- **The table invariant.** With tasks built by `Task::new`, every reachable state
has at most `taskCount ≤ maxTasks` active tasks, empty slots from `taskCount` on,
a registered current task and no task left running, and the dispatcher picks a
registered slot, so the table is only indexed in range. -/
theorem reachable_table {s : Scheduler} (h : ReachableWith Task.IsNew s) :
    s.activeTaskCount ≤ s.taskCount ∧ s.taskCount ≤ maxTasks ∧
      (∀ j : Fin maxTasks, s.taskCount ≤ j.val → s.tasks j = Task.empty) ∧
      (∀ i, s.currentTask = some i → i < s.taskCount) ∧
      (∀ j, (s.tasks j).state ≠ .running) ∧
      ∀ now i, (s.woken now).findHighestPriorityReady = some i → i < s.taskCount :=
  ⟨activeTaskCount_le s, s.taskCount_le, h.tableInv.unused, h.tableInv.current,
    h.not_running fun _ ht => (by rw [Task.isNew_state ht]; exact fun e => by cases e),
    fun _ _ hf => (findHighestPriorityReady_eq_some _ hf).1.1⟩

theorem reachable_table_registered :
    let s := (Scheduler.new.register (Task.new [116] (fun scratch => some scratch)
      TaskPriority.normal 100 10)).1
    ReachableWith Task.IsNew s ∧ s.activeTaskCount ≤ s.taskCount ∧ s.taskCount ≤ maxTasks :=
  have h := ReachableWith.new.register ⟨_, _, _, _, _, rfl⟩
  ⟨h, (reachable_table h).1, (reachable_table h).2.1⟩

/-! ### Calls on an unregistered index -/

/-- On an index that is not registered, `get_task` finds nothing, `suspend` and
`resume` change nothing, `execute_task` below `maxTasks` finds no function and
returns the scratch buffer as it was, and on a full table `register` returns
`None` and changes nothing. -/
theorem unregistered_calls {s : Scheduler} (h : Reachable s) {idx : Nat} (hidx : s.taskCount ≤ idx) :
    s.getTask idx = none ∧ s.suspend idx = s ∧ s.resume idx = s ∧
      (∀ (hlt : idx < maxTasks) (scratch : List UInt8),
        (s.tasks ⟨idx, hlt⟩).func = none ∧ s.executeTask idx scratch = some scratch) ∧
      (s.taskCount = maxTasks → ∀ t, s.register t = (s, none)) := by
  have hn : ¬idx < s.taskCount := Nat.not_lt.mpr hidx
  refine ⟨if_neg hn, dif_neg hn, dif_neg hn, fun hlt scratch => ?_, fun hfull t => ?_⟩
  · have hempty : s.tasks ⟨idx, hlt⟩ = Task.empty := h.tableInv.unused _ hidx
    refine ⟨by rw [hempty]; rfl, ?_⟩
    simp only [executeTask, hlt, dif_pos, hempty]
    rfl
  · exact dif_pos (Nat.le_of_eq hfull.symm)

/-- `execute_task` indexes the table without a check: from `maxTasks` on it panics. -/
theorem executeTask_beyond_table (s : Scheduler) {idx : Nat} (h : maxTasks ≤ idx)
    (scratch : List UInt8) : s.executeTask idx scratch = none :=
  dif_neg (Nat.not_lt.mpr h)

theorem executeTask_new_sixteen : Scheduler.new.executeTask 16 [] = none := rfl

end AliceRtos.Scheduler
