import AliceRtos.Task

/-! The rate-monotonic scheduler (`scheduler.rs`): its state and operations.

The table is a fixed array of `maxTasks` descriptors, of which the first
`taskCount` are registered; `taskCount ≤ maxTasks` is part of the state, so a
read of a registered slot is always in range. `tick` is the dispatcher: it
advances the clock, marks the sleeping tasks that are due as ready
(`markReady`), picks the ready task with the smallest priority number
(`findHighestPriorityReady`) and does the bookkeeping of its activation
(`dispatch`). Every operation that can panic returns `none` there. -/
namespace AliceRtos

/-- Maximum tasks the kernel can manage. -/
def maxTasks : Nat := 16

theorem maxTasks_pos : 0 < maxTasks := by decide

structure Scheduler where
  tasks : Fin maxTasks → Task
  taskCount : Nat
  currentTask : Option Nat
  tickUs : UInt64
  contextSwitches : UInt32
  taskCount_le : taskCount ≤ maxTasks

namespace Task

/-- Steps 6 to 9 of `tick` on the chosen task at time `now`: a deadline miss if
`now` is more than a period past the activation, one more execution, and the
activation moved one period on. The task passes through `running` and ends
`sleeping`. -/
def dispatch (t : Task) (now : UInt64) : Option Task := do
  let deadline ← checkedAdd t.nextActivation t.periodUs.toUInt64
  let deadlineMisses ← if now > deadline then checkedAdd t.deadlineMisses 1
    else pure t.deadlineMisses
  let t := { t with deadlineMisses }
  let execCount ← checkedAdd t.execCount 1
  let t := { t with state := .running, execCount }
  let nextActivation ← checkedAdd t.nextActivation t.periodUs.toUInt64
  pure { t with nextActivation, state := .sleeping }

end Task

namespace Scheduler

def new : Scheduler where
  tasks := fun _ => Task.empty
  taskCount := 0
  currentTask := none
  tickUs := 0
  contextSwitches := 0
  taskCount_le := Nat.zero_le _

/-- Slot `i` of the table; the loops only read slots below `taskCount`. -/
def slot (s : Scheduler) (i : Nat) : Task :=
  if h : i < maxTasks then s.tasks ⟨i, h⟩ else Task.empty

/-- A registered slot as an index of the table. -/
def index (s : Scheduler) {i : Nat} (h : i < s.taskCount) : Fin maxTasks :=
  ⟨i, Nat.lt_of_lt_of_le h s.taskCount_le⟩

/-- The table with slot `i` replaced. -/
def setTask (s : Scheduler) (i : Fin maxTasks) (t : Task) : Scheduler :=
  { s with tasks := Function.update s.tasks i t }

/-- Register a task in the first unused slot, its first activation being now. -/
def register (s : Scheduler) (task : Task) : Scheduler × Option Nat :=
  if h : maxTasks ≤ s.taskCount then (s, none)
  else
    ({ s with
        tasks := Function.update s.tasks ⟨s.taskCount, Nat.lt_of_not_le h⟩
          { task with nextActivation := s.tickUs }
        taskCount := s.taskCount + 1
        taskCount_le := Nat.lt_of_not_le h }, some s.taskCount)

/-- The first loop of `tick`: a registered sleeping task whose activation is due
becomes ready. Each pass reads and writes its own slot only, so the loop is this
slot-wise update. -/
def markReady (s : Scheduler) : Scheduler :=
  { s with
    tasks := fun i =>
      if i.val < s.taskCount ∧ (s.tasks i).state = .sleeping ∧ s.tickUs ≥ (s.tasks i).nextActivation
      then { s.tasks i with state := .ready } else s.tasks i }

/-- One pass of the selection loop over `(best_idx, best_priority)`: a ready task
of a strictly smaller priority number replaces the best so far. -/
def pick (s : Scheduler) (best : Option Nat × TaskPriority) (i : Nat) : Option Nat × TaskPriority :=
  if (s.slot i).state = .ready ∧ (s.slot i).priority < best.2 then (some i, (s.slot i).priority)
  else best

/-- The selection loop over the registered slots, starting from `(None, IDLE)`. -/
def findHighestPriorityReady (s : Scheduler) : Option Nat :=
  ((List.range s.taskCount).foldl s.pick (none, TaskPriority.idle)).1

/-- Step 5: dispatching another task than the current one is a context switch. -/
def switchTo (s : Scheduler) (idx : Nat) : Option Scheduler :=
  if s.currentTask ≠ some idx then do
    let contextSwitches ← checkedAdd s.contextSwitches 1
    pure { s with contextSwitches, currentTask := some idx }
  else pure s

/-- Steps 3 to 10 of `tick`, after the clock has moved and due tasks are ready. -/
def dispatch (s : Scheduler) : Option (Scheduler × Option Nat) :=
  match s.findHighestPriorityReady with
  | none => pure ({ s with currentTask := none }, none)
  | some idx =>
    if h : idx < maxTasks then do
      let s ← s.switchTo idx
      let t ← (s.tasks ⟨idx, h⟩).dispatch s.tickUs
      pure (s.setTask ⟨idx, h⟩ t, some idx)
    else none

/-- Advance the clock by `deltaUs` and dispatch the best ready task, if any. -/
def tick (s : Scheduler) (deltaUs : UInt64) : Option (Scheduler × Option Nat) := do
  let tickUs ← checkedAdd s.tickUs deltaUs
  (markReady { s with tickUs }).dispatch

/-- Call the task's function on the scratch buffer; indexing the table out of range
panics, and so does a task function that panics. -/
def executeTask (s : Scheduler) (idx : Nat) (scratch : List UInt8) : Option (List UInt8) :=
  if h : idx < maxTasks then
    match (s.tasks ⟨idx, h⟩).func with
    | some func => func scratch
    | none => some scratch
  else none

def activeTaskCount (s : Scheduler) : Nat :=
  ((List.range s.taskCount).map s.slot).countP (·.isActive)

def getTask (s : Scheduler) (idx : Nat) : Option Task :=
  if idx < s.taskCount then some (s.slot idx) else none

def nowUs (s : Scheduler) : UInt64 := s.tickUs

def suspend (s : Scheduler) (idx : Nat) : Scheduler :=
  if h : idx < s.taskCount then s.setTask (s.index h) { s.tasks (s.index h) with state := .suspended }
  else s

/-- Resume a suspended task, due at once. -/
def resume (s : Scheduler) (idx : Nat) : Scheduler :=
  if h : idx < s.taskCount then
    if (s.tasks (s.index h)).state = .suspended then
      s.setTask (s.index h) { s.tasks (s.index h) with state := .ready, nextActivation := s.tickUs }
    else s
  else s

/-! ### Field lemmas -/

@[simp] theorem setTask_taskCount (s : Scheduler) (i : Fin maxTasks) (t : Task) :
    (s.setTask i t).taskCount = s.taskCount := rfl
@[simp] theorem setTask_tickUs (s : Scheduler) (i : Fin maxTasks) (t : Task) :
    (s.setTask i t).tickUs = s.tickUs := rfl
@[simp] theorem setTask_currentTask (s : Scheduler) (i : Fin maxTasks) (t : Task) :
    (s.setTask i t).currentTask = s.currentTask := rfl
@[simp] theorem setTask_contextSwitches (s : Scheduler) (i : Fin maxTasks) (t : Task) :
    (s.setTask i t).contextSwitches = s.contextSwitches := rfl
@[simp] theorem setTask_tasks (s : Scheduler) (i : Fin maxTasks) (t : Task) :
    (s.setTask i t).tasks = Function.update s.tasks i t := rfl

@[simp] theorem markReady_taskCount (s : Scheduler) : s.markReady.taskCount = s.taskCount := rfl
@[simp] theorem markReady_tickUs (s : Scheduler) : s.markReady.tickUs = s.tickUs := rfl
@[simp] theorem markReady_currentTask (s : Scheduler) :
    s.markReady.currentTask = s.currentTask := rfl
@[simp] theorem markReady_contextSwitches (s : Scheduler) :
    s.markReady.contextSwitches = s.contextSwitches := rfl

@[simp] theorem index_val (s : Scheduler) {i : Nat} (h : i < s.taskCount) : (s.index h).val = i := rfl

@[simp] theorem register_tickUs (s : Scheduler) (t : Task) : (s.register t).1.tickUs = s.tickUs := by
  unfold register; split <;> rfl
@[simp] theorem register_currentTask (s : Scheduler) (t : Task) :
    (s.register t).1.currentTask = s.currentTask := by
  unfold register; split <;> rfl
@[simp] theorem register_contextSwitches (s : Scheduler) (t : Task) :
    (s.register t).1.contextSwitches = s.contextSwitches := by
  unfold register; split <;> rfl

theorem register_taskCount (s : Scheduler) (t : Task) :
    (s.register t).1.taskCount = if s.taskCount < maxTasks then s.taskCount + 1 else s.taskCount := by
  unfold register
  split
  · rw [if_neg (Nat.not_lt.mpr ‹_›)]
  · rw [if_pos (Nat.lt_of_not_le ‹_›)]

theorem register_snd (s : Scheduler) (t : Task) :
    (s.register t).2 = if s.taskCount < maxTasks then some s.taskCount else none := by
  unfold register
  split
  · rw [if_neg (Nat.not_lt.mpr ‹_›)]
  · rw [if_pos (Nat.lt_of_not_le ‹_›)]

/-- Registration writes slot `taskCount`, if there is one, and no other. -/
theorem register_tasks (s : Scheduler) (t : Task) (j : Fin maxTasks) :
    (s.register t).1.tasks j =
      if j.val = s.taskCount then { t with nextActivation := s.tickUs } else s.tasks j := by
  unfold register
  split
  · rename_i h
    rw [if_neg (fun e : j.val = s.taskCount => absurd (e ▸ j.isLt) (Nat.not_lt.mpr h))]
  · simp only [Function.update_apply, Fin.ext_iff]

@[simp] theorem suspend_taskCount (s : Scheduler) (idx : Nat) :
    (s.suspend idx).taskCount = s.taskCount := by
  unfold suspend; split <;> rfl
@[simp] theorem suspend_tickUs (s : Scheduler) (idx : Nat) : (s.suspend idx).tickUs = s.tickUs := by
  unfold suspend; split <;> rfl
@[simp] theorem suspend_currentTask (s : Scheduler) (idx : Nat) :
    (s.suspend idx).currentTask = s.currentTask := by
  unfold suspend; split <;> rfl
@[simp] theorem suspend_contextSwitches (s : Scheduler) (idx : Nat) :
    (s.suspend idx).contextSwitches = s.contextSwitches := by
  unfold suspend; split <;> rfl

theorem suspend_tasks (s : Scheduler) (idx : Nat) (j : Fin maxTasks) :
    (s.suspend idx).tasks j =
      if j.val = idx ∧ idx < s.taskCount then { s.tasks j with state := .suspended } else s.tasks j := by
  unfold suspend
  by_cases h : idx < s.taskCount
  · by_cases hj : j.val = idx
    · have hidx : s.index h = j := Fin.ext hj.symm
      simp [h, hj, hidx, setTask]
    · have hidx : j ≠ s.index h := fun e => hj (by rw [e]; rfl)
      simp [h, hj, setTask, Function.update_noteq hidx]
  · simp [h]

@[simp] theorem resume_taskCount (s : Scheduler) (idx : Nat) :
    (s.resume idx).taskCount = s.taskCount := by
  unfold resume; split <;> (try split) <;> rfl
@[simp] theorem resume_tickUs (s : Scheduler) (idx : Nat) : (s.resume idx).tickUs = s.tickUs := by
  unfold resume; split <;> (try split) <;> rfl
@[simp] theorem resume_currentTask (s : Scheduler) (idx : Nat) :
    (s.resume idx).currentTask = s.currentTask := by
  unfold resume; split <;> (try split) <;> rfl
@[simp] theorem resume_contextSwitches (s : Scheduler) (idx : Nat) :
    (s.resume idx).contextSwitches = s.contextSwitches := by
  unfold resume; split <;> (try split) <;> rfl

theorem resume_tasks (s : Scheduler) (idx : Nat) (j : Fin maxTasks) :
    (s.resume idx).tasks j =
      if j.val = idx ∧ idx < s.taskCount ∧ (s.tasks j).state = .suspended
      then { s.tasks j with state := .ready, nextActivation := s.tickUs } else s.tasks j := by
  unfold resume
  by_cases h : idx < s.taskCount
  · by_cases hj : j.val = idx
    · have hidx : s.index h = j := Fin.ext hj.symm
      by_cases hs : (s.tasks j).state = .suspended <;> simp [h, hj, hidx, hs, setTask]
    · have hidx : j ≠ s.index h := fun e => hj (by rw [e]; rfl)
      rw [dif_pos h]
      split <;> simp [hj, setTask, Function.update_noteq hidx]
  · simp [h]

theorem slot_eq (s : Scheduler) (i : Fin maxTasks) : s.slot i.val = s.tasks i := by
  simp [slot, i.isLt]

theorem slot_of_lt (s : Scheduler) {i : Nat} (h : i < maxTasks) : s.slot i = s.tasks ⟨i, h⟩ := by
  simp [slot, h]

end Scheduler

end AliceRtos
