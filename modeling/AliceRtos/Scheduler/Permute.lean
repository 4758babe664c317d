import AliceRtos.Scheduler.Run

/-! Registration order does not matter when priorities are distinct.

Two runs that register one block of tasks in different orders put the same
tasks in different slots. `Related σ` says two states are the same up to a
permutation `σ` of the slots that moves registered slots only. Every call keeps
it, with `suspend` and `resume` indices read through `σ`, and a tick returns the
index `σ` maps the first run's to, as long as the registered tasks have distinct
priorities, so that the one best ready task is found by its priority and not by
its slot (`Related.find`). `registration_order_irrelevant` puts it together:
after the two blocks the states are related by the slot permutation the
reordering induces, and they stay related along every continuation. The block
must fit in the table: when it does not, each order registers its own first
tasks into the free slots and `register` refuses the rest, so the two runs keep
different tasks (`registration_order_matters_when_full`). -/
namespace AliceRtos.Scheduler

/-- A slot permutation read on indices; indices beyond the table are kept. -/
def permIdx (σ : Equiv.Perm (Fin maxTasks)) (i : Nat) : Nat :=
  if h : i < maxTasks then (σ ⟨i, h⟩).val else i

/-- A call with its `suspend` or `resume` index read through `f`. -/
def Op.translate (f : Nat → Nat) : Op → Op
  | .suspend idx => .suspend (f idx)
  | .resume idx => .resume (f idx)
  | op => op

/-- The registered slots hold tasks of pairwise distinct priorities. -/
def DistinctPriorities (s : Scheduler) : Prop :=
  ∀ i j : Fin maxTasks, i.val < s.taskCount → j.val < s.taskCount →
    (s.tasks i).priority = (s.tasks j).priority → i = j

/-- Two states equal up to the slot permutation `σ`, which moves registered slots only. -/
structure Related (σ : Equiv.Perm (Fin maxTasks)) (s₁ s₂ : Scheduler) : Prop where
  taskCount : s₂.taskCount = s₁.taskCount
  tickUs : s₂.tickUs = s₁.tickUs
  contextSwitches : s₂.contextSwitches = s₁.contextSwitches
  currentTask : s₂.currentTask = s₁.currentTask.map (permIdx σ)
  tasks : ∀ j, s₂.tasks (σ j) = s₁.tasks j
  fixes : ∀ j : Fin maxTasks, s₁.taskCount ≤ j.val → σ j = j

section
variable {σ : Equiv.Perm (Fin maxTasks)}

theorem permIdx_fin (σ : Equiv.Perm (Fin maxTasks)) (j : Fin maxTasks) :
    permIdx σ j.val = (σ j).val := by
  simp [permIdx, j.isLt]

theorem permIdx_injective (σ : Equiv.Perm (Fin maxTasks)) : Function.Injective (permIdx σ) := by
  intro i j h
  unfold permIdx at h
  by_cases hi : i < maxTasks <;> by_cases hj : j < maxTasks <;> simp only [hi, hj, dif_pos, dif_neg,
    not_false_eq_true] at h
  · exact congrArg Fin.val (σ.injective (Fin.ext h))
  · exact absurd (h ▸ (σ ⟨i, hi⟩).isLt) hj
  · exact absurd (h.symm ▸ (σ ⟨j, hj⟩).isLt) hi
  · exact h

theorem map_permIdx_eq_some {x : Option Nat} {i : Nat} :
    x.map (permIdx σ) = some (permIdx σ i) ↔ x = some i := by
  cases x with
  | none => simp
  | some k => simp [(permIdx_injective σ).eq_iff]

variable {s₁ s₂ : Scheduler}

/-- `σ` keeps the registered slots among themselves. -/
theorem Related.lt_iff (h : Related σ s₁ s₂) (j : Fin maxTasks) :
    (σ j).val < s₁.taskCount ↔ j.val < s₁.taskCount := by
  constructor
  · intro hσ
    by_contra hj
    rw [h.fixes j (Nat.le_of_not_lt hj)] at hσ
    exact hj hσ
  · intro hj
    by_contra hσ
    have hfix := h.fixes (σ j) (Nat.le_of_not_lt hσ)
    rw [σ.injective hfix] at hσ
    exact hσ hj

theorem Related.val_eq_iff (h : Related σ s₁ s₂) (j : Fin maxTasks) :
    (σ j).val = s₁.taskCount ↔ j.val = s₁.taskCount := by
  constructor
  · intro hσ
    have hfix := h.fixes (σ j) (Nat.le_of_eq hσ.symm)
    rw [σ.injective hfix] at hσ
    exact hσ
  · intro hj
    rw [h.fixes j (Nat.le_of_eq hj.symm), hj]

theorem Related.register (h : Related σ s₁ s₂) (t : Task) :
    Related σ (s₁.register t).1 (s₂.register t).1 ∧
      (s₂.register t).2 = (s₁.register t).2.map (permIdx σ) := by
  have hc := h.taskCount
  refine ⟨⟨by simp only [register_taskCount, hc], by simp [h.tickUs],
    by simp [h.contextSwitches], by simp [h.currentTask], fun j => ?_, fun j hj => ?_⟩, ?_⟩
  · simp only [register_tasks, hc, h.val_eq_iff, h.tasks, h.tickUs]
  · rw [register_taskCount] at hj
    split at hj <;> exact h.fixes j (by omega)
  · rw [register_snd, register_snd, hc]
    split
    · rename_i hlt
      have hfix := h.fixes ⟨s₁.taskCount, hlt⟩ (Nat.le_refl _)
      rw [Option.map_some', show s₁.taskCount = (⟨s₁.taskCount, hlt⟩ : Fin maxTasks).val from rfl,
        permIdx_fin, hfix]
    · rfl

/-- The index condition of `suspend` and `resume`, read through `σ`. -/
theorem Related.index_iff (h : Related σ s₁ s₂) (j : Fin maxTasks) (idx : Nat) :
    ((σ j).val = permIdx σ idx ∧ permIdx σ idx < s₂.taskCount) ↔ (j.val = idx ∧ idx < s₁.taskCount) := by
  rw [← permIdx_fin, (permIdx_injective σ).eq_iff, h.taskCount]
  constructor
  · rintro ⟨rfl, hlt⟩
    rw [permIdx_fin] at hlt
    exact ⟨rfl, (h.lt_iff j).mp hlt⟩
  · rintro ⟨rfl, hlt⟩
    rw [permIdx_fin]
    exact ⟨rfl, (h.lt_iff j).mpr hlt⟩

theorem Related.suspend (h : Related σ s₁ s₂) (idx : Nat) :
    Related σ (s₁.suspend idx) (s₂.suspend (permIdx σ idx)) := by
  refine ⟨by simp [h.taskCount], by simp [h.tickUs], by simp [h.contextSwitches],
    by simp [h.currentTask], fun j => ?_, fun j hj => h.fixes j (by simpa using hj)⟩
  simp only [suspend_tasks, h.index_iff, h.tasks]

theorem Related.resume (h : Related σ s₁ s₂) (idx : Nat) :
    Related σ (s₁.resume idx) (s₂.resume (permIdx σ idx)) := by
  refine ⟨by simp [h.taskCount], by simp [h.tickUs], by simp [h.contextSwitches],
    by simp [h.currentTask], fun j => ?_, fun j hj => h.fixes j (by simpa using hj)⟩
  simp only [resume_tasks, ← and_assoc, h.index_iff, h.tasks, h.tickUs]

/-! ### Ticks -/

theorem Related.tasks_symm (h : Related σ s₁ s₂) (k : Fin maxTasks) : s₂.tasks k = s₁.tasks (σ.symm k) := by
  rw [← h.tasks, Equiv.apply_symm_apply]

theorem Related.readyAt_symm (h : Related σ s₁ s₂) (k : Fin maxTasks) :
    s₂.ReadyAt k.val ↔ s₁.ReadyAt (σ.symm k).val := by
  rw [ReadyAt, ReadyAt, slot_eq, slot_eq, h.tasks_symm, h.taskCount, ← h.lt_iff (σ.symm k),
    Equiv.apply_symm_apply]

theorem Related.readyAt (h : Related σ s₁ s₂) (j : Fin maxTasks) :
    s₂.ReadyAt (σ j).val ↔ s₁.ReadyAt j.val := by
  rw [h.readyAt_symm, Equiv.symm_apply_apply]

theorem ReadyAt.lt_maxTasks {s : Scheduler} {j : Nat} (h : s.ReadyAt j) : j < maxTasks :=
  Nat.lt_of_lt_of_le h.1 s.taskCount_le

theorem Related.woken (h : Related σ s₁ s₂) (now : UInt64) : Related σ (s₁.woken now) (s₂.woken now) := by
  refine ⟨h.taskCount, rfl, h.contextSwitches, h.currentTask, fun j => ?_, h.fixes⟩
  simp only [woken_tasks, h.taskCount, h.lt_iff, h.tasks]

theorem DistinctPriorities.woken {s : Scheduler} (hd : DistinctPriorities s) (now : UInt64) :
    DistinctPriorities (s.woken now) := fun i j hi hj e =>
  hd i j hi hj (by rwa [woken_priority, woken_priority] at e)

/-- With distinct priorities the selection follows the tasks, not their slots. -/
theorem Related.find (h : Related σ s₁ s₂) (hd : DistinctPriorities s₁) :
    s₂.findHighestPriorityReady = s₁.findHighestPriorityReady.map (permIdx σ) := by
  cases hf : s₁.findHighestPriorityReady with
  | none =>
    rw [findHighestPriorityReady_eq_none] at hf
    rw [Option.map_none', findHighestPriorityReady_eq_none]
    intro k hk
    have hK := (h.readyAt_symm ⟨k, hk.lt_maxTasks⟩).mp hk
    rw [slot_of_lt _ hk.lt_maxTasks, h.tasks_symm, ← slot_eq]
    exact hf _ hK
  | some i =>
    obtain ⟨hr, hidle, hmin, -⟩ := findHighestPriorityReady_eq_some s₁ hf
    have hI : s₂.ReadyAt (σ ⟨i, hr.lt_maxTasks⟩).val := (h.readyAt _).mpr hr
    have hslotI : s₂.slot (σ ⟨i, hr.lt_maxTasks⟩).val = s₁.slot i := by
      rw [slot_eq, h.tasks, ← slot_eq]
    cases hf₂ : s₂.findHighestPriorityReady with
    | none =>
      have he := (findHighestPriorityReady_eq_none s₂).mp hf₂ _ hI
      rw [hslotI] at he
      rw [he] at hidle
      exact absurd hidle (Nat.lt_irrefl _)
    | some k =>
      obtain ⟨hk, -, hmin₂, -⟩ := findHighestPriorityReady_eq_some s₂ hf₂
      let K : Fin maxTasks := ⟨k, hk.lt_maxTasks⟩
      have hK := (h.readyAt_symm K).mp hk
      have hslotK : s₂.slot k = s₁.slot (σ.symm K).val := by
        rw [slot_of_lt _ hk.lt_maxTasks, h.tasks_symm, ← slot_eq]
      have h₁ := hmin₂ _ hI
      have h₂ := hmin _ hK
      rw [hslotI, hslotK] at h₁
      have heq : σ.symm K = ⟨i, hr.lt_maxTasks⟩ := by
        refine hd _ _ hK.1 hr.1 ?_
        rw [← slot_eq, ← slot_eq]
        exact TaskPriority.le_antisymm h₁ h₂
      rw [Option.map_some', show i = (⟨i, hr.lt_maxTasks⟩ : Fin maxTasks).val from rfl, permIdx_fin,
        ← heq, Equiv.apply_symm_apply]

theorem Related.currentTask_eq_iff (h : Related σ s₁ s₂) (i : Fin maxTasks) :
    s₂.currentTask = some (σ i).val ↔ s₁.currentTask = some i.val := by
  rw [h.currentTask, ← permIdx_fin, map_permIdx_eq_some]

theorem Related.switched (h : Related σ s₁ s₂) (i : Fin maxTasks) :
    Related σ (s₁.switched i.val) (s₂.switched (σ i).val) := by
  refine ⟨h.taskCount, h.tickUs, ?_, by simp [permIdx_fin], h.tasks, h.fixes⟩
  simp only [switched_contextSwitches, ne_eq, h.currentTask_eq_iff, h.contextSwitches]

theorem Related.setTask (h : Related σ s₁ s₂) (i : Fin maxTasks) (t : Task) :
    Related σ (s₁.setTask i t) (s₂.setTask (σ i) t) :=
  ⟨h.taskCount, h.tickUs, h.contextSwitches, h.currentTask,
    fun j => by simp only [setTask_tasks_apply, σ.injective.eq_iff, h.tasks], h.fixes⟩

theorem Related.dispatch (h : Related σ s₁ s₂) (hd : DistinctPriorities s₁) {s₁' : Scheduler}
    {r : Option Nat} (hs : s₁.dispatch = some (s₁', r)) :
    ∃ s₂', s₂.dispatch = some (s₂', r.map (permIdx σ)) ∧ Related σ s₁' s₂' := by
  rcases dispatch_eq_some.mp hs with ⟨hf, rfl, rfl⟩ | ⟨i, hi, hf, rfl, hcs, hfit, rfl⟩
  · refine ⟨_, dispatch_eq_some.mpr (.inl ⟨by rw [h.find hd, hf]; rfl, rfl, rfl⟩), ?_⟩
    exact ⟨h.taskCount, h.tickUs, h.contextSwitches, rfl, h.tasks, h.fixes⟩
  · have ht : (s₂.tasks (σ ⟨i, hi⟩)).afterDispatch s₂.tickUs = (s₁.tasks ⟨i, hi⟩).afterDispatch s₁.tickUs := by
      rw [h.tasks, h.tickUs]
    refine ⟨_, dispatch_eq_some.mpr (.inr ⟨(σ ⟨i, hi⟩).val, (σ ⟨i, hi⟩).isLt, ?_, ?_, ?_, ?_, rfl⟩), ?_⟩
    · rw [h.find hd, hf, Option.map_some', ← permIdx_fin]
    · rw [Option.map_some', ← permIdx_fin]
    · rw [ne_eq, h.currentTask_eq_iff, h.contextSwitches]
      exact hcs
    · show (s₂.tasks (σ ⟨i, hi⟩)).DispatchFits s₂.tickUs
      rw [h.tasks, h.tickUs]
      exact hfit
    · show Related σ _ ((s₂.switched (σ ⟨i, hi⟩).val).setTask (σ ⟨i, hi⟩) _)
      rw [ht]
      exact (h.switched ⟨i, hi⟩).setTask _ _

theorem Related.tick (h : Related σ s₁ s₂) (hd : DistinctPriorities s₁) {d : UInt64} {s₁' : Scheduler}
    {r : Option Nat} (hs : s₁.tick d = some (s₁', r)) :
    ∃ s₂', s₂.tick d = some (s₂', r.map (permIdx σ)) ∧ Related σ s₁' s₂' := by
  obtain ⟨hd', hdisp⟩ := tick_eq_some.mp hs
  obtain ⟨s₂', h₂, hrel⟩ := (h.woken _).dispatch (hd.woken _) hdisp
  exact ⟨s₂', tick_eq_some.mpr ⟨by rw [h.tickUs]; exact hd', by rw [h.tickUs]; exact h₂⟩, hrel⟩

/-! ### Runs -/

/-- **One call on related states.** -/
theorem Related.step (h : Related σ s₁ s₂) (hd : DistinctPriorities s₁) {op : Op} {s₁' : Scheduler}
    {r : Option Nat} (hs : s₁.step op = some (s₁', r)) :
    ∃ s₂', s₂.step (op.translate (permIdx σ)) = some (s₂', r.map (permIdx σ)) ∧ Related σ s₁' s₂' := by
  cases op with
  | register task =>
    obtain ⟨rfl, rfl⟩ : s₁' = (s₁.register task).1 ∧ r = (s₁.register task).2 := by
      rw [Option.some.inj hs]
      exact ⟨rfl, rfl⟩
    exact ⟨_, by rw [← (h.register task).2]; rfl, (h.register task).1⟩
  | tick d => exact h.tick hd hs
  | suspend idx => cases hs; exact ⟨_, rfl, h.suspend idx⟩
  | resume idx => cases hs; exact ⟨_, rfl, h.resume idx⟩

end

/-- A call never unregisters a slot and keeps the priority of every registered task. -/
theorem step_priority {s s' : Scheduler} {op : Op} {r : Option Nat} (hs : s.step op = some (s', r)) :
    s.taskCount ≤ s'.taskCount ∧
      ∀ j : Fin maxTasks, j.val < s.taskCount → (s'.tasks j).priority = (s.tasks j).priority :=
  ⟨(step_statics hs).1, fun j hj => ((step_statics hs).2 j hj).2.1⟩

/-- Distinct priorities at the end of a run hold all along it. -/
theorem DistinctPriorities.of_run {s s' : Scheduler} {ops : List Op} {rs : List (Option Nat)}
    (hr : run s ops = some (s', rs)) (hd : DistinctPriorities s') : DistinctPriorities s := by
  induction ops generalizing s rs with
  | nil => cases hr; exact hd
  | cons op ops ih =>
    obtain ⟨s₁, r, rs', h₁, h₂, -⟩ := run_eq_some.mp hr
    obtain ⟨hle, hprio⟩ := step_priority h₁
    intro i j hi hj e
    exact ih h₂ i j (Nat.lt_of_lt_of_le hi hle) (Nat.lt_of_lt_of_le hj hle)
      (by rw [hprio i hi, hprio j hj, e])

/-- **Related runs.** From related states, a run that ends with distinct
priorities is matched, call by call, by the run with translated indices. -/
theorem Related.run {σ : Equiv.Perm (Fin maxTasks)} {s₁ s₂ : Scheduler} (h : Related σ s₁ s₂)
    {ops : List Op} {f₁ : Scheduler} {rs : List (Option Nat)} (hr : run s₁ ops = some (f₁, rs))
    (hd : DistinctPriorities f₁) :
    ∃ f₂, run s₂ (ops.map (Op.translate (permIdx σ))) = some (f₂, rs.map (Option.map (permIdx σ))) ∧
      Related σ f₁ f₂ := by
  induction ops generalizing s₁ s₂ rs with
  | nil => cases hr; exact ⟨s₂, rfl, h⟩
  | cons op ops ih =>
    obtain ⟨t₁, r, rs', h₁, h₂, rfl⟩ := run_eq_some.mp hr
    obtain ⟨t₂, h₁', ht⟩ := h.step (DistinctPriorities.of_run hr hd) h₁
    obtain ⟨f₂, h₂', hf⟩ := ih ht h₂
    exact ⟨f₂, run_eq_some.mpr ⟨t₂, _, _, h₁', h₂', rfl⟩, hf⟩


/-! ### Registering a block -/

/-- A block of registrations that fits fills slots `taskCount, taskCount + 1, …` in
order, returns their indices and changes nothing else. -/
theorem run_register_block (s : Scheduler) (ts : List Task) (hfit : s.taskCount + ts.length ≤ maxTasks) :
    ∃ s', run s (ts.map .register) = some (s', (List.range ts.length).map fun k => some (s.taskCount + k)) ∧
      s'.taskCount = s.taskCount + ts.length ∧ s'.tickUs = s.tickUs ∧ s'.currentTask = s.currentTask ∧
      s'.contextSwitches = s.contextSwitches ∧
      ∀ j : Fin maxTasks, s'.tasks j =
        if s.taskCount ≤ j.val ∧ j.val < s.taskCount + ts.length
        then { ts.getD (j.val - s.taskCount) Task.empty with nextActivation := s.tickUs } else s.tasks j := by
  induction ts generalizing s with
  | nil => exact ⟨s, rfl, rfl, rfl, rfl, rfl, fun j => by rw [if_neg (by simp only [List.length_nil]; omega)]⟩
  | cons t ts ih =>
    have hlt : s.taskCount < maxTasks := by simp only [List.length_cons] at hfit; omega
    have hc : (s.register t).1.taskCount = s.taskCount + 1 := by rw [register_taskCount, if_pos hlt]
    obtain ⟨s', hrun, hcount, htick, hcur, hcs, htasks⟩ :=
      ih (s.register t).1 (by simp only [List.length_cons] at hfit; omega)
    refine ⟨s', run_eq_some.mpr ⟨(s.register t).1, (s.register t).2, _, rfl, hrun, ?_⟩, by simp only [hcount, hc, List.length_cons]; omega,
      by simp [htick], by simp [hcur], by simp [hcs], fun j => ?_⟩
    · rw [register_snd, if_pos hlt, hc, List.length_cons, List.range_succ_eq_map, List.map_cons,
        List.map_map, Nat.add_zero]
      congr 2
      funext k
      exact congrArg some (by omega)
    · rw [htasks, hc, register_tasks, register_tickUs, List.length_cons]
      rcases Nat.lt_or_ge j.val s.taskCount with hj | hj
      · rw [if_neg (by omega), if_neg (by omega), if_neg (by omega)]
      · rcases Nat.eq_or_lt_of_le hj with hj | hj
        · rw [if_neg (by omega), if_pos hj.symm, if_pos (by omega), ← hj, Nat.sub_self, List.getD_cons_zero]
        · by_cases hin : j.val < s.taskCount + 1 + ts.length
          · rw [if_pos ⟨hj, hin⟩, if_pos ⟨by omega, by omega⟩,
              show j.val - s.taskCount = j.val - (s.taskCount + 1) + 1 by omega, List.getD_cons_succ]
          · rw [if_neg (fun c => hin c.2), if_neg (by omega), if_neg (by omega)]

/-- The block's slots: the `k`-th registration of a block lands in slot `base + k`. -/
def blockSlot (base n : Nat) (hfit : base + n ≤ maxTasks) : Fin n ↪ Fin maxTasks :=
  ⟨fun k => ⟨base + k.val, by omega⟩, fun a b e => Fin.ext (by simpa using congrArg Fin.val e)⟩

/-- The slot permutation of a block registered in the order `π`: the task in
slot `base + k` of the first run sits in slot `base + π⁻¹ k` of the second. -/
def blockPerm (base n : Nat) (hfit : base + n ≤ maxTasks) (π : Equiv.Perm (Fin n)) :
    Equiv.Perm (Fin maxTasks) :=
  Equiv.Perm.viaFintypeEmbedding π.symm (blockSlot base n hfit)

section
variable {base n : Nat} {hfit : base + n ≤ maxTasks} {π : Equiv.Perm (Fin n)}

theorem blockPerm_block (k : Fin n) (hk : base + k.val < maxTasks) :
    blockPerm base n hfit π ⟨base + k.val, hk⟩ = ⟨base + (π.symm k).val, by omega⟩ :=
  Equiv.Perm.viaFintypeEmbedding_apply_image π.symm (blockSlot base n hfit) k

theorem blockPerm_outside (j : Fin maxTasks) (hj : ¬(base ≤ j.val ∧ j.val < base + n)) :
    blockPerm base n hfit π j = j := by
  refine Equiv.Perm.viaFintypeEmbedding_apply_not_mem_range π.symm (blockSlot base n hfit) ?_
  rintro ⟨k, rfl⟩
  exact hj ⟨Nat.le_add_right _ _, Nat.add_lt_add_left k.isLt _⟩

end

theorem getD_ofFn_perm {ts : List Task} (π : Equiv.Perm (Fin ts.length)) (k : Fin ts.length) :
    (List.ofFn fun m => ts.get (π m)).getD k.val Task.empty = ts.getD (π k).val Task.empty := by
  rw [List.getD_eq_getElem _ _ (by simp), List.getD_eq_getElem _ _ (π k).isLt, List.getElem_ofFn]
  rfl

/-- **Registration order.** Take a reachable state and a block of registrations
that fits in the table, and register the block once as it is and once in the
order `π`. Both runs return the same indices and end in states equal up to the
slot permutation `σ` that moves slot `taskCount + k` to `taskCount + π⁻¹ k` and
fixes every other slot. Every continuation of the first run that ends with the
registered tasks at pairwise distinct priorities is matched by the same calls,
with `suspend` and `resume` indices read through `σ`, on the second: each call
returns the index `σ` maps the first run's to, a slot holding the same task, and
the two states stay equal up to `σ`. -/
theorem registration_order_irrelevant {s₀ : Scheduler} (h₀ : Reachable s₀) (block : List Task)
    (π : Equiv.Perm (Fin block.length)) (hfit : s₀.taskCount + block.length ≤ maxTasks) :
    ∃ σ : Equiv.Perm (Fin maxTasks),
      (∀ j, ¬(s₀.taskCount ≤ j.val ∧ j.val < s₀.taskCount + block.length) → σ j = j) ∧
      (∀ (k : Fin block.length) (hk : s₀.taskCount + k.val < maxTasks),
        (σ ⟨s₀.taskCount + k.val, hk⟩).val = s₀.taskCount + (π.symm k).val) ∧
      ∃ s₁ s₂ rs, run s₀ (block.map .register) = some (s₁, rs) ∧
        run s₀ ((List.ofFn fun k => block.get (π k)).map .register) = some (s₂, rs) ∧
        Related σ s₁ s₂ ∧
        ∀ post f₁ rs₁, run s₁ post = some (f₁, rs₁) → DistinctPriorities f₁ →
          ∃ f₂, run s₂ (post.map (Op.translate (permIdx σ))) = some (f₂, rs₁.map (Option.map (permIdx σ))) ∧
            Related σ f₁ f₂ := by
  set σ := blockPerm s₀.taskCount block.length hfit π
  have hfit' : s₀.taskCount + (List.ofFn fun k => block.get (π k)).length ≤ maxTasks := by
    rwa [List.length_ofFn]
  obtain ⟨s₁, hrun₁, hc₁, ht₁, hcur₁, hcs₁, htasks₁⟩ := run_register_block s₀ block hfit
  obtain ⟨s₂, hrun₂, hc₂, ht₂, hcur₂, hcs₂, htasks₂⟩ := run_register_block s₀ _ hfit'
  rw [List.length_ofFn] at hrun₂ hc₂ htasks₂
  have hcur : s₀.currentTask = s₀.currentTask.map (permIdx σ) := by
    cases hc : s₀.currentTask with
    | none => rfl
    | some i =>
      have hi := h₀.tableInv.current i hc
      have hI : i < maxTasks := Nat.lt_of_lt_of_le hi s₀.taskCount_le
      rw [Option.map_some', show i = (⟨i, hI⟩ : Fin maxTasks).val from rfl, permIdx_fin,
        blockPerm_outside _ (by simp only; omega)]
  have hrel : Related σ s₁ s₂ := by
    refine ⟨by rw [hc₁, hc₂], by rw [ht₁, ht₂], by rw [hcs₁, hcs₂], by rw [hcur₁, hcur₂, ← hcur],
      fun j => ?_, fun j hj => blockPerm_outside j (by omega)⟩
    by_cases hj : s₀.taskCount ≤ j.val ∧ j.val < s₀.taskCount + block.length
    · obtain ⟨k, hk⟩ : ∃ k : Fin block.length, j = ⟨s₀.taskCount + k.val, by omega⟩ :=
        ⟨⟨j.val - s₀.taskCount, by omega⟩, Fin.ext (by simp only; omega)⟩
      rw [hk, blockPerm_block, htasks₁, htasks₂, if_pos (by simp only; omega), if_pos (by simp only; omega)]
      simp only [Nat.add_sub_cancel_left, getD_ofFn_perm, Equiv.apply_symm_apply]
    · rw [blockPerm_outside j hj, htasks₁, htasks₂, if_neg hj, if_neg hj]
  exact ⟨σ, blockPerm_outside, fun k hk => congrArg Fin.val (blockPerm_block k hk), s₁, s₂, _, hrun₁,
    hrun₂, hrel, fun post f₁ rs₁ hr hd => hrel.run hr hd⟩

theorem registration_order_irrelevant_swap :
    Reachable Scheduler.new ∧
      Scheduler.new.taskCount + [Task.new [97] (fun scratch => some scratch) TaskPriority.high 100 10,
        Task.new [98] (fun scratch => some scratch) TaskPriority.low 200 10].length ≤ maxTasks ∧
      ∃ σ : Equiv.Perm (Fin maxTasks), σ ⟨0, maxTasks_pos⟩ = ⟨1, by decide⟩ := by
  obtain ⟨σ, -, hσ, -⟩ := registration_order_irrelevant ReachableWith.new
    [Task.new [97] (fun scratch => some scratch) TaskPriority.high 100 10,
      Task.new [98] (fun scratch => some scratch) TaskPriority.low 200 10]
    (Equiv.swap ⟨0, by decide⟩ ⟨1, by decide⟩) (by decide)
  exact ⟨ReachableWith.new, by decide, σ, Fin.ext ((hσ ⟨0, by decide⟩ (by decide)).trans (by decide))⟩

set_option maxRecDepth 4000 in
/-- Fifteen tasks, then a block of two that no longer fits: in each order the
first of the block takes the last slot and the second is refused, so after the
first tick the two runs hold, and have dispatched, different tasks, and no slot
permutation matches their next activations. -/
theorem registration_order_matters_when_full :
    let pre : List Op := (List.range 15).map fun p =>
      .register (Task.new [] (fun scratch => some scratch) ⟨UInt8.ofNat (30 + p)⟩ 1000 10)
    let a := Task.new [97] (fun scratch => some scratch) ⟨20⟩ 100 10
    let b := Task.new [98] (fun scratch => some scratch) ⟨21⟩ 200 10
    ((registered (pre ++ [.register a, .register b])).map Task.priority).Nodup ∧
      ∃ s₁ s₂ rs, run Scheduler.new (pre ++ [.register a, .register b, .tick 0]) = some (s₁, rs) ∧
        run Scheduler.new (pre ++ [.register b, .register a, .tick 0]) = some (s₂, rs) ∧
        rs.getLast? = some (some 15) ∧ (s₁.slot 15).priority = ⟨20⟩ ∧ (s₂.slot 15).priority = ⟨21⟩ ∧
        ¬ ∃ σ : Equiv.Perm (Fin maxTasks), ∀ j, (s₂.tasks (σ j)).nextActivation = (s₁.tasks j).nextActivation := by
  intro pre a b
  have hrs : (run Scheduler.new (pre ++ [.register b, .register a, .tick 0])).map Prod.snd =
      (run Scheduler.new (pre ++ [.register a, .register b, .tick 0])).map Prod.snd := by decide
  have h₁ : (run Scheduler.new (pre ++ [.register a, .register b, .tick 0])).all fun x =>
      x.2.getLast? = some (some 15) ∧ (x.1.slot 15).priority = ⟨20⟩ ∧
        (x.1.tasks ⟨15, by decide⟩).nextActivation = 100 := by decide
  have h₂ : (run Scheduler.new (pre ++ [.register b, .register a, .tick 0])).all fun x =>
      (x.1.slot 15).priority = ⟨21⟩ ∧ ∀ k, (x.1.tasks k).nextActivation ≠ 100 := by decide
  obtain ⟨⟨s₁, rs⟩, hr₁⟩ : ∃ x, run Scheduler.new (pre ++ [.register a, .register b, .tick 0]) = some x :=
    Option.isSome_iff_exists.mp (by decide)
  obtain ⟨⟨s₂, rs₂⟩, hr₂⟩ : ∃ x, run Scheduler.new (pre ++ [.register b, .register a, .tick 0]) = some x :=
    Option.isSome_iff_exists.mp (by decide)
  simp only [hr₁, hr₂, Option.map_some', Option.some.injEq, Option.all_some, decide_eq_true_eq] at hrs h₁ h₂
  obtain ⟨hlast, hp₁, hn₁⟩ := h₁
  obtain ⟨hp₂, hn₂⟩ := h₂
  subst hrs
  exact ⟨by decide, s₁, s₂, _, hr₁, hr₂, hlast, hp₁, hp₂, fun ⟨σ, hσ⟩ => hn₂ _ ((hσ _).trans hn₁)⟩

end AliceRtos.Scheduler
