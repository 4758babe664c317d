import AliceRtos.Scheduler.Run

/-! The current task and the context-switch counter over a run.

Only `tick` writes `current_task` and `context_switches`: after a tick the
current task is what the tick returned, and the counter moved by one exactly
when the tick dispatched a task other than the current one (`tick_switches`).
Over a whole run from `Scheduler::new()` (`context_switches_count`), the current
task is the last tick's result, `None` before the first tick, and the counter is
the number of tick results that dispatched a task other than the result of the
tick before. The count is exact, not only modulo `2³²`: the tick whose `+= 1`
would wrap the counter panics. -/
namespace AliceRtos.Scheduler

/-- What the ticks of a run returned, in order: the results of the calls that
were ticks. -/
def tickResults : List Op → List (Option Nat) → List (Option Nat)
  | .tick _ :: ops, r :: rs => r :: tickResults ops rs
  | _ :: ops, _ :: rs => tickResults ops rs
  | _, _ => []

/-- The tick results that dispatched a task and not the task of the result
before, `prev` standing before the first. -/
def switches (prev : Option Nat) : List (Option Nat) → Nat
  | [] => 0
  | r :: rs => (if r.isSome ∧ r ≠ prev then 1 else 0) + switches r rs

/-- **One tick.** The current task becomes the tick's result, and the counter
moves by one exactly when that result is a task other than the current one. -/
theorem tick_switches {s s' : Scheduler} {d : UInt64} {r : Option Nat} (h : s.tick d = some (s', r)) :
    s'.currentTask = r ∧
      s'.contextSwitches.toNat = s.contextSwitches.toNat + if r.isSome ∧ r ≠ s.currentTask then 1 else 0 := by
  refine ⟨tick_currentTask h, ?_⟩
  rcases dispatch_eq_some.mp (tick_eq_some.mp h).2 with ⟨-, rfl, rfl⟩ | ⟨i, hi, -, rfl, hroom, -, rfl⟩
  · rfl
  · simp only [setTask_contextSwitches, switched_contextSwitches, woken_currentTask,
      woken_contextSwitches, Option.isSome_some, true_and] at hroom ⊢
    by_cases hc : s.currentTask = some i
    · simp [hc]
    · rw [if_pos hc, if_pos (Ne.symm hc)]
      exact toNat_add_of_lt s.contextSwitches 1 (hroom hc)

/-- **A run.** From any state, the current task ends as the last tick's result,
or as it was if no call ticked, and the counter grows by the switches among the
tick results. -/
theorem run_switches {s s' : Scheduler} {ops : List Op} {rs : List (Option Nat)}
    (h : run s ops = some (s', rs)) :
    s'.currentTask = (tickResults ops rs).getLastD s.currentTask ∧
      s'.contextSwitches.toNat =
        s.contextSwitches.toNat + switches s.currentTask (tickResults ops rs) := by
  induction ops generalizing s rs with
  | nil =>
    cases h
    exact ⟨rfl, rfl⟩
  | cons op ops ih =>
    obtain ⟨s₁, r, rs', h₁, h₂, rfl⟩ := run_eq_some.mp h
    cases op with
    | tick d =>
      obtain ⟨hcur, hcs⟩ := ih h₂
      obtain ⟨hcur₁, hcs₁⟩ := tick_switches h₁
      rw [hcur₁] at hcur hcs
      simp only [tickResults, switches, List.getLastD_cons]
      exact ⟨hcur, by omega⟩
    | register task =>
      obtain rfl : s₁ = (s.register task).1 := congrArg Prod.fst (Option.some.inj h₁).symm
      simpa [tickResults] using ih h₂
    | suspend idx | resume idx =>
      cases h₁
      simpa [tickResults] using ih h₂

/-- **Context switches over a run.** After any run from `Scheduler::new()`,
`current_task` is the result of the last tick, `None` before the first, and
`context_switches` is the number of tick results `r_m` that are `Some` and
differ from `r_(m-1)`, with `r_0 = None`. -/
theorem context_switches_count {ops : List Op} {s : Scheduler} {rs : List (Option Nat)}
    (h : run Scheduler.new ops = some (s, rs)) :
    s.currentTask = (tickResults ops rs).getLastD none ∧
      s.contextSwitches.toNat = switches none (tickResults ops rs) := by
  obtain ⟨hcur, hcs⟩ := run_switches h
  exact ⟨hcur, hcs.trans (Nat.zero_add _)⟩

theorem context_switches_count_resumed :
    let ops : List Op := [.register (Task.new [116] (fun scratch => some scratch) TaskPriority.normal 100 10),
      .tick 0, .tick 0, .suspend 0, .tick 100, .resume 0, .tick 0]
    ∃ s rs, run Scheduler.new ops = some (s, rs) ∧
      s.currentTask = (tickResults ops rs).getLastD none ∧
      s.contextSwitches.toNat = switches none (tickResults ops rs) :=
  ⟨_, _, rfl, context_switches_count rfl⟩

end AliceRtos.Scheduler
