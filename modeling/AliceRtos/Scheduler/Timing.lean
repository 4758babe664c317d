import AliceRtos.Scheduler.Dispatches
import AliceRtos.Scheduler.Release

/-! What the scheduler guarantees about time.

Activations never run ahead: in every reachable state a registered task's next
activation is at most one period after the clock (`Tracked.activationsBounded`).
With the release bookkeeping of `Release` (activation = `base + runs · period`)
this limits the rate: since its registration or last resume a task has been
dispatched at most once per period, plus once (`dispatch_rate`).

Deadlines. `tick` counts a deadline miss when it dispatches a task later than
one period after its activation. For one task the scheduler does better than
count: the task that wins the selection against every other registered slot
(`Wins`) is dispatched by the first tick that finds it ready or due
(`Wins.tick_dispatches`), so while no tick is longer than its period it is never
late. `OnTime` says so of a slot and a clock: ready only at its activation, the
clock not past its activation while it sleeps, and no miss counted. Every call
keeps it (`onTime_step`), and over a run from `Scheduler::new()` in which the
task ends up winning and no tick exceeds its period, its `deadline_misses` stays
0 (`winner_meets_deadlines`). Nor is the winner ever starved: from a reachable
state, every run of ticks that moves the clock by at least its period dispatches
it (`winner_not_starved`). -/
namespace AliceRtos.Scheduler

/-- A tick moves the clock by its delta. -/
theorem tick_tickUs {s s' : Scheduler} {d : UInt64} {r : Option Nat} (h : s.tick d = some (s', r)) :
    s'.tickUs = s.tickUs + d := by
  rcases dispatch_eq_some.mp (tick_eq_some.mp h).2 with ⟨-, -, rfl⟩ | ⟨i, hi, -, -, -, -, rfl⟩ <;> rfl

/-- A registered sleeping slot that is not a candidate at `now` is not yet due. -/
theorem lt_of_not_candidate {s : Scheduler} {now : UInt64} {i : Fin maxTasks} (hi : i.val < s.taskCount)
    (hsl : (s.tasks i).state = .sleeping) (hc : ¬s.Candidate now i.val) :
    now.toNat < (s.tasks i).nextActivation.toNat :=
  Nat.lt_of_not_le fun c => hc ⟨hi, .inr ⟨slot_eq s i ▸ hsl, slot_eq s i ▸ le_iff_toNat64.mpr c⟩⟩

/-- A tick does not dispatch a slot it finds neither ready nor due, and leaves it as it was. -/
theorem tick_not_candidate {s s' : Scheduler} {d : UInt64} {r : Option Nat} {i : Fin maxTasks}
    (ht : s.tick d = some (s', r)) (hc : ¬s.Candidate (s.tickUs + d) i.val) :
    r ≠ some i.val ∧ s'.tasks i = s.tasks i := by
  have hr : r ≠ some i.val := fun e => hc ((woken_readyAt_iff s _ _).mp (tick_dispatches_best (e ▸ ht)).1)
  refine ⟨hr, ?_⟩
  rw [tick_other_slot ht i hr,
    if_neg fun c => hc ⟨c.1, .inr ⟨slot_eq s i ▸ c.2.1, slot_eq s i ▸ tick_tickUs ht ▸ c.2.2⟩⟩]

/-! ### Activations never run ahead -/

/-- Every registered task's next activation is at most one period after the clock. -/
def ActivationsBounded (s : Scheduler) : Prop :=
  ∀ j : Fin maxTasks, j.val < s.taskCount →
    (s.tasks j).nextActivation.toNat ≤ s.tickUs.toNat + (s.tasks j).periodUs.toNat

/-- One call keeps the bound, given that a ready task is due. -/
theorem ActivationsBounded.step {s s' : Scheduler} {op : Op} {r : Option Nat} (h : ActivationsBounded s)
    (hready : ∀ j : Fin maxTasks, j.val < s.taskCount → (s.tasks j).state = .ready →
      (s.tasks j).nextActivation.toNat ≤ s.tickUs.toNat)
    (hs : s.step op = some (s', r)) : ActivationsBounded s' := by
  intro j hj
  cases op with
  | register task =>
    obtain rfl : s' = (s.register task).1 := congrArg Prod.fst (Option.some.inj hs).symm
    rw [register_tasks, register_tickUs]
    split
    · exact Nat.le_add_right _ _
    · rw [register_taskCount] at hj
      exact h j (by split at hj <;> omega)
  | tick d =>
    rw [tick_taskCount hs] at hj
    have hclock := tick_clock hs
    by_cases hr : r = some j.val
    · subst hr
      obtain ⟨_, next, _, he, -, hnext, -⟩ := tick_dispatched_slot hs
      have hdue : (s.tasks j).nextActivation.toNat ≤ s'.tickUs.toNat := by
        have hw := (tick_dispatches_best hs).1.2
        rw [slot_eq] at hw
        rcases woken_ready hw with hrd | hle
        · exact Nat.le_trans (hready j hj hrd) (by omega)
        · rwa [le_iff_toNat64, ← tick_tickUs hs] at hle
      rw [he]
      show next.toNat ≤ _ + (s.tasks j).periodUs.toNat
      omega
    · have hkeep : (s'.tasks j).nextActivation = (s.tasks j).nextActivation ∧
          (s'.tasks j).periodUs = (s.tasks j).periodUs := by
        rw [tick_other_slot hs j hr]
        split <;> exact ⟨rfl, rfl⟩
      rw [hkeep.1, hkeep.2]
      have := h j hj
      omega
  | suspend idx =>
    cases hs
    rw [suspend_taskCount] at hj
    rw [suspend_tasks, suspend_tickUs]
    split <;> exact h j hj
  | resume idx =>
    cases hs
    rw [resume_taskCount] at hj
    rw [resume_tasks, resume_tickUs]
    split
    · exact Nat.le_add_right _ _
    · exact h j hj

theorem Tracked.activationsBounded {s : Scheduler} {g : Releases} (h : Tracked s g) : ActivationsBounded s := by
  induction h with
  | new => exact fun _ hj => absurd hj (Nat.not_lt_zero _)
  | step _ ht hs ih => exact ih.step (fun j hj => (ht.releaseInv j hj).1) hs

/-- **Dispatches are rate-limited.** In every reachable state with its
bookkeeping, a registered task's next activation is at most one period after the
clock, so its dispatches since its registration or last resume, one period each,
fit in the time since then plus one period: `base + runs · period ≤ now + period`. -/
theorem dispatch_rate {s : Scheduler} {g : Releases} (h : Tracked s g) (j : Fin maxTasks)
    (hj : j.val < s.taskCount) :
    (s.tasks j).nextActivation.toNat ≤ s.tickUs.toNat + (s.tasks j).periodUs.toNat ∧
      g.base j + g.runs j * (s.tasks j).periodUs.toNat ≤ s.tickUs.toNat + (s.tasks j).periodUs.toNat := by
  have hbound := h.activationsBounded j hj
  exact ⟨hbound, (h.releaseInv j hj).2 ▸ hbound⟩

/-- A task of period 100 dispatched at 0 and at 100, then a tick of 50: two runs
since its release, and the bound holds with the clock at 150. -/
theorem dispatch_rate_first_task :
    ∃ s g, Tracked s g ∧ 0 < s.taskCount ∧ g.runs 0 = 2 ∧ s.tickUs = 150 ∧
      (s.tasks ⟨0, maxTasks_pos⟩).nextActivation.toNat ≤
        s.tickUs.toNat + (s.tasks ⟨0, maxTasks_pos⟩).periodUs.toNat ∧
      g.base 0 + g.runs 0 * (s.tasks ⟨0, maxTasks_pos⟩).periodUs.toNat ≤
        s.tickUs.toNat + (s.tasks ⟨0, maxTasks_pos⟩).periodUs.toNat := by
  let task := Task.new [] (fun scratch => some scratch) TaskPriority.normal 100 10
  let s₁ := (Scheduler.new.register task).1
  have h₂ := (Tracked.new.step (.register task) rfl).step (.tick 0)
    (tick_eq_of_result (s := s₁) (r := some 0) (by decide))
  have h₃ := h₂.step (.tick 100) (tick_eq_of_result (r := some 0) (by decide))
  have h₄ := h₃.step (.tick 50) (tick_eq_of_result (r := none) (by decide))
  exact ⟨_, _, h₄, by decide, rfl, by decide, dispatch_rate h₄ ⟨0, maxTasks_pos⟩ (by decide)⟩

/-! ### The winner's deadlines -/

/-- Task `t` is on time at clock `now`: ready only at its activation, not behind
its activation while it sleeps, and no deadline miss counted. -/
structure OnTime (t : Task) (now : Nat) : Prop where
  ready : t.state = .ready → t.nextActivation.toNat = now
  sleeping : t.state = .sleeping → now ≤ t.nextActivation.toNat
  no_miss : t.deadlineMisses = 0

section
variable {s s' : Scheduler} {i : Fin maxTasks}

/-- Slots are only added and keep their priorities, so a registered winner at the
end of a run was a winner all along. -/
theorem Wins.of_run {ops : List Op} {rs : List (Option Nat)} (hr : run s ops = some (s', rs))
    (hi : i.val < s.taskCount) (h : Wins s' i) : Wins s i := by
  obtain ⟨hle, hkeep⟩ := run_statics hr
  refine ⟨(hkeep i hi).2.1 ▸ h.below_idle, fun j hj hji => ?_⟩
  rw [← (hkeep i hi).2.1, ← (hkeep j hj).2.1]
  exact h.wins j (Nat.lt_of_lt_of_le hj hle) hji

/-- A tick that finds the winner ready or due dispatches it. -/
theorem Wins.tick_dispatches {d : UInt64} {r : Option Nat} (h : Wins s i) (hc : s.Candidate (s.tickUs + d) i.val)
    (ht : s.tick d = some (s', r)) : r = some i.val :=
  h.tick_dispatches_ready ((woken_readyAt_iff s _ _).mpr hc) ht

/-- Over a non-empty run of ticks, the winner, ready or sleeping with its activation
reached by the end of the run, is dispatched by one of the ticks. -/
theorem Wins.dispatched_by {ds : List UInt64} {rs : List (Option Nat)} (h : Wins s i)
    (hi : i.val < s.taskCount) (hne : ds ≠ [])
    (hdue : (s.tasks i).state = .ready ∨ (s.tasks i).state = .sleeping ∧
      (s.tasks i).nextActivation.toNat ≤ s.tickUs.toNat + (ds.map UInt64.toNat).sum)
    (hr : run s (ds.map Op.tick) = some (s', rs)) : some i.val ∈ rs := by
  induction ds generalizing s rs with
  | nil => exact absurd rfl hne
  | cons d ds ih =>
    obtain ⟨s₁, r, rs', h₁, h₂, rfl⟩ := run_eq_some.mp hr
    have hd := (tick_eq_some.mp h₁).1
    by_cases hc : s.Candidate (s.tickUs + d) i.val
    · rw [h.tick_dispatches hc h₁]
      exact List.mem_cons_self _ _
    · obtain ⟨hsl, hle⟩ := hdue.resolve_left fun hrd => hc ⟨hi, .inl (slot_eq s i ▸ hrd)⟩
      have hlate := lt_of_not_candidate hi hsl hc
      rw [toNat_add_of_lt _ _ hd] at hlate
      obtain ⟨-, hslot⟩ := tick_not_candidate h₁ hc
      cases ds with
      | nil =>
        simp only [List.map_cons, List.map_nil, List.sum_cons, List.sum_nil] at hle
        omega
      | cons d' ds' =>
        refine List.mem_cons_of_mem _ (ih (h.tick h₁) (tick_taskCount h₁ ▸ hi) (List.cons_ne_nil _ _) ?_ h₂)
        rw [hslot, tick_clock h₁]
        simp only [List.map_cons, List.sum_cons] at hle ⊢
        exact .inr ⟨hsl, by omega⟩

end

/-! ### One call -/

/-- A task on time, dispatched by a tick no longer than its period: it is not late,
and it sleeps until an activation not before the new clock. -/
theorem OnTime.dispatched {t : Task} {c d : Nat} (h : OnTime t c)
    (hdue : t.state = .ready ∨ t.state = .sleeping ∧ t.nextActivation.toNat ≤ c + d)
    (hd : d ≤ t.periodUs.toNat) {exec next misses : _}
    (hnext : next.toNat = t.nextActivation.toNat + t.periodUs.toNat)
    (hmisses : misses.toNat = if t.nextActivation.toNat + t.periodUs.toNat < c + d
      then t.deadlineMisses.toNat + 1 else t.deadlineMisses.toNat) :
    OnTime { t with state := .sleeping, execCount := exec, nextActivation := next, deadlineMisses := misses }
      (c + d) := by
  have hc : c ≤ t.nextActivation.toNat := by
    rcases hdue with hr | ⟨hs, -⟩
    · exact Nat.le_of_eq (h.ready hr).symm
    · exact h.sleeping hs
  rw [if_neg (by omega), h.no_miss] at hmisses
  exact ⟨nofun, fun _ => by dsimp only; omega, UInt32.toNat.inj hmisses⟩

/-- **One call.** A call keeps the task in slot `i` on time, if it wins, the
tasks registered are built by `Task::new`, and a tick is no longer than its period. -/
theorem onTime_step {s s' : Scheduler} {op : Op} {r : Option Nat} {i : Fin maxTasks}
    (h : i.val < s.taskCount → OnTime (s.tasks i) s.tickUs.toNat) (hw : i.val < s.taskCount → Wins s i)
    (hP : ∀ t ∈ registered [op], t.IsNew)
    (hd : ∀ d, op = .tick d → i.val < s.taskCount → d.toNat ≤ (s.tasks i).periodUs.toNat)
    (hs : s.step op = some (s', r)) : i.val < s'.taskCount → OnTime (s'.tasks i) s'.tickUs.toNat := by
  intro hi'
  cases op with
  | register task =>
    obtain rfl : s' = (s.register task).1 := congrArg Prod.fst (Option.some.inj hs).symm
    rw [register_tasks, register_tickUs]
    split
    · obtain ⟨_, _, _, _, _, rfl⟩ := hP _ (List.mem_singleton_self _)
      exact ⟨fun _ => rfl, nofun, rfl⟩
    · rw [register_taskCount] at hi'
      exact h (by split at hi' <;> omega)
  | tick d =>
    rw [tick_taskCount hs] at hi'
    have hclock := tick_clock hs
    by_cases hc : s.Candidate (s.tickUs + d) i.val
    · have hr := (hw hi').tick_dispatches hc hs
      subst hr
      obtain ⟨_, _, _, he, -, hnext, hmisses⟩ := tick_dispatched_slot hs
      rw [he, hclock]
      rw [hclock] at hmisses
      refine (h hi').dispatched ?_ (hd d rfl hi') hnext hmisses
      rcases hc.2 with hr | ⟨hsl, hle⟩
      · exact .inl (slot_eq s i ▸ hr)
      · rw [slot_eq, le_iff_toNat64, ← tick_tickUs hs, hclock] at hle
        exact .inr ⟨slot_eq s i ▸ hsl, hle⟩
    · obtain ⟨-, hslot⟩ := tick_not_candidate hs hc
      rw [hslot, hclock]
      refine ⟨fun hrd => absurd ⟨hi', .inl (slot_eq s i ▸ hrd)⟩ hc, fun hsl => ?_, (h hi').no_miss⟩
      have hlate := lt_of_not_candidate hi' hsl hc
      rw [toNat_add_of_lt _ _ (tick_eq_some.mp hs).1] at hlate
      omega
  | suspend idx =>
    cases hs
    rw [suspend_tasks, suspend_tickUs]
    rw [suspend_taskCount] at hi'
    split
    · exact ⟨nofun, nofun, (h hi').no_miss⟩
    · exact h hi'
  | resume idx =>
    cases hs
    rw [resume_tasks, resume_tickUs]
    rw [resume_taskCount] at hi'
    split
    · exact ⟨fun _ => rfl, nofun, (h hi').no_miss⟩
    · exact h hi'

/-! ### Runs -/

/-- **A run.** Over a run registering tasks built by `Task::new`, in which slot `i`
ends up winning and no tick is longer than its period, the task stays on time. -/
theorem onTime_run {s s' : Scheduler} {ops : List Op} {rs : List (Option Nat)} {i : Fin maxTasks}
    (h : i.val < s.taskCount → OnTime (s.tasks i) s.tickUs.toNat)
    (hP : ∀ t ∈ registered ops, t.IsNew) (hr : run s ops = some (s', rs))
    (hw : i.val < s'.taskCount → Wins s' i)
    (hd : ∀ d, Op.tick d ∈ ops → d.toNat ≤ (s'.tasks i).periodUs.toNat) :
    i.val < s'.taskCount → OnTime (s'.tasks i) s'.tickUs.toNat := by
  induction ops generalizing s rs with
  | nil =>
    cases hr
    exact h
  | cons op ops ih =>
    obtain ⟨s₁, r, rs', h₁, h₂, rfl⟩ := run_eq_some.mp hr
    rw [show op :: ops = [op] ++ ops from rfl, registered_append] at hP
    obtain ⟨hle, hkeep⟩ := run_statics hr
    have hw₀ : i.val < s.taskCount → Wins s i := fun hi => Wins.of_run hr hi (hw (Nat.lt_of_lt_of_le hi hle))
    have hd₀ : ∀ d, op = .tick d → i.val < s.taskCount → d.toNat ≤ (s.tasks i).periodUs.toNat :=
      fun d e hi => (hkeep i hi).2.2 ▸ hd d (e ▸ List.mem_cons_self _ _)
    exact ih (onTime_step h hw₀ (fun t ht => hP t (List.mem_append_left _ ht)) hd₀ h₁)
      (fun t ht => hP t (List.mem_append_right _ ht)) h₂ (fun d hm => hd d (List.mem_cons_of_mem _ hm))

/-- **The winner meets its deadlines.** After any run from `Scheduler::new()` that
registers tasks built by `Task::new`, let slot `i` hold a registered task below
`IDLE` that wins the selection against every other registered slot. If no tick of
the run was longer than its period, it was never dispatched late: its
`deadline_misses` is 0. Nor is it behind: it is ready only at its activation,
and while it sleeps the clock is not past its activation. -/
theorem winner_meets_deadlines {ops : List Op} {s : Scheduler} {rs : List (Option Nat)}
    (hP : ∀ t ∈ registered ops, t.IsNew) (hr : run Scheduler.new ops = some (s, rs)) {i : Fin maxTasks}
    (hi : i.val < s.taskCount) (hw : Wins s i)
    (hd : ∀ d, Op.tick d ∈ ops → d.toNat ≤ (s.tasks i).periodUs.toNat) :
    (s.tasks i).deadlineMisses = 0 ∧
      ((s.tasks i).state = .ready → (s.tasks i).nextActivation.toNat = s.tickUs.toNat) ∧
      ((s.tasks i).state = .sleeping → s.tickUs.toNat ≤ (s.tasks i).nextActivation.toNat) := by
  have h := onTime_run (fun h₀ => absurd h₀ (Nat.not_lt_zero _)) hP hr (fun _ => hw) hd hi
  exact ⟨h.no_miss, h.ready, h.sleeping⟩

theorem winner_meets_deadlines_high :
    let ops : List Op := [.register (Task.new [104] (fun scratch => some scratch) TaskPriority.high 100 10),
      .register (Task.new [108] (fun scratch => some scratch) TaskPriority.normal 100 10), .tick 50, .tick 100, .tick 100]
    ∃ s rs, run Scheduler.new ops = some (s, rs) ∧ (∀ t ∈ registered ops, t.IsNew) ∧
      0 < s.taskCount ∧ Wins s ⟨0, maxTasks_pos⟩ ∧
      (∀ d, Op.tick d ∈ ops → d.toNat ≤ (s.tasks ⟨0, maxTasks_pos⟩).periodUs.toNat) ∧
      (s.tasks ⟨0, maxTasks_pos⟩).deadlineMisses = 0 ∧
      ((s.tasks ⟨0, maxTasks_pos⟩).state = .ready →
        (s.tasks ⟨0, maxTasks_pos⟩).nextActivation.toNat = s.tickUs.toNat) ∧
      ((s.tasks ⟨0, maxTasks_pos⟩).state = .sleeping →
        s.tickUs.toNat ≤ (s.tasks ⟨0, maxTasks_pos⟩).nextActivation.toNat) := by
  intro ops
  have hr : run Scheduler.new ops = some (((run Scheduler.new ops).getD (Scheduler.new, [])).1,
      ((run Scheduler.new ops).getD (Scheduler.new, [])).2) := rfl
  have hP : ∀ t ∈ registered ops, t.IsNew := by
    intro t ht
    rcases List.mem_pair.mp ht with rfl | rfl <;> exact ⟨_, _, _, _, _, rfl⟩
  have hw : Wins ((run Scheduler.new ops).getD (Scheduler.new, [])).1 ⟨0, maxTasks_pos⟩ :=
    ⟨by decide, by decide⟩
  have hd : ∀ d, Op.tick d ∈ ops →
      d.toNat ≤
        (((run Scheduler.new ops).getD (Scheduler.new, [])).1.tasks ⟨0, maxTasks_pos⟩).periodUs.toNat := by
    intro d hd
    simp only [ops, List.mem_cons, Op.tick.injEq, List.mem_nil_iff, or_false, reduceCtorEq, false_or] at hd
    rcases hd with rfl | rfl | rfl <;> decide
  exact ⟨_, _, hr, hP, by decide, hw, hd, winner_meets_deadlines hP hr (by decide) hw hd⟩

/-! ### The winner is never starved -/

/-- **The winner is never starved.** In a reachable state, let slot `i` hold a
registered task, ready or sleeping, that wins the selection against every other
registered slot. Every non-empty run of ticks that moves the clock by at least
its period dispatches it at least once. -/
theorem winner_not_starved {s s' : Scheduler} {g : Releases} (h : Tracked s g) {i : Fin maxTasks}
    (hi : i.val < s.taskCount) (hw : Wins s i) (hst : (s.tasks i).state = .ready ∨ (s.tasks i).state = .sleeping)
    {ds : List UInt64} {rs : List (Option Nat)} (hne : ds ≠ [])
    (hp : (s.tasks i).periodUs.toNat ≤ (ds.map UInt64.toNat).sum)
    (hr : run s (ds.map Op.tick) = some (s', rs)) : some i.val ∈ rs := by
  have hbound := h.activationsBounded i hi
  exact hw.dispatched_by hi hne (hst.imp_right fun hsl => ⟨hsl, by omega⟩) hr

theorem winner_not_starved_high :
    let high := Task.new [104] (fun scratch => some scratch) TaskPriority.high 100 10
    let normal := Task.new [108] (fun scratch => some scratch) TaskPriority.normal 100 10
    let s := ((Scheduler.new.register high).1.register normal).1
    let g := (Releases.zero.record Scheduler.new (.register high) (Scheduler.new.register high).2).record
      (Scheduler.new.register high).1 (.register normal) ((Scheduler.new.register high).1.register normal).2
    Tracked s g ∧ 0 < s.taskCount ∧ Wins s ⟨0, maxTasks_pos⟩ ∧
      ((s.tasks ⟨0, maxTasks_pos⟩).state = .ready ∨ (s.tasks ⟨0, maxTasks_pos⟩).state = .sleeping) ∧
      [60, 40] ≠ ([] : List UInt64) ∧
      (s.tasks ⟨0, maxTasks_pos⟩).periodUs.toNat ≤ ([60, 40].map UInt64.toNat).sum ∧
      ∃ s' rs, run s ([60, 40].map Op.tick) = some (s', rs) ∧ some 0 ∈ rs := by
  intro high normal s g
  have h : Tracked s g := (Tracked.new.step (.register high) rfl).step (.register normal) rfl
  have hw : Wins s ⟨0, maxTasks_pos⟩ := ⟨by decide, by decide⟩
  obtain ⟨⟨s', rs⟩, hr⟩ : ∃ x, run s ([60, 40].map Op.tick) = some x :=
    Option.isSome_iff_exists.mp (by decide)
  exact ⟨h, by decide, hw, .inl rfl, by decide, by decide, s', rs, hr,
    winner_not_starved h (by decide) hw (.inl rfl) (by decide) (by decide) hr⟩

end AliceRtos.Scheduler
