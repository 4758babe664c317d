import AliceRtos.Task

/-! The system timer and the deadline tracker (`timer.rs`).

The timer's microsecond counter wraps (`wrapping_add`), and `advance` counts a
wrap when the new value is below the old one; that count is a `u32` whose own
`+= 1` is checked. A wrap happens exactly when the true sum leaves `u64`
(`add_lt_iff`), so each wrap is counted once: from a start or a reset, after
calls whose arguments sum to `S < 2⁹⁶`, `overflows · 2⁶⁴ + now_us = S`, and
`elapsed_since` is the time between modulo `2⁶⁴` (`wraps_counted_once`). The
clock in seconds is a float and is not modelled.

A deadline is one period after its start, built with a checked addition
(`new_eq_some`), and the time it has left never wraps (`remaining_toNat`). -/
namespace AliceRtos

structure SysTimer where
  ticksUs : UInt64
  ticksPerUs : UInt32
  overflows : UInt32

namespace SysTimer

/-- A timer on a hardware clock of `clockHz` hertz. -/
def new (clockHz : UInt32) : SysTimer := ⟨0, clockHz / 1000000, 0⟩

/-- The software timer the tests use. -/
def software : SysTimer := ⟨0, 1, 0⟩

def advance (t : SysTimer) (us : UInt64) : Option SysTimer :=
  let new := t.ticksUs + us
  if new < t.ticksUs then do
    let overflows ← checkedAdd t.overflows 1
    pure { t with ticksUs := new, overflows }
  else pure { t with ticksUs := new }

def nowUs (t : SysTimer) : UInt64 := t.ticksUs

def nowMs (t : SysTimer) : UInt64 := t.ticksUs / 1000

def reset (t : SysTimer) : SysTimer := { t with ticksUs := 0, overflows := 0 }

def elapsedSince (t : SysTimer) (reference : UInt64) : UInt64 := t.ticksUs - reference

def delayUs (t : SysTimer) (us : UInt64) : Option SysTimer := t.advance us

/-- The wrapping sum is below the old value exactly when the true sum leaves `u64`. -/
theorem add_lt_iff (a b : UInt64) : a + b < a ↔ 2 ^ 64 ≤ a.toNat + b.toNat := by
  rw [lt_iff_toNat64, UInt64.toNat_add, show UInt64.size = 2 ^ 64 from rfl]
  have := a.toNat_lt
  have := b.toNat_lt
  constructor
  · intro h
    by_contra hlt
    rw [Nat.mod_eq_of_lt (Nat.lt_of_not_le hlt)] at h
    omega
  · intro h
    rw [Nat.mod_eq_sub_mod h, Nat.mod_eq_of_lt (by omega)]
    omega

theorem advance_of_lt {t : SysTimer} {us : UInt64} (h : t.ticksUs.toNat + us.toNat < 2 ^ 64) :
    t.advance us = some { t with ticksUs := t.ticksUs + us } := by
  unfold advance
  rw [if_neg (fun e => absurd ((add_lt_iff _ _).mp e) (Nat.not_le_of_lt h))]
  rfl

/-- A wrap is counted; the count's own `+= 1` panics when it is full. -/
theorem advance_of_le {t : SysTimer} {us : UInt64} (h : 2 ^ 64 ≤ t.ticksUs.toNat + us.toNat) :
    t.advance us = (checkedAdd t.overflows 1).map fun overflows =>
      { t with ticksUs := t.ticksUs + us, overflows } := by
  unfold advance
  rw [if_pos ((add_lt_iff _ _).mpr h)]
  cases checkedAdd t.overflows 1 <;> rfl

theorem advance_ticksUs {t t' : SysTimer} {us : UInt64} (h : t.advance us = some t') :
    t'.ticksUs = t.ticksUs + us := by
  by_cases hw : 2 ^ 64 ≤ t.ticksUs.toNat + us.toNat
  · rw [advance_of_le hw] at h
    obtain ⟨_, -, rfl⟩ := Option.map_eq_some'.mp h
    rfl
  · rw [advance_of_lt (Nat.lt_of_not_le hw), Option.some.injEq] at h
    rw [← h]

theorem advance_ticksUs_toNat {t t' : SysTimer} {us : UInt64} (h : t.advance us = some t') :
    t'.ticksUs.toNat = (t.ticksUs.toNat + us.toNat) % 2 ^ 64 := by
  rw [advance_ticksUs h, UInt64.toNat_add]
  rfl

/-! ### The time a timer keeps

`value` reads the wrap count and the counter together as one number, the
microseconds since the timer started. An advance adds its argument to it
exactly (`advance_value`), so after any calls it is their sum (`calls_value`)
as long as the wrap count has room, that is below `2⁹⁶`. -/

/-- The calls that move the clock; `delay_us` is an `advance`. -/
inductive Call
  | advance (us : UInt64)
  | delayUs (us : UInt64)

/-- The microseconds a call adds. -/
def Call.us : Call → UInt64
  | .advance us => us
  | .delayUs us => us

def call (t : SysTimer) : Call → Option SysTimer
  | .advance us => t.advance us
  | .delayUs us => t.delayUs us

def calls (t : SysTimer) : List Call → Option SysTimer
  | [] => some t
  | c :: cs => (t.call c).bind fun t => t.calls cs

/-- The microseconds a list of calls adds in all. -/
def total (cs : List Call) : Nat := (cs.map fun c => c.us.toNat).sum

/-- The time the timer stands for: its wraps and its counter. -/
def value (t : SysTimer) : Nat := t.overflows.toNat * 2 ^ 64 + t.ticksUs.toNat

theorem call_eq (t : SysTimer) (c : Call) : t.call c = t.advance c.us := by
  cases c <;> rfl

theorem calls_append (t : SysTimer) (cs cs' : List Call) :
    t.calls (cs ++ cs') = (t.calls cs).bind fun t => t.calls cs' := by
  induction cs generalizing t with
  | nil => rfl
  | cons c cs ih =>
    simp only [List.cons_append, calls]
    cases t.call c <;> simp [ih]

theorem total_cons (c : Call) (cs : List Call) : total (c :: cs) = c.us.toNat + total cs := by
  simp [total]

theorem total_append (cs cs' : List Call) : total (cs ++ cs') = total cs + total cs' := by
  simp [total]

/-- **One advance.** Below `2⁹⁶` an advance does not panic, and it adds exactly
its argument to the time the timer stands for: a wrap of the counter takes
`2⁶⁴` from the counter and gives one to the wrap count. -/
theorem advance_value {t : SysTimer} {us : UInt64} (h : t.value + us.toNat < 2 ^ 96) :
    ∃ t', t.advance us = some t' ∧ t'.value = t.value + us.toNat := by
  unfold value at h ⊢
  have hadd := UInt64.toNat_add t.ticksUs us
  rw [show UInt64.size = 2 ^ 64 from rfl] at hadd
  have := t.ticksUs.toNat_lt
  have := us.toNat_lt
  by_cases hw : 2 ^ 64 ≤ t.ticksUs.toNat + us.toNat
  · have hroom : t.overflows.toNat + 1 < 2 ^ 32 := by omega
    rw [advance_of_le hw, checkedAdd_of_lt t.overflows 1 hroom]
    refine ⟨_, rfl, ?_⟩
    simp only [toNat_add_of_lt t.overflows 1 hroom, hadd, show (1 : UInt32).toNat = 1 from rfl]
    omega
  · rw [advance_of_lt (Nat.lt_of_not_le hw)]
    refine ⟨_, rfl, ?_⟩
    simp only [hadd]
    omega

/-- Calls whose sum keeps the time below `2⁹⁶` do not panic and add their sum. -/
theorem calls_value {t : SysTimer} {cs : List Call} (h : t.value + total cs < 2 ^ 96) :
    ∃ t', t.calls cs = some t' ∧ t'.value = t.value + total cs := by
  induction cs generalizing t with
  | nil => exact ⟨t, rfl, by simp [total]⟩
  | cons c cs ih =>
    rw [total_cons] at h ⊢
    obtain ⟨t₁, h₁, hv₁⟩ := @advance_value t c.us (by omega)
    obtain ⟨t₂, h₂, hv₂⟩ := @ih t₁ (by omega)
    refine ⟨t₂, ?_, by omega⟩
    simp only [calls, call_eq, h₁, Option.some_bind, h₂]

/-- The counter difference is the time between, modulo `2⁶⁴`. -/
theorem elapsedSince_toNat {t₁ t₂ : SysTimer} (h : t₁.value ≤ t₂.value) :
    (t₂.elapsedSince t₁.nowUs).toNat = (t₂.value - t₁.value) % 2 ^ 64 := by
  unfold elapsedSince nowUs value at *
  rw [UInt64.toNat_sub, show UInt64.size = 2 ^ 64 from rfl]
  have := t₁.ticksUs.toNat_lt
  omega

/-- The states a timer starts counting from: `new`, `software`, or any reset. -/
def Started (t : SysTimer) : Prop :=
  (∃ clockHz, t = SysTimer.new clockHz) ∨ t = SysTimer.software ∨ ∃ t' : SysTimer, t = t'.reset

theorem Started.value_zero {t : SysTimer} (h : t.Started) : t.value = 0 := by
  rcases h with ⟨_, rfl⟩ | rfl | ⟨_, rfl⟩ <;> simp [SysTimer.value, SysTimer.new, software, reset]

/-- **Every wrap is counted once.** From `new`, `software` or a reset, after
advance and `delay_us` calls whose arguments sum to `S < 2⁹⁶`, no call has
panicked and `overflows · 2⁶⁴ + now_us = S`. With `ref = now_us()` read after
the first calls, of sum `S₀`, `elapsed_since(ref) = (S - S₀) mod 2⁶⁴`. -/
theorem wraps_counted_once {t₀ : SysTimer} (h₀ : t₀.Started) (pre post : List Call)
    (hS : total (pre ++ post) < 2 ^ 96) :
    ∃ t₁ t₂, t₀.calls pre = some t₁ ∧ t₀.calls (pre ++ post) = some t₂ ∧
      t₂.overflows.toNat * 2 ^ 64 + t₂.nowUs.toNat = total (pre ++ post) ∧
      (t₂.elapsedSince t₁.nowUs).toNat = (total (pre ++ post) - total pre) % 2 ^ 64 := by
  rw [total_append] at hS ⊢
  obtain ⟨t₁, h₁, hv₁⟩ := @calls_value t₀ pre (by rw [h₀.value_zero]; omega)
  rw [h₀.value_zero] at hv₁
  obtain ⟨t₂, h₂, hv₂⟩ := @calls_value t₁ post (by omega)
  refine ⟨t₁, t₂, h₁, by rw [calls_append, h₁, Option.some_bind, h₂], by show t₂.value = _; omega, ?_⟩
  rw [elapsedSince_toNat (by omega)]
  congr 1
  omega

/-- A first call that brings the counter to `u64::MAX`, then two that wrap it. -/
theorem wraps_counted_once_software :
    let pre : List Call := [.advance 18446744073709551615]
    let post : List Call := [.advance 1, .delayUs 5]
    SysTimer.software.Started ∧ total (pre ++ post) < 2 ^ 96 ∧
      ∃ t₁ t₂, SysTimer.software.calls pre = some t₁ ∧ SysTimer.software.calls (pre ++ post) = some t₂ ∧
        t₂.overflows.toNat * 2 ^ 64 + t₂.nowUs.toNat = total (pre ++ post) ∧
        (t₂.elapsedSince t₁.nowUs).toNat = (total (pre ++ post) - total pre) % 2 ^ 64 := by
  intro pre post
  have h₀ : SysTimer.software.Started := .inr (.inl rfl)
  have hS : total (pre ++ post) < 2 ^ 96 := by decide
  exact ⟨h₀, hS, wraps_counted_once h₀ pre post hS⟩

end SysTimer

/-- A task's activation and the absolute deadline one period later. -/
structure Deadline where
  start : UInt64
  deadline : UInt64

namespace Deadline

def new (start : UInt64) (periodUs : UInt32) : Option Deadline := do
  let deadline ← checkedAdd start periodUs.toUInt64
  pure ⟨start, deadline⟩

def isMet (d : Deadline) (current : UInt64) : Bool := current ≤ d.deadline

def remaining (d : Deadline) (current : UInt64) : UInt64 :=
  if current ≥ d.deadline then 0 else d.deadline - current

def elapsed (d : Deadline) (current : UInt64) : UInt64 := current - d.start

/-- The time left never wraps: it is the truncated difference. -/
theorem remaining_toNat (d : Deadline) (current : UInt64) :
    (d.remaining current).toNat = d.deadline.toNat - current.toNat := by
  unfold remaining
  split
  · rename_i h
    rw [ge_iff_le, le_iff_toNat64] at h
    simp only [UInt64.toNat_zero]
    omega
  · rename_i h
    rw [ge_iff_le, le_iff_toNat64] at h
    rw [UInt64.toNat_sub_of_le]
    exact le_iff_toNat64.mpr (by omega)

theorem new_eq_some {start : UInt64} {periodUs : UInt32} {d : Deadline} :
    new start periodUs = some d ↔
      start.toNat + periodUs.toNat < 2 ^ 64 ∧ d.start = start ∧
        d.deadline.toNat = start.toNat + periodUs.toNat := by
  simp only [new, bind, Option.bind_eq_some, pure, Option.some.injEq, checkedAdd_eq_some, UInt32.toUInt64_toNat]
  constructor
  · rintro ⟨deadline, ⟨hfit, hval⟩, rfl⟩
    exact ⟨hfit, rfl, hval⟩
  · rintro ⟨hfit, hs, hval⟩
    exact ⟨d.deadline, ⟨hfit, hval⟩, by rw [← hs]⟩

end Deadline

end AliceRtos
