import Mathlib

/-! Task descriptors (`task.rs`).

A task is a static record: a priority, a period and a worst-case execution time,
its scheduling state, the absolute time of its next activation and two counters.
Priorities compare as their numbers, lower first, so `TaskPriority.idle` (255) is
the lowest of all.

Arithmetic follows the crate built with overflow checks, the profile its tests
run under: a `+=` on a `u32` or a `u64` that leaves the type's range panics.
`checkedAdd` is that addition for any fixed-width word (`FixedWord`), `none`
being the panic; `wrapping_add` is the addition of `UInt64` itself. -/
namespace AliceRtos

/-! ### Checked machine addition -/

/-- A fixed-width unsigned machine word: its value as a number below `2 ^ width`,
and an addition that wraps modulo `2 ^ width`. -/
class FixedWord (α : Type) [Add α] (toNat : outParam (α → Nat)) (width : outParam Nat) : Prop where
  toNat_add (a b : α) : toNat (a + b) = (toNat a + toNat b) % 2 ^ width
  toNat_inj {a b : α} : toNat a = toNat b → a = b

instance : FixedWord UInt32 UInt32.toNat 32 := ⟨UInt32.toNat_add, UInt32.toNat.inj⟩

instance : FixedWord UInt64 UInt64.toNat 64 := ⟨UInt64.toNat_add, UInt64.toNat.inj⟩

/-- `a + b` with overflow checks. -/
def checkedAdd {α : Type} [Add α] {toNat : α → Nat} {width : Nat} [FixedWord α toNat width] (a b : α) :
    Option α :=
  if toNat a + toNat b < 2 ^ width then some (a + b) else none

section
variable {α : Type} [Add α] {toNat : α → Nat} {width : Nat} [FixedWord α toNat width]

theorem toNat_add_of_lt (a b : α) (h : toNat a + toNat b < 2 ^ width) :
    toNat (a + b) = toNat a + toNat b :=
  (FixedWord.toNat_add a b).trans (Nat.mod_eq_of_lt h)

theorem checkedAdd_of_lt (a b : α) (h : toNat a + toNat b < 2 ^ width) :
    checkedAdd a b = some (a + b) := if_pos h

@[simp] theorem checkedAdd_eq_none {a b : α} : checkedAdd a b = none ↔ 2 ^ width ≤ toNat a + toNat b := by
  unfold checkedAdd
  split <;> simp <;> omega

theorem checkedAdd_eq_some {a b c : α} :
    checkedAdd a b = some c ↔ toNat a + toNat b < 2 ^ width ∧ toNat c = toNat a + toNat b := by
  by_cases h : toNat a + toNat b < 2 ^ width
  · have hadd := toNat_add_of_lt a b h
    rw [checkedAdd_of_lt a b h, Option.some.injEq]
    exact ⟨fun e => ⟨h, e ▸ hadd⟩, fun e => FixedWord.toNat_inj (hadd.trans e.2.symm)⟩
  · rw [checkedAdd_eq_none.mpr (Nat.le_of_not_lt h)]
    exact ⟨nofun, fun e => absurd e.1 h⟩

end

theorem lt_iff_toNat64 {a b : UInt64} : a < b ↔ a.toNat < b.toNat := Iff.rfl

theorem le_iff_toNat64 {a b : UInt64} : a ≤ b ↔ a.toNat ≤ b.toNat := Iff.rfl

/-! ### Priorities and states -/

/-- `TaskPriority(u8)`: lower number, higher priority. -/
structure TaskPriority where
  val : UInt8
deriving DecidableEq, Repr

namespace TaskPriority

/-- The derived order of the tuple struct: its number's. -/
instance : LT TaskPriority := ⟨fun a b => a.val < b.val⟩
instance : LE TaskPriority := ⟨fun a b => a.val ≤ b.val⟩

instance (a b : TaskPriority) : Decidable (a < b) := inferInstanceAs (Decidable (a.val < b.val))
instance (a b : TaskPriority) : Decidable (a ≤ b) := inferInstanceAs (Decidable (a.val ≤ b.val))

def critical : TaskPriority := ⟨0⟩
def high : TaskPriority := ⟨1⟩
def normal : TaskPriority := ⟨2⟩
def low : TaskPriority := ⟨3⟩
def idle : TaskPriority := ⟨255⟩

theorem lt_iff {a b : TaskPriority} : a < b ↔ a.val.toNat < b.val.toNat := Iff.rfl

theorem le_iff {a b : TaskPriority} : a ≤ b ↔ a.val.toNat ≤ b.val.toNat := Iff.rfl

theorem ext_iff' {a b : TaskPriority} : a = b ↔ a.val.toNat = b.val.toNat := by
  cases a; cases b
  simp only [mk.injEq]
  exact ⟨congrArg _, UInt8.ext⟩

theorem le_antisymm {a b : TaskPriority} (h₁ : a ≤ b) (h₂ : b ≤ a) : a = b :=
  ext_iff'.mpr (Nat.le_antisymm h₁ h₂)

theorem idle_val : idle.val.toNat = 255 := rfl

theorem val_le_idle (p : TaskPriority) : p.val.toNat ≤ idle.val.toNat := by
  rw [idle_val]
  have := p.val.toNat_lt
  omega

end TaskPriority

inductive TaskState
  | ready
  | running
  | sleeping
  | suspended
  | inactive
deriving DecidableEq, Repr

/-! ### Descriptors -/

/-- `fn(&mut [u8])`: what a task function leaves in the scratch buffer it is lent,
or `none` if it panics (indexing past the buffer, say). -/
def TaskFn := List UInt8 → Option (List UInt8)

/-- A task descriptor. The source's `scratch_size` is always 0 and never read,
and is left out. -/
structure Task where
  name : List UInt8
  func : Option TaskFn
  priority : TaskPriority
  periodUs : UInt32
  wcetUs : UInt32
  state : TaskState
  nextActivation : UInt64
  execCount : UInt32
  deadlineMisses : UInt32

namespace Task

/-- An empty slot of the task table. -/
def empty : Task where
  name := List.replicate 8 0
  func := none
  priority := TaskPriority.idle
  periodUs := 0
  wcetUs := 0
  state := .inactive
  nextActivation := 0
  execCount := 0
  deadlineMisses := 0

/-- A new periodic task, ready at once; its name is cut to 8 bytes and padded with zeros. -/
def new (name : List UInt8) (func : TaskFn) (priority : TaskPriority) (periodUs wcetUs : UInt32) :
    Task where
  name := name.take 8 ++ List.replicate (8 - min name.length 8) 0
  func := some func
  priority := priority
  periodUs := periodUs
  wcetUs := wcetUs
  state := .ready
  nextActivation := 0
  execCount := 0
  deadlineMisses := 0

def isActive (t : Task) : Bool := t.state != .inactive

/-- The tasks `Task::new` builds, whatever its arguments. -/
def IsNew (t : Task) : Prop :=
  ∃ name func priority periodUs wcetUs, t = Task.new name func priority periodUs wcetUs

theorem isNew_state {t : Task} (h : t.IsNew) : t.state = .ready := by
  obtain ⟨_, _, _, _, _, rfl⟩ := h
  rfl

theorem name_length_new (name : List UInt8) (func : TaskFn) (priority : TaskPriority)
    (periodUs wcetUs : UInt32) : (Task.new name func priority periodUs wcetUs).name.length = 8 := by
  simp only [Task.new, List.length_append, List.length_take, List.length_replicate]
  omega

end Task

end AliceRtos
