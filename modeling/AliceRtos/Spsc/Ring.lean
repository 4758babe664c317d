import Mathlib

/-! The lock-free single-producer single-consumer ring (`spsc.rs`), one call at a time.

The ring is a buffer of `N` words with a write index that the producer owns and a
read index that the consumer owns. One slot always stays free, so that full and empty
can be told apart, and the ring holds at most `N - 1` values. The indices are
`usize`: an addition that overflows, a subtraction that underflows, a remainder by
`N = 0` and a buffer index out of range all panic, and they return `none` here.

Under `Inv` (both indices name a slot) each call is described once, by the number
of values between the indices (`count`) and the values themselves, oldest first
(`contents`). -/
namespace AliceRtos

/-- `a + b` on `usize`; `none` is the overflow panic. -/
def addUsize (a b : Nat) : Option Nat := if a + b < 2 ^ 64 then some (a + b) else none

/-- `a - b` on `usize`; `none` is the underflow panic. -/
def subUsize (a b : Nat) : Option Nat := if b ≤ a then some (a - b) else none

/-- `a % n` on `usize`; `none` is the panic of a remainder by zero. -/
def remUsize (a n : Nat) : Option Nat := if n = 0 then none else some (a % n)

structure SpscRing (N : Nat) where
  buffer : Fin N → UInt32
  writeIdx : Nat
  readIdx : Nat

namespace SpscRing
variable {N : Nat}

def new : SpscRing N where
  buffer := fun _ => 0
  writeIdx := 0
  readIdx := 0

/-- The producer's call: `false` when the ring is full. -/
def push (s : SpscRing N) (value : UInt32) : Option (SpscRing N × Bool) := do
  let nextWrite ← remUsize (← addUsize s.writeIdx 1) N
  if nextWrite = s.readIdx then
    pure (s, false)
  else if h : s.writeIdx < N then
    pure ({ s with buffer := Function.update s.buffer ⟨s.writeIdx, h⟩ value, writeIdx := nextWrite }, true)
  else none

/-- The consumer's call: `none` when the ring is empty. -/
def pop (s : SpscRing N) : Option (SpscRing N × Option UInt32) := do
  if s.readIdx = s.writeIdx then
    pure (s, none)
  else if h : s.readIdx < N then
    let value := s.buffer ⟨s.readIdx, h⟩
    let nextRead ← remUsize (← addUsize s.readIdx 1) N
    pure ({ s with readIdx := nextRead }, some value)
  else none

def len (s : SpscRing N) : Option Nat :=
  if s.writeIdx ≥ s.readIdx then some (s.writeIdx - s.readIdx)
  else do addUsize (← subUsize N s.readIdx) s.writeIdx

def isEmpty (s : SpscRing N) : Bool := s.writeIdx == s.readIdx

def isFull (s : SpscRing N) : Option Bool := do
  let next ← remUsize (← addUsize s.writeIdx 1) N
  pure (next == s.readIdx)

/-- One slot is reserved for the full/empty distinction. -/
def capacity (_ : SpscRing N) : Option Nat := subUsize N 1

def clear (s : SpscRing N) : SpscRing N := { s with readIdx := 0, writeIdx := 0 }

/-- The calls a client makes. -/
inductive Op
  | push (value : UInt32)
  | pop
  | clear
  | len
  | isEmpty
  | isFull

/-- What a call returns. -/
inductive Out
  | push (ok : Bool)
  | pop (value : Option UInt32)
  | clear
  | len (n : Nat)
  | isEmpty (b : Bool)
  | isFull (b : Bool)
  deriving DecidableEq

def step (s : SpscRing N) : Op → Option (SpscRing N × Out)
  | .push v => (s.push v).map fun r => (r.1, .push r.2)
  | .pop => s.pop.map fun r => (r.1, .pop r.2)
  | .clear => some (s.clear, .clear)
  | .len => s.len.map fun n => (s, .len n)
  | .isEmpty => some (s, .isEmpty s.isEmpty)
  | .isFull => s.isFull.map fun b => (s, .isFull b)

/-- A sequence of calls: the last ring and what each call returned. -/
def run (s : SpscRing N) : List Op → Option (SpscRing N × List Out)
  | [] => some (s, [])
  | op :: ops => do
    let (s, out) ← s.step op
    let (s, outs) ← run s ops
    pure (s, out :: outs)

/-! ### The values in the ring -/

/-- Both indices name a slot. -/
structure Inv (s : SpscRing N) : Prop where
  read_lt : s.readIdx < N
  write_lt : s.writeIdx < N

/-- The number of values from the read index up to the write index, as `len` counts. -/
def count (s : SpscRing N) : Nat :=
  if s.readIdx ≤ s.writeIdx then s.writeIdx - s.readIdx else N - s.readIdx + s.writeIdx

/-- The word in slot `i mod N`. -/
def slotAt (s : SpscRing N) (i : Nat) : UInt32 :=
  if h : 0 < N then s.buffer ⟨i % N, Nat.mod_lt _ h⟩ else 0

/-- The values in the ring, oldest first. -/
def contents (s : SpscRing N) : List UInt32 :=
  (List.range s.count).map fun k => s.slotAt (s.readIdx + k)

theorem mod_of_lt_two {a : Nat} (h : a < 2 * N) : a % N = if a < N then a else a - N := by
  split
  · exact Nat.mod_eq_of_lt ‹_›
  · rw [Nat.mod_eq_sub_mod (by omega), Nat.mod_eq_of_lt (by omega)]

theorem addUsize_one {i : Nat} (hi : i < N) (hN : N < 2 ^ 64) : addUsize i 1 = some (i + 1) :=
  if_pos (by omega)

theorem remUsize_of_pos {a : Nat} (hN : 0 < N) : remUsize a N = some (a % N) := if_neg (by omega)

section
variable {s : SpscRing N}

theorem Inv.pos (h : s.Inv) : 0 < N := Nat.lt_of_le_of_lt (Nat.zero_le _) h.read_lt

/-- The slot after `i` wraps to `0` past the end. -/
theorem succ_mod {i : Nat} (hi : i < N) : (i + 1) % N = if i + 1 < N then i + 1 else 0 := by
  rw [mod_of_lt_two (by omega)]
  split <;> omega

/-- Slot `read + k`, for `k` up to the count, wraps at most once. -/
theorem Inv.read_add_mod (h : s.Inv) {k : Nat} (hk : k ≤ s.count) :
    (s.readIdx + k) % N = if s.readIdx + k < N then s.readIdx + k else s.readIdx + k - N := by
  have := h.read_lt
  have := h.write_lt
  unfold count at hk
  exact mod_of_lt_two (by split at hk <;> omega)

theorem Inv.count_lt (h : s.Inv) : s.count < N := by
  have := h.read_lt
  have := h.write_lt
  unfold count
  split <;> omega

/-- The write index is `count` slots after the read index. -/
theorem Inv.read_add_count (h : s.Inv) : (s.readIdx + s.count) % N = s.writeIdx := by
  rw [h.read_add_mod (Nat.le_refl _)]
  have := h.read_lt
  have := h.write_lt
  unfold count
  split_ifs <;> omega

/-- No value between the indices sits in the write slot. -/
theorem Inv.read_add_ne (h : s.Inv) {k : Nat} (hk : k < s.count) : (s.readIdx + k) % N ≠ s.writeIdx := by
  rw [h.read_add_mod (Nat.le_of_lt hk)]
  have := h.read_lt
  unfold count at hk
  split_ifs at hk ⊢ <;> omega

theorem Inv.empty_iff (h : s.Inv) : s.readIdx = s.writeIdx ↔ s.count = 0 := by
  have := h.read_lt
  unfold count
  split <;> omega

theorem Inv.full_iff (h : s.Inv) : (s.writeIdx + 1) % N = s.readIdx ↔ s.count = N - 1 := by
  rw [succ_mod h.write_lt]
  have := h.read_lt
  have := h.write_lt
  unfold count
  split_ifs <;> omega

theorem length_contents (s : SpscRing N) : s.contents.length = s.count := by
  simp [contents]

/-! ### Each call, said once -/

/-- The ring after a push of `v` that is not refused. -/
def written (s : SpscRing N) (h : s.writeIdx < N) (v : UInt32) : SpscRing N :=
  { s with buffer := Function.update s.buffer ⟨s.writeIdx, h⟩ v, writeIdx := (s.writeIdx + 1) % N }

/-- The ring after a pop that finds a value. -/
def advanced (s : SpscRing N) : SpscRing N := { s with readIdx := (s.readIdx + 1) % N }

/-- A push either finds the ring full or writes the write slot and moves past it. -/
theorem Inv.push_eq (h : s.Inv) (hN : N < 2 ^ 64) (v : UInt32) :
    s.push v = if s.count = N - 1 then some (s, false) else some (s.written h.write_lt v, true) := by
  simp only [push, addUsize_one h.write_lt hN, remUsize_of_pos h.pos, Option.some_bind, bind,
    h.full_iff, dif_pos h.write_lt, pure, written]

/-- A pop either finds the ring empty or reads the read slot and moves past it. -/
theorem Inv.pop_eq (h : s.Inv) (hN : N < 2 ^ 64) :
    s.pop = if s.count = 0 then some (s, none) else
      some (s.advanced, some (s.buffer ⟨s.readIdx, h.read_lt⟩)) := by
  simp only [pop, addUsize_one h.read_lt hN, remUsize_of_pos h.pos, Option.some_bind, bind,
    h.empty_iff, dif_pos h.read_lt, pure, advanced]

theorem Inv.len_eq (h : s.Inv) (hN : N < 2 ^ 64) : s.len = some s.count := by
  have := h.read_lt
  have := h.write_lt
  unfold len count
  by_cases hle : s.readIdx ≤ s.writeIdx
  · simp only [ge_iff_le, if_pos hle]
  · simp only [ge_iff_le, if_neg hle, subUsize, if_pos (show s.readIdx ≤ N by omega), Option.some_bind,
      bind, addUsize, if_pos (show N - s.readIdx + s.writeIdx < 2 ^ 64 by omega)]

theorem Inv.isEmpty_eq (h : s.Inv) : s.isEmpty = decide (s.count = 0) := by
  rw [isEmpty, Bool.eq_iff_iff, beq_iff_eq, decide_eq_true_iff, ← h.empty_iff, eq_comm]

theorem Inv.isFull_eq (h : s.Inv) (hN : N < 2 ^ 64) : s.isFull = some (decide (s.count = N - 1)) := by
  simp only [isFull, addUsize_one h.write_lt hN, remUsize_of_pos h.pos, Option.some_bind, bind, pure,
    Option.some.injEq]
  rw [Bool.eq_iff_iff, beq_iff_eq, decide_eq_true_iff, h.full_iff]

theorem capacity_eq (s : SpscRing N) (hN : 0 < N) : s.capacity = some (N - 1) := if_pos hN

/-! ### What each call does to the values -/

theorem written_inv (h : s.Inv) (v : UInt32) : (s.written h.write_lt v).Inv :=
  ⟨h.read_lt, Nat.mod_lt _ h.pos⟩

theorem advanced_inv (h : s.Inv) : s.advanced.Inv := ⟨Nat.mod_lt _ h.pos, h.write_lt⟩

/-- A write of slot `w` changes what slot `w` holds and nothing else. -/
theorem slotAt_update (s : SpscRing N) {w : Nat} (hw : w < N) (v : UInt32) (i : Nat) :
    ({ s with buffer := Function.update s.buffer ⟨w, hw⟩ v } : SpscRing N).slotAt i =
      if i % N = w then v else s.slotAt i := by
  have hN : 0 < N := Nat.lt_of_le_of_lt (Nat.zero_le _) hw
  simp only [slotAt, dif_pos hN, Function.update_apply, Fin.ext_iff]

theorem slotAt_written (s : SpscRing N) (hw : s.writeIdx < N) (v : UInt32) (i : Nat) :
    (s.written hw v).slotAt i = if i % N = s.writeIdx then v else s.slotAt i :=
  slotAt_update s hw v i

theorem slotAt_advanced (s : SpscRing N) (k : Nat) :
    s.advanced.slotAt (s.advanced.readIdx + k) = s.slotAt (s.readIdx + 1 + k) := by
  simp only [advanced, slotAt, Nat.mod_add_mod]

theorem clear_inv (s : SpscRing N) (hN : 0 < N) : s.clear.Inv := ⟨hN, hN⟩

theorem contents_clear (s : SpscRing N) : s.clear.contents = [] := rfl

theorem new_inv (hN : 0 < N) : (new : SpscRing N).Inv := ⟨hN, hN⟩

theorem contents_new : (new : SpscRing N).contents = [] := rfl

/-- A push that is not refused appends its value. -/
theorem Inv.contents_written (h : s.Inv) (hc : s.count ≠ N - 1) (v : UInt32) :
    (s.written h.write_lt v).contents = s.contents ++ [v] := by
  have hcount : (s.written h.write_lt v).count = s.count + 1 := by
    have := h.read_lt
    have := h.write_lt
    unfold count at hc ⊢
    simp only [written, succ_mod h.write_lt]
    split_ifs at hc ⊢ <;> omega
  unfold contents
  rw [hcount, List.range_succ, List.map_append, List.map_singleton]
  simp only [slotAt_written, show (s.written h.write_lt v).readIdx = s.readIdx from rfl,
    if_pos h.read_add_count]
  exact congrArg (· ++ [v])
    (List.map_congr_left fun k hk => if_neg (h.read_add_ne (List.mem_range.mp hk)))

/-- A pop that finds a value takes the oldest. -/
theorem Inv.contents_advanced (h : s.Inv) (hc : s.count ≠ 0) :
    s.contents = s.buffer ⟨s.readIdx, h.read_lt⟩ :: s.advanced.contents := by
  have hcount : s.advanced.count = s.count - 1 := by
    have := h.read_lt
    have := h.write_lt
    unfold count at hc ⊢
    simp only [advanced, succ_mod h.read_lt]
    split_ifs at hc ⊢ <;> omega
  unfold contents
  rw [hcount, show s.count = s.count - 1 + 1 by omega, List.range_succ_eq_map, List.map_cons,
    List.map_map, Nat.add_sub_cancel]
  congr 1
  · simp only [slotAt, dif_pos h.pos, Nat.add_zero, Nat.mod_eq_of_lt h.read_lt]
  · exact List.map_congr_left fun k _ => by
      rw [slotAt_advanced]
      simp only [Function.comp, Nat.succ_eq_add_one, Nat.add_assoc, Nat.add_comm 1 k]

end

end SpscRing

end AliceRtos
