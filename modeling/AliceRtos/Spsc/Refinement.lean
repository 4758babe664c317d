import AliceRtos.Spsc.Ring

/-! The SPSC ring refines a bounded FIFO queue.

`Fifo cap` is what the ring is for: a queue of at most `cap` words, where a push
that does not fit is refused, a pop takes the head and `clear` empties it. A
ring of `N` slots holding `contents` refines the queue holding the same values at
`cap = N - 1` (`Refines`), every call on a refining ring returns what the same
call on the queue returns and keeps the refinement (`Refines.step`), and so does
every sequence of calls from `SpscRing::new()` (`spsc_refines_fifo`).

What the queue guarantees is proved once, on the queue, and holds of the ring
through the refinement: the values popped, then the values left, are the values
accepted since the last `clear` (`popped_append_run`). Across a `clear` the
popped values are only a sublist of the accepted ones, since `clear` drops what
was not popped (`popped_not_prefix_after_clear`). -/
namespace AliceRtos

/-- A FIFO queue of at most `cap` words. -/
structure Fifo (cap : Nat) where
  items : List UInt32
  length_le : items.length ≤ cap

namespace Fifo
open SpscRing (Op Out)
variable {cap : Nat}

def empty : Fifo cap := ⟨[], Nat.zero_le _⟩

/-- A push appends its value unless the queue is full. -/
def push (q : Fifo cap) (v : UInt32) : Fifo cap × Bool :=
  if h : q.items.length < cap then (⟨q.items ++ [v], by rw [List.length_append]; exact h⟩, true)
  else (q, false)

/-- A pop removes the head, if there is one. -/
def pop : Fifo cap → Fifo cap × Option UInt32
  | ⟨[], h⟩ => (⟨[], h⟩, none)
  | ⟨v :: vs, h⟩ => (⟨vs, Nat.le_of_succ_le h⟩, some v)

def step (q : Fifo cap) : Op → Fifo cap × Out
  | .push v => ((q.push v).1, .push (q.push v).2)
  | .pop => (q.pop.1, .pop q.pop.2)
  | .clear => (empty, .clear)
  | .len => (q, .len q.items.length)
  | .isEmpty => (q, .isEmpty (decide (q.items = [])))
  | .isFull => (q, .isFull (decide (q.items.length = cap)))

def run (q : Fifo cap) : List Op → Fifo cap × List Out
  | [] => (q, [])
  | op :: ops => ((run (q.step op).1 ops).1, (q.step op).2 :: (run (q.step op).1 ops).2)

end Fifo

namespace SpscRing

/-- The value a call puts in the ring: that of a push that returned `true`. -/
def acceptedOf : Op × Out → Option UInt32
  | (.push v, .push true) => some v
  | _ => none

/-- The value a call takes out of the ring: that of a pop that found one. -/
def poppedOf : Out → Option UInt32
  | .pop (some v) => some v
  | _ => none

/-- The values of the pushes that returned `true`, in call order. -/
def accepted (ops : List Op) (outs : List Out) : List UInt32 := (ops.zip outs).filterMap acceptedOf

/-- The values the pops returned, in call order. -/
def popped (outs : List Out) : List UInt32 := outs.filterMap poppedOf

theorem popped_cons (out : Out) (outs : List Out) : popped (out :: outs) = popped [out] ++ popped outs := by
  simp only [popped, List.filterMap_cons, List.filterMap_nil]
  cases poppedOf out <;> rfl

theorem accepted_cons (op : Op) (ops : List Op) (out : Out) (outs : List Out) :
    accepted (op :: ops) (out :: outs) = accepted [op] [out] ++ accepted ops outs := by
  simp only [accepted, List.zip_cons_cons, List.zip_nil_left, List.filterMap_cons, List.filterMap_nil]
  cases acceptedOf (op, out) <;> rfl

end SpscRing

namespace Fifo
open SpscRing (Op Out accepted popped acceptedOf poppedOf popped_cons accepted_cons)
variable {cap : Nat}

/-- What one call pops, keeps and accepts: the values popped, then the values
left, are the values there before, then the value accepted. `clear` aside. -/
theorem popped_append_step (q : Fifo cap) {op : Op} (hop : op ≠ .clear) :
    popped [(q.step op).2] ++ (q.step op).1.items = q.items ++ accepted [op] [(q.step op).2] := by
  cases op with
  | push v =>
    simp only [step, push]
    split <;> simp [popped, accepted, poppedOf, acceptedOf]
  | pop =>
    obtain ⟨_ | ⟨v, vs⟩, h⟩ := q <;> simp [step, pop, popped, accepted, poppedOf, acceptedOf]
  | clear => exact absurd rfl hop
  | len => simp [step, popped, accepted, poppedOf, acceptedOf]
  | isEmpty => simp [step, popped, accepted, poppedOf, acceptedOf]
  | isFull => simp [step, popped, accepted, poppedOf, acceptedOf]

/-- **The FIFO law.** Without `clear`, the values popped, then the values left,
are the values there at the start, then the values accepted, in push order. -/
theorem popped_append_run (q : Fifo cap) (ops : List Op) (hops : Op.clear ∉ ops) :
    popped (q.run ops).2 ++ (q.run ops).1.items = q.items ++ accepted ops (q.run ops).2 := by
  induction ops generalizing q with
  | nil => simp [run, popped, accepted]
  | cons op ops ih =>
    have hop : op ≠ .clear := fun e => hops (e ▸ List.mem_cons_self _ _)
    have hstep := popped_append_step q hop
    have hrun := ih (q.step op).1 (fun e => hops (List.mem_cons_of_mem _ e))
    calc popped (q.run (op :: ops)).2 ++ (q.run (op :: ops)).1.items
        = popped [(q.step op).2] ++ (popped ((q.step op).1.run ops).2 ++ ((q.step op).1.run ops).1.items) := by
          rw [run, popped_cons, List.append_assoc]
      _ = (q.items ++ accepted [op] [(q.step op).2]) ++ accepted ops ((q.step op).1.run ops).2 := by
          rw [hrun, ← List.append_assoc, hstep]
      _ = q.items ++ accepted (op :: ops) (q.run (op :: ops)).2 := by
          simp only [run, accepted_cons op ops, List.append_assoc]

/-- Across `clear` the values popped, then the values left, are a sublist of the
values there at the start, then the values accepted. -/
theorem popped_sublist_step (q : Fifo cap) (op : Op) :
    List.Sublist (popped [(q.step op).2] ++ (q.step op).1.items)
      (q.items ++ accepted [op] [(q.step op).2]) := by
  by_cases hop : op = .clear
  · subst hop
    exact List.nil_sublist _
  · rw [popped_append_step q hop]

theorem popped_sublist_run (q : Fifo cap) (ops : List Op) :
    List.Sublist (popped (q.run ops).2 ++ (q.run ops).1.items) (q.items ++ accepted ops (q.run ops).2) := by
  induction ops generalizing q with
  | nil => simp [run, popped, accepted]
  | cons op ops ih =>
    have hrun := (ih (q.step op).1).append_left (popped [(q.step op).2])
    have hstep := (popped_sublist_step q op).append_right (accepted ops ((q.step op).1.run ops).2)
    rw [List.append_assoc, List.append_assoc] at hstep
    simp only [run, popped_cons (q.step op).2 ((q.step op).1.run ops).2, accepted_cons op ops,
      List.append_assoc]
    exact hrun.trans hstep

end Fifo

namespace SpscRing
variable {N : Nat}

/-! ### The refinement -/

/-- The ring holds the queue's values, and both indices name a slot. -/
structure Refines (s : SpscRing N) (q : Fifo (N - 1)) : Prop where
  inv : s.Inv
  contents : s.contents = q.items

theorem refines_new (hN : 0 < N) : Refines (new : SpscRing N) Fifo.empty := ⟨new_inv hN, contents_new⟩

section
variable {s : SpscRing N} {q : Fifo (N - 1)}

theorem Refines.count_eq (h : Refines s q) : s.count = q.items.length := by
  rw [← length_contents, h.contents]

theorem Refines.push (h : Refines s q) (hN : N < 2 ^ 64) (v : UInt32) :
    ∃ s', s.push v = some (s', (q.push v).2) ∧ Refines s' (q.push v).1 ∧ ((q.push v).2 = false → s' = s) := by
  rw [h.inv.push_eq hN, h.count_eq]
  unfold Fifo.push
  by_cases hfull : q.items.length = N - 1
  · rw [if_pos hfull, dif_neg (by omega)]
    exact ⟨s, rfl, h, fun _ => rfl⟩
  · rw [if_neg hfull, dif_pos (by have := q.length_le; omega)]
    refine ⟨_, rfl, ⟨written_inv h.inv v, ?_⟩, fun e => absurd e Bool.noConfusion⟩
    rw [h.inv.contents_written (by rwa [h.count_eq]), h.contents]

theorem Refines.pop (h : Refines s q) (hN : N < 2 ^ 64) :
    ∃ s', s.pop = some (s', q.pop.2) ∧ Refines s' q.pop.1 ∧ (q.pop.2 = none → s' = s) := by
  rw [h.inv.pop_eq hN, h.count_eq]
  obtain ⟨_ | ⟨v, vs⟩, hq⟩ := q
  · exact ⟨s, rfl, h, fun _ => rfl⟩
  · have hc := h.inv.contents_advanced (by rw [h.count_eq]; exact Nat.succ_ne_zero _)
    rw [h.contents, List.cons.injEq] at hc
    refine ⟨_, by dsimp only [List.length_cons]; rw [if_neg (Nat.add_one_ne_zero _), ← hc.1]; rfl,
      ⟨advanced_inv h.inv, hc.2.symm⟩,
      fun e => absurd e (Option.some_ne_none _)⟩

/-- **One call refines one queue operation.** It returns what the queue returns and
keeps the refinement; a refused push or an empty pop leaves the ring as it was. -/
theorem Refines.step (h : Refines s q) (hN : N < 2 ^ 64) (op : Op) :
    ∃ s', s.step op = some (s', (q.step op).2) ∧ Refines s' (q.step op).1 ∧
      ((q.step op).2 = .push false ∨ (q.step op).2 = .pop none → s' = s) := by
  cases op with
  | push v =>
    obtain ⟨s', hs, hr, hframe⟩ := h.push hN v
    exact ⟨s', by simp [SpscRing.step, hs, Fifo.step], hr, fun e => hframe (by simpa [Fifo.step] using e)⟩
  | pop =>
    obtain ⟨s', hs, hr, hframe⟩ := h.pop hN
    exact ⟨s', by simp [SpscRing.step, hs, Fifo.step], hr, fun e => hframe (by simpa [Fifo.step] using e)⟩
  | clear => exact ⟨s.clear, rfl, ⟨clear_inv s h.inv.pos, contents_clear s⟩, by simp [Fifo.step]⟩
  | len => exact ⟨s, by simp [SpscRing.step, h.inv.len_eq hN, h.count_eq, Fifo.step], h, fun _ => rfl⟩
  | isEmpty => exact ⟨s, by simp [SpscRing.step, h.inv.isEmpty_eq, h.count_eq, Fifo.step], h, fun _ => rfl⟩
  | isFull => exact ⟨s, by simp [SpscRing.step, h.inv.isFull_eq hN, h.count_eq, Fifo.step], h, fun _ => rfl⟩

theorem Refines.run (h : Refines s q) (hN : N < 2 ^ 64) (ops : List Op) :
    ∃ s', s.run ops = some (s', (q.run ops).2) ∧ Refines s' (q.run ops).1 := by
  induction ops generalizing s q with
  | nil => exact ⟨s, rfl, h⟩
  | cons op ops ih =>
    obtain ⟨s₁, hs₁, h₁, -⟩ := h.step hN op
    obtain ⟨s', hs', h'⟩ := ih h₁
    exact ⟨s', by simp [SpscRing.run, hs₁, hs', Fifo.run], h'⟩

end

/-- **The ring is a bounded FIFO queue.** For a ring of `N ≥ 1` slots (`N` a
`usize`) and every sequence of calls from `SpscRing::new()`: no call panics and
each returns what the same call returns on the queue of capacity `N - 1`; the
ring ends holding the queue's values with both indices below `N`, and every
further call refines the queue's, a refused push or an empty pop leaving the ring
as it was. The values popped are a sublist of the values accepted, in push
order, and a prefix of them when `clear` is never called. -/
theorem spsc_refines_fifo {N : Nat} (hN : 0 < N) (hN' : N < 2 ^ 64) (ops : List Op) :
    ∃ s, (new : SpscRing N).run ops = some (s, ((Fifo.empty : Fifo (N - 1)).run ops).2) ∧
      Refines s ((Fifo.empty : Fifo (N - 1)).run ops).1 ∧
      (∀ op, ∃ s', s.step op = some (s', (((Fifo.empty : Fifo (N - 1)).run ops).1.step op).2) ∧
        Refines s' (((Fifo.empty : Fifo (N - 1)).run ops).1.step op).1 ∧
        ((((Fifo.empty : Fifo (N - 1)).run ops).1.step op).2 = .push false ∨
          (((Fifo.empty : Fifo (N - 1)).run ops).1.step op).2 = .pop none → s' = s)) ∧
      List.Sublist (popped ((Fifo.empty : Fifo (N - 1)).run ops).2)
        (accepted ops ((Fifo.empty : Fifo (N - 1)).run ops).2) ∧
      (Op.clear ∉ ops → List.IsPrefix (popped ((Fifo.empty : Fifo (N - 1)).run ops).2)
        (accepted ops ((Fifo.empty : Fifo (N - 1)).run ops).2)) := by
  obtain ⟨s, hs, hr⟩ := (refines_new hN).run hN' ops
  refine ⟨s, hs, hr, fun op => hr.step hN' op, ?_, fun hops => ?_⟩
  · have h := Fifo.popped_sublist_run (Fifo.empty : Fifo (N - 1)) ops
    rw [Fifo.empty, List.nil_append] at h
    exact (List.sublist_append_left _ _).trans h
  · have h := Fifo.popped_append_run (Fifo.empty : Fifo (N - 1)) ops hops
    rw [Fifo.empty, List.nil_append] at h
    exact ⟨_, h⟩

theorem spsc_refines_fifo_four :
    0 < 4 ∧ 4 < 2 ^ 64 ∧ ∃ s, (new : SpscRing 4).run [.push 7, .pop] =
      some (s, ((Fifo.empty : Fifo (4 - 1)).run [.push 7, .pop]).2) :=
  ⟨by decide, by decide, (spsc_refines_fifo (by decide) (by decide) [.push 7, .pop]).imp fun _ h => h.1⟩

/-- Popped values are not a prefix of the accepted ones across a `clear`: the
value pushed before it is dropped, the one pushed after it is popped. -/
theorem popped_not_prefix_after_clear :
    ∃ s outs, (new : SpscRing 4).run [.push 1, .clear, .push 2, .pop] = some (s, outs) ∧
      ¬ List.IsPrefix (popped outs) (accepted [.push 1, .clear, .push 2, .pop] outs) :=
  ⟨_, _, rfl, by decide⟩

end SpscRing

end AliceRtos
