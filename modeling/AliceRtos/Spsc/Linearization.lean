import AliceRtos.Spsc.Concurrent
import AliceRtos.Spsc.Refinement

/-! Where each call of the two parties takes effect, and that each party alone
makes progress.

A successful call takes effect at its store: in every system an interleaving
reaches, the ring read at that instant refines the FIFO queue of the values
whose push has stored `write_idx` and whose pop has not yet stored `read_idx`
(`ring_refines_queue`), so the concurrent ring behaves as the queue of
`Refinement` with each call placed at its store.

A failed call takes effect at its second load. `Traced` is `Reachable` with two
ghost counts beside the system: `pg`, the pushes completed when the consumer
last loaded `write_idx`, and `cg`, the pops completed when the producer last
loaded `read_idx`. Every reachable system has such counts and every traced one
is reachable. At the full check, `push` returns `false` exactly when the ring
held `N - 1` values at the moment the producer loaded `read_idx`; at the empty
check, `pop` returns `None` exactly when the ring held nothing at the moment the
consumer loaded `write_idx` (`reports_exact`). Neither report is ever spurious
or missed, whatever the other party did meanwhile.

Progress of one party alone: with the producer making no step, the consumer's
calls return every value whose push has completed, in order, four steps each,
and its next call reports the ring empty (`consumer_drains`); with the consumer
making no step, the producer's calls push every value that fits, until the ring
holds `N - 1` values, and its next call reports it full (`producer_fills`). -/
namespace AliceRtos.SpscRing

/-- The producer's next step loads `read_idx`. -/
def Producer.loadsRead : Producer → Bool
  | .loadedWrite _ _ => true
  | _ => false

/-- The consumer's next step loads `write_idx`. -/
def Consumer.loadsWrite : Consumer → Bool
  | .loadedRead _ => true
  | _ => false

namespace Sys

variable {N : Nat} {sys sys' : Sys N}

/-! ### What a step does to the other party's side -/

/-- A producer step leaves the consumer, its pops and the pushes before it alone;
it enters `loadedRead` only from `loadedWrite`, by loading `read_idx`. -/
theorem producerStep_frame {value : UInt32} (hs : sys.producerStep value = some sys') :
    sys'.consumer = sys.consumer ∧ sys'.popLog = sys.popLog ∧ sys.pushLog.length ≤ sys'.pushLog.length ∧
      ∀ v w r, sys'.producer = .loadedRead v w r →
        sys.producer.loadsRead ∧ r = sys.ring.readIdx ∧ sys'.pushLog = sys.pushLog := by
  unfold producerStep at hs
  split at hs
  · cases hs
    exact ⟨rfl, rfl, Nat.le_refl _, nofun⟩
  · rename_i hp
    cases hs
    exact ⟨rfl, rfl, Nat.le_refl _, fun v w r h => by cases h; exact ⟨by rw [hp]; rfl, rfl, rfl⟩⟩
  · simp only [bind, Option.bind_eq_some] at hs
    obtain ⟨_, -, _, -, hs⟩ := hs
    split at hs
    · cases hs
      exact ⟨rfl, rfl, Nat.le_refl _, nofun⟩
    · split at hs <;> cases hs
      exact ⟨rfl, rfl, Nat.le_refl _, nofun⟩
  · cases hs
    exact ⟨rfl, rfl, by simp, nofun⟩

/-- A consumer step leaves the producer, its pushes and the pops before it alone;
it enters `loadedWrite` only from `loadedRead`, by loading `write_idx`. -/
theorem consumerStep_frame (hs : sys.consumerStep = some sys') :
    sys'.producer = sys.producer ∧ sys'.pushLog = sys.pushLog ∧ sys.popLog.length ≤ sys'.popLog.length ∧
      ∀ r w, sys'.consumer = .loadedWrite r w →
        sys.consumer.loadsWrite ∧ w = sys.ring.writeIdx ∧ sys'.popLog = sys.popLog := by
  unfold consumerStep at hs
  split at hs
  · cases hs
    exact ⟨rfl, rfl, Nat.le_refl _, nofun⟩
  · rename_i hc
    cases hs
    exact ⟨rfl, rfl, Nat.le_refl _, fun r w h => by cases h; exact ⟨by rw [hc]; rfl, rfl, rfl⟩⟩
  · split at hs
    · cases hs
      exact ⟨rfl, rfl, Nat.le_refl _, nofun⟩
    · split at hs <;> cases hs
      exact ⟨rfl, rfl, Nat.le_refl _, nofun⟩
  · simp only [bind, Option.bind_eq_some] at hs
    obtain ⟨_, -, _, -, hs⟩ := hs
    cases hs
    exact ⟨rfl, rfl, by simp, nofun⟩

theorem Inv.of_producerStep (h : sys.Inv) (hN : 0 < N) (hN' : N < 2 ^ 64) {value : UInt32}
    (hs : sys.producerStep value = some sys') : sys'.Inv := by
  obtain ⟨_, hs', hinv⟩ := h.producerStep hN hN' value
  rw [hs] at hs'
  exact Option.some.inj hs' ▸ hinv

theorem Inv.of_consumerStep (h : sys.Inv) (hN : 0 < N) (hN' : N < 2 ^ 64)
    (hs : sys.consumerStep = some sys') : sys'.Inv := by
  obtain ⟨_, hs', hinv⟩ := h.consumerStep hN hN'
  rw [hs] at hs'
  exact Option.some.inj hs' ▸ hinv

/-! ### Successful calls, at their stores -/

/-- The ring of a system with the invariant holds the values pushed and not yet
popped, oldest first. -/
theorem Inv.contents_eq (h : sys.Inv) (hN : 0 < N) :
    sys.ring.contents = sys.pushLog.drop sys.popLog.length := by
  have hring : sys.ring.Inv := ⟨(h.lt hN).1, (h.lt hN).2⟩
  have hpop := h.popped_le
  have hpush := h.pushed_le
  have hcount : sys.ring.count = sys.pushLog.length - sys.popLog.length := by
    have hlt := hring.count_lt
    have hmod := hring.read_add_count
    rw [h.read_eq, h.write_eq, Nat.mod_add_mod] at hmod
    rcases Nat.le_total (sys.popLog.length + sys.ring.count) sys.pushLog.length with hle | hle
    · have := mod_inj hle (by omega) hmod
      omega
    · have := mod_inj hle (by omega) hmod.symm
      omega
  refine List.ext_getElem (by rw [length_contents, hcount, List.length_drop]) fun k hk _ => ?_
  rw [length_contents, hcount] at hk
  have hslot := h.slots (sys.popLog.length + k) (Nat.le_add_right _ _) (by omega)
  rw [List.getElem?_eq_getElem (by omega), Option.some.injEq] at hslot
  simp only [contents, List.getElem_map, List.getElem_range, List.getElem_drop]
  rw [hslot, ← slotAt_mod, h.read_eq, Nat.mod_add_mod, slotAt_mod]

/-- **Successful calls take effect at their stores.** In every system that an
interleaving reaches, the ring, read at that instant, refines the FIFO queue of
the values whose push has stored `write_idx` and whose pop has not yet stored
`read_idx`, in push order. -/
theorem ring_refines_queue (hN : 0 < N) (hN' : N < 2 ^ 64) (h : sys.Reachable) :
    ∃ q : Fifo (N - 1), SpscRing.Refines sys.ring q ∧ q.items = sys.pushLog.drop sys.popLog.length := by
  have hinv := h.inv hN hN'
  have hlen : (sys.pushLog.drop sys.popLog.length).length ≤ N - 1 := by
    rw [List.length_drop]
    have := hinv.pushed_le
    omega
  exact ⟨⟨_, hlen⟩, ⟨⟨(hinv.lt hN).1, (hinv.lt hN).2⟩, hinv.contents_eq hN⟩, rfl⟩

/-- Three slots holding 7 and 8, the consumer having read 7 without storing
`read_idx`: the ring still refines the queue `[7, 8]`. -/
theorem ring_refines_queue_pending :
    0 < 3 ∧ 3 < 2 ^ 64 ∧ ∃ sys : Sys 3, sys.Reachable ∧ sys.consumer = .taken 0 7 ∧ sys.pushLog = [7, 8] ∧
      ∃ q : Fifo (3 - 1), SpscRing.Refines sys.ring q ∧ q.items = sys.pushLog.drop sys.popLog.length := by
  have h := Reachable.init (N := 3) |>.producer 7 rfl |>.producer 7 rfl |>.producer 7 rfl |>.producer 7 rfl
    |>.producer 8 rfl |>.producer 8 rfl |>.producer 8 rfl |>.producer 8 rfl
    |>.consumer rfl |>.consumer rfl |>.consumer rfl
  exact ⟨by decide, by decide, _, h, rfl, rfl, ring_refines_queue (by decide) (by decide) h⟩

/-! ### Failed calls, at their linearisation point -/

/-- Reachable systems, with `pg` the pushes completed when the consumer last
loaded `write_idx` and `cg` the pops completed when the producer last loaded
`read_idx`. -/
inductive Traced : Sys N → Nat → Nat → Prop
  | init : Traced init 0 0
  | producer {sys sys' : Sys N} {pg cg : Nat} (value : UInt32) : Traced sys pg cg →
      sys.producerStep value = some sys' →
      Traced sys' pg (if sys.producer.loadsRead then sys.popLog.length else cg)
  | consumer {sys sys' : Sys N} {pg cg : Nat} : Traced sys pg cg → sys.consumerStep = some sys' →
      Traced sys' (if sys.consumer.loadsWrite then sys.pushLog.length else pg) cg

theorem Traced.reachable {pg cg : Nat} (h : Traced sys pg cg) : sys.Reachable := by
  induction h with
  | init => exact .init
  | producer v _ hs ih => exact ih.producer v hs
  | consumer _ hs ih => exact ih.consumer hs

theorem Reachable.traced (h : sys.Reachable) : ∃ pg cg, Traced sys pg cg := by
  induction h with
  | init => exact ⟨0, 0, .init⟩
  | producer v _ hs ih =>
    obtain ⟨pg, cg, ht⟩ := ih
    exact ⟨_, _, ht.producer v hs⟩
  | consumer _ hs ih =>
    obtain ⟨pg, cg, ht⟩ := ih
    exact ⟨_, _, ht.consumer hs⟩

/-- What the ghost counts say about the index each party holds after its second load. -/
structure TracedInv (sys : Sys N) (pg cg : Nat) : Prop where
  inv : sys.Inv
  producer : ∀ v w r, sys.producer = .loadedRead v w r →
    r = cg % N ∧ cg ≤ sys.popLog.length ∧ sys.pushLog.length ≤ cg + (N - 1)
  consumer : ∀ r w, sys.consumer = .loadedWrite r w →
    w = pg % N ∧ sys.popLog.length ≤ pg ∧ pg ≤ sys.pushLog.length

theorem Traced.inv (hN : 0 < N) (hN' : N < 2 ^ 64) {pg cg : Nat} (h : Traced sys pg cg) :
    TracedInv sys pg cg := by
  induction h with
  | init =>
    exact ⟨inv_init, nofun, nofun⟩
  | @producer sys sys' pg cg v _ hs ih =>
    obtain ⟨hcons, hpop, hpush, hread⟩ := producerStep_frame hs
    refine ⟨ih.inv.of_producerStep hN hN' hs, fun v w r hp => ?_, fun r w hc => ?_⟩
    · obtain ⟨hloads, rfl, hpush'⟩ := hread v w r hp
      rw [if_pos hloads, hpop, hpush', ih.inv.read_eq]
      exact ⟨rfl, Nat.le_refl _, ih.inv.pushed_le⟩
    · obtain ⟨hw, hle, hpg⟩ := ih.consumer r w (hcons ▸ hc)
      rw [hpop]
      exact ⟨hw, hle, Nat.le_trans hpg hpush⟩
  | @consumer sys sys' pg cg _ hs ih =>
    obtain ⟨hprod, hpush, hpop, hwrite⟩ := consumerStep_frame hs
    refine ⟨ih.inv.of_consumerStep hN hN' hs, fun v w r hp => ?_, fun r w hc => ?_⟩
    · obtain ⟨hr, hle, hcg⟩ := ih.producer v w r (hprod ▸ hp)
      rw [hpush]
      exact ⟨hr, Nat.le_trans hle hpop, hcg⟩
    · obtain ⟨hloads, rfl, hpop'⟩ := hwrite r w hc
      rw [if_pos hloads, hpop', hpush, ih.inv.write_eq]
      exact ⟨rfl, ih.inv.popped_le, Nat.le_refl _⟩

/-- **Failed calls are exact.** In every traced system: at the full check,
`push` returns `false` exactly when the pushes completed are `N - 1` more than
the pops completed when the producer loaded `read_idx`; at the empty check,
`pop` returns `None` exactly when the pushes completed when the consumer loaded
`write_idx` are the pops completed. -/
theorem reports_exact (hN : 0 < N) (hN' : N < 2 ^ 64) {pg cg : Nat} (h : Traced sys pg cg) :
    (∀ v w r, sys.producer = .loadedRead v w r →
      ((w + 1) % N = r ↔ sys.pushLog.length = cg + (N - 1))) ∧
    (∀ r w, sys.consumer = .loadedWrite r w → (r = w ↔ pg = sys.popLog.length)) := by
  have hinv := h.inv hN hN'
  refine ⟨fun v w r hp => ?_, fun r w hc => ?_⟩
  · obtain ⟨rfl, hcg, hle⟩ := hinv.producer v w r hp
    have hw : w = sys.pushLog.length % N := by
      have hpi := hinv.inv.producer
      simp only [ProducerInv, hp] at hpi
      exact hpi.1
    have hpop := hinv.inv.popped_le
    rw [hw, Nat.mod_add_mod]
    constructor
    · intro e
      have := @mod_inj N (sys.pushLog.length + 1) (cg + N) (by omega) (by omega)
        (by rw [e, Nat.add_mod_right])
      omega
    · intro e
      rw [e, show cg + (N - 1) + 1 = cg + N by omega, Nat.add_mod_right]
  · obtain ⟨rfl, hle, hpg⟩ := hinv.consumer r w hc
    have hr : r = sys.popLog.length % N := by
      have hci := hinv.inv.consumer
      simp only [ConsumerInv, hc] at hci
      exact hci.1
    have hpush := hinv.inv.pushed_le
    rw [hr]
    constructor
    · intro e
      exact (@mod_inj N _ _ hle (by omega) e).symm
    · intro e
      rw [e]

/-- Two slots, so one value fills the ring: after a push of 7 completes, the
consumer loads both indices, and so does the producer for a push of 8. -/
theorem reports_exact_full :
    0 < 2 ∧ 2 < 2 ^ 64 ∧ ∃ (sys : Sys 2) (pg cg : Nat), Traced sys pg cg ∧
      sys.producer = .loadedRead 8 1 0 ∧ sys.consumer = .loadedWrite 0 1 ∧ pg = 1 ∧ cg = 0 ∧
      (∀ v w r, sys.producer = .loadedRead v w r → ((w + 1) % 2 = r ↔ sys.pushLog.length = cg + (2 - 1))) ∧
      (∀ r w, sys.consumer = .loadedWrite r w → (r = w ↔ pg = sys.popLog.length)) := by
  have h := Traced.init (N := 2) |>.producer 7 rfl |>.producer 7 rfl |>.producer 7 rfl |>.producer 7 rfl
    |>.consumer rfl |>.consumer rfl |>.producer 8 rfl |>.producer 8 rfl
  exact ⟨by decide, by decide, _, _, _, h, rfl, rfl, rfl, rfl, reports_exact (by decide) (by decide) h⟩

/-! ### One party alone -/

/-- `n` steps of the consumer in a row, the producer making none. -/
def consumerSteps (sys : Sys N) : Nat → Option (Sys N)
  | 0 => some sys
  | n + 1 => sys.consumerStep.bind fun sys => sys.consumerSteps n

/-- Steps of the producer in a row, the consumer making none; each step's value is
what a call it starts pushes. -/
def producerSteps (sys : Sys N) : List UInt32 → Option (Sys N)
  | [] => some sys
  | value :: values => (sys.producerStep value).bind fun sys => sys.producerSteps values

theorem consumerSteps_add (sys : Sys N) (a b : Nat) :
    sys.consumerSteps (a + b) = (sys.consumerSteps a).bind fun sys => sys.consumerSteps b := by
  induction a generalizing sys with
  | zero => simp [consumerSteps]
  | succ a ih =>
    rw [Nat.add_right_comm, consumerSteps, consumerSteps]
    cases sys.consumerStep <;> simp [ih]

theorem producerSteps_append (sys : Sys N) (vs vs' : List UInt32) :
    sys.producerSteps (vs ++ vs') = (sys.producerSteps vs).bind fun sys => sys.producerSteps vs' := by
  induction vs generalizing sys with
  | nil => simp [producerSteps]
  | cons v vs ih =>
    rw [List.cons_append, producerSteps, producerSteps]
    cases sys.producerStep v <;> simp [ih]

theorem Inv.of_consumerSteps (h : sys.Inv) (hN : 0 < N) (hN' : N < 2 ^ 64) {n : Nat}
    (hs : sys.consumerSteps n = some sys') : sys'.Inv := by
  induction n generalizing sys with
  | zero => exact Option.some.inj hs ▸ h
  | succ n ih =>
    obtain ⟨s₁, h₁, hs⟩ := Option.bind_eq_some.mp hs
    exact ih (h.of_consumerStep hN hN' h₁) hs

theorem Inv.of_producerSteps (h : sys.Inv) (hN : 0 < N) (hN' : N < 2 ^ 64) {vs : List UInt32}
    (hs : sys.producerSteps vs = some sys') : sys'.Inv := by
  induction vs generalizing sys with
  | nil => exact Option.some.inj hs ▸ h
  | cons v vs ih =>
    obtain ⟨s₁, h₁, hs⟩ := Option.bind_eq_some.mp hs
    exact ih (h.of_producerStep hN hN' h₁) hs

/-- From an idle consumer, one pop of a non-empty ring takes four steps, returns
the oldest value not yet popped and leaves the consumer idle. -/
theorem Inv.pop_cycle (h : sys.Inv) (hN : 0 < N) (hN' : N < 2 ^ 64) (hc : sys.consumer = .idle)
    (hlt : sys.popLog.length < sys.pushLog.length) :
    ∃ sys', sys.consumerSteps 4 = some sys' ∧ sys'.Inv ∧ sys'.consumer = .idle ∧
      sys'.pushLog = sys.pushLog ∧ sys'.popLog.length = sys.popLog.length + 1 := by
  have hpush := h.pushed_le
  have hne : sys.ring.readIdx ≠ sys.ring.writeIdx := by
    rw [h.read_eq, h.write_eq]
    exact fun e => Nat.ne_of_lt hlt (@mod_inj N _ _ (Nat.le_of_lt hlt) (by omega) e)
  have hrN : sys.ring.readIdx < N := (h.lt hN).1
  have hs : sys.consumerSteps 4 = some { sys with
      ring := { sys.ring with readIdx := (sys.ring.readIdx + 1) % N }
      consumer := .idle
      popLog := sys.popLog ++ [sys.ring.buffer ⟨_, hrN⟩] } := by
    simp only [consumerSteps, Sys.consumerStep, hc, if_neg hne, dif_pos hrN, addUsize_one hrN hN',
      remUsize_of_pos hN, Option.some_bind, bind]
  exact ⟨_, hs, h.of_consumerSteps hN hN' hs, rfl, rfl, by simp⟩

/-- From an idle producer, one push into a ring with room takes four steps, appends
the value and leaves the producer idle. -/
theorem Inv.push_cycle (h : sys.Inv) (hN : 0 < N) (hN' : N < 2 ^ 64) (hp : sys.producer = .idle)
    (hroom : sys.pushLog.length < sys.popLog.length + (N - 1)) (v : UInt32) :
    ∃ sys', sys.producerSteps (List.replicate 4 v) = some sys' ∧ sys'.Inv ∧ sys'.producer = .idle ∧
      sys'.pushLog = sys.pushLog ++ [v] ∧ sys'.popLog = sys.popLog := by
  have hpop := h.popped_le
  have hwN : sys.ring.writeIdx < N := (h.lt hN).2
  have hne : (sys.ring.writeIdx + 1) % N ≠ sys.ring.readIdx := by
    rw [h.read_eq, h.write_eq, Nat.mod_add_mod]
    intro e
    have := @mod_inj N _ _ (Nat.le_succ_of_le hpop) (by omega) e.symm
    omega
  have hs : sys.producerSteps (List.replicate 4 v) = some { sys with
      ring := { sys.ring with
        buffer := Function.update sys.ring.buffer ⟨_, hwN⟩ v
        writeIdx := (sys.ring.writeIdx + 1) % N }
      producer := .idle
      pushLog := sys.pushLog ++ [v] } := by
    simp only [List.replicate, producerSteps, Sys.producerStep, hp, addUsize_one hwN hN', remUsize_of_pos hN,
      if_neg hne, dif_pos hwN, Option.some_bind, bind]
  exact ⟨_, hs, h.of_producerSteps hN hN' hs, rfl, rfl, rfl⟩

/-- The consumer alone pops every pending value, four steps each. -/
theorem Inv.drain (hN : 0 < N) (hN' : N < 2 ^ 64) :
    ∀ (n : Nat) (sys : Sys N), sys.Inv → sys.consumer = .idle →
      sys.pushLog.length - sys.popLog.length = n →
      ∃ sys', sys.consumerSteps (4 * n) = some sys' ∧ sys'.Inv ∧ sys'.consumer = .idle ∧
        sys'.pushLog = sys.pushLog ∧ sys'.popLog.length = sys.pushLog.length
  | 0, sys, h, hc, hn => ⟨sys, rfl, h, hc, rfl, by have := h.popped_le; omega⟩
  | n + 1, sys, h, hc, hn => by
    obtain ⟨s₁, h₁, hinv₁, hc₁, hpush₁, hpop₁⟩ := h.pop_cycle hN hN' hc (by omega)
    obtain ⟨s', h', hinv', hc', hpush', hpop'⟩ := Inv.drain hN hN' n s₁ hinv₁ hc₁
      (by rw [hpush₁, hpop₁]; omega)
    refine ⟨s', ?_, hinv', hc', hpush'.trans hpush₁, hpop'.trans (by rw [hpush₁])⟩
    rw [show 4 * (n + 1) = 4 + 4 * n by omega, consumerSteps_add, h₁, Option.some_bind, h']

/-- The producer alone pushes every value that fits, four steps each. -/
theorem Inv.fill (h : sys.Inv) (hN : 0 < N) (hN' : N < 2 ^ 64) (hp : sys.producer = .idle)
    {vs : List UInt32} (hvs : sys.pushLog.length + vs.length ≤ sys.popLog.length + (N - 1)) :
    ∃ sys', sys.producerSteps (vs.flatMap (List.replicate 4)) = some sys' ∧ sys'.Inv ∧
      sys'.producer = .idle ∧ sys'.pushLog = sys.pushLog ++ vs ∧ sys'.popLog = sys.popLog := by
  induction vs generalizing sys with
  | nil => exact ⟨sys, rfl, h, hp, (List.append_nil _).symm, rfl⟩
  | cons v vs ih =>
    rw [List.length_cons] at hvs
    obtain ⟨s₁, h₁, hinv₁, hp₁, hpush₁, hpop₁⟩ := h.push_cycle hN hN' hp (by omega) v
    obtain ⟨s', h', hinv', hp', hpush', hpop'⟩ := ih hinv₁ hp₁
      (by rw [hpush₁, hpop₁, List.length_append, List.length_singleton]; omega)
    refine ⟨s', ?_, hinv', hp', by rw [hpush', hpush₁, List.append_assoc, List.singleton_append],
      hpop'.trans hpop₁⟩
    rw [List.flatMap_cons, producerSteps_append, h₁, Option.some_bind, h']

/-- **The consumer drains the ring.** From any reachable system whose consumer is
between calls, if the producer makes no step, `4·(P - C)` consumer steps return
every value whose push has completed, in push order, and the consumer's next
call reports the ring empty, in three steps that pop nothing. -/
theorem consumer_drains (hN : 0 < N) (hN' : N < 2 ^ 64) (h : sys.Reachable) (hc : sys.consumer = .idle) :
    ∃ sys', sys.consumerSteps (4 * (sys.pushLog.length - sys.popLog.length)) = some sys' ∧
      sys'.popLog = sys.pushLog ∧
      ∃ sys'', sys'.consumerSteps 3 = some sys'' ∧ sys''.consumer = .idle ∧ sys''.popLog = sys'.popLog := by
  obtain ⟨s', hs', hinv', hc', hpush', hpop'⟩ := Inv.drain hN hN' _ sys (h.inv hN hN') hc rfl
  have hlog : s'.popLog = sys.pushLog :=
    hpush' ▸ hinv'.popped_isPrefix.eq_of_length (hpop'.trans (congrArg List.length hpush').symm)
  have hempty : s'.ring.readIdx = s'.ring.writeIdx := by
    rw [hinv'.read_eq, hinv'.write_eq, hlog, hpush']
  refine ⟨s', hs', hlog, { s' with consumer := .idle }, ?_, rfl, rfl⟩
  simp only [consumerSteps, consumerStep, hc', Option.some_bind, if_pos hempty]

/-- Three slots: 7, 8 and 9 pushed and 7 popped, so `write_idx` has wrapped to 0;
eight consumer steps pop 8 and 9. -/
theorem consumer_drains_wrapped :
    0 < 3 ∧ 3 < 2 ^ 64 ∧ ∃ sys : Sys 3, sys.Reachable ∧ sys.consumer = .idle ∧
      sys.pushLog = [7, 8, 9] ∧ sys.popLog = [7] ∧ sys.ring.writeIdx = 0 ∧
      ∃ sys', sys.consumerSteps (4 * (sys.pushLog.length - sys.popLog.length)) = some sys' ∧
        sys'.popLog = sys.pushLog ∧
        ∃ sys'', sys'.consumerSteps 3 = some sys'' ∧ sys''.consumer = .idle ∧ sys''.popLog = sys'.popLog := by
  have h := Reachable.init (N := 3) |>.producer 7 rfl |>.producer 7 rfl |>.producer 7 rfl |>.producer 7 rfl
    |>.producer 8 rfl |>.producer 8 rfl |>.producer 8 rfl |>.producer 8 rfl
    |>.consumer rfl |>.consumer rfl |>.consumer rfl |>.consumer rfl
    |>.producer 9 rfl |>.producer 9 rfl |>.producer 9 rfl |>.producer 9 rfl
  exact ⟨by decide, by decide, _, h, rfl, rfl, rfl, rfl, consumer_drains (by decide) (by decide) h rfl⟩

/-- **The producer fills the ring.** From any reachable system whose producer is
between calls, if the consumer makes no step, the producer's calls push every
value that fits in the `N - 1` slots less the values not yet popped, four steps
each and in order; and once they fill the ring, the producer's next call
reports it full, in three steps that push nothing. -/
theorem producer_fills (hN : 0 < N) (hN' : N < 2 ^ 64) (h : sys.Reachable) (hp : sys.producer = .idle)
    {vs : List UInt32} (hvs : sys.pushLog.length + vs.length ≤ sys.popLog.length + (N - 1)) :
    ∃ sys', sys.producerSteps (vs.flatMap (List.replicate 4)) = some sys' ∧
      sys'.pushLog = sys.pushLog ++ vs ∧ sys'.popLog = sys.popLog ∧
      (sys.pushLog.length + vs.length = sys.popLog.length + (N - 1) → ∀ v,
        ∃ sys'', sys'.producerSteps (List.replicate 3 v) = some sys'' ∧ sys''.producer = .idle ∧
          sys''.pushLog = sys'.pushLog) := by
  obtain ⟨s', hs', hinv', hp', hpush', hpop'⟩ := (h.inv hN hN').fill hN hN' hp hvs
  refine ⟨s', hs', hpush', hpop', fun hfull v => ⟨{ s' with producer := .idle }, ?_, rfl, rfl⟩⟩
  have hwN : s'.ring.writeIdx < N := (hinv'.lt hN).2
  have hfull' : (s'.ring.writeIdx + 1) % N = s'.ring.readIdx := by
    rw [hinv'.read_eq, hinv'.write_eq, Nat.mod_add_mod, hpush', hpop', List.length_append,
      show sys.pushLog.length + vs.length + 1 = sys.popLog.length + N by omega, Nat.add_mod_right]
  simp only [List.replicate, producerSteps, producerStep, hp', addUsize_one hwN hN', remUsize_of_pos hN,
    if_pos hfull', Option.some_bind, bind]

theorem producer_fills_init :
    0 < 2 ∧ 2 < 2 ^ 64 ∧ (init : Sys 2).Reachable ∧ (init : Sys 2).producer = .idle ∧
      (init : Sys 2).pushLog.length + [7].length ≤ (init : Sys 2).popLog.length + (2 - 1) ∧
      ∃ sys', (init : Sys 2).producerSteps ([7].flatMap (List.replicate 4)) = some sys' ∧
        sys'.pushLog = (init : Sys 2).pushLog ++ [7] ∧ sys'.popLog = (init : Sys 2).popLog ∧
        ((init : Sys 2).pushLog.length + [7].length = (init : Sys 2).popLog.length + (2 - 1) → ∀ v,
          ∃ sys'', sys'.producerSteps (List.replicate 3 v) = some sys'' ∧ sys''.producer = .idle ∧
            sys''.pushLog = sys'.pushLog) :=
  ⟨by decide, by decide, .init, rfl, by decide, producer_fills (by decide) (by decide) .init rfl (by decide)⟩

end Sys

end AliceRtos.SpscRing
