import AliceRtos.Spsc.Ring

/-! The SPSC ring under one producer and one consumer running at once.

Each call is cut into its atomic steps, as the code orders its loads and
stores. The producer's `push`: load `write_idx`, load `read_idx`, the full check
with the write of `buffer[write]`, store `write_idx`. The consumer's `pop`: load
`read_idx`, load `write_idx`, the empty check with the read of `buffer[read]`,
store `read_idx`. Between the steps each party holds what it loaded in its local
phase (`Producer`, `Consumer`), possibly stale; the system (`Sys`) is the shared
ring, the two phases, and a history of the values whose push returned `true`
and of the values completed pops returned. Any interleaving of the two parties'
steps is a path of `Reachable`.

The invariant counts in unwrapped numbers: `P` pushes and `C` pops completed,
with `write_idx = P mod N`, `read_idx = C mod N` and `C ≤ P ≤ C + N - 1`. A stale
index that a party holds is `c mod N` or `p mod N` for an earlier count, and
the other party only moves its count forward; the mod-`N` checks of the code
then say exact things about the counts (`mod_inj`). `spsc_interleaving_safe`
collects what follows. -/
namespace AliceRtos.SpscRing

/-- Where the producer is inside `push`, with what it has loaded. -/
inductive Producer
  | idle
  | loadedWrite (value : UInt32) (write : Nat)
  | loadedRead (value : UInt32) (write read : Nat)
  | written (value : UInt32) (write nextWrite : Nat)

/-- Where the consumer is inside `pop`, with what it has loaded. -/
inductive Consumer
  | idle
  | loadedRead (read : Nat)
  | loadedWrite (read write : Nat)
  | taken (read : Nat) (value : UInt32)

/-- The shared ring, the two parties' phases, and the history of completed calls. -/
structure Sys (N : Nat) where
  ring : SpscRing N
  producer : Producer
  consumer : Consumer
  /-- The values whose push returned `true`, in order. -/
  pushLog : List UInt32
  /-- The values completed pops returned, in order. -/
  popLog : List UInt32

namespace Sys
variable {N : Nat}

def init : Sys N := ⟨new, .idle, .idle, [], []⟩

/-- One atomic step of the producer; `value` is what a new call pushes. -/
def producerStep (sys : Sys N) (value : UInt32) : Option (Sys N) :=
  match sys.producer with
  | .idle => some { sys with producer := .loadedWrite value sys.ring.writeIdx }
  | .loadedWrite v w => some { sys with producer := .loadedRead v w sys.ring.readIdx }
  | .loadedRead v w r => do
    let nextWrite ← remUsize (← addUsize w 1) N
    if nextWrite = r then some { sys with producer := .idle }
    else if h : w < N then
      some { sys with
        ring := { sys.ring with buffer := Function.update sys.ring.buffer ⟨w, h⟩ v }
        producer := .written v w nextWrite }
    else none
  | .written v _ nextWrite =>
    some { sys with
      ring := { sys.ring with writeIdx := nextWrite }
      producer := .idle
      pushLog := sys.pushLog ++ [v] }

/-- One atomic step of the consumer. -/
def consumerStep (sys : Sys N) : Option (Sys N) :=
  match sys.consumer with
  | .idle => some { sys with consumer := .loadedRead sys.ring.readIdx }
  | .loadedRead r => some { sys with consumer := .loadedWrite r sys.ring.writeIdx }
  | .loadedWrite r w =>
    if r = w then some { sys with consumer := .idle }
    else if h : r < N then some { sys with consumer := .taken r (sys.ring.buffer ⟨r, h⟩) }
    else none
  | .taken r v => do
    let nextRead ← remUsize (← addUsize r 1) N
    some { sys with
      ring := { sys.ring with readIdx := nextRead }
      consumer := .idle
      popLog := sys.popLog ++ [v] }

/-- The systems some interleaving of steps reaches from `SpscRing::new()`. -/
inductive Reachable : Sys N → Prop
  | init : Reachable init
  | producer {sys sys' : Sys N} (value : UInt32) : Reachable sys → sys.producerStep value = some sys' →
      Reachable sys'
  | consumer {sys sys' : Sys N} : Reachable sys → sys.consumerStep = some sys' → Reachable sys'

/-! ### The invariant -/

/-- What the producer's loaded values say, phase by phase. -/
def ProducerInv (sys : Sys N) : Prop :=
  match sys.producer with
  | .idle => True
  | .loadedWrite _ w => w = sys.pushLog.length % N
  | .loadedRead _ w r => w = sys.pushLog.length % N ∧
      ∃ c, c ≤ sys.popLog.length ∧ sys.pushLog.length ≤ c + (N - 1) ∧ r = c % N
  | .written v w next => w = sys.pushLog.length % N ∧ next = (sys.pushLog.length + 1) % N ∧
      sys.pushLog.length + 1 ≤ sys.popLog.length + (N - 1) ∧ sys.ring.slotAt sys.pushLog.length = v

/-- What the consumer's loaded values say, phase by phase. -/
def ConsumerInv (sys : Sys N) : Prop :=
  match sys.consumer with
  | .idle => True
  | .loadedRead r => r = sys.popLog.length % N
  | .loadedWrite r w => r = sys.popLog.length % N ∧
      ∃ p, sys.popLog.length ≤ p ∧ p ≤ sys.pushLog.length ∧ w = p % N
  | .taken r v => r = sys.popLog.length % N ∧ sys.pushLog[sys.popLog.length]? = some v

structure Inv (sys : Sys N) : Prop where
  write_eq : sys.ring.writeIdx = sys.pushLog.length % N
  read_eq : sys.ring.readIdx = sys.popLog.length % N
  popped_le : sys.popLog.length ≤ sys.pushLog.length
  pushed_le : sys.pushLog.length ≤ sys.popLog.length + (N - 1)
  popped_isPrefix : List.IsPrefix sys.popLog sys.pushLog
  /-- The values pushed and not yet popped sit in their slots. -/
  slots : ∀ k, sys.popLog.length ≤ k → k < sys.pushLog.length → sys.pushLog[k]? = some (sys.ring.slotAt k)
  producer : sys.ProducerInv
  consumer : sys.ConsumerInv

/-- Two counts less than `N` apart with one index are equal. -/
theorem mod_inj {a b : Nat} (hab : a ≤ b) (hb : b < a + N) (h : a % N = b % N) : a = b := by
  have hd : N ∣ b - a := (Nat.modEq_iff_dvd' hab).mp h
  have : b - a = 0 := Nat.eq_zero_of_dvd_of_lt hd (by omega)
  omega

theorem inv_init : (init : Sys N).Inv where
  write_eq := (Nat.zero_mod N).symm
  read_eq := (Nat.zero_mod N).symm
  popped_le := Nat.le_refl 0
  pushed_le := Nat.zero_le _
  popped_isPrefix := ⟨[], rfl⟩
  slots := fun _ _ hk => absurd hk (Nat.not_lt_zero _)
  producer := trivial
  consumer := trivial

variable {sys : Sys N}

theorem Inv.lt (h : sys.Inv) (hN : 0 < N) : sys.ring.readIdx < N ∧ sys.ring.writeIdx < N := by
  rw [h.read_eq, h.write_eq]
  exact ⟨Nat.mod_lt _ hN, Nat.mod_lt _ hN⟩

/-! ### The producer's steps -/

/-- The full check with the write: a push that goes on writes slot `P mod N`, which
holds no value still to be popped, and leaves one slot free. -/
theorem Inv.write (h : sys.Inv) (hN : 0 < N) {v : UInt32} {w r : Nat}
    (hp : sys.producer = .loadedRead v w r) (hfull : (w + 1) % N ≠ r) :
    sys.pushLog.length + 1 ≤ sys.popLog.length + (N - 1) ∧
      ∀ k, sys.popLog.length ≤ k → k < sys.pushLog.length → k % N ≠ w := by
  have hpi := h.producer
  simp only [ProducerInv, hp] at hpi
  obtain ⟨rfl, c, hc, hpc, rfl⟩ := hpi
  have hle := h.pushed_le
  refine ⟨?_, fun k hk hkp e => Nat.ne_of_lt hkp (@mod_inj N k _ (Nat.le_of_lt hkp) (by omega) e)⟩
  by_contra hlt
  apply hfull
  rw [Nat.mod_add_mod, show sys.pushLog.length + 1 = c + N by omega, Nat.add_mod_right]

theorem getElem?_append_of_eq_some {l : List UInt32} {n : Nat} {a : UInt32} (h : l[n]? = some a)
    (l' : List UInt32) : (l ++ l')[n]? = some a := by
  rw [List.getElem?_append_left (List.getElem?_eq_some_iff.mp h).1, h]

/-- The consumer's phase survives a completed push: the history only grows. -/
theorem ConsumerInv.push {sys : Sys N} (hc : sys.ConsumerInv) (ring : SpscRing N) (p : Producer)
    (v : UInt32) : ({ sys with ring := ring, producer := p, pushLog := sys.pushLog ++ [v] } : Sys N).ConsumerInv := by
  unfold ConsumerInv at hc ⊢
  dsimp only
  cases hcs : sys.consumer with
  | idle => trivial
  | loadedRead r => simpa only [hcs] using hc
  | loadedWrite r w =>
    simp only [hcs] at hc
    obtain ⟨hr, q, hq₁, hq₂, hw⟩ := hc
    exact ⟨hr, q, hq₁, by rw [List.length_append]; omega, hw⟩
  | taken r v' =>
    simp only [hcs] at hc
    exact ⟨hc.1, getElem?_append_of_eq_some hc.2 _⟩

/-- A step that only moves the producer's phase keeps the invariant. -/
theorem Inv.setProducer (h : sys.Inv) (p : Producer) (hp : ({ sys with producer := p } : Sys N).ProducerInv) :
    ({ sys with producer := p } : Sys N).Inv :=
  { h with producer := hp }

/-- **A producer step never panics and keeps the invariant.** -/
theorem Inv.producerStep (h : sys.Inv) (hN : 0 < N) (hN' : N < 2 ^ 64) (value : UInt32) :
    ∃ sys', sys.producerStep value = some sys' ∧ sys'.Inv := by
  have hpi := h.producer
  cases hp : sys.producer with
  | idle =>
    exact ⟨_, by simp only [Sys.producerStep, hp], h.setProducer (.loadedWrite value _) h.write_eq⟩
  | loadedWrite v w =>
    simp only [ProducerInv, hp] at hpi
    exact ⟨_, by simp only [Sys.producerStep, hp],
      h.setProducer (.loadedRead v w _) ⟨hpi, _, Nat.le_refl _, h.pushed_le, h.read_eq⟩⟩
  | loadedRead v w r =>
    simp only [ProducerInv, hp] at hpi
    have hwN : w < N := hpi.1 ▸ Nat.mod_lt _ hN
    by_cases hfull : (w + 1) % N = r
    · refine ⟨_, ?_, h.setProducer .idle trivial⟩
      simp only [Sys.producerStep, hp, addUsize_one hwN hN', remUsize_of_pos hN, Option.some_bind, bind,
        if_pos hfull]
    · obtain ⟨hroom, hfree⟩ := h.write hN hp hfull
      have hslot := slotAt_update sys.ring hwN v
      have hnext : (w + 1) % N = (sys.pushLog.length + 1) % N := by rw [hpi.1, Nat.mod_add_mod]
      refine ⟨{ sys with
          ring := { sys.ring with buffer := Function.update sys.ring.buffer ⟨w, hwN⟩ v }
          producer := .written v w ((w + 1) % N) }, ?_, { h with
        slots := fun k hk hkp => by rw [hslot, if_neg (hfree k hk hkp)]; exact h.slots k hk hkp
        producer := ⟨hpi.1, hnext, hroom, by rw [hslot, if_pos hpi.1.symm]⟩ }⟩
      simp only [Sys.producerStep, hp, addUsize_one hwN hN', remUsize_of_pos hN, Option.some_bind, bind,
        if_neg hfull, dif_pos hwN]
  | written v w next =>
    simp only [ProducerInv, hp] at hpi
    obtain ⟨-, hnext, hroom, hslot⟩ := hpi
    obtain ⟨t, ht⟩ := h.popped_isPrefix
    refine ⟨{ sys with
        ring := { sys.ring with writeIdx := next }
        producer := .idle
        pushLog := sys.pushLog ++ [v] }, by simp only [Sys.producerStep, hp],
      ⟨?_, h.read_eq, ?_, ?_, ⟨t ++ [v], ?_⟩, ?_, trivial, h.consumer.push _ _ v⟩⟩
    · simp only [List.length_append, List.length_singleton, hnext]
    · simp only [List.length_append, List.length_singleton]
      exact Nat.le_succ_of_le h.popped_le
    · simpa only [List.length_append, List.length_singleton] using hroom
    · rw [← List.append_assoc, ht]
    · intro k hk hkp
      simp only [List.length_append, List.length_singleton] at hkp
      rcases Nat.lt_or_ge k sys.pushLog.length with hlt | hge
      · exact getElem?_append_of_eq_some (h.slots k hk hlt) _
      · rw [show k = sys.pushLog.length by omega, List.getElem?_concat_length, ← hslot]
        rfl

/-! ### The consumer's steps -/

theorem slotAt_mod (s : SpscRing N) (i : Nat) : s.slotAt (i % N) = s.slotAt i := by
  simp only [slotAt, Nat.mod_mod]

theorem slotAt_of_lt (s : SpscRing N) {i : Nat} (hi : i < N) : s.slotAt i = s.buffer ⟨i, hi⟩ := by
  simp only [slotAt, dif_pos (Nat.lt_of_le_of_lt (Nat.zero_le _) hi), Nat.mod_eq_of_lt hi]

/-- The empty check with the read: a pop that goes on reads slot `C mod N`, and
that slot holds the oldest value whose push has stored `write_idx` and that no
pop has returned. -/
theorem Inv.read (h : sys.Inv) {r w : Nat} (hc : sys.consumer = .loadedWrite r w) (hne : r ≠ w) :
    sys.popLog.length < sys.pushLog.length ∧ r = sys.popLog.length % N ∧
      sys.pushLog[sys.popLog.length]? = some (sys.ring.slotAt r) := by
  have hci := h.consumer
  simp only [ConsumerInv, hc] at hci
  obtain ⟨hr, p, hp₁, hp₂, hw⟩ := hci
  have hlt : sys.popLog.length < sys.pushLog.length :=
    Nat.lt_of_lt_of_le (Nat.lt_of_le_of_ne hp₁ fun e => hne (by rw [hr, hw, e])) hp₂
  exact ⟨hlt, hr, by rw [hr, slotAt_mod]; exact h.slots _ (Nat.le_refl _) hlt⟩

/-- The producer's phase survives a completed pop: the consumer's count only grows. -/
theorem ProducerInv.pop {sys : Sys N} (hp : sys.ProducerInv) (ring : SpscRing N)
    (hbuf : ring.buffer = sys.ring.buffer) (c : Consumer) (v : UInt32) :
    ({ sys with ring := ring, consumer := c, popLog := sys.popLog ++ [v] } : Sys N).ProducerInv := by
  unfold ProducerInv at hp ⊢
  dsimp only
  cases hps : sys.producer with
  | idle => trivial
  | loadedWrite v w => simpa only [hps] using hp
  | loadedRead v w r =>
    simp only [hps] at hp
    obtain ⟨hw, c, hc, hpc, hr⟩ := hp
    exact ⟨hw, c, by rw [List.length_append]; omega, hpc, hr⟩
  | written v w next =>
    simp only [hps] at hp
    obtain ⟨hw, hnext, hroom, hslot⟩ := hp
    exact ⟨hw, hnext, by rw [List.length_append]; omega, by simp only [slotAt, hbuf]; exact hslot⟩

/-- A step that only moves the consumer's phase keeps the invariant. -/
theorem Inv.setConsumer (h : sys.Inv) (c : Consumer) (hc : ({ sys with consumer := c } : Sys N).ConsumerInv) :
    ({ sys with consumer := c } : Sys N).Inv :=
  { h with consumer := hc }

/-- **A consumer step never panics and keeps the invariant.** -/
theorem Inv.consumerStep (h : sys.Inv) (hN : 0 < N) (hN' : N < 2 ^ 64) :
    ∃ sys', sys.consumerStep = some sys' ∧ sys'.Inv := by
  have hci := h.consumer
  cases hc : sys.consumer with
  | idle => exact ⟨_, by simp only [Sys.consumerStep, hc], h.setConsumer (.loadedRead _) h.read_eq⟩
  | loadedRead r =>
    simp only [ConsumerInv, hc] at hci
    exact ⟨_, by simp only [Sys.consumerStep, hc],
      h.setConsumer (.loadedWrite r _) ⟨hci, _, h.popped_le, Nat.le_refl _, h.write_eq⟩⟩
  | loadedWrite r w =>
    by_cases hempty : r = w
    · exact ⟨_, by simp only [Sys.consumerStep, hc, if_pos hempty], h.setConsumer .idle trivial⟩
    · obtain ⟨-, hr, hval⟩ := h.read hc hempty
      have hrN : r < N := hr ▸ Nat.mod_lt _ hN
      refine ⟨_, by simp only [Sys.consumerStep, hc, if_neg hempty, dif_pos hrN],
        h.setConsumer (.taken r (sys.ring.buffer ⟨r, hrN⟩)) ⟨hr, ?_⟩⟩
      rw [hval, slotAt_of_lt _ hrN]
  | taken r v =>
    simp only [ConsumerInv, hc] at hci
    obtain ⟨hr, hval⟩ := hci
    have hrN : r < N := hr ▸ Nat.mod_lt _ hN
    have hlt : sys.popLog.length < sys.pushLog.length := (List.getElem?_eq_some_iff.mp hval).1
    obtain ⟨t, ht⟩ := h.popped_isPrefix
    obtain ⟨t', rfl⟩ : ∃ t', t = v :: t' := by
      rw [← ht, List.getElem?_append_right (Nat.le_refl _), Nat.sub_self] at hval
      cases t with
      | nil => exact absurd hval (by simp)
      | cons a t' => exact ⟨t', by simpa using hval⟩
    refine ⟨{ sys with
        ring := { sys.ring with readIdx := (r + 1) % N }
        consumer := .idle
        popLog := sys.popLog ++ [v] }, ?_, ⟨h.write_eq, ?_, ?_, ?_, ⟨t', by simpa using ht⟩,
      fun k hk hkp => h.slots k (by rw [List.length_append] at hk; omega) hkp, h.producer.pop _ rfl .idle v, trivial⟩⟩
    · simp only [Sys.consumerStep, hc, addUsize_one hrN hN', remUsize_of_pos hN, Option.some_bind, bind]
    · simp only [List.length_append, List.length_singleton, hr, Nat.mod_add_mod]
    · simpa only [List.length_append, List.length_singleton] using hlt
    · simp only [List.length_append, List.length_singleton]
      have := h.pushed_le
      omega

/-! ### Every interleaving -/

theorem Reachable.inv (hN : 0 < N) (hN' : N < 2 ^ 64) (h : sys.Reachable) : sys.Inv := by
  induction h with
  | init => exact inv_init
  | producer v _ hs ih =>
    obtain ⟨_, hs', hinv⟩ := ih.producerStep hN hN' v
    rw [hs] at hs'
    exact Option.some.inj hs' ▸ hinv
  | consumer _ hs ih =>
    obtain ⟨_, hs', hinv⟩ := ih.consumerStep hN hN'
    rw [hs] at hs'
    exact Option.some.inj hs' ▸ hinv

/-- **Every interleaving is safe.** For a ring of `N ≥ 1` slots (`N` a `usize`), in
every system that an interleaving of the producer's and the consumer's atomic
steps reaches from `SpscRing::new()`: no step of either party panics; both
indices are below `N`; a consumer about to read reads slot `C mod N`, which holds
the oldest value whose push has stored `write_idx` and that no pop has returned; a
producer about to write writes no slot that holds a value not yet popped; and the
values completed pops returned are a prefix of the values whose push returned
`true`. -/
theorem spsc_interleaving_safe (hN : 0 < N) (hN' : N < 2 ^ 64) {sys : Sys N} (h : sys.Reachable) :
    (∀ value, sys.producerStep value ≠ none) ∧ sys.consumerStep ≠ none ∧
      sys.ring.readIdx < N ∧ sys.ring.writeIdx < N ∧
      (∀ r w, sys.consumer = .loadedWrite r w → r ≠ w →
        sys.popLog.length < sys.pushLog.length ∧ r = sys.popLog.length % N ∧
          sys.pushLog[sys.popLog.length]? = some (sys.ring.slotAt r)) ∧
      (∀ v w r, sys.producer = .loadedRead v w r → (w + 1) % N ≠ r →
        ∀ k, sys.popLog.length ≤ k → k < sys.pushLog.length → k % N ≠ w) ∧
      List.IsPrefix sys.popLog sys.pushLog := by
  have hinv := h.inv hN hN'
  refine ⟨fun v e => ?_, fun e => ?_, (hinv.lt hN).1, (hinv.lt hN).2, fun r w hc hne => hinv.read hc hne,
    fun v w r hp hfull => (hinv.write hN hp hfull).2, hinv.popped_isPrefix⟩
  · obtain ⟨_, hs, -⟩ := hinv.producerStep hN hN' v
    exact absurd (e ▸ hs) (Option.noConfusion)
  · obtain ⟨_, hs, -⟩ := hinv.consumerStep hN hN'
    exact absurd (e ▸ hs) (Option.noConfusion)

/-- Three slots: a push of 7 completes, the consumer loads both indices and is
about to read slot 0, and the producer loads both indices for a push of 8. -/
theorem spsc_interleaving_safe_three :
    0 < 3 ∧ 3 < 2 ^ 64 ∧ ∃ sys : Sys 3, sys.Reachable ∧
      sys.consumer = .loadedWrite 0 1 ∧ sys.producer = .loadedRead 8 1 0 ∧ sys.pushLog = [7] ∧
      (∀ r w, sys.consumer = .loadedWrite r w → r ≠ w →
        sys.popLog.length < sys.pushLog.length ∧ r = sys.popLog.length % 3 ∧
          sys.pushLog[sys.popLog.length]? = some (sys.ring.slotAt r)) ∧
      (∀ v w r, sys.producer = .loadedRead v w r → (w + 1) % 3 ≠ r →
        ∀ k, sys.popLog.length ≤ k → k < sys.pushLog.length → k % 3 ≠ w) := by
  have h := Reachable.init (N := 3) |>.producer 7 rfl |>.producer 7 rfl |>.producer 7 rfl |>.producer 7 rfl
    |>.consumer rfl |>.consumer rfl |>.producer 8 rfl |>.producer 8 rfl
  obtain ⟨-, -, -, -, hread, hwrite, -⟩ := spsc_interleaving_safe (by decide) (by decide) h
  exact ⟨by decide, by decide, _, h, rfl, rfl, rfl, hread, hwrite⟩

end Sys

end AliceRtos.SpscRing
