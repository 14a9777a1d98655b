import A2065.Lib.Circular

/-!
# Ring buffers with two indices

The producer moves `head`, the consumer `tail`; equal indices mean an empty
buffer, so one of the `n` slots always stays free. A push into a full buffer
does nothing. `Stores` is the queue the slots between the indices hold.
-/

/-- `n` slots, of which one always stays free. Elements enter at `head` and
leave at `tail`. -/
structure RingBuffer (α : Type) (n : Nat) where
  slots : Nat → α
  head : Nat
  tail : Nat
  head_lt : head < n
  tail_lt : tail < n

namespace RingBuffer

open Circular

variable {α : Type} {n : Nat}

/-- The indices meet. -/
def isEmpty (q : RingBuffer α n) : Bool := q.tail == q.head

/-- One more element and the indices would meet. -/
def isFull (q : RingBuffer α n) : Bool := (q.head + 1) % n == q.tail

/-- A full buffer drops the element. -/
def push (q : RingBuffer α n) (x : α) : RingBuffer α n :=
  if q.isFull then q
  else
    { q with
      slots := Function.update q.slots q.head x
      head := (q.head + 1) % n
      head_lt := Nat.mod_lt _ (Nat.zero_lt_of_lt q.head_lt) }

/-- The oldest element and what is left. -/
def pop (q : RingBuffer α n) : Option (α × RingBuffer α n) :=
  if q.isEmpty then none
  else some (q.slots q.tail,
    { q with tail := (q.tail + 1) % n, tail_lt := Nat.mod_lt _ (Nat.zero_lt_of_lt q.tail_lt) })

/-- The number of elements between the indices. -/
def size (q : RingBuffer α n) : Nat :=
  if q.tail ≤ q.head then q.head - q.tail else q.head + n - q.tail

theorem size_lt (q : RingBuffer α n) : q.size < n := by
  have hhead := q.head_lt
  unfold size
  split <;> omega

theorem size_pop {q q' : RingBuffer α n} {x : α} (h : q.pop = some (x, q')) :
    q'.size + 1 = q.size := by
  have hpop : q.tail ≠ q.head ∧ q'.head = q.head ∧ q'.tail = (q.tail + 1) % n := by
    unfold pop at h
    split at h
    · cases h
    · rename_i hne
      cases h
      exact ⟨fun heq => hne (beq_iff_eq.mpr heq), rfl, rfl⟩
  obtain ⟨hne, hhead', htail'⟩ := hpop
  have hhead := q.head_lt
  have htail := q.tail_lt
  unfold size
  rw [hhead', htail']
  -- the tail goes on, or back to the first slot
  by_cases hlast : q.tail + 1 = n
  · rw [hlast, Nat.mod_self, if_pos (Nat.zero_le _), if_neg (by omega)]
    omega
  · rw [Nat.mod_eq_of_lt (by omega)]
    split <;> split <;> omega

/-- The buffer holds `xs`, oldest first. -/
structure Stores (q : RingBuffer α n) (xs : List α) : Prop where
  length_lt : xs.length < n
  head_eq : q.head = slot n q.tail xs.length
  slots_eq : ∀ k < xs.length, xs[k]? = some (q.slots (slot n q.tail k))

variable {q : RingBuffer α n} {xs : List α} {x : α}

theorem Stores.isEmpty_iff (h : q.Stores xs) : q.isEmpty = true ↔ xs = [] := by
  have htail : q.tail = slot n q.tail 0 := (slot_zero_of_lt q.tail_lt).symm
  rw [isEmpty, beq_iff_eq, h.head_eq]
  constructor
  · intro heq
    have hlen : 0 = xs.length :=
      (slot_inj (Nat.zero_lt_of_lt h.length_lt) h.length_lt).mp (htail.symm.trans heq)
    exact List.length_eq_zero_iff.mp hlen.symm
  · intro hnil
    subst hnil
    exact htail

theorem Stores.push (h : q.Stores xs) (hroom : q.isFull = false) :
    (q.push x).Stores (xs ++ [x]) := by
  have hhead : (q.head + 1) % n = slot n q.tail (xs.length + 1) := by
    rw [h.head_eq, slot, slot, Nat.mod_add_mod, Nat.add_assoc]
  have hlen : xs.length + 1 < n := by
    by_contra hge
    have hn : xs.length + 1 = n := by
      have := h.length_lt
      omega
    rw [isFull, hhead, hn, slot_size, slot_zero_of_lt q.tail_lt, beq_self_eq_true] at hroom
    cases hroom
  rw [RingBuffer.push, if_neg (by simp [hroom])]
  refine ⟨by simpa using hlen, by simpa using hhead, ?_⟩
  intro k hk
  rw [List.length_append, List.length_singleton] at hk
  by_cases hlast : k = xs.length
  · subst hlast
    simp [h.head_eq]
  · have hk' : k < xs.length := by omega
    have hne : slot n q.tail k ≠ q.head := by
      rw [h.head_eq, Ne, slot_inj (by omega) h.length_lt]
      exact hlast
    rw [List.getElem?_append_left hk', h.slots_eq k hk']
    simp [Function.update_of_ne hne]

theorem Stores.pop_nil (h : q.Stores []) : q.pop = none := by
  rw [pop, if_pos (h.isEmpty_iff.mpr rfl)]

theorem Stores.pop_cons (h : q.Stores (x :: xs)) : ∃ q', q.pop = some (x, q') ∧ q'.Stores xs := by
  have hne : q.isEmpty = false := by
    have := mt h.isEmpty_iff.mp (List.cons_ne_nil x xs)
    simpa using this
  have hfront : q.slots q.tail = x := by
    have := h.slots_eq 0 (by simp)
    rw [slot_zero_of_lt q.tail_lt, List.getElem?_cons_zero] at this
    exact (Option.some.inj this).symm
  have hstep : ∀ k, slot n ((q.tail + 1) % n) k = slot n q.tail (k + 1) := by
    intro k
    rw [slot_mod, slot_add, Nat.add_comm]
  refine ⟨_, by rw [pop, if_neg (by simp [hne]), hfront], ?_, ?_, ?_⟩
  · exact Nat.lt_of_succ_lt h.length_lt
  · show q.head = slot n ((q.tail + 1) % n) xs.length
    rw [hstep, h.head_eq, List.length_cons]
  · intro k hk
    show xs[k]? = some (q.slots (slot n ((q.tail + 1) % n) k))
    rw [hstep, ← h.slots_eq (k + 1) (by simpa using hk), List.getElem?_cons_succ]

end RingBuffer
