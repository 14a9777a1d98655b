import Mathlib.Data.List.Basic
import Mathlib.Data.Nat.ModEq

/-!
# Circular buffers

`slot n p k` is the index `k` places behind `p` in a circle of `n`. Counted
this way from any start, the first `n` places are all the slots, each once.

`Holds n slots h q` says that the slots hold the queue `q` from `h` on and
nothing else: a slot is `none` when it is free. No count is stored, so the
full and the empty buffer differ in their slots only.
-/

namespace Circular

/-- The index `k` places behind `p`. -/
def slot (n p k : Nat) : Nat := (p + k) % n

variable {n p k l : Nat}

theorem slot_lt (hn : 0 < n) (p k : Nat) : slot n p k < n := Nat.mod_lt _ hn

@[simp] theorem slot_mod (n p k : Nat) : slot n (p % n) k = slot n p k := Nat.mod_add_mod ..

theorem slot_add (n p j k : Nat) : slot n (p + j) k = slot n p (j + k) := by
  rw [slot, slot, Nat.add_assoc]

@[simp] theorem slot_add_size (n p k : Nat) : slot n p (k + n) = slot n p k := by
  rw [slot, slot, ← Nat.add_assoc, Nat.add_mod_right]

theorem slot_sub_size (p : Nat) (h : n ≤ k) : slot n p (k - n) = slot n p k := by
  rw [← slot_add_size, Nat.sub_add_cancel h]

@[simp] theorem slot_size (n p : Nat) : slot n p n = slot n p 0 := Nat.add_mod_right ..

theorem slot_zero_of_lt (hp : p < n) : slot n p 0 = p := Nat.mod_eq_of_lt hp

theorem slot_inj (hk : k < n) (hl : l < n) : slot n p k = slot n p l ↔ k = l := by
  constructor
  · intro h
    have hmod : k ≡ l [MOD n] := Nat.ModEq.add_left_cancel' p h
    exact hmod.eq_of_lt_of_lt hk hl
  · rintro rfl
    rfl

/-- Every slot is met within one round. -/
theorem exists_slot {i : Nat} (hi : i < n) (p : Nat) : ∃ k < n, slot n p k = i := by
  have hp := Nat.mod_lt p (Nat.lt_of_le_of_lt (Nat.zero_le i) hi)
  refine ⟨(i + (n - p % n)) % n, Nat.mod_lt _ (by omega), ?_⟩
  rw [← slot_mod, slot, Nat.add_mod_mod, show p % n + (i + (n - p % n)) = i + n by omega,
    Nat.add_mod_right, Nat.mod_eq_of_lt hi]

/-! ## Queues -/

variable {α : Type} {slots : Nat → Option α} {h : Nat} {q : List α}

/-- The slots hold `q` from `h` on, and the rest is free. -/
structure Holds (n : Nat) (slots : Nat → Option α) (h : Nat) (q : List α) : Prop where
  length_le : q.length ≤ n
  slots : ∀ k < n, slots (slot n h k) = q[k]?

/-- The queue read off the slots, in order from `h` on. -/
def contents (n : Nat) (slots : Nat → Option α) (h : Nat) : List α :=
  (List.range n).filterMap fun k => slots (slot n h k)

theorem holds_nil (hfree : ∀ i < n, slots i = none) (h : Nat) : Holds n slots h [] := by
  refine ⟨Nat.zero_le _, fun k hk => ?_⟩
  rw [hfree _ (slot_lt (by omega) _ _), List.getElem?_nil]

theorem filterMap_getElem? (q : List α) : (List.range q.length).filterMap (q[·]?) = q := by
  induction q with
  | nil => rfl
  | cons x q ih =>
      rw [List.length_cons, List.range_succ_eq_map, List.filterMap_cons,
        List.filterMap_map]
      exact congrArg (x :: ·) ih

namespace Holds

theorem congr {slots' : Nat → Option α} (hq : Holds n slots h q)
    (heq : ∀ i < n, slots' i = slots i) : Holds n slots' h q :=
  ⟨hq.length_le, fun k hk => (heq _ (slot_lt (by omega) _ _)).trans (hq.slots k hk)⟩

theorem contents_eq (hq : Holds n slots h q) : contents n slots h = q := by
  obtain ⟨m, rfl⟩ := Nat.exists_eq_add_of_le hq.length_le
  have hget : contents (q.length + m) slots h = (List.range (q.length + m)).filterMap (q[·]?) :=
    List.filterMap_congr fun k hk => hq.slots k (List.mem_range.mp hk)
  have hrest : ((List.range m).map (q.length + ·)).filterMap (q[·]?) = [] := by
    rw [List.filterMap_eq_nil_iff]
    intro k hk
    obtain ⟨j, -, rfl⟩ := List.mem_map.mp hk
    exact List.getElem?_eq_none (Nat.le_add_right ..)
  rw [hget, List.range_add, List.filterMap_append, filterMap_getElem?, hrest, List.append_nil]

/-- The slot behind the queue is free unless the buffer is full. -/
theorem tail_eq_none (hq : Holds n slots h q) (hlt : q.length < n) :
    slots (slot n h q.length) = none := by
  rw [hq.slots _ hlt, List.getElem?_eq_none (Nat.le_refl _)]

theorem ne_none_of_full (hq : Holds n slots h q) (hfull : q.length = n) {i : Nat} (hi : i < n) :
    slots i ≠ none := by
  obtain ⟨k, hk, rfl⟩ := exists_slot hi h
  rw [hq.slots k hk, List.getElem?_eq_getElem (by omega)]
  exact Option.some_ne_none _

theorem full_iff (hq : Holds n slots h q) :
    q.length = n ↔ ∀ i < n, slots i ≠ none := by
  constructor
  · intro hfull i hi
    exact hq.ne_none_of_full hfull hi
  · intro hall
    by_contra hne
    have hlt : q.length < n := Nat.lt_of_le_of_ne hq.length_le hne
    exact hall _ (slot_lt (by omega) _ _) (hq.tail_eq_none hlt)

/-- Filling the slot behind the queue. -/
theorem push (hq : Holds n slots h q) (hlt : q.length < n) (x : α) :
    Holds n (Function.update slots (slot n h q.length) (some x)) h (q ++ [x]) := by
  refine ⟨by rw [List.length_append]; exact hlt, fun k hk => ?_⟩
  by_cases hkq : k = q.length
  · subst hkq
    simp
  · rw [Function.update_of_ne (mt (slot_inj hk hlt).mp hkq), hq.slots k hk]
    by_cases hkl : k < q.length
    · rw [List.getElem?_append_left hkl]
    · rw [List.getElem?_eq_none (by omega), List.getElem?_eq_none (by simp; omega)]

/-- Freeing the slot at the front. -/
theorem pop {x : α} (hq : Holds n slots h (x :: q)) :
    Holds n (Function.update slots (slot n h 0) none) (slot n h 1) q := by
  have hlen : q.length + 1 ≤ n := hq.length_le
  refine ⟨by omega, fun k hk => ?_⟩
  have hslot : slot n (slot n h 1) k = slot n h (1 + k) := by
    rw [slot, slot, slot, Nat.mod_add_mod, Nat.add_assoc]
  rw [hslot]
  by_cases hlast : k + 1 = n
  · rw [Nat.add_comm, hlast, slot_size, Function.update_self, List.getElem?_eq_none (by omega)]
  · have hne : slot n h (1 + k) ≠ slot n h 0 := by
      rw [Ne, slot_inj (by omega) (by omega)]
      omega
    rw [Function.update_of_ne hne, hq.slots _ (by omega), Nat.add_comm, List.getElem?_cons_succ]

/-- The slot at the front holds the first element. -/
theorem front (hq : Holds n slots h q) (hn : 0 < n) : slots (slot n h 0) = q.head? := by
  rw [hq.slots 0 hn, List.head?_eq_getElem?]

end Holds

end Circular
