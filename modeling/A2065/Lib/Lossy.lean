import Mathlib.Data.List.Basic

/-!
# What passes a lossy channel

A channel takes the elements of a list one after the other and keeps or drops
each. `select` is what it has kept: the fates so far, applied to the elements
from the front. The list may be longer than what has passed.
-/

variable {α : Type}

/-- The elements whose fate is `true`. -/
def select : List Bool → List α → List α
  | b :: bs, x :: xs => if b then x :: select bs xs else select bs xs
  | [], _ => []
  | _ :: _, [] => []

@[simp] theorem select_nil (xs : List α) : select [] xs = [] := by
  cases xs <;> rfl

theorem mem_of_mem_select {bs : List Bool} {xs : List α} {x : α} (h : x ∈ select bs xs) :
    x ∈ xs := by
  induction bs generalizing xs with
  | nil =>
      rw [select_nil] at h
      cases h
  | cons b bs ih =>
      cases xs with
      | nil => cases h
      | cons y ys =>
          rw [select] at h
          split at h
          · rcases List.mem_cons.mp h with rfl | hrest
            · exact List.mem_cons_self
            · exact List.mem_cons_of_mem y (ih hrest)
          · exact List.mem_cons_of_mem y (ih h)

/-- More elements behind those that have passed. -/
theorem select_append {bs : List Bool} {xs : List α} (h : bs.length ≤ xs.length) (ys : List α) :
    select bs (xs ++ ys) = select bs xs := by
  induction bs generalizing xs with
  | nil => rw [select_nil, select_nil]
  | cons b bs ih =>
      cases xs with
      | nil => cases h
      | cons x xs =>
          rw [List.cons_append, select, select, ih (Nat.le_of_succ_le_succ h)]

/-- The next element passes. -/
theorem select_snoc {bs : List Bool} {xs : List α} {x : α} (h : xs[bs.length]? = some x)
    (b : Bool) : select (bs ++ [b]) xs = select bs xs ++ if b then [x] else [] := by
  induction bs generalizing xs with
  | nil =>
      cases xs with
      | nil => cases h
      | cons y ys =>
          obtain rfl : y = x := Option.some.inj h
          rw [List.nil_append, select, select_nil, select_nil, List.nil_append]
  | cons c bs ih =>
      cases xs with
      | nil => cases h
      | cons y ys =>
          rw [List.cons_append, select, select, ih h]
          cases c <;> rfl

/-- Nothing was dropped. -/
theorem select_all {bs : List Bool} (hall : ∀ b ∈ bs, b = true) {xs : List α}
    (hlen : bs.length = xs.length) : select bs xs = xs := by
  induction bs generalizing xs with
  | nil => rw [select_nil, List.length_eq_zero_iff.mp hlen.symm]
  | cons b bs ih =>
      cases xs with
      | nil => cases hlen
      | cons x xs =>
          have hrest := ih (fun b hb => hall b (List.mem_cons_of_mem _ hb)) (Nat.succ.inj hlen)
          rw [select, if_pos (hall b (List.mem_cons_self ..)), hrest]
