import Mathlib.Logic.Function.Basic

/-!
# Publishing a shared value

Threads change a value under a lock and publish it afterwards: each takes a
snapshot under the lock and stores it to a slot outside. The slot is right
once all are idle provided nobody stores while another thread still holds an
outdated snapshot. `Live` is the invariant: the slot is right, or someone is
still going to store the current value.
-/

/-- Where a thread stands with its publication. -/
inductive Phase (V : Type) where
  | idle
  /-- it has changed the value and not taken its snapshot -/
  | dirty
  | holding (s : V)

/-- The current value, the slot it is published in, and the threads. -/
structure Board (ι V : Type) where
  cur : V
  slot : V
  phase : ι → Phase V

namespace Board

variable {ι V : Type}

/-- The thread is going to store the current value. -/
def Fresh (b : Board ι V) (i : ι) : Prop :=
  b.phase i = .dirty ∨ b.phase i = .holding b.cur

/-- The slot is right or will be, and whoever holds an outdated snapshot will
be followed. -/
structure Live (b : Board ι V) : Prop where
  slot : b.slot = b.cur ∨ ∃ i, b.Fresh i
  stale : ∀ j s, b.phase j = .holding s → s ≠ b.cur → ∃ i, i ≠ j ∧ b.Fresh i

theorem Live.slot_of_idle {b : Board ι V} (h : b.Live) (hidle : ∀ i, b.phase i = .idle) :
    b.slot = b.cur := by
  rcases h.slot with hs | ⟨i, hi | hi⟩
  · exact hs
  · rw [hidle i] at hi
    cases hi
  · rw [hidle i] at hi
    cases hi

/-- A board on which everyone is idle and the slot is right. -/
theorem live_of_idle {b : Board ι V} (hslot : b.slot = b.cur)
    (hidle : ∀ i, b.phase i = .idle) : b.Live := by
  refine ⟨.inl hslot, fun j s hj => ?_⟩
  rw [hidle j] at hj
  cases hj

variable [DecidableEq ι]

/-- A locked section of `i`: a new value, and anything stored to the slot on
the way. -/
def change (b : Board ι V) (i : ι) (v y : V) : Board ι V :=
  ⟨v, y, Function.update b.phase i .dirty⟩

/-- Thread `i` takes its snapshot. -/
def snap (b : Board ι V) (i : ι) : Board ι V :=
  { b with phase := Function.update b.phase i (.holding b.cur) }

/-- Thread `i` stores what it holds. -/
def store (b : Board ι V) (i : ι) (s : V) : Board ι V :=
  { b with slot := s, phase := Function.update b.phase i .idle }

theorem phase_change (b : Board ι V) (i j : ι) (v y : V) :
    (b.change i v y).phase j = if j = i then .dirty else b.phase j := Function.update_apply ..

theorem phase_snap (b : Board ι V) (i j : ι) :
    (b.snap i).phase j = if j = i then .holding b.cur else b.phase j := Function.update_apply ..

theorem phase_store (b : Board ι V) (i j : ι) (s : V) :
    (b.store i s).phase j = if j = i then .idle else b.phase j := Function.update_apply ..

theorem live_change (b : Board ι V) (i : ι) (v y : V) : (b.change i v y).Live := by
  have hi : (b.change i v y).Fresh i := .inl (by rw [phase_change, if_pos rfl])
  refine ⟨.inr ⟨i, hi⟩, fun j s hj _ => ⟨i, ?_, hi⟩⟩
  rintro rfl
  rw [phase_change, if_pos rfl] at hj
  cases hj

/-- Taking a snapshot keeps every thread that was going to store the current
value. -/
theorem Fresh.snap {b : Board ι V} {k : ι} (h : b.Fresh k) (i : ι) : (b.snap i).Fresh k := by
  by_cases hk : k = i
  · exact .inr (by rw [phase_snap, if_pos hk]; rfl)
  · rw [Fresh, phase_snap, if_neg hk]
    exact h

theorem Live.snap {b : Board ι V} (h : b.Live) (i : ι) : (b.snap i).Live := by
  constructor
  · rcases h.slot with hs | ⟨k, hk⟩
    · exact .inl hs
    · exact .inr ⟨k, hk.snap i⟩
  · intro j s hj hne
    rw [phase_snap] at hj
    split at hj
    · cases hj
      exact absurd rfl hne
    · obtain ⟨k, hkj, hk⟩ := h.stale j s hj hne
      exact ⟨k, hkj, hk.snap i⟩

/-- Storing keeps the invariant if no other thread holds an outdated
snapshot. -/
theorem Live.store {b : Board ι V} (h : b.Live) {i : ι} {s : V} (hi : b.phase i = .holding s)
    (hothers : ∀ j t, j ≠ i → b.phase j = .holding t → t = b.cur) : (b.store i s).Live := by
  constructor
  · by_cases hs : s = b.cur
    · exact .inl hs
    · obtain ⟨k, hki, hk⟩ := h.stale i s hi hs
      refine .inr ⟨k, ?_⟩
      rw [Fresh, phase_store, if_neg hki]
      exact hk
  · intro j t hj hne
    rw [phase_store] at hj
    split at hj
    · cases hj
    · rename_i hji
      exact absurd (hothers j t hji hj) hne

end Board
