import A2065.Lib.Prog
import Mathlib.Logic.Function.Basic

/-!
# Programs on a memory

A program on a memory reads and writes one cell at a time. `touched` lists the
cells of a run in order, `written` those it writes. A run that stays within a
set of cells does not depend on what lies outside (`Within.run_congr`).
-/

/-- An access to one cell. -/
inductive MemOp (ι V : Type) where
  | get (i : ι)
  | set (i : ι) (v : V)

variable {ι V α β : Type}

namespace MemOp

/-- What an access returns. -/
def Ans : MemOp ι V → Type
  | .get _ => V
  | .set _ _ => Unit

/-- The cell it is to. -/
def index : MemOp ι V → ι
  | .get i | .set i _ => i

/-- The cell it writes, if it does. -/
def target : MemOp ι V → Option ι
  | .get _ => none
  | .set i _ => some i

/-- What it does to a memory. -/
def handle [DecidableEq ι] : (e : MemOp ι V) → (ι → V) → e.Ans × (ι → V)
  | .get i, m => (m i, m)
  | .set i v, m => ((), Function.update m i v)

end MemOp

/-- A program over a memory of cells. -/
abbrev MemProg (ι V : Type) := Prog (MemOp ι V) MemOp.Ans

namespace MemProg

/-- A read as a program. -/
def get (i : ι) : MemProg ι V V := Prog.perform (MemOp.get i)

/-- A write as a program. -/
def set (i : ι) (v : V) : MemProg ι V Unit := Prog.perform (MemOp.set i v)

variable [DecidableEq ι]

/-- Result and memory after the program. -/
def run (p : MemProg ι V α) (m : ι → V) : α × (ι → V) := Prog.exec MemOp.handle p m

/-- The cells read and written, in order. -/
def touched (p : MemProg ι V α) (m : ι → V) : List ι :=
  (Prog.trace MemOp.handle p m).map fun ev => ev.op.index

/-- The cells written, in order. -/
def written (p : MemProg ι V α) (m : ι → V) : List ι :=
  (Prog.trace MemOp.handle p m).filterMap fun ev => ev.op.target

/-- The run from `m` touches cells of `S` only. -/
def Within (S : ι → Prop) (p : MemProg ι V α) (m : ι → V) : Prop := ∀ i ∈ touched p m, S i

variable {S : ι → Prop} {m : ι → V}

/-! ## Steps -/

@[simp] theorem run_pure (a : α) (m : ι → V) : run (pure a : MemProg ι V α) m = (a, m) := rfl

@[simp] theorem run_get (i : ι) (m : ι → V) : run (get i) m = (m i, m) := rfl

@[simp] theorem run_set (i : ι) (v : V) (m : ι → V) :
    run (set i v) m = ((), Function.update m i v) := rfl

@[simp] theorem run_bind (p : MemProg ι V α) (f : α → MemProg ι V β) (m : ι → V) :
    run (p >>= f) m = run (f (run p m).1) (run p m).2 := Prog.exec_bind ..

@[simp] theorem within_pure (a : α) : Within S (pure a) m := fun _ h => nomatch h

@[simp] theorem within_get (i : ι) : Within S (get i) m ↔ S i := by
  constructor
  · intro h
    exact h i (List.mem_singleton.mpr rfl)
  · intro h j hj
    rw [List.mem_singleton.mp hj]
    exact h

@[simp] theorem within_set (i : ι) (v : V) : Within S (set i v) m ↔ S i := by
  constructor
  · intro h
    exact h i (List.mem_singleton.mpr rfl)
  · intro h j hj
    rw [List.mem_singleton.mp hj]
    exact h

@[simp] theorem within_bind (p : MemProg ι V α) (f : α → MemProg ι V β) :
    Within S (p >>= f) m ↔ Within S p m ∧ Within S (f (run p m).1) (run p m).2 := by
  simp only [Within, touched, Prog.trace_bind, List.map_append, List.mem_append]
  constructor
  · intro h
    exact ⟨fun i hi => h i (.inl hi), fun i hi => h i (.inr hi)⟩
  · intro h i hi
    rcases hi with hi | hi
    · exact h.1 i hi
    · exact h.2 i hi

@[simp] theorem written_pure (a : α) (m : ι → V) : written (pure a) m = [] := rfl
@[simp] theorem written_get (i : ι) (m : ι → V) : written (get i) m = [] := rfl
@[simp] theorem written_set (i : ι) (v : V) (m : ι → V) : written (set i v) m = [i] := rfl

@[simp] theorem written_bind (p : MemProg ι V α) (f : α → MemProg ι V β) (m : ι → V) :
    written (p >>= f) m = written p m ++ written (f (run p m).1) (run p m).2 := by
  rw [written, Prog.trace_bind, List.filterMap_append]
  rfl

/-! ## Confined runs -/

theorem within_op {e : MemOp ι V} {k : e.Ans → MemProg ι V α} :
    Within S (.op e k) m ↔ S e.index ∧ Within S (k (e.handle m).1) (e.handle m).2 := by
  simp only [Within, touched, Prog.trace, List.map_cons, List.mem_cons, forall_eq_or_imp]

/-- Memories that agree on the cells of a run give the same run. -/
theorem Within.run_congr {p : MemProg ι V α} {m' : ι → V} (h : Within S p m)
    (hm : ∀ i, S i → m i = m' i) : (run p m).1 = (run p m').1 ∧
      ∀ i, S i → (run p m).2 i = (run p m').2 i := by
  induction p generalizing m m' with
  | pure a => exact ⟨rfl, hm⟩
  | op e k ih =>
      obtain ⟨he, hk⟩ := within_op.mp h
      cases e with
      | get i =>
          have hi : m i = m' i := hm i he
          have hrest := ih (m i) hk hm
          show (run (k (m i)) m).1 = (run (k (m' i)) m').1 ∧ _
          rw [← hi]
          refine ⟨hrest.1, fun j hj => ?_⟩
          show (run (k (m i)) m).2 j = (run (k (m' i)) m').2 j
          rw [← hi]
          exact hrest.2 j hj
      | set i v =>
          apply ih () hk
          intro j hj
          show Function.update m i v j = Function.update m' i v j
          by_cases hji : j = i
          · rw [hji, Function.update_self, Function.update_self]
          · rw [Function.update_of_ne hji, Function.update_of_ne hji]
            exact hm j hj

/-! ## Blocks -/

/-- The `n` cells from `i` on, first to last. -/
def getBlock (i : Nat) : Nat → MemProg Nat V (List V)
  | 0 => pure []
  | n + 1 => do
      let vs ← getBlock i n
      let v ← get (i + n)
      pure (vs ++ [v])

/-- `src 0`, `src 1`, ... to the `n` cells from `i` on. -/
def setBlock (i : Nat) (src : Nat → V) : Nat → MemProg Nat V Unit
  | 0 => pure ()
  | n + 1 => do
      setBlock i src n
      set (i + n) (src n)

section Blocks

variable {S : Nat → Prop} {m : Nat → V}

@[simp] theorem run_getBlock (i n : Nat) (m : Nat → V) :
    run (getBlock i n) m = ((List.range n).map fun k => m (i + k), m) := by
  induction n with
  | zero => rfl
  | succ n ih => rw [getBlock, run_bind, ih, run_bind, run_get, run_pure, List.range_succ,
      List.map_append, List.map_singleton]

@[simp] theorem run_setBlock (i : Nat) (src : Nat → V) (n : Nat) (m : Nat → V) :
    run (setBlock i src n) m =
      ((), fun k => if i ≤ k ∧ k < i + n then src (k - i) else m k) := by
  induction n with
  | zero =>
      rw [setBlock, run_pure]
      congr 1
      funext k
      rw [if_neg (by omega)]
  | succ n ih =>
      rw [setBlock, run_bind, ih, run_set]
      congr 1
      funext k
      by_cases hk : k = i + n
      · rw [hk, Function.update_self, if_pos (by omega), Nat.add_sub_cancel_left]
      · rw [Function.update_of_ne hk]
        dsimp only
        by_cases hin : i ≤ k ∧ k < i + n
        · rw [if_pos hin, if_pos (by omega)]
        · rw [if_neg hin, if_neg (by omega)]

theorem within_getBlock (i n : Nat) : Within S (getBlock i n) m ↔ ∀ k < n, S (i + k) := by
  induction n with
  | zero => simp [getBlock]
  | succ n ih =>
      rw [Nat.forall_lt_succ_right]
      simp only [getBlock, within_bind, ih, within_get, within_pure, and_true]

theorem within_setBlock (i : Nat) (src : Nat → V) (n : Nat) :
    Within S (setBlock i src n) m ↔ ∀ k < n, S (i + k) := by
  induction n with
  | zero => simp [setBlock]
  | succ n ih =>
      rw [Nat.forall_lt_succ_right]
      simp only [setBlock, within_bind, ih, within_set]

@[simp] theorem written_getBlock (i n : Nat) (m : Nat → V) : written (getBlock i n) m = [] := by
  induction n with
  | zero => rfl
  | succ n ih => rw [getBlock, written_bind, ih, written_bind, written_get, written_pure]; rfl

@[simp] theorem written_setBlock (i : Nat) (src : Nat → V) (n : Nat) (m : Nat → V) :
    written (setBlock i src n) m = (List.range n).map (i + ·) := by
  induction n with
  | zero => rfl
  | succ n ih => rw [setBlock, written_bind, ih, written_set, List.range_succ, List.map_append,
      List.map_singleton]

end Blocks

end MemProg
