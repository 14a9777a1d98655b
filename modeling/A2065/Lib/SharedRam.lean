import Mathlib.Data.Bool.Basic

/-!
# A shared memory of byte lanes

An atomic memory with two ports. At each clock the second port may store; the
first port has bus cycles that last several clocks, and performs the access of
a cycle in one of them. `Step` is one clock. When the access is performed, and
whether before or after a store of the other port in the same clock, is left
open.
-/

namespace SharedRam

variable {Addr Lane Byte : Type}

/-- Words as their lanes. -/
abbrev Mem (Addr Lane Byte : Type) := Addr → Lane → Byte

/-- A store to the enabled lanes of one address. -/
structure Store (Addr Lane Byte : Type) where
  addr : Addr
  enable : Lane → Bool
  data : Lane → Byte

/-- What a bus cycle is for. -/
inductive Access (Addr Lane Byte : Type) where
  | read (a : Addr)
  | write (w : Store Addr Lane Byte)

/-- What the two ports ask for at a clock. -/
structure Clock (Addr Lane Byte : Type) where
  /-- a bus cycle of the first port is going on -/
  active : Bool
  access : Access Addr Lane Byte
  other : Option (Store Addr Lane Byte)

section

variable [DecidableEq Addr]

/-- The memory after the store. -/
def Store.apply (w : Store Addr Lane Byte) (m : Mem Addr Lane Byte) : Mem Addr Lane Byte :=
  fun a l => if a = w.addr ∧ w.enable l = true then w.data l else m a l

namespace Access

/-- The memory after the access. -/
def apply : Access Addr Lane Byte → Mem Addr Lane Byte → Mem Addr Lane Byte
  | .read _, m => m
  | .write w, m => w.apply m

/-- What the access returns. -/
def out : Access Addr Lane Byte → Mem Addr Lane Byte → Option (Lane → Byte)
  | .read a, m => some (m a)
  | .write _, _ => none

/-- The access leaves lane `l` of address `a` alone. -/
def Spares (a : Addr) (l : Lane) : Access Addr Lane Byte → Prop
  | .read _ => True
  | .write w => a ≠ w.addr ∨ w.enable l = false

theorem Spares.apply {a : Addr} {l : Lane} {x : Access Addr Lane Byte} (h : x.Spares a l)
    (m : Mem Addr Lane Byte) : x.apply m a l = m a l := by
  cases x with
  | read b => rfl
  | write w =>
      apply if_neg
      rintro ⟨ha, hl⟩
      rcases h with h | h
      · exact h ha
      · exact Bool.false_ne_true (h.symm.trans hl)

end Access

/-- The store of the second port, if there is one. -/
def Clock.settle (c : Clock Addr Lane Byte) (m : Mem Addr Lane Byte) : Mem Addr Lane Byte :=
  c.other.elim m fun w => w.apply m

theorem Clock.settle_congr (c : Clock Addr Lane Byte) {m m' : Mem Addr Lane Byte} {a : Addr}
    {l : Lane} (h : m a l = m' a l) : c.settle m a l = c.settle m' a l := by
  unfold settle
  cases c.other with
  | none => exact h
  | some w => simp only [Option.elim_some, Store.apply, h]

end

/-! ## Bus cycles -/

/-- How far the current cycle has come. -/
inductive Phase (Lane Byte : Type) where
  | idle
  /-- `n` clocks of the cycle have passed without the access -/
  | waiting (n : Nat)
  | performed (out : Option (Lane → Byte))

namespace Phase

/-- The clocks a cycle whose access is still to come has waited. -/
def waited : Phase Lane Byte → Option Nat
  | idle => some 0
  | waiting n => some n
  | performed _ => none

/-- The access of the cycle is over. -/
def isPerformed : Phase Lane Byte → Bool
  | performed _ => true
  | _ => false

end Phase

/-- The memory, and the cycle of the first port. -/
structure State (Addr Lane Byte : Type) where
  mem : Mem Addr Lane Byte
  phase : Phase Lane Byte

variable [DecidableEq Addr]

/-- The clock that performs the access: memory after it, and what it returns. -/
inductive Performs (c : Clock Addr Lane Byte) (m : Mem Addr Lane Byte) :
    Mem Addr Lane Byte → Option (Lane → Byte) → Prop where
  | first : Performs c m (c.settle (c.access.apply m)) (c.access.out m)
  | last : Performs c m (c.access.apply (c.settle m)) (c.access.out (c.settle m))

/-- One clock. A cycle waits `bound` clocks at most. -/
inductive Step (bound : Nat) (c : Clock Addr Lane Byte) :
    State Addr Lane Byte → State Addr Lane Byte → Prop where
  | rest {s : State Addr Lane Byte} (hactive : c.active = false) (hphase : s.phase = .idle) :
      Step bound c s ⟨c.settle s.mem, .idle⟩
  | wait {s : State Addr Lane Byte} {n : Nat} (hactive : c.active = true)
      (hphase : s.phase.waited = some n) (hn : n < bound) :
      Step bound c s ⟨c.settle s.mem, .waiting (n + 1)⟩
  | perform {s : State Addr Lane Byte} {n : Nat} {m : Mem Addr Lane Byte}
      {out : Option (Lane → Byte)} (hactive : c.active = true)
      (hphase : s.phase.waited = some n) (hm : Performs c s.mem m out) :
      Step bound c s ⟨m, .performed out⟩
  | hold {s : State Addr Lane Byte} {out : Option (Lane → Byte)} (hactive : c.active = true)
      (hphase : s.phase = .performed out) :
      Step bound c s ⟨c.settle s.mem, .performed out⟩
  | finish {s : State Addr Lane Byte} {out : Option (Lane → Byte)} (hactive : c.active = false)
      (hphase : s.phase = .performed out) :
      Step bound c s ⟨c.settle s.mem, .idle⟩

/-- A lane the access spares holds what the other port left there. -/
theorem Step.spared {bound : Nat} {c : Clock Addr Lane Byte} {s t : State Addr Lane Byte}
    (h : Step bound c s t) {a : Addr} {l : Lane} (hspares : c.access.Spares a l) :
    t.mem a l = c.settle s.mem a l := by
  cases h with
  | perform hactive hphase hm =>
      cases hm with
      | first => exact c.settle_congr (hspares.apply s.mem)
      | last => exact hspares.apply (c.settle s.mem)
  | _ => rfl

end SharedRam
