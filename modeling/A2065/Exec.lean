import A2065.RegisterEffects

/-!
# Undisturbed calls

What the accessors and the parts shared by both walkers do when nobody
interferes. Boardram is followed through `Boardram.mem`.
-/

namespace A2065

open Bits CyclicMem

@[simp] theorem DProg.exec_pure {α : Type} (a : α) (w : World) :
    DProg.exec (pure a) w = (a, w) := rfl

@[simp] theorem DProg.exec_bind {α β : Type} (p : DProg α) (f : α → DProg β) (w : World) :
    DProg.exec (p >>= f) w = (f (p.exec w).1).exec (p.exec w).2 := Prog.exec_bind ..

theorem always_exec {α : Type} {p : DProg α} {Q : α → Prop} (h : p.Always Q) (w : World) :
    Q (p.exec w).1 := h.exec World.handle w

@[simp] theorem exec_getRamByte (off : U32) (w : World) :
    (getRamByte off).exec w = (w.ram.getRamByte off, w) := rfl

@[simp] theorem exec_getRamWord (base disp : U32) (w : World) :
    (getRamWord base disp).exec w = (w.ram.getRamWord (base + disp), w) := rfl

@[simp] theorem exec_putRamWord (base disp : U32) (v : U16) (w : World) :
    (putRamWord base disp v).exec w = ((), { w with ram := w.ram.putRamWord (base + disp) v }) :=
  rfl

@[simp] theorem exec_ethernetSend (frame : List U8) (w : World) :
    (ethernetSend frame).exec w = ((), { w with wire := w.wire ++ [frame] }) := rfl

@[simp] theorem exec_uninit (w : World) : uninit.exec w = (w.stack, w) := rfl

/-- The worlds differ at most in the DDR3 slots. -/
structure SameMem (w w' : World) : Prop where
  ram : w'.ram = w.ram
  wire : w'.wire = w.wire
  stack : w'.stack = w.stack

theorem signals_exec {α : Type} {p : DProg α} (h : p.Only Eff.IsSignal) (w : World) :
    SameMem w (p.exec w).2 := by
  have hv := h.exec_frame World.handle (fun w => (w.ram, w.wire, w.stack))
    (fun e w he => by cases e <;> first | rfl | exact he.elim) w
  simp only [Prod.mk.injEq] at hv
  exact ⟨hv.1, hv.2.1, hv.2.2⟩

theorem rethink_exec (cb : Callback) (d : Daemon) (w : World) :
    ((rethink cb d).exec w).1 = d.setCsr 0 (rethinkCsr0 d.csr0) ∧
      SameMem w ((rethink cb d).exec w).2 :=
  ⟨always_exec (rethink_always cb d) w, signals_exec (rethink_signals cb d) w⟩

/-! ## Blocks -/

theorem ramReadBlock_exec (off : U32) (n : Nat) (w : World) :
    (ramReadBlock off n).exec w = (readBlock w.ram.mem (cell off) n, w) := by
  induction n with
  | zero => rfl
  | succ n ih =>
      rw [ramReadBlock, DProg.exec_bind, ih, DProg.exec_bind, exec_getRamByte,
        Boardram.getRamByte_eq, cell_add, cell_ofNat, DProg.exec_pure, readBlock, readBlock,
        List.range_succ, List.map_append]
      rfl

/-- `ram_write_block` on boardram. -/
def Boardram.ramWriteBlock (m : Boardram) (off : U32) (src : Buf) : Nat → Boardram
  | 0 => m
  | len + 1 => (m.ramWriteBlock off src len).putRamByte (off + BitVec.ofNat 32 len) (src len)

theorem exec_ramWriteBlock (off : U32) (src : Buf) (n : Nat) (w : World) :
    (A2065.ramWriteBlock off src n).exec w =
      ((), { w with ram := w.ram.ramWriteBlock off src n }) := by
  induction n with
  | zero => rfl
  | succ n ih =>
      rw [A2065.ramWriteBlock, DProg.exec_bind, ih]
      rfl

theorem Boardram.mem_ramWriteBlock (m : Boardram) (off : U32) (src : Buf) {n : Nat}
    (hn : n ≤ 2 ^ 15) : (m.ramWriteBlock off src n).mem = writeBlock m.mem (cell off) src n := by
  induction n with
  | zero => rfl
  | succ n ih =>
      rw [ramWriteBlock, mem_putRamByte, ih (by omega), cell_add, cell_ofNat,
        writeBlock_succ _ _ _ (by omega)]

end A2065
