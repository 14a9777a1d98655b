import A2065.BoardramAccess
import A2065.Lib.Prog

/-!
# What the daemon shares with the outside

The daemon's functions are programs over these effects. Boardram is shared
with the 68k, the DDR3 slots with the FPGA, and the socket with the network;
everything else the daemon touches is its own. A word access keeps the two
summands of its address apart, as the source writes them
(`get_ram_word(off + 2)`): `base` is the descriptor or block, `disp` the
word in it.
-/

namespace A2065

/-- What the daemon does outside its own static variables. -/
inductive Eff where
  | getByte (off : U32)
  | getWord (base disp : U32)
  | putByte (off : U32) (v : U8)
  | putWord (base disp : U32) (v : U16)
  | wr64 (off : Nat) (v : U64)
  | ethernetSend (frame : List U8)
  /-- The contents a fresh local array happens to have. -/
  | uninit

/-- What an effect answers. -/
def Eff.Ans : Eff → Type
  | .getByte _ => U8
  | .getWord _ _ => U16
  | .putByte _ _ | .putWord _ _ _ | .wr64 _ _ | .ethernetSend _ => Unit
  | .uninit => Buf

/-- A program of the daemon. -/
abbrev DProg := Prog Eff Eff.Ans

/-- An effect with its answer. -/
abbrev DEvent := Event Eff Eff.Ans

/-- The parties' common state: the boardram window, the 64-bit slots behind
it, the frames handed to the socket, and the bytes left on the stack. -/
structure World where
  ram : Boardram
  slots : Nat → U64
  wire : List (List U8)
  stack : Buf

/-- All memory zero, nothing sent. -/
def World.blank : World := ⟨fun _ => 0, fun _ => 0, [], fun _ => 0⟩

/-- The effect of one access when nobody interferes. -/
def World.handle : (e : Eff) → World → e.Ans × World
  | .getByte off, w => (w.ram.getRamByte off, w)
  | .getWord base disp, w => (w.ram.getRamWord (base + disp), w)
  | .putByte off v, w => ((), { w with ram := w.ram.putRamByte off v })
  | .putWord base disp v, w => ((), { w with ram := w.ram.putRamWord (base + disp) v })
  | .wr64 off v, w => ((), { w with slots := Function.update w.slots off v })
  | .ethernetSend frame, w => ((), { w with wire := w.wire ++ [frame] })
  | .uninit, w => (w.stack, w)

/-- Run a program with nobody interfering. -/
abbrev DProg.exec {α : Type} (p : DProg α) (w : World) : α × World :=
  Prog.exec World.handle p w

/-- The effects of such a run. -/
abbrev DProg.trace {α : Type} (p : DProg α) (w : World) : List DEvent :=
  Prog.trace World.handle p w

/-! ## The accessors as programs -/

/-- `get_ram_byte` -/
def getRamByte (off : U32) : DProg U8 := Prog.perform (Eff.getByte off)

/-- `get_ram_word(base + disp)`, the two kept apart for the traces. -/
def getRamWord (base disp : U32) : DProg U16 := Prog.perform (Eff.getWord base disp)

/-- `put_ram_byte` -/
def putRamByte (off : U32) (v : U8) : DProg Unit := Prog.perform (Eff.putByte off v)

/-- `put_ram_word(base + disp, v)` -/
def putRamWord (base disp : U32) (v : U16) : DProg Unit := Prog.perform (Eff.putWord base disp v)

/-- A store to the slot at `off`. -/
def wr64 (off : Nat) (v : U64) : DProg Unit := Prog.perform (Eff.wr64 off v)

/-- `ethernet_send` -/
def ethernetSend (frame : List U8) : DProg Unit := Prog.perform (Eff.ethernetSend frame)

/-- A local array is declared and not initialized. -/
def uninit : DProg Buf := Prog.perform Eff.uninit

/-- `ram_read_block`: the bytes at `off`, `off + 1`, ... in that order. -/
def ramReadBlock (off : U32) : Nat → DProg (List U8)
  | 0 => pure []
  | len + 1 => do
      let bytes ← ramReadBlock off len
      let b ← getRamByte (off + BitVec.ofNat 32 len)
      pure (bytes ++ [b])

/-- `ram_write_block`: `src 0`, `src 1`, ... to `off`, `off + 1`, ... -/
def ramWriteBlock (off : U32) (src : Buf) : Nat → DProg Unit
  | 0 => pure ()
  | len + 1 => do
      ramWriteBlock off src len
      putRamByte (off + BitVec.ofNat 32 len) (src len)

/-- A store to one of the DDR3 slots. -/
def Eff.IsSignal : Eff → Prop
  | .wr64 _ _ => True
  | _ => False

/-- A store to boardram or a frame on the wire. -/
def Eff.IsAction : Eff → Prop
  | .putByte _ _ | .putWord _ _ _ | .ethernetSend _ => True
  | _ => False

end A2065
