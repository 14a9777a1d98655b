import A2065.Lib.Bits

/-!
# Constants of `a2065_types.h`

Words are bit vectors of the width the C code declares. The masks keep their
hexadecimal values; the `masks` theorems give the bit each one names, which
is the form the proofs rewrite to.
-/

namespace A2065

/-- `uint8_t` -/
abbrev U8 := BitVec 8

/-- `uint16_t` -/
abbrev U16 := BitVec 16

/-- `uint32_t` -/
abbrev U32 := BitVec 32

/-- `uint64_t` -/
abbrev U64 := BitVec 64

/-- A C byte buffer seen through its pointer. An index past the declared
array is the memory behind it. -/
abbrev Buf := Nat → U8

/-- A six-byte station address. -/
abbrev Mac := Vector U8 6

namespace CSR0

/-- Error summary: one of BABL, CERR, MISS and MERR is set. -/
def ERR : U16 := 0x8000

/-- Babble: a transmitted frame was too long. -/
def BABL : U16 := 0x4000

/-- Collision error: the transceiver test failed. -/
def CERR : U16 := 0x2000

/-- A frame arrived and no receive descriptor was free. -/
def MISS : U16 := 0x1000

/-- Memory error: no answer on the bus of the chip. -/
def MERR : U16 := 0x0800

/-- Receive interrupt. -/
def RINT : U16 := 0x0400

/-- Transmit interrupt. -/
def TINT : U16 := 0x0200

/-- Initialization done. -/
def IDON : U16 := 0x0100

/-- Interrupt summary, as `rethink` computes it. -/
def INTR : U16 := 0x0080

/-- Interrupts enabled. -/
def INEA : U16 := 0x0040

/-- Receiver on. -/
def RXON : U16 := 0x0020

/-- Transmitter on. -/
def TXON : U16 := 0x0010

/-- Transmit demand. -/
def TDMD : U16 := 0x0008

/-- The chip is, or is to be, stopped. -/
def STOP : U16 := 0x0004

/-- The chip is, or is to be, started. -/
def STRT : U16 := 0x0002

/-- The chip is to read the initialization block. -/
def INIT : U16 := 0x0001

theorem masks :
    ERR = .twoPow 16 15 ∧ BABL = .twoPow 16 14 ∧ CERR = .twoPow 16 13 ∧
    MISS = .twoPow 16 12 ∧ MERR = .twoPow 16 11 ∧ RINT = .twoPow 16 10 ∧
    TINT = .twoPow 16 9 ∧ IDON = .twoPow 16 8 ∧ INTR = .twoPow 16 7 ∧
    INEA = .twoPow 16 6 ∧ RXON = .twoPow 16 5 ∧ TXON = .twoPow 16 4 ∧
    TDMD = .twoPow 16 3 ∧ STOP = .twoPow 16 2 ∧ STRT = .twoPow 16 1 ∧
    INIT = .twoPow 16 0 := by decide

end CSR0

namespace MODE

/-- Promiscuous: every frame is accepted. -/
def PROM : U16 := 0x8000

/-- Force collision. -/
def COLL : U16 := 0x0010

/-- Disable transmit CRC: the driver has appended its own, which is cut off. -/
def DTCR : U16 := 0x0008

/-- Loopback: a frame sent is received again and does not go out. -/
def LOOP : U16 := 0x0004

/-- Disable the transmitter. -/
def DTX : U16 := 0x0002

/-- Disable the receiver. -/
def DRX : U16 := 0x0001

end MODE

namespace TX

/-- TMD1: the descriptor belongs to the chip. -/
def OWN : U16 := 0x8000

/-- TMD1: error summary. -/
def ERR : U16 := 0x4000

/-- TMD1: add a CRC whatever the mode says, so nothing is cut off. -/
def ADD_FCS : U16 := 0x2000

/-- TMD1: first buffer of a frame. -/
def STP : U16 := 0x0200

/-- TMD1: last buffer of a frame. -/
def ENP : U16 := 0x0100

/-- TMD3: no descriptor followed that was owned. -/
def BUFF : U16 := 0x8000

/-- TMD3: underflow. -/
def UFLO : U16 := 0x4000

/-- TMD3: retries exhausted. -/
def RTRY : U16 := 0x0400

theorem masks : OWN = .twoPow 16 15 ∧ ERR = .twoPow 16 14 ∧
    ADD_FCS = .twoPow 16 13 ∧ STP = .twoPow 16 9 ∧ ENP = .twoPow 16 8 ∧
    BUFF = .twoPow 16 15 ∧ UFLO = .twoPow 16 14 ∧ RTRY = .twoPow 16 10 := by decide

end TX

namespace RX

/-- RMD1: the descriptor belongs to the chip. -/
def OWN : U16 := 0x8000

/-- RMD1: overflow. -/
def OFLO : U16 := 0x1000

/-- RMD1: no descriptor followed that was owned. -/
def BUFF : U16 := 0x0400

/-- RMD1: first buffer of a frame. -/
def STP : U16 := 0x0200

/-- RMD1: last buffer of a frame. -/
def ENP : U16 := 0x0100

theorem masks : OWN = .twoPow 16 15 ∧ OFLO = .twoPow 16 12 ∧
    BUFF = .twoPow 16 10 ∧ STP = .twoPow 16 9 ∧ ENP = .twoPow 16 8 := by decide

end RX

/-- The number of registers `csr` has room for. -/
def RAP_SIZE : Nat := 128

/-- The size of the frame buffers. -/
def MAX_PACKET_SIZE : Nat := 4096

/-- The data port, as an offset within the card. -/
def A2065_RDP_OFF : U8 := 0x00

/-- The address port, which selects the register behind the data port. -/
def A2065_RAP_OFF : U8 := 0x02

/-- The address every station listens to. -/
def BROADCAST_MAC : Mac := #v[0xff, 0xff, 0xff, 0xff, 0xff, 0xff]

end A2065
