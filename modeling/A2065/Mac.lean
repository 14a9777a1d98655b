import A2065.Types

/-!
# MAC translation, `mac.cpp`

`mungepacket` works in place on the frame and computes its offsets from
fields of the frame, so it is a function on buffers that may read and write
past the frame's end exactly where the C code does.
-/

namespace A2065

/-- The six bytes at index `i`. -/
def macAt (packet : Buf) (i : Nat) : Mac := Vector.ofFn fun j => packet (i + j)

theorem macAt_congr {a b : Buf} {i : Nat} (h : ∀ k, i ≤ k → k < i + 6 → a k = b k) :
    macAt a i = macAt b i := by
  unfold macAt
  congr 1
  funext j
  exact h _ (by omega) (by omega)

/-- `memcpy(packet + i, mac, 6)`. -/
def putMac (packet : Buf) (i : Nat) (mac : Mac) : Buf := fun k =>
  if h : i ≤ k ∧ k < i + 6 then mac.get ⟨k - i, by omega⟩ else packet k

/-- A 16-bit big-endian field. -/
def be16 (packet : Buf) (i : Nat) : Nat :=
  (packet i).toNat * 256 + (packet (i + 1)).toNat

/-- Swap the address at index `i` if it is one of the two known ones. -/
def dofakemac (fakemac realmac : Mac) (packet : Buf) (i : Nat) : Bool × Buf :=
  if fakemac = realmac then (true, packet)
  else if macAt packet i = fakemac then (true, putMac packet i realmac)
  else if macAt packet i = realmac then (true, putMac packet i fakemac)
  else (false, packet)

/-- The checksum loop: the first `n` 16-bit words from index `data`. -/
def udpSum (packet : Buf) (data : Nat) : Nat → U32
  | 0 => 0
  | n + 1 => udpSum packet data n + BitVec.ofNat 32 (be16 packet (data + 2 * n))

/-- `while (sum >> 16) sum = (sum & 0xFFFF) + (sum >> 16)`. -/
def foldSum (sum : U32) : U32 :=
  if sum >>> 16 = 0 then sum
  else foldSum ((sum &&& 0xFFFF#32) + (sum >>> 16))
termination_by sum.toNat
decreasing_by
  rename_i h
  have hlt := sum.isLt
  have hhi : (sum >>> 16).toNat = sum.toNat / 65536 := by
    simp [BitVec.toNat_ushiftRight, Nat.shiftRight_eq_div_pow]
  have hlo : (sum &&& 0xFFFF#32).toNat = sum.toNat % 65536 := by
    rw [BitVec.toNat_and]
    exact Nat.and_two_pow_sub_one_eq_mod _ 16
  have hne : sum.toNat / 65536 ≠ 0 := by
    intro h0
    exact h (BitVec.eq_of_toNat_eq (by rw [hhi, h0]; rfl))
  rw [BitVec.toNat_add, hhi, hlo, Nat.mod_eq_of_lt (by omega)]
  omega

/-- The store of the recomputed checksum. `ipv4` and `data` are the indices
of the IPv4 and the UDP header, `len2` the UDP length field. -/
def udpChecksum (packet : Buf) (ipv4 data len2 : Nat) : Buf :=
  let packet := Function.update packet (data + 6) 0
  let packet := Function.update packet (data + 7) 0
  let packet := Function.update packet (data + len2) 0
  let sum := udpSum packet data ((len2 + 1) / 2)
    + BitVec.ofNat 32 (be16 packet (ipv4 + 12)) + BitVec.ofNat 32 (be16 packet (ipv4 + 14))
    + BitVec.ofNat 32 (be16 packet (ipv4 + 16)) + BitVec.ofNat 32 (be16 packet (ipv4 + 18))
    + 17 + BitVec.ofNat 32 len2
  let sum := ~~~ foldSum sum
  let sum := if sum = 0 then 0xffff else sum
  let packet := Function.update packet (data + 6) ((sum >>> 8).setWidth 8)
  Function.update packet (data + 7) (sum.setWidth 8)

/-- The UDP branch: DHCP ports get their CHADDR translated and, when the
datagram carries a checksum, a new one. -/
def mungeUdp (fakemac realmac : Mac) (packet : Buf) (ipv4 data : Nat) : Buf :=
  let sp := be16 packet data
  let dp := be16 packet (data + 2)
  let len2 := be16 packet (data + 4)
  let (udpcrc, packet) :=
    if sp = 67 ∨ sp = 68 ∨ dp = 67 ∨ dp = 68 then
      dofakemac fakemac realmac packet (data + 8 + 28)
    else (false, packet)
  if udpcrc ∧ (packet (data + 6) ≠ 0 ∨ packet (data + 7) ≠ 0) then
    udpChecksum packet ipv4 data len2
  else packet

/-- Translate the addresses of a frame. The first component is the C return
value. -/
def mungepacket (fakemac realmac : Mac) (packet : Buf) (len : Nat) : Nat × Buf :=
  if len < 20 then (0, packet)
  else if fakemac = realmac then (len, packet)
  else
    let type := be16 packet 12
    let packet := (dofakemac fakemac realmac packet 0).2
    let packet := (dofakemac fakemac realmac packet 6).2
    if type = 0x0806 then
      if be16 packet 14 = 1 ∧ packet 18 = 6 then
        let packet := (dofakemac fakemac realmac packet (14 + 8)).2
        (len, (dofakemac fakemac realmac packet (14 + 8 + 6 + 4)).2)
      else (len, packet)
    else if type = 0x0800 then
      let ihl := (packet 14 &&& 0x0f).toNat
      if packet (14 + 9) = 17 then
        (len, mungeUdp fakemac realmac packet 14 (14 + ihl * 4))
      else (len, packet)
    else (len, packet)

end A2065
