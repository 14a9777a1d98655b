import A2065.Mac
import A2065.Lib.Footprint

/-!
# `mac.cpp`, byte by byte

The functions of `Mac` again, as programs that read and write one byte of the
frame at a time, in the order of the source. `run_mungepacket` says that they
compute the same; their footprint is what the last section is about. `memcmp`
and `memcpy` count as accesses of all six bytes.
-/

namespace A2065.Bytewise

open MemProg

/-- A program over the bytes of a frame. -/
abbrev FrameProg := MemProg Nat U8

/-- The word at `i` in network order. -/
def be16 (i : Nat) : FrameProg Nat := do
  let hi ← get i
  let lo ← get (i + 1)
  pure (hi.toNat * 256 + lo.toNat)

/-- `memcpy(packet + i, mac, 6)` -/
def putMac (i : Nat) (mac : Mac) : FrameProg Unit := setBlock i (fun k => mac.toList.getD k 0) 6

/-- `dofakemac`: one address of the pair is replaced by the other, in either
direction. -/
def dofakemac (fakemac realmac : Mac) (i : Nat) : FrameProg Bool :=
  if fakemac = realmac then pure true
  else do
    let packet ← getBlock i 6
    if packet = fakemac.toList then
      putMac i realmac
      pure true
    else
      let packet ← getBlock i 6
      if packet = realmac.toList then
        putMac i fakemac
        pure true
      else pure false

/-- The sum of the first `n` words from `data`. -/
def udpSum (data : Nat) : Nat → FrameProg U32
  | 0 => pure 0
  | n + 1 => do
      let sum ← udpSum data n
      let word ← be16 (data + 2 * n)
      pure (sum + BitVec.ofNat 32 word)

/-- The field and the byte behind the datagram are cleared, then the sum with
the pseudo header is stored. -/
def udpChecksum (ipv4 data len2 : Nat) : FrameProg Unit := do
  set (data + 6) 0
  set (data + 7) 0
  set (data + len2) 0
  let sum ← udpSum data ((len2 + 1) / 2)
  let src ← be16 (ipv4 + 12)
  let src' ← be16 (ipv4 + 14)
  let dst ← be16 (ipv4 + 16)
  let dst' ← be16 (ipv4 + 18)
  let sum := sum + BitVec.ofNat 32 src + BitVec.ofNat 32 src' + BitVec.ofNat 32 dst
    + BitVec.ofNat 32 dst' + 17 + BitVec.ofNat 32 len2
  let sum := ~~~ foldSum sum
  let sum := if sum = 0 then 0xffff else sum
  set (data + 6) ((sum >>> 8).setWidth 8)
  set (data + 7) (sum.setWidth 8)

/-- `data[6] || data[7]` -/
def hasChecksum (data : Nat) : FrameProg Bool := do
  let hi ← get (data + 6)
  if hi ≠ 0 then pure true
  else
    let lo ← get (data + 7)
    pure (decide (lo ≠ 0))

/-- What DHCP ports add: CHADDR, and the checksum when CHADDR was one of the
known addresses. -/
def mungeDhcp (fakemac realmac : Mac) (ipv4 data len2 : Nat) : FrameProg Unit := do
  let udpcrc ← dofakemac fakemac realmac (data + 8 + 28)
  if udpcrc then
    let summed ← hasChecksum data
    if summed then udpChecksum ipv4 data len2

/-- The UDP part of the IPv4 branch. Only the ports of DHCP matter. -/
def mungeUdp (fakemac realmac : Mac) (ipv4 data : Nat) : FrameProg Unit := do
  let sp ← be16 data
  let dp ← be16 (data + 2)
  let len2 ← be16 (data + 4)
  if sp = 67 ∨ sp = 68 ∨ dp = 67 ∨ dp = 68 then mungeDhcp fakemac realmac ipv4 data len2

/-- The ARP branch of `mungepacket`. -/
def mungeArp (fakemac realmac : Mac) : FrameProg Unit := do
  let hardware ← be16 14
  if hardware = 1 then
    let size ← get 18
    if size = 6 then
      let _ ← dofakemac fakemac realmac (14 + 8)
      let _ ← dofakemac fakemac realmac (14 + 8 + 6 + 4)

/-- The IPv4 branch of `mungepacket`. -/
def mungeIpv4 (fakemac realmac : Mac) : FrameProg Unit := do
  let proto ← get (14 + 9)
  let ihl ← get 14
  if proto = 17 then mungeUdp fakemac realmac 14 (14 + (ihl &&& 0x0f).toNat * 4)

/-- `mungepacket`: both addresses of the Ethernet header, then what the type
asks for. -/
def mungepacket (fakemac realmac : Mac) (len : Nat) : FrameProg Nat :=
  if len < 20 then pure 0
  else if fakemac = realmac then pure len
  else do
    let type ← be16 12
    let _ ← dofakemac fakemac realmac 0
    let _ ← dofakemac fakemac realmac 6
    (if type = 0x0806 then mungeArp fakemac realmac
      else if type = 0x0800 then mungeIpv4 fakemac realmac
      else pure ())
    pure len

/-! ## The same results -/

@[simp] theorem run_be16 (i : Nat) (m : Buf) : run (be16 i) m = (A2065.be16 m i, m) := rfl

theorem toList_macAt (m : Buf) (i : Nat) :
    (macAt m i).toList = (List.range 6).map fun k => m (i + k) := by
  apply List.ext_getElem
  · simp
  · intro k hk _
    simp [macAt]

theorem block_eq_mac (m : Buf) (i : Nat) (mac : Mac) :
    (List.range 6).map (fun k => m (i + k)) = mac.toList ↔ macAt m i = mac := by
  rw [← toList_macAt, Vector.toList_inj]

@[simp] theorem run_putMac (i : Nat) (mac : Mac) (m : Buf) :
    run (putMac i mac) m = ((), A2065.putMac m i mac) := by
  rw [putMac, run_setBlock]
  congr 1
  funext k
  unfold A2065.putMac
  by_cases hk : i ≤ k ∧ k < i + 6
  · rw [if_pos hk, dif_pos hk, List.getD_eq_getElem _ _ (by simp; omega), Vector.getElem_toList]
    rfl
  · rw [if_neg hk, dif_neg hk]

@[simp] theorem run_dofakemac (fakemac realmac : Mac) (i : Nat) (m : Buf) :
    run (dofakemac fakemac realmac i) m = A2065.dofakemac fakemac realmac m i := by
  unfold dofakemac A2065.dofakemac
  by_cases heq : fakemac = realmac
  · rw [if_pos heq, if_pos heq, run_pure]
  · rw [if_neg heq, if_neg heq, run_bind, run_getBlock]
    dsimp only
    simp only [block_eq_mac]
    by_cases hfake : macAt m i = fakemac
    · rw [if_pos hfake, if_pos hfake, run_bind, run_putMac, run_pure]
    · rw [if_neg hfake, if_neg hfake, run_bind, run_getBlock]
      dsimp only
      simp only [block_eq_mac]
      by_cases hreal : macAt m i = realmac
      · rw [if_pos hreal, if_pos hreal, run_bind, run_putMac, run_pure]
      · rw [if_neg hreal, if_neg hreal, run_pure]

@[simp] theorem run_udpSum (data n : Nat) (m : Buf) :
    run (udpSum data n) m = (A2065.udpSum m data n, m) := by
  induction n with
  | zero => rfl
  | succ n ih => rw [udpSum, run_bind, ih, run_bind, run_be16, run_pure, A2065.udpSum]

@[simp] theorem run_udpChecksum (ipv4 data len2 : Nat) (m : Buf) :
    run (udpChecksum ipv4 data len2) m = ((), A2065.udpChecksum m ipv4 data len2) := by
  rw [udpChecksum, run_bind, run_set, run_bind, run_set, run_bind, run_set, run_bind, run_udpSum,
    run_bind, run_be16, run_bind, run_be16, run_bind, run_be16, run_bind, run_be16, run_bind,
    run_set, run_set]
  rfl

@[simp] theorem run_hasChecksum (data : Nat) (m : Buf) : run (hasChecksum data) m =
    (decide (m (data + 6) ≠ 0 ∨ m (data + 7) ≠ 0), m) := by
  rw [hasChecksum, run_bind, run_get]
  dsimp only
  by_cases hhi : m (data + 6) = 0
  · rw [if_neg (by simp [hhi]), run_bind, run_get, run_pure]
    simp [hhi]
  · rw [if_pos hhi, run_pure, decide_eq_true (Or.inl hhi)]

@[simp] theorem run_mungeUdp (fakemac realmac : Mac) (ipv4 data : Nat) (m : Buf) :
    run (mungeUdp fakemac realmac ipv4 data) m =
      ((), A2065.mungeUdp fakemac realmac m ipv4 data) := by
  unfold mungeUdp A2065.mungeUdp
  rw [run_bind, run_be16, run_bind, run_be16, run_bind, run_be16]
  dsimp only
  by_cases hport : A2065.be16 m data = 67 ∨ A2065.be16 m data = 68 ∨
      A2065.be16 m (data + 2) = 67 ∨ A2065.be16 m (data + 2) = 68
  · rw [if_pos hport, if_pos hport, mungeDhcp, run_bind, run_dofakemac]
    generalize A2065.dofakemac fakemac realmac m (data + 8 + 28) = r
    obtain ⟨udpcrc, m'⟩ := r
    dsimp only
    cases udpcrc with
    | false => rfl
    | true =>
        rw [if_pos rfl, run_bind, run_hasChecksum]
        dsimp only
        by_cases hsum : m' (data + 6) ≠ 0 ∨ m' (data + 7) ≠ 0
        · rw [if_pos (decide_eq_true hsum), if_pos ⟨rfl, hsum⟩, run_udpChecksum]
        · rw [if_neg (by simpa using hsum), if_neg (fun h => hsum h.2), run_pure]
  · rw [if_neg hport, if_neg hport, run_pure]
    simp

@[simp] theorem run_mungeArp (fakemac realmac : Mac) (m : Buf) :
    run (mungeArp fakemac realmac) m = ((), if A2065.be16 m 14 = 1 ∧ m 18 = 6 then
      (A2065.dofakemac fakemac realmac (A2065.dofakemac fakemac realmac m (14 + 8)).2
        (14 + 8 + 6 + 4)).2 else m) := by
  rw [mungeArp, run_bind, run_be16]
  dsimp only
  by_cases hhard : A2065.be16 m 14 = 1
  · rw [if_pos hhard, run_bind, run_get]
    dsimp only
    by_cases hsize : m 18 = 6
    · rw [if_pos hsize, if_pos ⟨hhard, hsize⟩, run_bind, run_dofakemac, run_bind, run_dofakemac,
        run_pure]
    · rw [if_neg hsize, if_neg (fun h => hsize h.2), run_pure]
  · rw [if_neg hhard, if_neg (fun h => hhard h.1), run_pure]

@[simp] theorem run_mungeIpv4 (fakemac realmac : Mac) (m : Buf) :
    run (mungeIpv4 fakemac realmac) m = ((), if m (14 + 9) = 17 then
      A2065.mungeUdp fakemac realmac m 14 (14 + (m 14 &&& 0x0f).toNat * 4) else m) := by
  rw [mungeIpv4, run_bind, run_get, run_bind, run_get]
  dsimp only
  by_cases hproto : m (14 + 9) = 17
  · rw [if_pos hproto, if_pos hproto, run_mungeUdp]
  · rw [if_neg hproto, if_neg hproto, run_pure]

theorem run_mungepacket (fakemac realmac : Mac) (len : Nat) (m : Buf) :
    run (mungepacket fakemac realmac len) m = A2065.mungepacket fakemac realmac m len := by
  unfold mungepacket A2065.mungepacket
  by_cases hlen : len < 20
  · rw [if_pos hlen, if_pos hlen, run_pure]
  by_cases heq : fakemac = realmac
  · rw [if_neg hlen, if_neg hlen, if_pos heq, if_pos heq, run_pure]
  rw [if_neg hlen, if_neg hlen, if_neg heq, if_neg heq, run_bind, run_be16, run_bind,
    run_dofakemac, run_bind, run_dofakemac, run_bind]
  dsimp only
  generalize (A2065.dofakemac fakemac realmac (A2065.dofakemac fakemac realmac m 0).2 6).2 = m'
  by_cases harp : A2065.be16 m 12 = 0x0806
  · rw [if_pos harp, if_pos harp, run_mungeArp, run_pure]
    dsimp only
    split <;> rfl
  rw [if_neg harp, if_neg harp]
  by_cases hip : A2065.be16 m 12 = 0x0800
  · rw [if_pos hip, if_pos hip, run_mungeIpv4, run_pure]
    dsimp only
    split <;> rfl
  · rw [if_neg hip, if_neg hip, run_pure, run_pure]

/-! ## Where the accesses are -/

/-- One of the ports of DHCP. -/
def DhcpPorts (packet : Buf) (data : Nat) : Prop :=
  A2065.be16 packet data = 67 ∨ A2065.be16 packet data = 68 ∨
    A2065.be16 packet (data + 2) = 67 ∨ A2065.be16 packet (data + 2) = 68

/-- The UDP header at `data` is in the frame; for DHCP ports CHADDR is, and
when CHADDR is a known address and the datagram has a checksum, the byte
behind its UDP length is. -/
def UdpInside (fakemac realmac : Mac) (packet : Buf) (data len : Nat) : Prop :=
  data + 6 ≤ len ∧ (DhcpPorts packet data → data + 42 ≤ len ∧
    (macAt packet (data + 36) = fakemac ∨ macAt packet (data + 36) = realmac →
      packet (data + 6) ≠ 0 ∨ packet (data + 7) ≠ 0 →
      data + A2065.be16 packet (data + 4) < len))

/-- What the frame announces fits into it. -/
def MungeInside (fakemac realmac : Mac) (packet : Buf) (len : Nat) : Prop :=
  fakemac ≠ realmac →
    (A2065.be16 packet 12 = 0x0806 → A2065.be16 packet 14 = 1 → packet 18 = 6 → 38 ≤ len) ∧
    (A2065.be16 packet 12 = 0x0800 → 24 ≤ len ∧
      (packet 23 = 17 →
        UdpInside fakemac realmac packet (14 + (packet 14 &&& 0x0f).toNat * 4) len))

variable {fakemac realmac : Mac} {len : Nat} {m : Buf}

@[simp] theorem within_be16 (i : Nat) : Within (· < len) (be16 i) m ↔ i + 1 < len := by
  simp only [be16, within_bind, within_get, within_pure, and_true]
  omega

theorem within_dofakemac (h : fakemac ≠ realmac) (i : Nat) :
    Within (· < len) (dofakemac fakemac realmac i) m ↔ i + 6 ≤ len := by
  have hblock : (∀ k < 6, i + k < len) ↔ i + 6 ≤ len := by
    constructor
    · intro hk
      have := hk 5 (by decide)
      omega
    · intro hle k hk
      omega
  rw [dofakemac, if_neg h, within_bind, within_getBlock, hblock]
  constructor
  · intro hw
    exact hw.1
  · intro hle
    refine ⟨hle, ?_⟩
    have hget : Within (· < len) (getBlock i 6) m := (within_getBlock i 6).mpr (hblock.mpr hle)
    have hput : ∀ mac, Within (· < len) (putMac i mac) m := fun mac =>
      (within_setBlock i _ 6).mpr (hblock.mpr hle)
    rw [run_getBlock]
    dsimp only
    split
    · rw [within_bind]
      exact ⟨hput realmac, within_pure _⟩
    · rw [within_bind, run_getBlock]
      refine ⟨hget, ?_⟩
      dsimp only
      split
      · rw [within_bind]
        exact ⟨hput fakemac, within_pure _⟩
      · exact within_pure _

theorem within_udpSum (data n : Nat) :
    Within (· < len) (udpSum data n) m ↔ ∀ k < n, data + 2 * k + 1 < len := by
  induction n with
  | zero => simp [udpSum]
  | succ n ih =>
      rw [Nat.forall_lt_succ_right]
      simp only [udpSum, within_bind, ih, run_udpSum, within_be16, within_pure, and_true]

/-- With the headers inside, only the byte behind the UDP length matters. -/
theorem within_udpChecksum {data len2 : Nat} (hdata : 14 ≤ data) (hle : data + 42 ≤ len) :
    Within (· < len) (udpChecksum 14 data len2) m ↔ data + len2 < len := by
  simp only [udpChecksum, within_bind, within_set, within_udpSum, within_be16]
  constructor
  · intro h
    exact h.2.2.1
  · intro h
    exact ⟨by omega, by omega, h, fun k hk => by omega, by omega, by omega, by omega, by omega,
      by omega, by omega⟩

theorem within_hasChecksum {data : Nat} (hle : data + 7 < len) :
    Within (· < len) (hasChecksum data) m := by
  rw [hasChecksum, within_bind, within_get]
  refine ⟨by omega, ?_⟩
  rw [run_get]
  by_cases hhi : m (data + 6) ≠ 0
  · rw [if_pos hhi]
    exact within_pure _
  · rw [if_neg hhi, within_bind, within_get]
    exact ⟨hle, within_pure _⟩

theorem dofakemac_fst (h : fakemac ≠ realmac) (m : Buf) (i : Nat) :
    (A2065.dofakemac fakemac realmac m i).1 = true ↔
      macAt m i = fakemac ∨ macAt m i = realmac := by
  rw [A2065.dofakemac, if_neg h]
  split_ifs with hfake hreal
  · simp [hfake]
  · simp [hreal]
  · simp [hfake, hreal]

/-- Only the six bytes can change. -/
theorem dofakemac_snd (m : Buf) {i k : Nat} (hk : k < i ∨ i + 6 ≤ k) :
    (A2065.dofakemac fakemac realmac m i).2 k = m k := by
  have hput : ∀ mac, A2065.putMac m i mac k = m k := fun mac => dif_neg (by omega)
  rw [A2065.dofakemac]
  split_ifs
  · rfl
  · exact hput realmac
  · exact hput fakemac
  · rfl

theorem within_mungeDhcp (h : fakemac ≠ realmac) {data len2 : Nat} (hdata : 14 ≤ data) :
    Within (· < len) (mungeDhcp fakemac realmac 14 data len2) m ↔ data + 42 ≤ len ∧
      (macAt m (data + 36) = fakemac ∨ macAt m (data + 36) = realmac →
        m (data + 6) ≠ 0 ∨ m (data + 7) ≠ 0 → data + len2 < len) := by
  rw [mungeDhcp, within_bind, within_dofakemac h, run_dofakemac]
  apply and_congr_right
  intro hle
  have hchaddr := dofakemac_fst h m (data + 36)
  have hhi : (A2065.dofakemac fakemac realmac m (data + 36)).2 (data + 6) = m (data + 6) :=
    dofakemac_snd m (.inl (by omega))
  have hlo : (A2065.dofakemac fakemac realmac m (data + 36)).2 (data + 7) = m (data + 7) :=
    dofakemac_snd m (.inl (by omega))
  rw [show data + 8 + 28 = data + 36 from rfl, ← hchaddr, ← hhi, ← hlo]
  generalize A2065.dofakemac fakemac realmac m (data + 36) = r
  obtain ⟨udpcrc, m'⟩ := r
  cases udpcrc with
  | false => simp
  | true =>
      have hsummed := within_hasChecksum (m := m') (show data + 7 < len by omega)
      by_cases hsum : m' (data + 6) ≠ 0 ∨ m' (data + 7) ≠ 0
      · simp only [if_true, within_bind, hsummed, true_and, run_hasChecksum, hsum, decide_true,
          within_udpChecksum hdata hle, forall_true_left]
      · simp only [if_true, within_bind, hsummed, true_and, run_hasChecksum, hsum, decide_false,
          Bool.false_eq_true, if_false, within_pure, false_implies, forall_true_left]

theorem within_mungeUdp (h : fakemac ≠ realmac) {data : Nat} (hdata : 14 ≤ data) :
    Within (· < len) (mungeUdp fakemac realmac 14 data) m ↔
      UdpInside fakemac realmac m data len := by
  have hheader : data + 1 < len ∧ data + 2 + 1 < len ∧ data + 4 + 1 < len ↔ data + 6 ≤ len := by
    omega
  rw [mungeUdp, within_bind, within_be16, run_be16, within_bind, within_be16, run_be16,
    within_bind, within_be16, run_be16, ← and_assoc, ← and_assoc, and_assoc (a := data + 1 < len),
    hheader, UdpInside, DhcpPorts]
  dsimp only
  apply and_congr_right
  intro _
  by_cases hport : A2065.be16 m data = 67 ∨ A2065.be16 m data = 68 ∨
      A2065.be16 m (data + 2) = 67 ∨ A2065.be16 m (data + 2) = 68
  · rw [if_pos hport, within_mungeDhcp h hdata]
    simp only [hport, forall_true_left]
  · rw [if_neg hport]
    simp only [hport, false_implies, within_pure]

theorem within_mungeArp (h : fakemac ≠ realmac) (hlen : 20 ≤ len) :
    Within (· < len) (mungeArp fakemac realmac) m ↔
      (A2065.be16 m 14 = 1 → m 18 = 6 → 38 ≤ len) := by
  have hhard : Within (· < len) (be16 14) m := (within_be16 14).mpr (by omega)
  rw [mungeArp, within_bind, run_be16]
  dsimp only
  by_cases hone : A2065.be16 m 14 = 1
  · rw [if_pos hone, within_bind, within_get, run_get]
    dsimp only
    by_cases hsix : m 18 = 6
    · rw [if_pos hsix]
      simp only [within_bind, within_dofakemac h, within_pure, hhard, hone, hsix, true_and,
        and_true, forall_const]
      omega
    · rw [if_neg hsix]
      simp only [within_pure, hhard, hsix, true_and, and_true, false_implies, implies_true,
        iff_true]
      omega
  · rw [if_neg hone]
    simp only [within_pure, hhard, hone, false_implies, and_self]

theorem within_mungeIpv4 (h : fakemac ≠ realmac) :
    Within (· < len) (mungeIpv4 fakemac realmac) m ↔ 24 ≤ len ∧ (m 23 = 17 →
      UdpInside fakemac realmac m (14 + (m 14 &&& 0x0f).toNat * 4) len) := by
  have hproto : Within (· < len) (MemProg.get (14 + 9)) m ↔ 24 ≤ len := within_get 23
  rw [mungeIpv4, within_bind, hproto, within_bind, within_get, run_get, run_get]
  dsimp only
  apply and_congr_right
  intro hle
  by_cases hudp : m 23 = 17
  · rw [if_pos hudp, within_mungeUdp h (Nat.le_add_right 14 _)]
    simp only [hudp, forall_true_left]
    exact and_iff_right (by omega)
  · rw [if_neg hudp]
    simp only [hudp, false_implies, within_pure, and_true, iff_true]
    omega

theorem be16_congr {m m' : Buf} {i : Nat} (h : ∀ k, i ≤ k → m k = m' k) :
    A2065.be16 m i = A2065.be16 m' i := by
  rw [A2065.be16, A2065.be16, h i (Nat.le_refl i), h (i + 1) (Nat.le_succ i)]

/-- The UDP condition reads nothing before the UDP header. -/
theorem udpInside_congr {m m' : Buf} {data : Nat} (h : ∀ k, data ≤ k → m k = m' k) :
    UdpInside fakemac realmac m data len ↔ UdpInside fakemac realmac m' data len := by
  have hword : ∀ i, data ≤ i → A2065.be16 m i = A2065.be16 m' i := fun i hi =>
    be16_congr fun k hk => h k (Nat.le_trans hi hk)
  have hmac : macAt m (data + 36) = macAt m' (data + 36) :=
    macAt_congr fun k hk _ => h k (by omega)
  simp only [UdpInside, DhcpPorts, hword data (Nat.le_refl _), hword (data + 2) (by omega),
    hword (data + 4) (by omega), hmac, h (data + 6) (by omega), h (data + 7) (by omega)]

theorem within_mungepacket (hlen : 20 ≤ len) (packet : Buf) :
    Within (· < len) (mungepacket fakemac realmac len) packet ↔
      MungeInside fakemac realmac packet len := by
  unfold mungepacket MungeInside
  rw [if_neg (by omega)]
  by_cases heq : fakemac = realmac
  · rw [if_pos heq]
    simp only [within_pure, heq, ne_eq, not_true_eq_false, false_implies]
  rw [if_neg heq, within_bind, within_be16, run_be16, within_bind, within_dofakemac heq,
    run_dofakemac, within_bind, within_dofakemac heq, run_dofakemac, within_bind]
  dsimp only
  -- the two header addresses lie before everything the branches look at
  have hsame : ∀ k, 12 ≤ k → (A2065.dofakemac fakemac realmac
      (A2065.dofakemac fakemac realmac packet 0).2 6).2 k = packet k := by
    intro k hk
    rw [dofakemac_snd _ (.inr (by omega)), dofakemac_snd _ (.inr (by omega))]
  generalize (A2065.dofakemac fakemac realmac
      (A2065.dofakemac fakemac realmac packet 0).2 6).2 = m at hsame ⊢
  have hhard : A2065.be16 m 14 = A2065.be16 packet 14 := be16_congr fun k hk => hsame k (by omega)
  have hudp : ∀ ihl, UdpInside fakemac realmac m (14 + ihl * 4) len ↔
      UdpInside fakemac realmac packet (14 + ihl * 4) len := fun ihl =>
    udpInside_congr fun k hk => hsame k (by omega)
  have hheader : 12 + 1 < len ∧ 0 + 6 ≤ len ∧ 6 + 6 ≤ len := by omega
  by_cases harp : A2065.be16 packet 12 = 0x0806
  · rw [if_pos harp, within_mungeArp heq hlen, hhard, hsame 18 (by decide)]
    simp [heq, harp, hheader]
  rw [if_neg harp]
  by_cases hip : A2065.be16 packet 12 = 0x0800
  · rw [if_pos hip, within_mungeIpv4 heq, hsame 23 (by decide), hsame 14 (by decide), hudp]
    simp [heq, hip, hheader]
  · rw [if_neg hip]
    simp [heq, harp, hip, hheader]

end A2065.Bytewise

namespace A2065

open Bytewise MemProg

/-- Whatever the addresses and the packet: the accesses of `mungepacket` to a
frame of at least 20 bytes stay inside exactly when what the frame announces
fits into it. -/
theorem mungepacket_inside_iff (fakemac realmac : Mac) (packet : Buf) (len : Nat)
    (hlen : 20 ≤ len) :
    run (Bytewise.mungepacket fakemac realmac len) packet =
        mungepacket fakemac realmac packet len ∧
      ((∀ i ∈ touched (Bytewise.mungepacket fakemac realmac len) packet, i < len) ↔
        MungeInside fakemac realmac packet len) :=
  ⟨run_mungepacket fakemac realmac len packet, within_mungepacket hlen packet⟩

instance Bytewise.decidableDhcpPorts (packet : Buf) (data : Nat) :
    Decidable (DhcpPorts packet data) :=
  inferInstanceAs (Decidable (_ ∨ _ ∨ _ ∨ _))

instance Bytewise.decidableUdpInside (fakemac realmac : Mac) (packet : Buf) (data len : Nat) :
    Decidable (UdpInside fakemac realmac packet data len) :=
  inferInstanceAs (Decidable (_ ≤ _ ∧ (DhcpPorts packet data → _ ≤ _ ∧
    (_ = _ ∨ _ = _ → _ ≠ _ ∨ _ ≠ _ → _ < _))))

instance Bytewise.decidableMungeInside (fakemac realmac : Mac) (packet : Buf) (len : Nat) :
    Decidable (MungeInside fakemac realmac packet len) :=
  inferInstanceAs (Decidable (_ ≠ _ → (_ = _ → _ = _ → _ = _ → _ ≤ _) ∧
    (_ = _ → _ ≤ _ ∧ (_ = _ → UdpInside fakemac realmac packet _ len))))

/-- The address the Amiga has. -/
def someFakemac : Mac := #v[0x00, 0x80, 0x10, 0x01, 0x02, 0x03]

/-- The address of the network interface. -/
def someRealmac : Mac := #v[0x00, 0x80, 0x10, 0x0A, 0x0B, 0x0C]

/-- A DHCP reply for the real address, with a UDP checksum. The datagram takes
42 bytes, and the frame ends with it. -/
def dhcpReply : Buf := fun i => List.getD
  (List.replicate 12 0 ++ [0x08, 0x00, 0x45] ++ List.replicate 8 0 ++ [17] ++ List.replicate 10 0 ++
    [0, 67, 0, 68, 0, 42, 0x12, 0x34] ++ List.replicate 28 0 ++ someRealmac.toList) i 0

/-- Padded to 80 bytes, the same reply is translated in place. -/
theorem mungepacket_inside_padded : MungeInside someFakemac someRealmac dhcpReply 80 ∧
    ∀ i ∈ touched (Bytewise.mungepacket someFakemac someRealmac 80) dhcpReply, i < 80 := by
  have hinside : MungeInside someFakemac someRealmac dhcpReply 80 := by decide +kernel
  exact ⟨hinside,
    (mungepacket_inside_iff someFakemac someRealmac dhcpReply 80 (by decide)).2.mpr hinside⟩

/-- The pad byte of the checksum goes behind the last byte of the frame. -/
theorem mungepacket_outside : ¬ ∀ (fakemac realmac : Mac) (packet : Buf) (len : Nat), 20 ≤ len →
    ∀ i ∈ touched (Bytewise.mungepacket fakemac realmac len) packet, i < len := by
  intro h
  have hpad : 76 ∈ touched (Bytewise.mungepacket someFakemac someRealmac 76) dhcpReply := by
    decide +kernel
  exact absurd (h someFakemac someRealmac dhcpReply 76 (by decide) 76 hpad) (by decide)

end A2065
