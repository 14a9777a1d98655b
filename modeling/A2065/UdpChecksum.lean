import A2065.MungeEffect
import A2065.Lib.OnesComplement

/-!
# The UDP checksum after translation

`mungepacket` recomputes the checksum of a DHCP datagram whose CHADDR it has
rewritten. The sum itself is right: the 32-bit accumulator has room for the
longest datagram, and the stored word makes the total fold to all ones. What
RFC 768 asks for beyond that, that 0 is sent as 0xFFFF, fails: the source
tests the complement of the sum for zero before it cuts it to 16 bits, when
its upper half is all ones.
-/

namespace A2065

open OnesComplement

/-! ## The checksum of RFC 768 -/

/-- Source, destination, protocol and length, as the sum takes them in. -/
def pseudoHeader (packet : Buf) (ipv4 len : Nat) : List U8 :=
  (List.range 8).map (fun i => packet (ipv4 + 12 + i)) ++
    [0, 17, BitVec.ofNat 8 (len / 256), BitVec.ofNat 8 len]

/-- The `len` bytes of the datagram at `data`. -/
def datagram (packet : Buf) (data len : Nat) : List U8 :=
  (List.range len).map fun i => packet (data + i)

/-- The sum over pseudo-header and datagram, no carry lost. -/
def udpTotal (packet : Buf) (data len : Nat) : Nat :=
  wordSum (pseudoHeader packet 14 len ++ datagram packet data len)

/-- The packet with a zero in the checksum field. -/
def clearChecksum (packet : Buf) (data : Nat) : Buf :=
  Function.update (Function.update packet (data + 6) 0) (data + 7) 0

/-- The accumulator as it enters the folding loop. -/
def udpAccumulator (packet : Buf) (ipv4 data len2 : Nat) : U32 :=
  udpSum packet data ((len2 + 1) / 2)
    + BitVec.ofNat 32 (be16 packet (ipv4 + 12)) + BitVec.ofNat 32 (be16 packet (ipv4 + 14))
    + BitVec.ofNat 32 (be16 packet (ipv4 + 16)) + BitVec.ofNat 32 (be16 packet (ipv4 + 18))
    + 17 + BitVec.ofNat 32 len2

/-- The datagram carries its RFC 768 checksum, and the accumulator, started on
the cleared field, held every partial sum and the total. -/
structure ChecksumRight (packet : Buf) (data len : Nat) : Prop where
  nonzero : be16 packet (data + 6) ≠ 0
  folds : fold 65536 (udpTotal packet data len) = 0xFFFF
  partialSums : ∀ n ≤ (len + 1) / 2, (udpSum (clearChecksum packet data) data n).toNat =
    wordSum (datagram (clearChecksum packet data) data (2 * n))
  accumulator : (udpAccumulator (clearChecksum packet data) 14 data len).toNat =
    udpTotal (clearChecksum packet data) data len

/-- The datagram with CHADDR translated and the checksum field cleared. -/
def rewritten (fakemac realmac : Mac) (packet : Buf) (data : Nat) : Buf :=
  clearChecksum (dofakemac fakemac realmac packet (data + 8 + 28)).2 data

/-- A frame whose UDP checksum `mungepacket` recomputes, with a whole IPv4 header
and a datagram of `udplen` bytes from `data` on that holds CHADDR and is all in
the frame. -/
structure DhcpFrame (fakemac realmac : Mac) (packet : Buf) (data udplen len : Nat) : Prop where
  resummed : Resummed fakemac realmac packet
  header : udpStart packet = data
  ihl : 5 ≤ (packet 14 &&& 0x0f).toNat
  udplen_eq : udpLength packet = udplen
  udplen_ge : 42 ≤ udplen
  inside : data + udplen ≤ len

/-! ## The accumulator -/

theorem be16_lt (packet : Buf) (i : Nat) : be16 packet i < 65536 := by
  have hhi := (packet i).isLt
  have hlo := (packet (i + 1)).isLt
  unfold be16
  omega

theorem length_datagram (packet : Buf) (data len : Nat) :
    (datagram packet data len).length = len := by
  simp [datagram]

theorem datagram_add (packet : Buf) (data a b : Nat) :
    datagram packet data (a + b) = datagram packet data a ++ datagram packet (data + a) b := by
  simp only [datagram, List.range_add, List.map_append, List.map_map, Function.comp_def,
    Nat.add_assoc]

theorem datagram_congr {p q : Buf} {data len : Nat}
    (h : ∀ k, data ≤ k → k < data + len → p k = q k) :
    datagram p data len = datagram q data len := by
  apply List.map_congr_left
  intro i hi
  rw [List.mem_range] at hi
  exact h _ (by omega) (by omega)

/-- One word of the datagram. -/
theorem wordSum_two (packet : Buf) (i : Nat) : wordSum (datagram packet i 2) = be16 packet i := by
  simp [datagram, List.range_succ, wordSum, be16]

theorem wordSum_datagram_add (packet : Buf) (data a b : Nat) (ha : 2 ∣ a) :
    wordSum (datagram packet data (a + b)) =
      wordSum (datagram packet data a) + wordSum (datagram packet (data + a) b) := by
  rw [datagram_add, wordSum_append (by rwa [length_datagram])]

/-- As long as the datagram is one, the 32 bits are enough. -/
theorem toNat_udpSum (packet : Buf) (data : Nat) {n : Nat} (hn : n ≤ 32768) :
    (udpSum packet data n).toNat = wordSum (datagram packet data (2 * n)) := by
  induction n with
  | zero => rfl
  | succ n ih =>
      have hle := wordSum_le (datagram packet data (2 * n))
      have hword := be16_lt packet (data + 2 * n)
      rw [length_datagram] at hle
      rw [udpSum, BitVec.toNat_add, ih (by omega), BitVec.toNat_ofNat,
        Nat.mod_eq_of_lt (Nat.lt_trans hword (by decide)), Nat.mod_eq_of_lt (by omega),
        show 2 * (n + 1) = 2 * n + 2 by omega, wordSum_datagram_add _ _ _ _ (Dvd.intro _ rfl),
        wordSum_two]

theorem wordSum_pseudoHeader (packet : Buf) (ipv4 : Nat) {len : Nat} (hlen : len < 65536) :
    wordSum (pseudoHeader packet ipv4 len) = be16 packet (ipv4 + 12) + be16 packet (ipv4 + 14) +
      be16 packet (ipv4 + 16) + be16 packet (ipv4 + 18) + 17 + len := by
  simp only [pseudoHeader, List.range_succ, List.range_zero, List.nil_append, List.cons_append,
    List.map_cons, List.map_nil, wordSum, be16, BitVec.toNat_ofNat, Nat.add_assoc, Nat.reduceAdd,
    Nat.reducePow]
  have hzero : (0 : U8).toNat = 0 := rfl
  have hproto : (17 : U8).toNat = 17 := rfl
  rw [hzero, hproto]
  omega

theorem udpTotal_eq (packet : Buf) (data : Nat) {len : Nat} (hlen : len < 65536) :
    udpTotal packet data len = be16 packet 26 + be16 packet 28 + be16 packet 30 + be16 packet 32 +
      17 + len + wordSum (datagram packet data len) := by
  rw [udpTotal, wordSum_append (by simp [pseudoHeader]), wordSum_pseudoHeader _ _ hlen]

/-- The accumulator holds the total: the pad byte makes up for an odd length. -/
theorem toNat_udpAccumulator (packet : Buf) (data : Nat) {len : Nat} (hlen : len < 65536)
    (hpad : packet (data + len) = 0) :
    (udpAccumulator packet 14 data len).toNat = udpTotal packet data len := by
  have hpadded : wordSum (datagram packet data (2 * ((len + 1) / 2))) =
      wordSum (datagram packet data len) := by
    rcases Nat.mod_two_eq_zero_or_one len with heven | hodd
    · rw [show 2 * ((len + 1) / 2) = len by omega]
    · have hlast : datagram packet (data + len) 1 = [0] := by
        simp [datagram, hpad]
      rw [show 2 * ((len + 1) / 2) = len + 1 by omega, datagram_add, hlast, wordSum_append_zero]
  have hle := wordSum_le (datagram packet data len)
  rw [length_datagram] at hle
  have h12 := be16_lt packet 26
  have h14 := be16_lt packet 28
  have h16 := be16_lt packet 30
  have h18 := be16_lt packet 32
  rw [udpTotal_eq packet data hlen]
  simp only [udpAccumulator, BitVec.toNat_add, toNat_udpSum packet data
    (show (len + 1) / 2 ≤ 32768 by omega), hpadded, BitVec.toNat_ofNat, Nat.reduceAdd]
  have hproto : (17 : U32).toNat = 17 := rfl
  rw [hproto]
  omega

/-! ## The stored word -/

theorem toNat_foldSum (sum : U32) : (foldSum sum).toNat = fold 65536 sum.toNat := by
  fun_induction foldSum sum with
  | case1 sum h =>
      have hlt : sum.toNat / 65536 = 0 := by
        have hshift := congrArg BitVec.toNat h
        simpa [BitVec.toNat_ushiftRight, Nat.shiftRight_eq_div_pow] using hshift
      rw [fold, if_neg (by omega)]
  | case2 sum h ih =>
      have hhi : (sum >>> 16).toNat = sum.toNat / 65536 := by
        simp [BitVec.toNat_ushiftRight, Nat.shiftRight_eq_div_pow]
      have hlo : (sum &&& 0xFFFF#32).toNat = sum.toNat % 65536 := by
        rw [BitVec.toNat_and]
        exact Nat.and_two_pow_sub_one_eq_mod _ 16
      have hlt := sum.isLt
      have hge : 65536 ≤ sum.toNat := by
        by_contra hsmall
        apply h
        apply BitVec.eq_of_toNat_eq
        rw [hhi, Nat.div_eq_of_lt (by omega)]
        rfl
      rw [ih, BitVec.toNat_add, hhi, hlo, Nat.mod_eq_of_lt (by omega)]
      nth_rewrite 2 [fold]
      rw [if_pos ⟨by decide, hge⟩]

/-- The two bytes the source stores for an accumulator. -/
def storedHi (acc : U32) : U8 := ((~~~ foldSum acc) >>> 8).setWidth 8

/-- The low byte of the checksum as it is stored. -/
def storedLo (acc : U32) : U8 := (~~~ foldSum acc).setWidth 8

/-- They are the complement of the folded sum. -/
theorem stored_eq (acc : U32) :
    (storedHi acc).toNat * 256 + (storedLo acc).toNat = 65535 - fold 65536 acc.toNat := by
  have hlt := fold_lt (show 1 < 65536 by decide) acc.toNat
  rw [← toNat_foldSum] at hlt ⊢
  simp only [storedHi, storedLo, BitVec.toNat_setWidth, BitVec.toNat_ushiftRight,
    BitVec.toNat_not, Nat.shiftRight_eq_div_pow]
  omega

/-- The test for zero never succeeds: the upper half of the complement is all
ones. -/
theorem udpChecksum_eq (packet : Buf) (ipv4 data len2 : Nat) :
    udpChecksum packet ipv4 data len2 =
      let cleared := Function.update (clearChecksum packet data) (data + len2) 0
      let acc := udpAccumulator cleared ipv4 data len2
      Function.update (Function.update cleared (data + 6) (storedHi acc)) (data + 7)
        (storedLo acc) := by
  have hne : ∀ acc : U32, ¬ ~~~ foldSum acc = 0 := by
    intro acc h
    have hlt := fold_lt (show 1 < 65536 by decide) acc.toNat
    have hnot := congrArg BitVec.toNat h
    rw [← toNat_foldSum] at hlt
    have hzero : (0 : U32).toNat = 0 := rfl
    rw [BitVec.toNat_not, hzero] at hnot
    omega
  simp only [udpChecksum]
  rw [if_neg (hne _)]
  rfl

/-! ## The rewritten datagram -/

section Stored

variable {p q : Buf} {data len : Nat}

theorem udpTotal_congr (hdata : 34 ≤ data) (hlen : len < 65536)
    (h : ∀ k, 26 ≤ k → k < data + len → p k = q k) :
    udpTotal p data len = udpTotal q data len := by
  have hword : ∀ i, 26 ≤ i → i ≤ 32 → be16 p i = be16 q i := by
    intro i hi hi'
    rw [be16, be16, h i hi (by omega), h (i + 1) (by omega) (by omega)]
  rw [udpTotal_eq _ _ hlen, udpTotal_eq _ _ hlen, hword 26 (by omega) (by omega),
    hword 28 (by omega) (by omega), hword 30 (by omega) (by omega), hword 32 (by omega) (by omega),
    datagram_congr fun k hk hk' => h k (by omega) hk']

/-- The checksum field adds its value to the total. -/
theorem udpTotal_clearChecksum (packet : Buf) (hdata : 34 ≤ data) (hlen : len < 65536)
    (hfield : 8 ≤ len) : udpTotal packet data len =
      udpTotal (clearChecksum packet data) data len + be16 packet (data + 6) := by
  have hkept : ∀ k, k ≠ data + 6 → k ≠ data + 7 → clearChecksum packet data k = packet k := by
    intro k h6 h7
    rw [clearChecksum, Function.update_of_ne h7, Function.update_of_ne h6]
  have hword : ∀ i, i ≤ 32 → be16 (clearChecksum packet data) i = be16 packet i := by
    intro i hi
    rw [be16, be16, hkept i (by omega) (by omega), hkept (i + 1) (by omega) (by omega)]
  have hzero : be16 (clearChecksum packet data) (data + 6) = 0 := by
    simp [be16, clearChecksum]
  -- the three parts of the datagram: before, the field, behind
  have hsplit : ∀ p : Buf, wordSum (datagram p data len) = wordSum (datagram p data 6) +
      (be16 p (data + 6) + wordSum (datagram p (data + 8) (len - 8))) := by
    intro p
    rw [show len = 6 + (2 + (len - 8)) by omega, wordSum_datagram_add _ _ _ _ (by decide),
      wordSum_datagram_add _ _ _ _ (by decide), wordSum_two]
    simp only [Nat.add_assoc, Nat.reduceAdd, show 6 + (2 + (len - 8)) - 8 = len - 8 by omega]
  have hbefore : datagram (clearChecksum packet data) data 6 = datagram packet data 6 :=
    datagram_congr fun k _ hk => hkept k (by omega) (by omega)
  have hbehind : datagram (clearChecksum packet data) (data + 8) (len - 8) =
      datagram packet (data + 8) (len - 8) :=
    datagram_congr fun k hk _ => hkept k (by omega) (by omega)
  rw [udpTotal_eq _ _ hlen, udpTotal_eq _ _ hlen, hsplit packet, hsplit (clearChecksum packet data),
    hword 26 (by omega), hword 28 (by omega), hword 30 (by omega), hword 32 (by omega), hzero,
    hbefore, hbehind]
  omega

/-- What `udpChecksum` stores is right but for the zero. -/
theorem udpChecksum_right_iff (packet : Buf) (hdata : 34 ≤ data) (hlen : len < 65536)
    (hfield : 8 ≤ len) : ChecksumRight (udpChecksum packet 14 data len) data len ↔
      ¬ 65535 ∣ udpTotal (clearChecksum packet data) data len := by
  have hbase : (1 : Nat) < 65536 := by decide
  set z := Function.update (clearChecksum packet data) (data + len) 0 with hz
  set q := udpChecksum packet 14 data len with hq
  have hstored : q = Function.update (Function.update z (data + 6)
      (storedHi (udpAccumulator z 14 data len))) (data + 7)
      (storedLo (udpAccumulator z 14 data len)) := udpChecksum_eq packet 14 data len
  -- with the field cleared again, `q` is what the loop has summed
  have hclear : clearChecksum q data = z := by
    funext k
    by_cases h7 : k = data + 7
    · rw [h7, hz, Function.update_of_ne (by omega)]
      simp [clearChecksum]
    by_cases h6 : k = data + 6
    · rw [h6, hz, Function.update_of_ne (by omega)]
      simp [clearChecksum]
    · rw [clearChecksum, Function.update_of_ne h7, Function.update_of_ne h6, hstored,
        Function.update_of_ne h7, Function.update_of_ne h6]
  have hpad : z (data + len) = 0 := by simp [hz]
  have hacc := toNat_udpAccumulator z data hlen hpad
  have htotal : udpTotal z data len = udpTotal (clearChecksum packet data) data len :=
    udpTotal_congr hdata hlen fun k _ hk => by rw [hz, Function.update_of_ne (by omega)]
  have hword : be16 q (data + 6) = 65535 - fold 65536 (udpTotal z data len) := by
    rw [← hacc, ← stored_eq, be16, hstored]
    simp
  have hsum : udpTotal q data len = udpTotal z data len + be16 q (data + 6) := by
    rw [udpTotal_clearChecksum q hdata hlen hfield, hclear]
  have hpos : 0 < udpTotal z data len := by
    rw [udpTotal_eq _ _ hlen]
    omega
  have htop : fold 65536 (udpTotal z data len) = 65535 ↔ 65535 ∣ udpTotal z data len :=
    fold_eq_top_iff hbase hpos
  have hlt := fold_lt hbase (udpTotal z data len)
  rw [← htotal, ← htop]
  constructor
  · intro h
    have hnonzero := h.nonzero
    omega
  · intro h
    refine ⟨by omega, ?_, ?_, ?_⟩
    · rw [hsum, hword]
      exact fold_add_complement hbase hpos
    · intro n hn
      exact toNat_udpSum _ _ (by omega)
    · rw [hclear]
      exact hacc

end Stored

section Munge

variable {fakemac realmac : Mac} {packet : Buf} {data udplen len : Nat}

theorem DhcpFrame.le_data (h : DhcpFrame fakemac realmac packet data udplen len) : 34 ≤ data := by
  have hihl := h.ihl
  rw [← h.header, udpStart]
  omega

theorem DhcpFrame.udplen_lt (h : DhcpFrame fakemac realmac packet data udplen len) :
    udplen < 65536 := by
  rw [← h.udplen_eq]
  exact be16_lt ..

theorem dofakemac_congr (fakemac realmac : Mac) {p q : Buf} {i : Nat} (hi : 12 ≤ i)
    (h : ∀ k, 12 ≤ k → p k = q k) :
    ∀ k, 12 ≤ k → (dofakemac fakemac realmac p i).2 k = (dofakemac fakemac realmac q i).2 k := by
  have hmac : macAt p i = macAt q i := macAt_congr fun k hk _ => h k (by omega)
  have hput : ∀ (mac : Mac) (k : Nat), 12 ≤ k → putMac p i mac k = putMac q i mac k := by
    intro mac k hk
    unfold putMac
    split
    · rfl
    · exact h k hk
  unfold dofakemac
  rw [hmac]
  split_ifs
  · exact h
  · exact hput _
  · exact hput _
  · exact h

/-- A DHCP frame ends with the store of the new checksum. -/
theorem DhcpFrame.munge (h : DhcpFrame fakemac realmac packet data udplen len) :
    ∃ p : Buf, (mungepacket fakemac realmac packet len).2 = udpChecksum p 14 data udplen ∧
      ∀ k, 12 ≤ k → p k = (dofakemac fakemac realmac packet (data + 8 + 28)).2 k := by
  have hdata := h.le_data
  have hge := h.udplen_ge
  have hin := h.inside
  refine ⟨translate fakemac realmac packet [0, 6, data + 36], ?_, ?_⟩
  · rw [mungepacket_eq (by omega), if_pos h.resummed, addressFields_of_dhcp h.resummed.1,
      h.header, h.udplen_eq]
  · exact dofakemac_congr fakemac realmac (by omega) fun k hk => translate_header hk

/-- The header addresses are no part of the sum. -/
theorem udpTotal_cleared {p : Buf} (hdata : 34 ≤ data) (hlen : udplen < 65536)
    (hp : ∀ k, 12 ≤ k → p k = (dofakemac fakemac realmac packet (data + 8 + 28)).2 k) :
    udpTotal (clearChecksum p data) data udplen =
      udpTotal (rewritten fakemac realmac packet data) data udplen := by
  refine udpTotal_congr hdata hlen fun k hk _ => ?_
  have hpk := hp k (by omega)
  unfold rewritten clearChecksum
  simp only [Function.update_apply, hpk]

end Munge

/-- A DHCP frame whose CHADDR is translated and whose checksum is recomputed
carries the right one exactly when the words of pseudo-header and rewritten
datagram do not add up to a multiple of 65535; then the checksum is 0. -/
theorem udp_checksum_right_iff (fakemac realmac : Mac) (packet : Buf) (data udplen len : Nat)
    (h : DhcpFrame fakemac realmac packet data udplen len) :
    ChecksumRight (mungepacket fakemac realmac packet len).2 data udplen ↔
      ¬ 65535 ∣ udpTotal (rewritten fakemac realmac packet data) data udplen := by
  obtain ⟨p, hmunge, hp⟩ := h.munge
  have hge := h.udplen_ge
  rw [hmunge, udpChecksum_right_iff p h.le_data h.udplen_lt (by omega),
    udpTotal_cleared h.le_data h.udplen_lt hp]

/-- A DHCP reply of 80 bytes with `hi` and `lo` as the first two bytes of its
transaction number. -/
def replyWith (hi lo : U8) : Buf := Function.update (Function.update dhcpReply 46 hi) 47 lo

theorem replyWith_of_ne (hi lo : U8) {k : Nat} (h46 : k ≠ 46) (h47 : k ≠ 47) :
    replyWith hi lo k = dhcpReply k := by
  rw [replyWith, Function.update_of_ne h47, Function.update_of_ne h46]

theorem dhcpFrame_replyWith (hi lo : U8) :
    DhcpFrame someFakemac someRealmac (replyWith hi lo) 34 42 80 := by
  have hkept : ∀ k, k < 46 ∨ 47 < k → replyWith hi lo k = dhcpReply k := fun k hk =>
    replyWith_of_ne hi lo (by omega) (by omega)
  have hword : ∀ i, i < 45 → be16 (replyWith hi lo) i = be16 dhcpReply i := by
    intro i hi'
    rw [be16, be16, hkept i (by omega), hkept (i + 1) (by omega)]
  have hchaddr : macAt (replyWith hi lo) 70 = macAt dhcpReply 70 :=
    macAt_congr fun k hk _ => hkept k (by omega)
  have hstart : udpStart (replyWith hi lo) = 34 := by
    rw [udpStart, hkept 14 (by decide)]
    decide +kernel
  have hports : Bytewise.DhcpPorts (replyWith hi lo) 34 := by
    refine .inl ?_
    rw [hword 34 (by decide)]
    decide +kernel
  refine ⟨⟨⟨?_, ?_, hstart ▸ hports⟩, by decide, .inr ?_, .inl ?_⟩, hstart, ?_, ?_, by decide,
    by decide⟩
  · rw [hword 12 (by decide)]
    decide +kernel
  · rw [hkept 23 (by decide)]
    decide +kernel
  · rw [hstart, hchaddr]
    decide +kernel
  · rw [hstart, hkept 40 (by decide)]
    decide +kernel
  · rw [hkept 14 (by decide)]
    decide +kernel
  · rw [udpLength, hstart, hword 38 (by decide)]
    decide +kernel

theorem udp_checksum_right_zero_xid :
    ChecksumRight (mungepacket someFakemac someRealmac (replyWith 0 0) 80).2 34 42 :=
  (udp_checksum_right_iff someFakemac someRealmac (replyWith 0 0) 34 42 80
    (dhcpFrame_replyWith 0 0)).mpr (by decide +kernel)

/-- With 0xEC8F there, the words add up to 65535 and the checksum stored is
0, which says that there is none. -/
theorem udp_checksum_zero : ¬ ∀ (fakemac realmac : Mac) (packet : Buf) (data udplen len : Nat),
    DhcpFrame fakemac realmac packet data udplen len →
    ChecksumRight (mungepacket fakemac realmac packet len).2 data udplen := by
  intro hall
  obtain ⟨p, hmunge, hp⟩ := (dhcpFrame_replyWith 0xEC 0x8F).munge
  have hright := hall _ _ _ _ _ _ (dhcpFrame_replyWith 0xEC 0x8F)
  rw [hmunge, udpChecksum_right_iff p (by decide) (by decide) (by decide)] at hright
  apply hright
  have htotal : udpTotal (clearChecksum p 34) 34 42 =
      udpTotal (rewritten someFakemac someRealmac (replyWith 0xEC 0x8F) 34) 34 42 :=
    udpTotal_cleared (by decide) (by decide) hp
  rw [htotal]
  decide +kernel

end A2065
