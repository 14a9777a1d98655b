import A2065.MungeEffect
import A2065.UdpChecksum

/-!
# Bytes behind the frame

`mungepacket` goes by what a frame says of itself: header length, UDP length
and ports decide where it looks, and the number of bytes in the frame does not
(`MacBytes`). What it makes of the frame then depends on the buffer behind it.
Two buffers with the same `n` bytes of frame are compared here. As long as the
headers the frame announces are in it, the translated frames differ exactly if
a checksum is computed over a datagram that goes on behind the frame.
-/

namespace A2065

open OnesComplement

/-- The UDP header of the frame of `n` bytes is in it, and so is CHADDR if it
is one of DHCP. -/
def HeadersInside (packet : Buf) (n : Nat) : Prop :=
  be16 packet 12 = 0x0800 → packet 23 = 17 → udpStart packet + 6 ≤ n ∧
    (Bytewise.DhcpPorts packet (udpStart packet) → udpStart packet + 42 ≤ n)

instance decidableHeadersInside (packet : Buf) (n : Nat) : Decidable (HeadersInside packet n) :=
  inferInstanceAs (Decidable (_ = _ → _ = _ → _ ≤ _ ∧ (_ → _ ≤ _)))

theorem HeadersInside.chaddr {packet : Buf} {n : Nat} (hin : HeadersInside packet n)
    (h : DhcpUdp packet) : udpStart packet + 42 ≤ n := (hin h.1 h.2.1).2 h.2.2

/-! ## The same frame in two buffers -/

section Agree

variable {p q : Buf} {n : Nat} (h : ∀ i < n, p i = q i)

include h

theorem be16_agree {i : Nat} (hi : i + 1 < n) : be16 p i = be16 q i := by
  rw [be16, be16, h i (by omega), h (i + 1) hi]

theorem macAt_agree {i : Nat} (hi : i + 6 ≤ n) : macAt p i = macAt q i :=
  macAt_congr fun k _ hk => h k (by omega)

theorem udpStart_agree (hn : 14 < n) : udpStart p = udpStart q := by
  rw [udpStart, udpStart, h 14 hn]

theorem dhcpUdp_agree (hn : 24 ≤ n) (hin : HeadersInside q n) : DhcpUdp p ↔ DhcpUdp q := by
  unfold DhcpUdp
  rw [be16_agree h (by omega), h 23 (by omega), udpStart_agree h (by omega)]
  apply and_congr_right
  intro htype
  apply and_congr_right
  intro hproto
  have hheader := (hin htype hproto).1
  rw [Bytewise.DhcpPorts, Bytewise.DhcpPorts, be16_agree h (by omega), be16_agree h (by omega)]

theorem HeadersInside.agree (hin : HeadersInside q n) (hn : 24 ≤ n) : HeadersInside p n := by
  intro htype hproto
  rw [be16_agree h (by omega)] at htype
  rw [h 23 (by omega)] at hproto
  rw [udpStart_agree h (by omega)]
  obtain ⟨hheader, hchaddr⟩ := hin htype hproto
  refine ⟨hheader, ?_⟩
  rw [Bytewise.DhcpPorts, be16_agree h (by omega), be16_agree h (by omega)]
  exact hchaddr

theorem addressFields_agree (hn : 24 ≤ n) (hin : HeadersInside q n) :
    addressFields p = addressFields q := by
  have harp : ArpEthernet p ↔ ArpEthernet q := by
    rw [ArpEthernet, ArpEthernet, be16_agree h (by omega), be16_agree h (by omega),
      h 18 (by omega)]
  simp only [addressFields, harp, dhcpUdp_agree h hn hin, udpStart_agree h (by omega)]

theorem resummed_agree (fakemac realmac : Mac) (hn : 24 ≤ n) (hin : HeadersInside q n) :
    Resummed fakemac realmac p ↔ Resummed fakemac realmac q := by
  unfold Resummed
  rw [dhcpUdp_agree h hn hin, udpStart_agree h (by omega)]
  apply and_congr_right
  intro hdhcp
  have hchaddr := hin.chaddr hdhcp
  rw [macAt_agree h (by omega), h _ (by omega), h _ (by omega)]

theorem udpLength_agree (hn : 24 ≤ n) (hin : HeadersInside q n) (hdhcp : DhcpUdp q) :
    udpLength p = udpLength q := by
  have hchaddr := hin.chaddr hdhcp
  rw [udpLength, udpLength, udpStart_agree h (by omega), be16_agree h (by omega)]

theorem dofakemac_agree (fakemac realmac : Mac) {i : Nat} (hi : i + 6 ≤ n) :
    ∀ k < n, (dofakemac fakemac realmac p i).2 k = (dofakemac fakemac realmac q i).2 k := by
  by_cases heq : fakemac = realmac
  · rw [dofakemac, dofakemac, if_pos heq, if_pos heq]
    exact h
  · have hinside : MemProg.Within (· < n) (Bytewise.dofakemac fakemac realmac i) p :=
      (Bytewise.within_dofakemac heq i).mpr hi
    have hrun := (hinside.run_congr h).2
    rw [Bytewise.run_dofakemac, Bytewise.run_dofakemac] at hrun
    exact hrun

theorem translate_agree (fakemac realmac : Mac) {fields : List Nat}
    (hfields : ∀ i ∈ fields, i + 6 ≤ n) :
    ∀ k < n, translate fakemac realmac p fields k = translate fakemac realmac q fields k := by
  induction fields generalizing p q with
  | nil => exact h
  | cons i is ih =>
      have hi := hfields i List.mem_cons_self
      exact ih (dofakemac_agree h fakemac realmac hi) fun j hj =>
        hfields j (List.mem_cons_of_mem i hj)

end Agree

theorem addressFields_inside {packet : Buf} {n : Nat} (hn : 38 ≤ n)
    (hin : HeadersInside packet n) : ∀ i ∈ addressFields packet, i + 6 ≤ n := by
  intro i hi
  rcases mem_addressFields hi with rfl | rfl | ⟨-, rfl | rfl⟩ | ⟨hdhcp, rfl⟩
  · omega
  · omega
  · omega
  · omega
  · have hchaddr := hin.chaddr hdhcp
    omega

/-! ## The checksum -/

/-- What the sum is taken over: the checksum field and the pad byte are zero. -/
def summedOver (packet : Buf) (data len2 : Nat) : Buf :=
  Function.update (clearChecksum packet data) (data + len2) 0

section Checksum

variable {p q : Buf} {data len2 : Nat}

theorem summedOver_pad (p : Buf) (data len2 : Nat) : summedOver p data len2 (data + len2) = 0 :=
  Function.update_self ..

/-- The field holds the complement of the folded total. -/
theorem udpChecksum_field (p : Buf) (data : Nat) {len2 : Nat} (hlen : len2 < 65536) :
    be16 (udpChecksum p 14 data len2) (data + 6) =
      65535 - fold 65536 (udpTotal (summedOver p data len2) data len2) := by
  rw [← toNat_udpAccumulator _ _ hlen (summedOver_pad p data len2), ← stored_eq, udpChecksum_eq,
    be16, Function.update_of_ne (by omega), Function.update_self, Function.update_self]
  rfl

theorem summedOver_agree {n : Nat} (h : ∀ i < n, p i = q i) :
    ∀ k < n, summedOver p data len2 k = summedOver q data len2 k := by
  intro k hk
  unfold summedOver clearChecksum
  simp only [Function.update_apply, h k hk]

theorem udpTotal_agree {n : Nat} (h : ∀ i < n, p i = q i) (hn : 34 ≤ n) (hlen : len2 < 65536)
    (hin : data + len2 ≤ n) : udpTotal p data len2 = udpTotal q data len2 := by
  rw [udpTotal_eq _ _ hlen, udpTotal_eq _ _ hlen, be16_agree h (by omega),
    be16_agree h (by omega), be16_agree h (by omega), be16_agree h (by omega),
    datagram_congr fun k _ hk => h k (by omega)]

/-- A datagram in the frame has a checksum of the frame. -/
theorem udpChecksum_agree {n : Nat} (h : ∀ i < n, p i = q i) (hn : 34 ≤ n) (hlen : len2 < 65536)
    (hin : data + len2 ≤ n) :
    ∀ k < n, udpChecksum p 14 data len2 k = udpChecksum q 14 data len2 k := by
  intro k hk
  have hsummed : ∀ i < n, summedOver p data len2 i = summedOver q data len2 i :=
    summedOver_agree h
  have hacc : udpAccumulator (summedOver p data len2) 14 data len2 =
      udpAccumulator (summedOver q data len2) 14 data len2 := by
    apply BitVec.eq_of_toNat_eq
    rw [toNat_udpAccumulator _ _ hlen (summedOver_pad ..),
      toNat_udpAccumulator _ _ hlen (summedOver_pad ..), udpTotal_agree hsummed hn hlen hin]
  rw [udpChecksum_eq, udpChecksum_eq]
  dsimp only
  rw [← summedOver, ← summedOver, hacc]
  simp only [Function.update_apply, hsummed k hk]

theorem summedOver_update {i : Nat} (a : U8) (hdata : data + 8 ≤ i) (hi : i < data + len2) :
    summedOver (Function.update p i a) data len2 =
      Function.update (summedOver p data len2) i a := by
  funext k
  unfold summedOver clearChecksum
  simp only [Function.update_apply]
  split_ifs <;> first | rfl | omega

theorem datagram_update (p : Buf) {i : Nat} (a : U8) (hdata : data ≤ i) :
    datagram (Function.update p i a) data len2 = (datagram p data len2).set (i - data) a := by
  apply List.ext_getElem
  · simp [datagram]
  · intro k _ _
    simp only [datagram, List.getElem_map, List.getElem_range, List.getElem_set,
      Function.update_apply]
    split_ifs <;> first | rfl | omega

/-- Equal checksums mean equal totals, up to the carry. -/
theorem udpTotal_modEq (hlen : len2 < 65536)
    (h : be16 (udpChecksum p 14 data len2) (data + 6) =
      be16 (udpChecksum q 14 data len2) (data + 6)) :
    udpTotal (summedOver p data len2) data len2 ≡
      udpTotal (summedOver q data len2) data len2 [MOD 65535] := by
  rw [udpChecksum_field _ _ hlen, udpChecksum_field _ _ hlen] at h
  have hlt : ∀ n, fold 65536 n < 65536 := fold_lt (show 1 < 65536 by decide)
  have hkeep : ∀ n, fold 65536 n ≡ n [MOD 65535] := fold_modEq (show 1 < 65536 by decide)
  have hfold : fold 65536 (udpTotal (summedOver p data len2) data len2) =
      fold 65536 (udpTotal (summedOver q data len2) data len2) := by
    have hp := hlt (udpTotal (summedOver p data len2) data len2)
    have hq := hlt (udpTotal (summedOver q data len2) data len2)
    omega
  have hchanged := hkeep (udpTotal (summedOver p data len2) data len2)
  rw [hfold] at hchanged
  exact hchanged.symm.trans (hkeep _)

/-- Two buffers that differ in one byte of the datagram, outside the checksum
field, get different checksums. -/
theorem udpChecksum_differs {i : Nat} {a : U8} (hlen : len2 < 65536) (hdata : data + 8 ≤ i)
    (hi : i < data + len2) (hhead : 34 ≤ i) (ha : a ≠ p i) :
    be16 (udpChecksum (Function.update p i a) 14 data len2) (data + 6) ≠
      be16 (udpChecksum p 14 data len2) (data + 6) := by
  intro hfield
  have hmod := udpTotal_modEq hlen hfield
  have hsame : ∀ k < i, Function.update (summedOver p data len2) i a k = summedOver p data len2 k :=
    fun k hk => Function.update_of_ne (Nat.ne_of_lt hk) ..
  -- the pseudo header is the same, so the two datagrams have the same sum
  rw [summedOver_update a hdata hi, udpTotal_eq _ _ hlen, udpTotal_eq _ _ hlen,
    be16_agree hsame (by omega), be16_agree hsame (by omega), be16_agree hsame (by omega),
    be16_agree hsame (by omega), datagram_update _ a (by omega)] at hmod
  have hin : i - data < (datagram (summedOver p data len2) data len2).length := by
    rw [length_datagram]
    omega
  have heq := eq_of_wordSum_set hin (Nat.ModEq.add_left_cancel' _ hmod)
  apply ha
  rw [heq]
  simp only [datagram, List.getElem_map, List.getElem_range]
  rw [Nat.add_sub_cancel' (by omega), summedOver, clearChecksum, Function.update_of_ne (by omega),
    Function.update_of_ne (by omega), Function.update_of_ne (by omega)]

end Checksum

/-! ## The translated frame -/

section Munge

variable {fakemac realmac : Mac} {p q : Buf} {n len : Nat}

/-- If the frame holds what it announces, nothing behind it matters. -/
theorem mungepacket_agree (h : ∀ i < n, p i = q i) (hn : 38 ≤ n) (hlen : 20 ≤ len)
    (hin : fakemac ≠ realmac → HeadersInside q n)
    (hfits : Resummed fakemac realmac q → udpStart q + udpLength q ≤ n) :
    ∀ k < n, (mungepacket fakemac realmac p len).2 k = (mungepacket fakemac realmac q len).2 k := by
  by_cases heq : fakemac = realmac
  · have hnot : ∀ packet, ¬ Resummed fakemac realmac packet := fun _ hsum => hsum.2.1 heq
    rw [mungepacket_eq hlen, mungepacket_eq hlen, if_neg (hnot p), if_neg (hnot q), heq,
      translate_same, translate_same]
    exact h
  have hinside := hin heq
  have htranslate : ∀ k < n, translate fakemac realmac p (addressFields q) k =
      translate fakemac realmac q (addressFields q) k :=
    translate_agree h fakemac realmac (addressFields_inside hn hinside)
  have hiff := resummed_agree h fakemac realmac (by omega) hinside
  rw [mungepacket_eq hlen, mungepacket_eq hlen, addressFields_agree h (by omega) hinside]
  by_cases hsum : Resummed fakemac realmac q
  · rw [if_pos hsum, if_pos (hiff.mpr hsum), udpStart_agree h (by omega),
      udpLength_agree h (by omega) hinside hsum.1]
    exact udpChecksum_agree htranslate (by omega) (be16_lt ..) (hfits hsum)
  · rw [if_neg hsum, if_neg (mt hiff.mp hsum)]
    exact htranslate

/-- If the datagram goes on, the first byte behind the frame is in the
checksum. -/
theorem mungepacket_differs (hn : 38 ≤ n) (hlen : 20 ≤ len) (hin : HeadersInside q n)
    (hsum : Resummed fakemac realmac q) (hlong : n < udpStart q + udpLength q) {a : U8}
    (ha : a ≠ q n) :
    be16 (mungepacket fakemac realmac (Function.update q n a) len).2 (udpStart q + 6) ≠
      be16 (mungepacket fakemac realmac q len).2 (udpStart q + 6) := by
  have h : ∀ i < n, Function.update q n a i = q i :=
    fun i hi => Function.update_of_ne (Nat.ne_of_lt hi) ..
  have hchaddr := hin.chaddr hsum.1
  have hfields := addressFields_inside hn hin
  -- no field reaches the byte that differs, nor any byte behind it
  have hbehind : ∀ (packet : Buf) k, n ≤ k →
      translate fakemac realmac packet (addressFields q) k = packet k := by
    intro packet k hk
    apply translate_outside
    intro i hi
    have := hfields i hi
    omega
  have htranslate : translate fakemac realmac (Function.update q n a) (addressFields q) =
      Function.update (translate fakemac realmac q (addressFields q)) n a := by
    funext k
    by_cases hk : k < n
    · rw [translate_agree h fakemac realmac hfields k hk, Function.update_of_ne (by omega)]
    · rw [hbehind _ k (by omega), Function.update_apply, Function.update_apply,
        hbehind q k (by omega)]
  rw [mungepacket_eq hlen, mungepacket_eq hlen, if_pos hsum,
    if_pos ((resummed_agree h fakemac realmac (by omega) hin).mpr hsum),
    addressFields_agree h (by omega) hin, udpStart_agree h (by omega),
    udpLength_agree h (by omega) hin hsum.1, htranslate]
  apply udpChecksum_differs (be16_lt ..) (by omega) hlong (by omega)
  rw [hbehind q n (Nat.le_refl n)]
  exact ha

end Munge

end A2065
