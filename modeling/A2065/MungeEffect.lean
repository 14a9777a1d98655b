import A2065.AddressFilter

/-!
# What `mungepacket` changes

A frame says itself which of its bytes are hardware addresses
(`addressFields`). `mungepacket` swaps each of them and, when it has swapped
CHADDR of a datagram with a checksum, stores a new one (`mungepacket_eq`).
Two things follow from that equation. Besides the addresses and the checksum
one more byte is written: the one behind the datagram is cleared, of even
length or not. And since none of the bytes written takes part in finding the
fields, a second pass swaps the same fields back.
-/

namespace A2065

/-! ## The fields of a frame -/

/-- An ARP packet for Ethernet addresses. -/
def ArpEthernet (packet : Buf) : Prop :=
  be16 packet 12 = 0x0806 ∧ be16 packet 14 = 1 ∧ packet 18 = 6

/-- Where the header length puts the UDP header. -/
def udpStart (packet : Buf) : Nat := 14 + (packet 14 &&& 0x0f).toNat * 4

/-- The length field of the UDP header. -/
def udpLength (packet : Buf) : Nat := be16 packet (udpStart packet + 4)

/-- A UDP datagram from or to a port of DHCP. -/
def DhcpUdp (packet : Buf) : Prop :=
  be16 packet 12 = 0x0800 ∧ packet 23 = 17 ∧ Bytewise.DhcpPorts packet (udpStart packet)

instance decidableArpEthernet (packet : Buf) : Decidable (ArpEthernet packet) :=
  inferInstanceAs (Decidable (_ ∧ _ ∧ _))

instance decidableDhcpUdp (packet : Buf) : Decidable (DhcpUdp packet) :=
  inferInstanceAs (Decidable (_ ∧ _ ∧ _))

/-- The indices of the hardware addresses: destination and source, those of
sender and target in ARP, CHADDR in DHCP. -/
def addressFields (packet : Buf) : List Nat :=
  [0, 6] ++ if ArpEthernet packet then [22, 32]
    else if DhcpUdp packet then [udpStart packet + 36] else []

/-- `dofakemac` on one field after the other. -/
def translate (fakemac realmac : Mac) (packet : Buf) (fields : List Nat) : Buf :=
  fields.foldl (fun p i => (dofakemac fakemac realmac p i).2) packet

/-- CHADDR is replaced and the datagram has a checksum. -/
def Resummed (fakemac realmac : Mac) (packet : Buf) : Prop :=
  DhcpUdp packet ∧ fakemac ≠ realmac ∧
    (macAt packet (udpStart packet + 36) = fakemac ∨
      macAt packet (udpStart packet + 36) = realmac) ∧
    (packet (udpStart packet + 6) ≠ 0 ∨ packet (udpStart packet + 7) ≠ 0)

instance decidableResummed (fakemac realmac : Mac) (packet : Buf) :
    Decidable (Resummed fakemac realmac packet) :=
  inferInstanceAs (Decidable (_ ∧ _ ∧ _ ∧ _))

section Fields

variable {fakemac realmac : Mac} {packet : Buf} {fields : List Nat} {i k : Nat}

theorem le_udpStart (packet : Buf) : 14 ≤ udpStart packet := Nat.le_add_right ..

theorem udpStart_le (packet : Buf) : udpStart packet ≤ 74 := by
  have hnibble : (packet 14 &&& 0x0f).toNat ≤ 15 := by
    rw [BitVec.toNat_and]
    exact Nat.and_le_right
  unfold udpStart
  omega

theorem not_arp_of_ipv4 (h : be16 packet 12 = 0x0800) : ¬ ArpEthernet packet := by
  intro harp
  have htype := harp.1.symm.trans h
  exact absurd htype (by decide)

theorem addressFields_of_dhcp (h : DhcpUdp packet) :
    addressFields packet = [0, 6, udpStart packet + 36] := by
  rw [addressFields, if_neg (not_arp_of_ipv4 h.1), if_pos h]
  rfl

theorem addressFields_of_arp (h : ArpEthernet packet) :
    addressFields packet = [0, 6, 22, 32] := by
  rw [addressFields, if_pos h]
  rfl

theorem addressFields_plain (harp : ¬ ArpEthernet packet) (hdhcp : ¬ DhcpUdp packet) :
    addressFields packet = [0, 6] := by
  rw [addressFields, if_neg harp, if_neg hdhcp]
  rfl

theorem mem_addressFields (h : i ∈ addressFields packet) :
    i = 0 ∨ i = 6 ∨ ArpEthernet packet ∧ (i = 22 ∨ i = 32) ∨
      DhcpUdp packet ∧ i = udpStart packet + 36 := by
  by_cases harp : ArpEthernet packet
  · have hdhcp : ¬ DhcpUdp packet := fun hudp => not_arp_of_ipv4 hudp.1 harp
    rw [addressFields_of_arp harp] at h
    simpa [harp, hdhcp] using h
  by_cases hdhcp : DhcpUdp packet
  · rw [addressFields_of_dhcp hdhcp] at h
    simpa [harp, hdhcp] using h
  · rw [addressFields_plain harp hdhcp] at h
    simpa [harp, hdhcp] using h

theorem not_resummed (h : ¬ DhcpUdp packet) : ¬ Resummed fakemac realmac packet :=
  fun hsum => h hsum.1

/-- The fields lie apart, in ascending order. -/
theorem addressFields_apart (packet : Buf) :
    (addressFields packet).Pairwise fun i j => i + 6 ≤ j := by
  by_cases harp : ArpEthernet packet
  · rw [addressFields_of_arp harp]
    decide
  by_cases hdhcp : DhcpUdp packet
  · rw [addressFields_of_dhcp hdhcp]
    simp
  · rw [addressFields_plain harp hdhcp]
    decide

theorem translate_outside (h : ∀ i ∈ fields, k < i ∨ i + 6 ≤ k) :
    translate fakemac realmac packet fields k = packet k := by
  induction fields generalizing packet with
  | nil => rfl
  | cons j js ih =>
      have hrest : translate fakemac realmac (dofakemac fakemac realmac packet j).2 js k =
          (dofakemac fakemac realmac packet j).2 k :=
        ih fun i hi => h i (List.mem_cons_of_mem _ hi)
      have hhead : (dofakemac fakemac realmac packet j).2 k = packet k :=
        Bytewise.dofakemac_snd packet (h j (List.mem_cons_self ..))
      exact hrest.trans hhead

theorem translate_header (hk : 12 ≤ k) :
    translate fakemac realmac packet [0, 6] k = packet k := by
  apply translate_outside
  intro i hi
  simp only [List.mem_cons, List.not_mem_nil, or_false] at hi
  omega

theorem macAt_translate (h : fields.Pairwise fun i j => i + 6 ≤ j) (hi : i ∈ fields) :
    macAt (translate fakemac realmac packet fields) i =
      swapMac fakemac realmac (macAt packet i) := by
  induction fields generalizing packet with
  | nil => cases hi
  | cons j js ih =>
      obtain ⟨hfirst, hrest⟩ := List.pairwise_cons.mp h
      rw [translate, List.foldl_cons, ← translate]
      rcases List.mem_cons.mp hi with hi | hi
      · -- the fields behind this one leave it alone
        subst hi
        rw [← macAt_dofakemac]
        apply macAt_congr
        intro k _ hk
        apply translate_outside
        intro i' hi'
        have hle := hfirst i' hi'
        omega
      · have hle := hfirst i hi
        have hsame : macAt (dofakemac fakemac realmac packet j).2 i = macAt packet i := by
          apply macAt_congr
          intro k hk _
          exact Bytewise.dofakemac_snd packet (.inr (by omega))
        rw [ih hrest hi, hsame]

theorem translate_same (mac : Mac) (packet : Buf) (fields : List Nat) :
    translate mac mac packet fields = packet := by
  induction fields with
  | nil => rfl
  | cons j js ih =>
      rw [translate, List.foldl_cons, ← translate, dofakemac, if_pos rfl]
      exact ih

theorem swapMac_swapMac (fakemac realmac mac : Mac) :
    swapMac fakemac realmac (swapMac fakemac realmac mac) = mac := by
  unfold swapMac
  by_cases hfake : mac = fakemac
  · by_cases heq : realmac = fakemac
    · rw [if_pos hfake, if_pos heq, heq, hfake]
    · rw [if_pos hfake, if_neg heq, if_pos rfl, hfake]
  by_cases hreal : mac = realmac
  · rw [if_neg hfake, if_pos hreal, if_pos rfl, hreal]
  · rw [if_neg hfake, if_neg hreal, if_neg hfake, if_neg hreal]

end Fields

/-! ## The function -/

section Munge

variable {fakemac realmac : Mac} {packet : Buf} {len : Nat}

/-- What the UDP branch does to a frame whose header addresses are translated. -/
theorem mungeUdp_eq (hne : fakemac ≠ realmac) (htype : be16 packet 12 = 0x0800)
    (hproto : packet 23 = 17) :
    mungeUdp fakemac realmac (translate fakemac realmac packet [0, 6]) 14 (udpStart packet) =
      if Resummed fakemac realmac packet then
        udpChecksum (translate fakemac realmac packet (addressFields packet)) 14 (udpStart packet)
          (udpLength packet)
      else translate fakemac realmac packet (addressFields packet) := by
  have hstart := le_udpStart packet
  have hsame : ∀ k, 12 ≤ k → translate fakemac realmac packet [0, 6] k = packet k :=
    fun k hk => translate_header hk
  have hbe : ∀ i, 12 ≤ i → be16 (translate fakemac realmac packet [0, 6]) i = be16 packet i :=
    fun i hi => Bytewise.be16_congr fun k hk => hsame k (by omega)
  simp only [mungeUdp]
  rw [hbe _ (by omega), hbe _ (by omega), hbe _ (by omega), ← udpLength]
  by_cases hports : Bytewise.DhcpPorts packet (udpStart packet)
  · have hdhcp : DhcpUdp packet := ⟨htype, hproto, hports⟩
    have hchaddr : (dofakemac fakemac realmac (translate fakemac realmac packet [0, 6])
        (udpStart packet + 8 + 28)).1 = true ↔ macAt packet (udpStart packet + 36) = fakemac ∨
          macAt packet (udpStart packet + 36) = realmac := by
      rw [Bytewise.dofakemac_fst hne, macAt_congr fun k hk _ => hsame k (by omega)]
    have hbefore : ∀ k, 12 ≤ k → k < udpStart packet + 36 →
        (dofakemac fakemac realmac (translate fakemac realmac packet [0, 6])
          (udpStart packet + 8 + 28)).2 k = packet k := by
      intro k hk hk'
      rw [Bytewise.dofakemac_snd _ (.inl (by omega)), hsame k hk]
    have hiff : ((dofakemac fakemac realmac (translate fakemac realmac packet [0, 6])
          (udpStart packet + 8 + 28)).1 = true ∧
        (packet (udpStart packet + 6) ≠ 0 ∨ packet (udpStart packet + 7) ≠ 0)) ↔
        Resummed fakemac realmac packet := by
      rw [hchaddr]
      exact ⟨fun h => ⟨hdhcp, hne, h.1, h.2⟩, fun h => ⟨h.2.2.1, h.2.2.2⟩⟩
    rw [addressFields_of_dhcp hdhcp]
    simp only [show be16 packet (udpStart packet) = 67 ∨ be16 packet (udpStart packet) = 68 ∨
      be16 packet (udpStart packet + 2) = 67 ∨ be16 packet (udpStart packet + 2) = 68 from hports,
      if_true]
    rw [hbefore _ (by omega) (by omega), hbefore _ (by omega) (by omega)]
    by_cases hsum : Resummed fakemac realmac packet
    · rw [if_pos hsum, if_pos (hiff.mpr hsum)]
      rfl
    · rw [if_neg hsum, if_neg (fun h => hsum (hiff.mp h))]
      rfl
  · have hdhcp : ¬ DhcpUdp packet := fun h => hports h.2.2
    rw [if_neg (not_resummed hdhcp), addressFields_plain (not_arp_of_ipv4 htype) hdhcp]
    have hnot : ¬ (be16 packet (udpStart packet) = 67 ∨ be16 packet (udpStart packet) = 68 ∨
      be16 packet (udpStart packet + 2) = 67 ∨ be16 packet (udpStart packet + 2) = 68) := hports
    rw [if_neg hnot, if_neg (by simp)]

/-- All of `mungepacket`: the addresses are translated, and a checksum that has
become wrong is replaced. -/
theorem mungepacket_eq (hlen : 20 ≤ len) : (mungepacket fakemac realmac packet len).2 =
    if Resummed fakemac realmac packet then
      udpChecksum (translate fakemac realmac packet (addressFields packet)) 14 (udpStart packet)
        (udpLength packet)
    else translate fakemac realmac packet (addressFields packet) := by
  unfold mungepacket
  rw [if_neg (Nat.not_lt.mpr hlen)]
  by_cases heq : fakemac = realmac
  · rw [if_pos heq, if_neg (fun h => h.2.1 heq), heq, translate_same]
  rw [if_neg heq]
  have hstep : (dofakemac fakemac realmac (dofakemac fakemac realmac packet 0).2 6).2 =
      translate fakemac realmac packet [0, 6] := rfl
  have hsame : ∀ k, 12 ≤ k → translate fakemac realmac packet [0, 6] k = packet k :=
    fun k hk => translate_header hk
  have hbe : be16 (translate fakemac realmac packet [0, 6]) 14 = be16 packet 14 :=
    Bytewise.be16_congr fun k hk => hsame k (by omega)
  simp only [hstep, hbe, hsame 18 (by decide), hsame 14 (by decide), hsame (14 + 9) (by decide)]
  by_cases harp : be16 packet 12 = 0x0806
  · have hdhcp : ¬ DhcpUdp packet := by
      intro h
      exact absurd (harp.symm.trans h.1) (by decide)
    rw [if_pos harp, if_neg (not_resummed hdhcp)]
    by_cases hether : be16 packet 14 = 1 ∧ packet 18 = 6
    · rw [if_pos hether, addressFields_of_arp ⟨harp, hether⟩]
      rfl
    · rw [if_neg hether, addressFields_plain (fun h => hether h.2) hdhcp]
  have hnarp : ¬ ArpEthernet packet := fun h => harp h.1
  rw [if_neg harp]
  by_cases hip : be16 packet 12 = 0x0800
  · rw [if_pos hip]
    by_cases hproto : packet 23 = 17
    · rw [if_pos hproto]
      exact mungeUdp_eq heq hip hproto
    · have hdhcp : ¬ DhcpUdp packet := fun h => hproto h.2.1
      rw [if_neg hproto, if_neg (not_resummed hdhcp), addressFields_plain hnarp hdhcp]
  · have hdhcp : ¬ DhcpUdp packet := fun h => hip h.1
    rw [if_neg hip, if_neg (not_resummed hdhcp), addressFields_plain hnarp hdhcp]

theorem udpChecksum_outside (p : Buf) (ipv4 : Nat) {data len2 k : Nat} (h6 : k ≠ data + 6)
    (h7 : k ≠ data + 7) (hpad : k ≠ data + len2) : udpChecksum p ipv4 data len2 k = p k := by
  simp only [udpChecksum, Function.update_of_ne h6, Function.update_of_ne h7,
    Function.update_of_ne hpad]

theorem udpChecksum_pad (p : Buf) (ipv4 data : Nat) {len2 : Nat} (hlen2 : 8 ≤ len2) :
    udpChecksum p ipv4 data len2 (data + len2) = 0 := by
  have h6 : data + len2 ≠ data + 6 := by omega
  have h7 : data + len2 ≠ data + 7 := by omega
  simp only [udpChecksum, Function.update_of_ne h6, Function.update_of_ne h7, Function.update_self]

theorem munge_fields (hlen : 20 ≤ len) (hudp : DhcpUdp packet → 42 ≤ udpLength packet) {i : Nat}
    (hi : i ∈ addressFields packet) : macAt (mungepacket fakemac realmac packet len).2 i =
      swapMac fakemac realmac (macAt packet i) := by
  rw [mungepacket_eq hlen, ← macAt_translate (addressFields_apart packet) hi]
  by_cases hsum : Resummed fakemac realmac packet
  · have hstart := le_udpStart packet
    have hge := hudp hsum.1
    rw [if_pos hsum]
    rw [addressFields_of_dhcp hsum.1] at hi
    simp only [List.mem_cons, List.not_mem_nil, or_false] at hi
    apply macAt_congr
    intro k hk hk'
    exact udpChecksum_outside _ _ (by omega) (by omega) (by omega)
  · rw [if_neg hsum]

theorem munge_others (hlen : 20 ≤ len) {k : Nat}
    (hfields : ∀ i ∈ addressFields packet, k < i ∨ i + 6 ≤ k)
    (hsum : Resummed fakemac realmac packet → k ≠ udpStart packet + 6 ∧ k ≠ udpStart packet + 7 ∧
      k ≠ udpStart packet + udpLength packet) :
    (mungepacket fakemac realmac packet len).2 k = packet k := by
  have hsame : translate fakemac realmac packet (addressFields packet) k = packet k :=
    translate_outside hfields
  rw [mungepacket_eq hlen, ← hsame]
  by_cases h : Resummed fakemac realmac packet
  · obtain ⟨h6, h7, hpad⟩ := hsum h
    rw [if_pos h, udpChecksum_outside _ _ h6 h7 hpad]
  · rw [if_neg h]

/-- The byte behind a datagram that gets a new checksum is cleared. -/
theorem munge_pad (hlen : 20 ≤ len) (hsum : Resummed fakemac realmac packet)
    (hudp : 8 ≤ udpLength packet) :
    (mungepacket fakemac realmac packet len).2 (udpStart packet + udpLength packet) = 0 := by
  rw [mungepacket_eq hlen, if_pos hsum]
  exact udpChecksum_pad _ _ _ hudp

end Munge

/-! ## Only the addresses and the checksum -/

/-- Of the frame `packet` only the addresses have changed, each to the other
one, and the checksum of a datagram whose CHADDR was replaced. -/
structure OnlyAddresses (fakemac realmac : Mac) (packet : Buf) (len : Nat) (out : Buf) : Prop where
  fields : ∀ i ∈ addressFields packet, macAt out i = swapMac fakemac realmac (macAt packet i)
  others : ∀ k < len, (∀ i ∈ addressFields packet, k < i ∨ i + 6 ≤ k) →
    (Resummed fakemac realmac packet → k ≠ udpStart packet + 6 ∧ k ≠ udpStart packet + 7) →
    out k = packet k

/-- So it is unless a datagram gets a new checksum and a byte that is not zero
stands behind it in the frame. -/
theorem only_addresses_iff (fakemac realmac : Mac) (packet : Buf) (len : Nat) (hlen : 20 ≤ len)
    (hudp : DhcpUdp packet → 42 ≤ udpLength packet) :
    OnlyAddresses fakemac realmac packet len (mungepacket fakemac realmac packet len).2 ↔
      ¬ (Resummed fakemac realmac packet ∧ udpStart packet + udpLength packet < len ∧
        packet (udpStart packet + udpLength packet) ≠ 0) := by
  have hstart := le_udpStart packet
  constructor
  · rintro h ⟨hsum, hin, hbyte⟩
    have hge := hudp hsum.1
    have hout := munge_pad hlen hsum (by omega)
    rw [h.others _ hin] at hout
    · exact hbyte hout
    · intro i hi
      rw [addressFields_of_dhcp hsum.1] at hi
      simp only [List.mem_cons, List.not_mem_nil, or_false] at hi
      omega
    · intro _
      omega
  · intro h
    constructor
    · intro i hi
      exact munge_fields hlen hudp hi
    · intro k hk hfields hsum
      by_cases hpad : Resummed fakemac realmac packet ∧ k = udpStart packet + udpLength packet
      · -- the byte that is cleared was clear
        obtain ⟨hres, rfl⟩ := hpad
        have hge := hudp hres.1
        have hzero : packet (udpStart packet + udpLength packet) = 0 := by
          by_contra hbyte
          exact h ⟨hres, hk, hbyte⟩
        rw [munge_pad hlen hres (by omega), hzero]
      · apply munge_others hlen hfields
        intro hres
        exact ⟨(hsum hres).1, (hsum hres).2, fun heq => hpad ⟨hres, heq⟩⟩

/-- The padding of the reply is zero. -/
theorem only_addresses_padded : DhcpUdp dhcpReply ∧
    OnlyAddresses someFakemac someRealmac dhcpReply 80
      (mungepacket someFakemac someRealmac dhcpReply 80).2 := by
  have hdhcp : DhcpUdp dhcpReply := by decide +kernel
  refine ⟨hdhcp, ?_⟩
  exact (only_addresses_iff someFakemac someRealmac dhcpReply 80 (by decide)
    (fun _ => by decide +kernel)).mpr (by decide +kernel)

/-- The reply with a trailer behind its 42 bytes of UDP. -/
def dhcpReplyTrailer : Buf := Function.update dhcpReply 76 0xA5

theorem trailer_cleared : ¬ ∀ (fakemac realmac : Mac) (packet : Buf) (len : Nat), 20 ≤ len →
    (ArpEthernet packet → 42 ≤ len) →
    (DhcpUdp packet → 5 ≤ (packet 14 &&& 0x0f).toNat ∧ 42 ≤ udpLength packet ∧
      udpStart packet + udpLength packet ≤ len) →
    OnlyAddresses fakemac realmac packet len (mungepacket fakemac realmac packet len).2 := by
  intro h
  have hframe := h someFakemac someRealmac dhcpReplyTrailer 80 (by decide) (fun _ => by decide)
    (fun _ => by decide +kernel)
  have hout := hframe.others 76 (by decide) (by decide +kernel) (fun _ => by decide +kernel)
  exact absurd hout (by decide +kernel)

/-! ## The second pass -/

/-- Two frames in which `mungepacket` finds the same fields. -/
structure SameFields (p q : Buf) : Prop where
  ethertype : be16 p 12 = be16 q 12
  hardware : be16 p 14 = be16 q 14
  hardwareLen : p 18 = q 18
  version : p 14 = q 14
  proto : be16 q 12 = 0x0800 → p 23 = q 23
  udp : be16 q 12 = 0x0800 → ∀ k < 6, p (udpStart q + k) = q (udpStart q + k)

section SameFields

variable {p q : Buf}

theorem SameFields.udpStart (h : SameFields p q) : udpStart p = udpStart q := by
  rw [A2065.udpStart, A2065.udpStart, h.version]

theorem SameFields.word (h : SameFields p q) (htype : be16 q 12 = 0x0800) {k : Nat} (hk : k < 5) :
    be16 p (A2065.udpStart p + k) = be16 q (A2065.udpStart q + k) := by
  rw [h.udpStart, be16, be16, h.udp htype k (by omega), Nat.add_assoc,
    h.udp htype (k + 1) (by omega)]

theorem SameFields.dhcp (h : SameFields p q) : DhcpUdp p ↔ DhcpUdp q := by
  unfold DhcpUdp
  rw [h.ethertype]
  by_cases htype : be16 q 12 = 0x0800
  · have hsrc := h.word htype (k := 0) (by decide)
    have hdst := h.word htype (k := 2) (by decide)
    rw [Nat.add_zero, Nat.add_zero] at hsrc
    rw [h.proto htype, Bytewise.DhcpPorts, Bytewise.DhcpPorts, hsrc, hdst]
  · exact iff_of_false (fun h => htype h.1) (fun h => htype h.1)

theorem SameFields.udpLength (h : SameFields p q) (hdhcp : DhcpUdp q) :
    udpLength p = udpLength q := h.word hdhcp.1 (by decide)

theorem SameFields.addressFields (h : SameFields p q) : addressFields p = addressFields q := by
  have harp : ArpEthernet p ↔ ArpEthernet q := by
    rw [ArpEthernet, ArpEthernet, h.ethertype, h.hardware, h.hardwareLen]
  simp only [A2065.addressFields, harp, h.dhcp, h.udpStart]

end SameFields

section Untouched

variable (fakemac realmac : Mac) {packet : Buf} {len : Nat} (hlen : 20 ≤ len)
  (hudp : DhcpUdp packet → 5 ≤ (packet 14 &&& 0x0f).toNat ∧ 42 ≤ udpLength packet)

include hlen hudp

/-- Behind the header addresses and before those of ARP nothing is written. -/
theorem munge_type {k : Nat} (hk : 12 ≤ k) (hk' : k < 22) :
    (mungepacket fakemac realmac packet len).2 k = packet k := by
  have hstart := le_udpStart packet
  apply munge_others hlen
  · intro i hi
    have hfield := mem_addressFields hi
    omega
  · intro hsum
    have hihl := (hudp hsum.1).1
    have hheader : udpStart packet = 14 + (packet 14 &&& 0x0f).toNat * 4 := rfl
    omega

/-- In an IPv4 frame neither the IP header nor the ports and the length of the
datagram are written. -/
theorem munge_ipv4 (htype : be16 packet 12 = 0x0800) {k : Nat} (hk : 12 ≤ k)
    (hin : DhcpUdp packet → k < 34 ∨ udpStart packet ≤ k ∧ k < udpStart packet + 6) :
    (mungepacket fakemac realmac packet len).2 k = packet k := by
  have hstart := le_udpStart packet
  apply munge_others hlen
  · intro i hi
    rcases mem_addressFields hi with rfl | rfl | ⟨harp, -⟩ | ⟨hdhcp, rfl⟩
    · omega
    · omega
    · exact absurd harp (not_arp_of_ipv4 htype)
    · have hlt := hin hdhcp
      omega
  · intro hsum
    obtain ⟨hihl, hge⟩ := hudp hsum.1
    have hlt := hin hsum.1
    have hheader : udpStart packet = 14 + (packet 14 &&& 0x0f).toNat * 4 := rfl
    omega

/-- Neither an address nor the checksum is looked at to find the fields. -/
theorem sameFields_munge : SameFields (mungepacket fakemac realmac packet len).2 packet := by
  have hstart := le_udpStart packet
  have hbyte : ∀ k, 12 ≤ k → k < 22 → (mungepacket fakemac realmac packet len).2 k = packet k :=
    fun k hk hk' => munge_type fakemac realmac hlen hudp hk hk'
  have hword : ∀ i, 12 ≤ i → i < 21 →
      be16 (mungepacket fakemac realmac packet len).2 i = be16 packet i := by
    intro i hi hi'
    rw [be16, be16, hbyte i hi (by omega), hbyte (i + 1) (by omega) (by omega)]
  constructor
  case ethertype => exact hword 12 (by decide) (by decide)
  case hardware => exact hword 14 (by decide) (by decide)
  case hardwareLen => exact hbyte 18 (by decide) (by decide)
  case version => exact hbyte 14 (by decide) (by decide)
  case proto =>
    intro htype
    exact munge_ipv4 fakemac realmac hlen hudp htype (by decide) fun _ => .inl (by decide)
  case udp =>
    intro htype k hk
    exact munge_ipv4 fakemac realmac hlen hudp htype (by omega) fun _ => .inr (by omega)

end Untouched

/-- A second pass undoes the first, but for the checksum and the byte behind
the datagram. -/
theorem munge_involution (fakemac realmac : Mac) (packet : Buf) (len : Nat) (hlen : 20 ≤ len)
    (hudp : DhcpUdp packet → 5 ≤ (packet 14 &&& 0x0f).toNat ∧ 42 ≤ udpLength packet) :
    (∀ k, (DhcpUdp packet → k ≠ udpStart packet + 6 ∧ k ≠ udpStart packet + 7 ∧
        k ≠ udpStart packet + udpLength packet) →
      (mungepacket fakemac realmac (mungepacket fakemac realmac packet len).2 len).2 k =
        packet k) ∧
    ∀ i ∈ addressFields packet,
      macAt (mungepacket fakemac realmac (mungepacket fakemac realmac packet len).2 len).2 i =
        macAt packet i := by
  have hsame := sameFields_munge fakemac realmac hlen hudp
  have hudp' : DhcpUdp (mungepacket fakemac realmac packet len).2 →
      42 ≤ udpLength (mungepacket fakemac realmac packet len).2 := by
    intro h
    have hdhcp := hsame.dhcp.mp h
    rw [hsame.udpLength hdhcp]
    exact (hudp hdhcp).2
  have hfields : ∀ i ∈ addressFields packet,
      macAt (mungepacket fakemac realmac (mungepacket fakemac realmac packet len).2 len).2 i =
        macAt packet i := by
    intro i hi
    rw [munge_fields hlen hudp' (by rwa [hsame.addressFields]),
      munge_fields hlen (fun h => (hudp h).2) hi, swapMac_swapMac]
  refine ⟨?_, hfields⟩
  intro k hk
  by_cases hin : ∀ i ∈ addressFields packet, k < i ∨ i + 6 ≤ k
  · -- outside the addresses neither pass has changed the byte
    rw [munge_others hlen (by rwa [hsame.addressFields]), munge_others hlen hin]
    · intro hsum
      exact hk hsum.1
    · intro hsum
      have hdhcp := hsame.dhcp.mp hsum.1
      rw [hsame.udpStart, hsame.udpLength hdhcp]
      exact hk hdhcp
  · push Not at hin
    obtain ⟨i, hi, hle, hlt⟩ := hin
    have hbyte : ∀ p : Buf, (macAt p i)[k - i]! = p k := by
      intro p
      have hki : k - i < 6 := by omega
      simp [macAt, hki, Nat.add_sub_cancel' hle]
    have hmac := congrArg (fun mac : Mac => mac[k - i]!) (hfields i hi)
    simpa only [hbyte] using hmac

/-- The reply has its CHADDR and its destination back. -/
theorem munge_involution_reply : DhcpUdp dhcpReply ∧
    macAt (mungepacket someFakemac someRealmac
      (mungepacket someFakemac someRealmac dhcpReply 80).2 80).2 70 = someRealmac := by
  have hdhcp : DhcpUdp dhcpReply := by decide +kernel
  refine ⟨hdhcp, ?_⟩
  rw [(munge_involution someFakemac someRealmac dhcpReply 80 (by decide)
    (fun _ => by decide +kernel)).2 70 (by decide +kernel)]
  decide +kernel

end A2065
