import A2065.CsrInvariant

/-!
# The two copies of the station address

`registers.cpp` keeps the address the filters compare with, `mac.cpp` the one
`mungepacket` translates. `chip_init` stores both; a write of CSR12, CSR13 or
CSR14 stores the first only.
-/

namespace A2065

open Bits

/-- The copies agree. -/
def MacsAgree (d : Daemon) : Prop := d.fakemac = d.macFakemac

/-- The bytes of the station address that CSR`rap` holds, low byte first. -/
def addressBytes (d : Daemon) (rap : U8) : Option (U8 × U8) :=
  match rap.toNat with
  | 12 => some (d.fakemac[0]!, d.fakemac[1]!)
  | 13 => some (d.fakemac[2]!, d.fakemac[3]!)
  | 14 => some (d.fakemac[4]!, d.fakemac[5]!)
  | _ => none

/-- A write of CSR12, CSR13 or CSR14 repeats the bytes already there. -/
def KeepsAddress (m : Move) (d : Daemon) : Prop :=
  ∀ v, m.rdpWrite = some v → ∀ b ∈ addressBytes d d.rap,
    b = (v.setWidth 8, (v >>> 8).setWidth 8)

/-- After the move the copies agree. -/
def AgreeAfter (W : Wiring) (m : Move) (s : Sys) : Prop := MacsAgree (m.apply W s).1

theorem MacsAgree.frame {d d' : Daemon} (h : MacsAgree d) (hf : RingFrame d d') :
    MacsAgree d' := by
  rw [MacsAgree, hf.fakemac, hf.macFakemac]
  exact h

/-! ## Register writes -/

theorem MacsAgree.command {oreg : U16} {d d' : Daemon} (h : MacsAgree d)
    (hs : CommandStep oreg d d') : MacsAgree d' := by
  cases hs with
  | stop => exact h
  | start => exact h.frame (startEngines_frame d)
  | startInit hi => exact hi.macs
  | init hi => exact hi.macs
  | keep => exact h

theorem MacsAgree.demand {d d' : Daemon} (h : MacsAgree d) (hs : DemandStep d d') :
    MacsAgree d' := by
  cases hs with
  | none => exact h
  | ignored => exact h
  | sent ht =>
      have hd : MacsAgree (if tst d.csr0 CSR0.TXON then d else startEngines d) := by
        split
        · exact h
        · exact h.frame (startEngines_frame d)
      exact hd.frame (ht.frame.setCsr0 _)

/-- Storing two bytes leaves a vector alone exactly if they are there. -/
theorem set_pair_eq_iff (a : Mac) (i : Nat) (hi : i + 1 < 6) (lo hi' : U8) :
    (a.set (i + 1) hi').set i lo = a ↔ (a[i]!, a[i + 1]!) = (lo, hi') := by
  rw [getElem!_pos a i (by omega), getElem!_pos a (i + 1) hi]
  constructor
  · intro h
    have h0 := congrArg (·[i]) h
    have h1 := congrArg (·[i + 1]) h
    simp only [Vector.getElem_set_self] at h0
    simp at h1
    rw [← h0, ← h1]
  · intro h
    cases h
    ext k hk
    simp only [Vector.getElem_set]
    split
    · simp_all
    · split <;> simp_all

/-- Outside CSR12 to CSR14 a write leaves both copies alone. -/
theorem macs_wputOther (v : U16) {d : Daemon} (h : addressBytes d d.rap = none) :
    (wputOther v d).fakemac = d.fakemac ∧ (wputOther v d).macFakemac = d.macFakemac := by
  unfold addressBytes at h
  unfold wputOther
  split <;> try exact ⟨rfl, rfl⟩
  case h_8 hr => simp [hr] at h
  case h_9 hr => simp [hr] at h
  case h_10 hr => simp [hr] at h
  all_goals
    split <;> exact ⟨rfl, rfl⟩

theorem macsAgree_wputOther (v : U16) {d : Daemon} (h : MacsAgree d) :
    MacsAgree (wputOther v d) ↔ ∀ b ∈ addressBytes d d.rap,
      b = (v.setWidth 8, (v >>> 8).setWidth 8) := by
  cases hb : addressBytes d d.rap with
  | none =>
      obtain ⟨h1, h2⟩ := macs_wputOther v hb
      rw [MacsAgree, h1, h2]
      exact ⟨by simp, fun _ => h⟩
  | some b =>
      simp only [Option.mem_some_iff, forall_eq']
      unfold addressBytes at hb
      split at hb
      case h_1 hr =>
        cases hb
        simp only [wputOther, hr, MacsAgree]
        rw [← h, ← set_pair_eq_iff d.fakemac 0 (by decide)]
      case h_2 hr =>
        cases hb
        simp only [wputOther, hr, MacsAgree]
        rw [← h, ← set_pair_eq_iff d.fakemac 2 (by decide)]
      case h_3 hr =>
        cases hb
        simp only [wputOther, hr, MacsAgree]
        rw [← h, ← set_pair_eq_iff d.fakemac 4 (by decide)]
      case h_4 => cases hb

theorem macsAgree_wputCsr0 (W : Wiring) (v : U16) {d : Daemon} (h : MacsAgree d) :
    (wputCsr0 W.onInterrupt W.onTransmit v d).Always MacsAgree := by
  refine (wputCsr0_step W v d).mono ?_
  rintro d' ⟨d₁, d₂, h₁, h₂, rfl⟩
  have hm : MacsAgree (d.setCsr 0 (csr0Merge d.csr0 v)) := h
  exact ((hm.command h₁).demand h₂).frame ((RingFrame.refl d₂).setCsr0 _)

theorem addressBytes_eq_none {d : Daemon} {rap : U8}
    (h : rap.toNat ≠ 12 ∧ rap.toNat ≠ 13 ∧ rap.toNat ≠ 14) : addressBytes d rap = none := by
  unfold addressBytes
  split <;> simp_all

theorem macsAgree_chipWput (W : Wiring) (regOffset : U8) (v : U16) {d : Daemon}
    (h : MacsAgree d) :
    (chipWput W.onInterrupt W.onTransmit regOffset v d).Always fun d' =>
      (MacsAgree d' ↔ KeepsAddress (.op (.wput regOffset v)) d) := by
  unfold chipWput
  split
  · rename_i hrap
    exact .pure ⟨fun _ => by simp [KeepsAddress, Move.rdpWrite, hrap], fun _ => h⟩
  rename_i hrdp
  have hkeep : KeepsAddress (.op (.wput regOffset v)) d ↔
      ∀ b ∈ addressBytes d d.rap, b = (v.setWidth 8, (v >>> 8).setWidth 8) := by
    simp [KeepsAddress, Move.rdpWrite, hrdp]
  rw [hkeep]
  split
  · rename_i hsize
    rw [addressBytes_eq_none (by unfold RAP_SIZE at hsize; omega)]
    exact .pure ⟨by simp, fun _ => h⟩
  split
  · rename_i hrap
    rw [addressBytes_eq_none (by simp [hrap])]
    exact (macsAgree_wputCsr0 W v h).mono fun d' hd' => ⟨by simp, fun _ => hd'⟩
  · exact .pure (macsAgree_wputOther v h)

/-! ## Runs -/

/-- From agreeing copies, an operation keeps them so exactly if it keeps the
address. -/
theorem macsAgree_op (W : Wiring) (o : Op) {d : Daemon} (h : MacsAgree d) :
    (o.prog W d).Always fun d' => (MacsAgree d' ↔ KeepsAddress (.op o) d) := by
  cases o with
  | wput regOffset v => exact macsAgree_chipWput W regOffset v h
  | transmit =>
      refine .bind (doTransmit_effect _ d) fun r hr => .pure ⟨fun _ v hv => ?_, fun _ => ?_⟩
      · cases hv
      · exact h.frame hr.frame
  | recv databuf len =>
      refine .bind (gotfunc_effect _ _ _ d) fun r hr => .pure ⟨fun _ v hv => ?_, fun _ => ?_⟩
      · cases hv
      · exact h.frame hr.frame

theorem agreeAfter_iff (W : Wiring) (m : Move) {s : Sys} (h : MacsAgree s.1) :
    AgreeAfter W m s ↔ KeepsAddress m s.1 := by
  cases m with
  | op o => exact (macsAgree_op W o h).exec World.handle s.2
  | host ram stack => exact ⟨fun _ v hv => (by cases hv), fun _ => h⟩

theorem along_agree_iff (W : Wiring) (ms : List Move) (s : Sys) (h : MacsAgree s.1) :
    Along W (AgreeAfter W) ms s ↔ Along W (fun m s => KeepsAddress m s.1) ms s := by
  induction ms generalizing s with
  | nil => exact Iff.rfl
  | cons m ms ih =>
      constructor
      · rintro ⟨hm, hms⟩
        exact ⟨(agreeAfter_iff W m h).mp hm, (ih _ hm).mp hms⟩
      · rintro ⟨hm, hms⟩
        have ha := (agreeAfter_iff W m h).mpr hm
        exact ⟨ha, (ih _ ha).mpr hms⟩

/-- From the start-up code, which sets both copies to one address, the copies
agree after every move of a run exactly if every write of CSR12 to CSR14 in
it repeats the address. -/
theorem station_address_agrees_iff (W : Wiring) (fakemac macRealmac : Mac) (w : World)
    (moves : List Move) :
    Along W (AgreeAfter W) moves (registersReset (.bootWith fakemac fakemac macRealmac), w) ↔
      Along W (fun m s => KeepsAddress m s.1) moves
        (registersReset (.bootWith fakemac fakemac macRealmac), w) :=
  along_agree_iff W moves _ rfl

/-- RAP 12, then a data write: the copies differ. -/
theorem station_address_diverges :
    ¬ ∀ (W : Wiring) (fakemac macRealmac : Mac) (w : World) (moves : List Move),
      Along W (AgreeAfter W) moves
        (registersReset (.bootWith fakemac fakemac macRealmac), w) := by
  intro hall
  have hagree := hall .null BROADCAST_MAC BROADCAST_MAC .blank
    [.op (.wput A2065_RAP_OFF 12), .op (.wput A2065_RDP_OFF 0)]
  have hlast : MacsAgree _ := hagree.2.1
  exact absurd hlast (by unfold MacsAgree; decide +kernel)

end A2065
