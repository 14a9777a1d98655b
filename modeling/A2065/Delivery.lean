import A2065.Regfile

/-!
# The doorbell of the register file

An RDP write raises `cmd_pending`; the mailbox samples the command and clears
it. The clear crosses two flip-flops, during which the bus goes on, and the
write strobe is a level, so what a clear hits is not always what was sampled.

`Watched` is the register file with a record of which bus writes its consumer
has seen. The consumer is not part of this repository; `Consumer` is all that
is assumed of it.
-/

namespace A2065.Regfile

/-- One clock: the pins, and whether the consumer samples `cmd_rap` and
`cmd_data` during it. -/
structure Tick extends Pins where
  sample : Bool

/-- The register file, and what an observer of the bus and of the consumer can
remember about the writes to RDP. -/
structure Watched where
  reg : Regfile
  /-- The RDP write strobe during the previous clock. -/
  strobe : Bool
  /-- The consumer has sampled since it last began to assert `cmd_clear`. -/
  armed : Bool
  /-- An RDP write began at or after the consumer's last sample. -/
  newer : Bool
  /-- The write in `cmd_rap` and `cmd_data` has been sampled. -/
  seen : Bool
  /-- After that, `cmd_clear` has reached `cmd_pending`. -/
  cleared : Bool

namespace Watched

/-- After reset, with `cmd_clear` low for two clocks. -/
def start (csrShadow : Fin 4 → U16) : Watched where
  reg := ⟨0, csrShadow, false, 0, 0, false, false⟩
  strobe := false
  armed := false
  newer := false
  seen := false
  cleared := false

/-- An RDP bus write begins: the strobe rises, or goes on with other data. -/
def begins (s : Watched) (t : Tick) : Bool :=
  t.writesRdp && !(s.strobe && s.reg.cmdData == t.cpuDataIn)

/-- The consumer samples a pending command. -/
def takes (s : Watched) (t : Tick) : Bool := t.sample && s.reg.cmdPending

/-- One edge of the clock, with the observer's notes brought up to date. -/
def next (s : Watched) (t : Tick) : Watched where
  reg := s.reg.clock t.toPins
  strobe := t.writesRdp
  armed := s.takes t || (s.armed && !(t.cmdClear && !s.reg.cmdClearS))
  newer := s.begins t || (s.newer && !s.takes t)
  seen := !s.begins t && (s.seen || s.takes t)
  cleared := !s.begins t && (s.cleared || (s.seen && s.reg.cmdClearS1))

/-- What is assumed of a clock: no reset, and a pulse of `cmd_clear` starts
only after a sample taken since the previous pulse started. -/
def Consumer (s : Watched) (t : Tick) : Prop :=
  t.rstN = true ∧ (t.cmdClear = true → s.reg.cmdClearS = true ∨ s.armed = true)

/-- A bus write is in the doorbell after every clock of its strobe, and
`cmd_pending` falls only when the write in the doorbell has been sampled. -/
def Kept (s : Watched) (t : Tick) : Prop :=
  (t.writesRdp = true → (s.next t).reg.cmdPending = true ∧
    (s.next t).reg.cmdRap = s.reg.rap ∧ (s.next t).reg.cmdData = t.cpuDataIn) ∧
  (s.reg.cmdPending = true → (s.next t).reg.cmdPending = false →
    s.seen = true ∨ s.takes t = true)

/-- A sample is never of a write that was sampled and cleared before. -/
def Once (s : Watched) (t : Tick) : Prop := s.takes t = true → s.cleared = false

/-- While `cmd_clear` is high no RDP write has begun since the last sample,
and the strobe is low then and during the next clock. -/
def Quiet (s : Watched) (t : Tick) : Prop :=
  (t.cmdClear = true → s.newer = false ∧ t.writesRdp = false) ∧
  (s.reg.cmdClearS = true → t.writesRdp = false)

instance (s : Watched) (t : Tick) : Decidable (s.Consumer t) := inferInstanceAs (Decidable (_ ∧ _))
instance (s : Watched) (t : Tick) : Decidable (s.Kept t) := inferInstanceAs (Decidable (_ ∧ _))
instance (s : Watched) (t : Tick) : Decidable (s.Once t) := inferInstanceAs (Decidable (_ → _))
instance (s : Watched) (t : Tick) : Decidable (s.Quiet t) := inferInstanceAs (Decidable (_ ∧ _))

/-! ## What a quiet run keeps -/

/-- The clear on its way and the notes agree. -/
structure Inv (s : Watched) : Prop where
  /-- What was sampled last is what the doorbell holds. -/
  armed : s.armed = true → s.newer = false → s.seen = true
  /-- A clear on its way finds the strobe low and a sampled write. -/
  first : s.reg.cmdClearS = true → s.seen = true ∧ s.strobe = false
  second : s.reg.cmdClearS1 = true → s.seen = true ∧ s.strobe = false
  /-- A cleared write is gone for good. -/
  cleared : s.cleared = true → s.reg.cmdPending = false ∧ s.strobe = false

theorem inv_start (csrShadow : Fin 4 → U16) : (start csrShadow).Inv := by
  constructor <;> intro h <;> cases h

/-- With the strobe low, only a new write can raise it. -/
theorem begins_of_strobe {s : Watched} {t : Tick} (h : s.strobe = false) :
    s.begins t = t.writesRdp := by
  simp [begins, h]

/-- A clock without a strobe leaves the write in the doorbell where it is. -/
theorem seen_next {s : Watched} {t : Tick} (hw : t.writesRdp = false) (h : s.seen = true) :
    (s.next t).seen = true := by
  simp [next, begins, hw, h]

theorem inv_next {s : Watched} {t : Tick} (h : s.Inv) (hc : s.Consumer t) (hq : s.Quiet t) :
    (s.next t).Inv where
  armed harm hnew := by
    simp only [next, Bool.or_eq_false_iff, Bool.and_eq_false_iff, Bool.not_eq_false'] at hnew
    simp only [next, Bool.or_eq_true, Bool.and_eq_true] at harm
    have hseen : s.seen = true ∨ s.takes t = true := by
      by_cases ht : s.takes t = true
      · exact .inr ht
      · exact .inl (h.armed (harm.resolve_left ht).1 (hnew.2.resolve_right ht))
    simpa [next, hnew.1] using hseen
  first hclr := by
    have hclr : t.cmdClear = true := by simpa [next] using hclr
    obtain ⟨hnew, hw⟩ := hq.1 hclr
    have hseen : s.seen = true := by
      rcases hc.2 hclr with hs | harm
      · exact (h.first hs).1
      · exact h.armed harm hnew
    exact ⟨seen_next hw hseen, hw⟩
  second hclr := by
    have hclr : s.reg.cmdClearS = true := by simpa [next] using hclr
    have hw := hq.2 hclr
    exact ⟨seen_next hw (h.first hclr).1, hw⟩
  cleared hcl := by
    simp only [next, Bool.and_eq_true, Bool.not_eq_true', Bool.or_eq_true] at hcl
    obtain ⟨hb, hcl⟩ := hcl
    have hlow : s.strobe = false ∧ (s.reg.cmdPending && !s.reg.cmdClearS1) = false := by
      rcases hcl with hcl | ⟨-, hs1⟩
      · obtain ⟨hp, hs⟩ := h.cleared hcl
        exact ⟨hs, by simp [hp]⟩
      · exact ⟨(h.second hs1).2, by simp [hs1]⟩
    have hw : t.writesRdp = false := by rw [← begins_of_strobe hlow.1, hb]
    refine ⟨?_, hw⟩
    show (s.reg.clock t.toPins).cmdPending = false
    rw [cmdPending_clock _ hc.1, hw, hlow.2]
    rfl

theorem kept_of_inv {s : Watched} {t : Tick} (h : s.Inv) (hc : s.Consumer t) : s.Kept t := by
  constructor
  · intro hw
    exact ⟨by simp [next, cmdPending_clock _ hc.1, hw], command_clock _ hc.1 hw⟩
  · intro hp hfall
    have hs1 : s.reg.cmdClearS1 = true := by
      simp only [next, cmdPending_clock _ hc.1, hp, Bool.true_and, Bool.or_eq_false_iff,
        Bool.not_eq_false'] at hfall
      exact hfall.2
    exact .inl (h.second hs1).1

theorem once_of_inv {s : Watched} {t : Tick} (h : s.Inv) : s.Once t := by
  intro ht
  simp only [takes, Bool.and_eq_true] at ht
  by_contra hcl
  have hp := (h.cleared (by simpa using hcl)).1
  rw [ht.2] at hp
  cases hp

end Watched

open Watched

/-- In every run in which the consumer clears only while the bus is quiet, no
RDP write is cleared unseen and none is sampled again once it was cleared. -/
theorem doorbell_delivered (csrShadow : Fin 4 → U16) (ticks : List Tick)
    (hc : Watch next Consumer (start csrShadow) ticks)
    (hq : Watch next Quiet (start csrShadow) ticks) :
    Watch next (fun s t => s.Kept t ∧ s.Once t) (start csrShadow) ticks := by
  have hstep : ∀ (s : Watched) (t : Tick), s.Inv → s.Consumer t ∧ s.Quiet t →
      (s.next t).Inv ∧ s.Kept t ∧ s.Once t := by
    intro s t hs h
    exact ⟨inv_next hs h.1 h.2, kept_of_inv hs h.1, once_of_inv hs⟩
  exact (hc.and hq).entails hstep (inv_start csrShadow)

/-! ## Runs of the bus and its consumer -/

/-- A clock on the idle bus. -/
def idleTick (sample cmdClear : Bool) : Tick :=
  { idlePins 0 with cmdClear := cmdClear, sample := sample }

/-- A clock of an RDP write of `v`. -/
def writeTick (v : U16) (sample cmdClear : Bool) : Tick :=
  { idlePins 0 with
    cpuAddr := 0xE94000, cpuRw := false, cpuAsN := false, cpuDsN := false, cpuDataIn := v
    cmdClear := cmdClear, sample := sample }

/-- A write held for two clocks, sampled, cleared, and then another. -/
def inTurn : List Tick :=
  [writeTick 3 false false, writeTick 3 true false, idleTick false true, idleTick false false,
    idleTick false false, writeTick 0x42 false false, idleTick true false]

theorem doorbell_delivered_in_turn :
    Watch next (fun s t => s.Kept t ∧ s.Once t) (start fun _ => 0) inTurn :=
  doorbell_delivered _ _ (by decide) (by decide)

/-- The second write comes one clock after the clear of the first. -/
def writeUnderClear : List Tick :=
  [writeTick 3 false false, idleTick true false, idleTick false true, writeTick 0x42 false false,
    idleTick false false]

/-- The strobe outlasts the clear. -/
def longStrobe : List Tick :=
  [writeTick 3 false false, writeTick 3 true false, writeTick 3 false true, writeTick 3 false false,
    writeTick 3 false false, writeTick 3 true false]

/-- A write that meets the clear of its predecessor is cleared unseen, and one
whose strobe outlasts its clear is sampled twice. -/
theorem doorbell_loses_and_repeats :
    (¬ ∀ ticks, Watch next Consumer (start fun _ => 0) ticks →
      Watch next Kept (start fun _ => 0) ticks) ∧
    (¬ ∀ ticks, Watch next Consumer (start fun _ => 0) ticks →
      Watch next Once (start fun _ => 0) ticks) := by
  constructor
  · intro h
    exact absurd (h writeUnderClear (by decide)) (by decide)
  · intro h
    exact absurd (h longStrobe (by decide)) (by decide)

end A2065.Regfile
