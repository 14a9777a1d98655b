import A2065.DeferredWrites
import A2065.DoorbellSerial
import A2065.Lib.Response

/-!
# How long the 68k waits

The FPGA holds a register access of the 68k until its command or request is
taken out of the slot. Only the main loop of a daemon is counted on for that;
the receive thread, the host and the FPGA make their steps in between as they
like. The doorbell daemon takes seven steps at most, from the end of one
publication to the next command, the mailbox daemon nineteen, since it may
have to make seven deferred writes first, in two steps each.
-/

namespace A2065

open Bits

/-! ## The doorbell daemon -/

/-- A step of the main loop. -/
def Act.isMain : Act → Bool
  | .main => true
  | _ => false

/-- The steps of the main loop until a pending command is done and cleared. -/
def MainPc.distance : MainPc → Nat
  | .drain => 1
  | .taken _ => 2
  | .poll => 3
  | .publish (.writeInt _) => 4
  | .publish .snapInt => 5
  | .publish (.writeCsr _) => 6
  | .publish .snapCsr => 7

theorem MainPc.distance_le (pc : MainPc) : 0 < pc.distance ∧ pc.distance ≤ 7 := by
  rcases pc with _ | cmd | _ | (_ | packed | _ | val) <;> simp [distance]

namespace Doorbell

theorem distance_stepMain {s : Doorbell} (hwait : s.cmdPending = true)
    (hafter : s.stepMain.cmdPending = true) :
    s.stepMain.main.distance + 1 ≤ s.main.distance := by
  obtain ⟨d, w, main, rx⟩ := s
  cases main with
  | poll =>
      have htaken : stepMain ⟨d, w, .poll, rx⟩ = ⟨d, w, .taken (w.slots DDR3_CMD_OFF), rx⟩ :=
        if_pos hwait
      rw [htaken]
      exact Nat.le_refl 3
  | taken cmd => exact Nat.le_refl 2
  | drain =>
      have hempty : (stepMain ⟨d, w, .drain, rx⟩).cmdPending = false :=
        (congrArg (tst · DDR3_CMD_PENDING_BIT) (slots_wr64 w DDR3_CMD_OFF 0)).trans (by decide)
      rw [hempty] at hafter
      cases hafter
  | publish p => cases p <;> exact Nat.le_refl _

theorem main_stepRx (s : Doorbell) (rxbuf : Buf) (len : Nat) :
    (s.stepRx rxbuf len).main = s.main := by
  unfold stepRx
  split
  · split <;> rfl
  · rfl
  · rfl

/-- A command in the slot waits for the main loop only. -/
theorem ranks_cmdPending : Ranks step Act.isMain (fun s => s.cmdPending = true)
    (fun s => s.main.distance) := by
  intro s hwait
  refine ⟨s.main.distance_le.1, fun a hafter => ?_⟩
  cases a with
  | main => exact distance_stepMain hwait hafter
  | rx rxbuf len => exact Nat.le_of_eq (congrArg MainPc.distance (s.main_stepRx rxbuf len))
  | post cmd =>
      have hsame : s.step (.post cmd) = s := if_pos hwait
      rw [hsame]
      exact Nat.le_refl _
  | host ram stack => exact Nat.le_refl _

end Doorbell

/-- Among any seven steps of the main loop, whatever happens between them, is
a moment when the command slot is empty and the commands posted until then
have all been executed, once each and in order. -/
theorem doorbell_responds (nic : Mac) (w : World) (acts more : List Act)
    (hmain : 7 ≤ more.countP Act.isMain) :
    let s := Doorbell.start nic w
    ∃ pre post, more = pre ++ post ∧ (s.run (acts ++ pre)).cmdPending = false ∧
      Doorbell.collect Doorbell.posts (acts ++ pre) s =
        (Doorbell.collect Doorbell.work (acts ++ pre) s).filterMap Work.command? := by
  intro s
  obtain ⟨pre, post, hmore, hempty⟩ := Doorbell.ranks_cmdPending.response
    (Nat.le_trans (s.run acts).main.distance_le.2 hmain)
  have hrun : s.run (acts ++ pre) = pre.foldl Doorbell.step (s.run acts) := List.foldl_append
  rw [← hrun] at hempty
  have hpending := Bool.eq_false_of_not_eq_true hempty
  obtain ⟨hhold, hflight⟩ := Doorbell.holding_start nic w
  have hcommands := (hhold.serializes (acts ++ pre)).commands
  rw [hflight, List.nil_append, Doorbell.inFlight_empty hpending, List.append_nil] at hcommands
  exact ⟨pre, post, hmore, hpending, hcommands⟩

/-- A command posted while the last one is being published. -/
theorem doorbell_responds_busy :
    let acts := serve 0 (CSR0.INIT ||| CSR0.INEA) 3 ++ [.post (command 0 CSR0.STRT)]
    let s := Doorbell.start (.replicate 6 0) .blank
    ∃ pre post, List.replicate 7 Act.main = pre ++ post ∧
      (s.run (acts ++ pre)).cmdPending = false ∧
      Doorbell.collect Doorbell.posts (acts ++ pre) s =
        (Doorbell.collect Doorbell.work (acts ++ pre) s).filterMap Work.command? :=
  doorbell_responds _ _ _ _ (by decide)

/-! ## The mailbox daemon -/

/-- A step of the main loop. -/
def Step.isMain : Step → Bool
  | .main _ => true
  | _ => false

/-- The steps of the main loop until it answers a pending request, with
`waiting` writes deferred. -/
def LoopPc.distance (waiting : Nat) : LoopPc → Nat
  | .serve _ => 1
  | .poll => 2
  | .retry => 3
  | .drain => 2 * waiting + 4
  | .saved _ => 2 * waiting + 5
  | .apply _ => 2 * waiting + 5

theorem LoopPc.distance_le (pc : LoopPc) (waiting : Nat) :
    0 < pc.distance waiting ∧ pc.distance waiting ≤ 2 * waiting + 5 := by
  cases pc <;> simp only [distance] <;> omega

namespace Mailbox

variable {W : Wiring} {s : Mailbox}

/-- The same for the daemon as it is. -/
def distance (s : Mailbox) : Nat := s.main.distance s.deferred.size

theorem distance_stepMain (again : Bool) (hwait : s.pending = true)
    (hafter : (s.stepMain W again).pending = true) :
    (s.stepMain W again).distance + 1 ≤ s.distance := by
  unfold distance
  cases hpc : s.main with
  | poll =>
      simp only [stepMain, hpc, hwait, if_true]
      exact Nat.le_refl 2
  | serve req =>
      simp only [stepMain, hpc] at hafter
      have hcleared : pending { s.answer req s.d with
          main := if reqRw req then .apply req else .drain } = false := pending_of_mbxReq rfl
      rw [hcleared] at hafter
      cases hafter
  | apply req =>
      simp only [stepMain, hpc]
      exact Nat.le_refl _
  | drain =>
      simp only [stepMain, hpc]
      cases hpop : s.deferred.pop with
      | none => exact Nat.le_add_left 4 _
      | some r =>
          have hsize := RingBuffer.size_pop hpop
          simp only [LoopPc.distance]
          omega
  | saved data =>
      simp only [stepMain, hpc]
      exact Nat.le_refl _
  | retry =>
      simp only [stepMain, hpc]
      exact Nat.le_refl 3

theorem pending_serveSafe (csr0 csr3 : U16) (req : U64) :
    (s.serveSafe W csr0 csr3 req).pending = false := by
  unfold serveSafe
  dsimp only
  split
  · split
    · exact pending_of_mbxReq rfl
    · split <;> exact pending_of_mbxReq rfl
  · exact pending_of_mbxReq rfl

theorem ranks_pending (W : Wiring) : Ranks (step W) Step.isMain (fun s => s.pending = true)
    distance := by
  intro s hwait
  refine ⟨(s.main.distance_le _).1, fun e hafter => ?_⟩
  cases e with
  | main again => exact distance_stepMain again hwait hafter
  | post req =>
      have hsame : s.step W (.post req) = s := if_neg (by simp [posts, hwait])
      rw [hsame]
      exact Nat.le_refl _
  | safePoll =>
      simp only [step]
      split <;> exact Nat.le_refl _
  | safeServe csr0 csr3 =>
      simp only [step] at hafter ⊢
      cases hsafe : s.safe with
      | none => exact Nat.le_refl _
      | some req =>
          simp only [hsafe] at hafter
          rw [pending_serveSafe] at hafter
          cases hafter
  | recv rxbuf len => exact Nat.le_refl _
  | host ram stack => exact Nat.le_refl _

end Mailbox

/-- Among any nineteen steps of the main loop, whatever happens between them,
is a moment when the request slot is empty. If main loop and
`service_bridge_safe` kept out of each other's way until then (`Apart`), every
request posted has been answered, once and in order. -/
theorem mailbox_responds (W : Wiring) (d : Daemon) (w : World) (steps more : List Step)
    (hmain : 19 ≤ more.countP Step.isMain) :
    let s := Mailbox.start d w
    ∃ pre post, more = pre ++ post ∧ (Mailbox.run W (steps ++ pre) s).pending = false ∧
      (Watch (Mailbox.step W) Mailbox.Apart s (steps ++ pre) →
        (Mailbox.run W (steps ++ pre) s).answers.map Prod.fst =
          (Mailbox.run W (steps ++ pre) s).posted) := by
  intro s
  have hrank : (Mailbox.run W steps s).distance ≤ 19 := by
    have hsize := (Mailbox.run W steps s).deferred.size_lt
    have hle := (LoopPc.distance_le (Mailbox.run W steps s).main
      (Mailbox.run W steps s).deferred.size).2
    unfold Mailbox.distance
    omega
  obtain ⟨pre, post, hmore, hempty⟩ :=
    (Mailbox.ranks_pending W).response (Nat.le_trans hrank hmain)
  have hrun : Mailbox.run W (steps ++ pre) s =
      pre.foldl (Mailbox.step W) (Mailbox.run W steps s) := List.foldl_append
  rw [← hrun] at hempty
  have hpending := Bool.eq_false_of_not_eq_true hempty
  refine ⟨pre, post, hmore, hpending, fun ha => ?_⟩
  have hposted := ((Mailbox.Answering.start d w).run ha).posted
  rw [Mailbox.unanswered, hpending] at hposted
  exact (List.append_nil _).symm.trans hposted

/-- A request posted while the main loop has two deferred writes to make; CSR0
is read by `service_bridge_safe` before that. -/
def behindDeferred : List Step :=
  viaMain (.write A2065_RDP_OFF CSR0.INIT) ++ viaSafe (.write A2065_RDP_OFF CSR0.STRT) ++
    viaSafe (.write A2065_RDP_OFF CSR0.TDMD) ++ viaSafe (.read A2065_RDP_OFF) ++
    [.post (Request.read A2065_RDP_OFF).word]

instance Mailbox.decidableApart (s : Mailbox) : (e : Step) → Decidable (s.Apart e)
  | .main _ => inferInstanceAs (Decidable (s.main = .poll → _ = true → s.safe = none))
  | .safePoll =>
      match h : s.main with
      | .serve req => decidable_of_iff (¬ s.pending = true) (by simp [Mailbox.Apart, h])
      | .poll | .apply _ | .drain | .saved _ | .retry =>
          .isTrue fun _ req hreq => by rw [h] at hreq; cases hreq
  | .post _ | .safeServe _ _ | .recv _ _ | .host _ _ => .isTrue trivial

theorem mailbox_responds_behind :
    ∃ pre post, List.replicate 19 (Step.main false) = pre ++ post ∧
      let e := Mailbox.run .null (behindDeferred ++ pre) atReset
      e.pending = false ∧ e.answers.map Prod.fst = e.posted := by
  obtain ⟨pre, post, hmore, hempty, hanswered⟩ := mailbox_responds .null (registersReset .boot)
    .blank behindDeferred (List.replicate 19 (Step.main false)) (by decide)
  refine ⟨pre, post, hmore, hempty, hanswered ?_⟩
  have hall : Watch (Mailbox.step .null) Mailbox.Apart atReset
      (behindDeferred ++ List.replicate 19 (Step.main false)) := by decide +kernel
  rw [hmore, ← List.append_assoc] at hall
  exact ((Watch.append _ _ _).mp hall).1

end A2065
