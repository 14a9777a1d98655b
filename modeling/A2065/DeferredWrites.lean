import A2065.MainDdr3

/-!
# Requests in posting order

The reference is serial: one register access after the other, in the order
the FPGA posted them, with the daemon's other operations somewhere in between.
`Serial` says that a list of answers and a final state come from such a run.

A deferred RDP write is a bare value. What it does is decided when it is
drained, so everything served while it waits must leave that alone.
-/

namespace A2065

open Bits

/-- One entry of a serial run. -/
inductive Item where
  | write (addr : U8) (data : U16)
  | read (addr : U8) (result : U16)
  | op (m : Move)

namespace Item

/-- What the item does to the daemon. A read has no effect. -/
def apply (W : Wiring) (s : Sys) : Item → Sys
  | write addr data => (Move.op (.wput addr data)).apply W s
  | read _ _ => s
  | op m => m.apply W s

/-- A read shows what `chip_wget` returns at this point. -/
def Right (s : Sys) : Item → Prop
  | read addr result => result = chipWget addr s.1
  | _ => True

/-- The request the item answers, with the answer. -/
def answer : Item → Option (Request × U16)
  | write addr data => some (.write addr data, 0)
  | read addr result => some (.read addr, result)
  | op _ => none

/-- The move, for an item that is none of the two requests. -/
def move : Item → Option Move
  | op m => some m
  | _ => none

end Item

/-- `answers` and `ops` are those of a serial run from `s₀` to `s`. -/
def Serial (W : Wiring) (s₀ : Sys) (answers : List (Request × U16)) (ops : List Move)
    (s : Sys) : Prop :=
  ∃ items : List Item, items.filterMap Item.answer = answers ∧ items.filterMap Item.move = ops ∧
    Watch (Item.apply W) Item.Right s₀ items ∧ items.foldl (Item.apply W) s₀ = s

namespace Serial

variable {W : Wiring} {s₀ s : Sys} {answers : List (Request × U16)} {ops : List Move}

theorem nil (W : Wiring) (s₀ : Sys) : Serial W s₀ [] [] s₀ := ⟨[], rfl, rfl, trivial, rfl⟩

theorem snoc (h : Serial W s₀ answers ops s) (i : Item) (hi : i.Right s) :
    Serial W s₀ (answers ++ i.answer.toList) (ops ++ i.move.toList) (i.apply W s) := by
  obtain ⟨items, rfl, rfl, hright, rfl⟩ := h
  refine ⟨items ++ [i], ?_, ?_, ?_, ?_⟩
  · cases i <;> simp [Item.answer]
  · cases i <;> simp [Item.move]
  · exact (Watch.append _ _ _).mpr ⟨hright, hi, trivial⟩
  · rw [List.foldl_append]
    rfl

theorem write (h : Serial W s₀ answers ops s) (addr : U8) (data : U16) :
    Serial W s₀ (answers ++ [(.write addr data, 0)]) ops
      ((Move.op (.wput addr data)).apply W s) := by
  simpa [Item.answer, Item.move, Item.apply] using h.snoc (.write addr data) trivial

theorem read (h : Serial W s₀ answers ops s) (addr : U8) :
    Serial W s₀ (answers ++ [(.read addr, chipWget addr s.1)]) ops s := by
  simpa [Item.answer, Item.move, Item.apply] using h.snoc (.read addr _) rfl

theorem op (h : Serial W s₀ answers ops s) (m : Move) :
    Serial W s₀ answers (ops ++ [m]) (m.apply W s) := by
  simpa [Item.answer, Item.move, Item.apply] using h.snoc (.op m) trivial

end Serial

namespace Mailbox

/-- No deferred write waits, in the queue or in the main loop's hand. -/
def settled (s : Mailbox) : Bool := s.deferred.isEmpty && s.main.taken.isNone

/-- Nothing is posted, in hand or deferred. -/
def Drained (s : Mailbox) : Prop :=
  s.pending = false ∧ s.main.inHand = none ∧ s.safe = none ∧ s.settled = true

/-- Every posted request was answered once and in order, and answers and state
are those of a serial run. -/
def InOrder (W : Wiring) (s₀ : Sys) (s : Mailbox) : Prop :=
  s.answers.map Prod.fst = s.posted ∧ Serial W s₀ s.answers s.ops s.sys

/-- What `service_bridge_safe` may serve: while an RDP write is deferred, only
further RDP writes, as long as there is room; no read of CSR0 or CSR3. -/
def Defers (s : Mailbox) (req : U64) : Prop :=
  if reqRw req then
    if reqAddr req = A2065_RAP_OFF then s.settled = true else s.deferred.isFull = false
  else
    s.settled = true ∧ (reqAddr req = A2065_RAP_OFF ∨ (s.d.rap ≠ 0 ∧ s.d.rap ≠ 3))

/-- The main loop takes no request while one is deferred or taken elsewhere;
`service_bridge_safe` takes none while the main loop has one in hand, and
serves only what leaves the deferred writes alone (`Defers`). -/
def Orderly (s : Mailbox) : Step → Prop
  | .main _ => s.main = .poll → s.pending = true →
      s.safe = none ∧ s.deferred.isEmpty = true
  | .safePoll => s.pending = true → s.main.inHand = none
  | .safeServe _ _ => ∀ req ∈ s.safe, s.Defers req
  | _ => True

/-! ## One answer for each request

For this much the two have to keep out of each other's way, and no more. -/

/-- The main loop looks for a request only while `service_bridge_safe` has
none, and that one only while the main loop has none that it has not
answered. -/
def Apart (s : Mailbox) : Step → Prop
  | .main _ => s.main = .poll → s.pending = true → s.safe = none
  | .safePoll => s.pending = true → ∀ req, s.main ≠ .serve req
  | _ => True

theorem Orderly.apart {s : Mailbox} {e : Step} (h : s.Orderly e) : s.Apart e := by
  cases e with
  | main again => exact fun hpc hp => (h hpc hp).1
  | safePoll =>
      intro hp req hserve
      have hidle := h hp
      rw [hserve] at hidle
      cases hidle
  | _ => trivial

/-- The request in the slot, if there is one. -/
def unanswered (s : Mailbox) : List Request := if s.pending then [.ofWord s.mbxReq] else []

/-- The requests posted are those answered and the one in the slot, and of the
two readers of the slot at most one has it. -/
structure Answering (s : Mailbox) : Prop where
  posted : s.answers.map Prod.fst ++ s.unanswered = s.posted
  safe : ∀ req, s.safe = some req → s.mbxReq = req ∧ s.pending = true ∧ ∀ r, s.main ≠ .serve r
  serve : ∀ req, s.main = .serve req → s.mbxReq = req ∧ s.pending = true

theorem pending_of_mbxReq {s : Mailbox} (h : s.mbxReq = 0) : s.pending = false := by
  rw [pending, h]
  decide

theorem unanswered_of_mbxReq {s : Mailbox} (h : s.mbxReq = 0) : s.unanswered = [] := by
  rw [unanswered, pending_of_mbxReq h]
  rfl

namespace Answering

variable {W : Wiring} {s s' : Mailbox}

theorem start (d : Daemon) (w : World) : Answering (start d w) where
  posted := by
    rw [unanswered_of_mbxReq (s := Mailbox.start d w) rfl]
    rfl
  safe := by intro req h; cases h
  serve := by intro req h; cases h

/-- The slot is as it was, and the main loop does not have it. -/
theorem frame (h : Answering s) (hmbx : s'.mbxReq = s.mbxReq) (hans : s'.answers = s.answers)
    (hposted : s'.posted = s.posted) (hsafe : s'.safe = s.safe)
    (hmain : ∀ r, s'.main ≠ .serve r) : Answering s' where
  posted := by
    rw [hans, hposted, unanswered, pending, hmbx]
    exact h.posted
  safe := by
    intro req hreq
    obtain ⟨hreq', hp, -⟩ := h.safe req (hsafe ▸ hreq)
    exact ⟨hmbx.trans hreq', by rw [pending, hmbx]; exact hp, hmain⟩
  serve := fun req hreq => absurd hreq (hmain req)

/-- The request in the slot is answered. -/
theorem answered (h : Answering s) (hp : s.pending = true) {r : U16} (hmbx : s'.mbxReq = 0)
    (hans : s'.answers = s.answers ++ [(.ofWord s.mbxReq, r)]) (hposted : s'.posted = s.posted)
    (hsafe : s'.safe = none) (hmain : ∀ r, s'.main ≠ .serve r) : Answering s' where
  posted := by
    have hold := h.posted
    rw [unanswered, if_pos hp] at hold
    rw [unanswered_of_mbxReq hmbx, List.append_nil, hans, hposted, ← hold, List.map_append]
    rfl
  safe := by
    intro req hreq
    rw [hsafe] at hreq
    cases hreq
  serve := fun req hreq => absurd hreq (hmain req)

/-- `service_bridge_safe` has nothing while the main loop has the request. -/
theorem safe_of_serve (h : Answering s) {req : U64} (hmain : s.main = .serve req) :
    s.safe = none := by
  cases hsafe : s.safe with
  | none => rfl
  | some r => exact absurd hmain ((h.safe r hsafe).2.2 req)

theorem post (h : Answering s) {req : U64} (hposts : s.posts req = true) :
    Answering { s with mbxReq := req, posted := s.posted ++ [.ofWord req] } := by
  simp only [posts, Bool.and_eq_true, Bool.not_eq_true'] at hposts
  obtain ⟨⟨hfree, hreq⟩, -⟩ := hposts
  have hold := h.posted
  rw [unanswered, hfree] at hold
  refine ⟨?_, fun r hr => ?_, fun r hr => ?_⟩
  · show s.answers.map Prod.fst ++ (if tst req MBX_PENDING then [Request.ofWord req] else []) =
      s.posted ++ [Request.ofWord req]
    rw [if_pos hreq, ← hold]
    simp
  · -- an empty slot: nobody has read a request that is still in it
    rw [(h.safe r hr).2.1] at hfree
    cases hfree
  · rw [(h.serve r hr).2] at hfree
    cases hfree

theorem stepMain (h : Answering s) (again : Bool) (ha : s.Apart (.main again)) :
    Answering (s.stepMain W again) := by
  cases hpc : s.main with
  | poll =>
      simp only [Mailbox.stepMain, hpc]
      cases hp : s.pending with
      | true =>
          have hsafe := ha hpc hp
          refine ⟨h.posted, fun r hr => ?_, fun r hr => ?_⟩
          · rw [show s.safe = some r from hr] at hsafe
            cases hsafe
          · cases hr
            exact ⟨rfl, hp⟩
      | false => exact h.frame rfl rfl rfl rfl fun r hr => by cases hr
  | serve req =>
      obtain ⟨rfl, hp⟩ := h.serve req hpc
      simp only [Mailbox.stepMain, hpc]
      exact h.answered hp rfl rfl rfl (h.safe_of_serve hpc) fun r hr => by split at hr <;> cases hr
  | apply req =>
      simp only [Mailbox.stepMain, hpc]
      exact h.frame rfl rfl rfl rfl fun r hr => by cases hr
  | drain =>
      simp only [Mailbox.stepMain, hpc]
      cases s.deferred.pop with
      | none => exact h.frame rfl rfl rfl rfl fun r hr => by cases hr
      | some x => exact h.frame rfl rfl rfl rfl fun r hr => by cases hr
  | saved data =>
      simp only [Mailbox.stepMain, hpc]
      exact h.frame rfl rfl rfl rfl fun r hr => by cases hr
  | retry =>
      simp only [Mailbox.stepMain, hpc]
      cases again with
      | true => exact h.frame rfl rfl rfl rfl fun r hr => by cases hr
      | false => exact h.frame rfl rfl rfl rfl fun r hr => by cases hr

theorem serveSafe (h : Answering s) (csr0 csr3 : U16) {req : U64} (hreq : s.safe = some req) :
    Answering (s.serveSafe W csr0 csr3 req) := by
  obtain ⟨rfl, hp, hmain⟩ := h.safe req hreq
  unfold Mailbox.serveSafe
  dsimp only
  split
  · split
    · exact h.answered hp rfl rfl rfl rfl hmain
    · split
      · exact h.answered hp rfl rfl rfl rfl hmain
      · exact h.answered hp rfl rfl rfl rfl hmain
  · exact h.answered hp rfl rfl rfl rfl hmain

theorem step (h : Answering s) (e : Step) (ha : s.Apart e) : Answering (s.step W e) := by
  cases e with
  | post req =>
      simp only [Mailbox.step]
      split
      case isTrue hposts => exact h.post hposts
      case isFalse => exact h
  | main again => exact h.stepMain again ha
  | safePoll =>
      simp only [Mailbox.step]
      split
      case isTrue hp =>
        refine ⟨h.posted, fun r hr => ?_, h.serve⟩
        cases hr
        exact ⟨rfl, hp.1, ha hp.1⟩
      case isFalse => exact h
  | safeServe csr0 csr3 =>
      simp only [Mailbox.step]
      cases hsafe : s.safe with
      | none => exact h
      | some req => exact h.serveSafe csr0 csr3 hsafe
  | recv rxbuf len => exact ⟨h.posted, h.safe, h.serve⟩
  | host ram stack => exact ⟨h.posted, h.safe, h.serve⟩

/-- Whole runs. -/
theorem run {steps : List Step} (h : Answering s)
    (ha : Watch (Mailbox.step W) Apart s steps) : Answering (Mailbox.run W steps s) :=
  Watch.preserves (fun _ e hs he => hs.step e he) h ha

end Answering

/-! ## What an orderly run keeps -/

/-- The answer to an RDP write that was deferred. -/
def deferredAnswer (v : U16) : Request × U16 := (.write A2065_RDP_OFF v, 0)

/-- The answered write that the main loop is about to make. -/
def waiting : LoopPc → List (Request × U16)
  | .apply req => [(.ofWord req, 0)]
  | .saved data => [deferredAnswer data]
  | _ => []

/-- The answers are those of a serial run so far, of the write in hand and of
the deferred ones. -/
structure Inv (W : Wiring) (s₀ : Sys) (s : Mailbox) : Prop extends Answering s where
  port : s.pending = true → reqAddr s.mbxReq = A2065_RDP_OFF ∨ reqAddr s.mbxReq = A2065_RAP_OFF
  inHand : ∀ req, s.main.inHand = some req → s.safe = none ∧ s.deferred.isEmpty = true
  apply : ∀ req, s.main = .apply req → reqRw req = true
  order : ∃ xs done, s.deferred.Stores xs ∧ Serial W s₀ done s.ops s.sys ∧
    done ++ waiting s.main ++ xs.map deferredAnswer = s.answers

variable {W : Wiring} {s₀ : Sys} {s : Mailbox}

theorem inv_start (W : Wiring) (d : Daemon) (w : World) : Inv W (d, w) (start d w) where
  toAnswering := .start d w
  port h := by rw [pending_of_mbxReq (s := start d w) rfl] at h; cases h
  inHand := by intro req h; cases h
  apply := by intro req h; cases h
  order := ⟨[], [], ⟨by decide, rfl, by intro k hk; cases hk⟩, .nil W (d, w), rfl⟩

theorem waiting_eq_nil {pc : LoopPc} (h : pc.inHand = none) (ht : pc.taken = none) :
    waiting pc = [] := by
  cases pc with
  | apply req => cases h
  | saved data => cases ht
  | _ => rfl

theorem settled_iff : s.settled = true ↔ s.deferred.isEmpty = true ∧ s.main.taken = none := by
  rw [settled, Bool.and_eq_true, Option.isNone_iff_eq_none]

/-- A register that the read does not show may be anything. -/
theorem chipWget_setCsr (addr : U8) (d : Daemon) (n : Nat) (c : U16)
    (h : addr = A2065_RAP_OFF ∨ d.rap.toNat ≠ n) :
    chipWget addr (d.setCsr n c) = chipWget addr d := by
  unfold chipWget
  by_cases haddr : addr = A2065_RAP_OFF
  · rw [if_pos haddr, if_pos haddr]
    rfl
  · rw [if_neg haddr, if_neg haddr]
    have hcsr : (d.setCsr n c).csr d.rap.toNat = d.csr d.rap.toNat :=
      Function.update_of_ne (h.resolve_left haddr) _ _
    simp only [Daemon.setCsr] at hcsr ⊢
    simp only [hcsr]

theorem Request.ofWord_write {req : U64} (h : reqRw req = true) :
    Request.ofWord req = .write (reqAddr req) (reqData req) := if_pos h

theorem Request.ofWord_read {req : U64} (h : reqRw req = false) :
    Request.ofWord req = .read (reqAddr req) := if_neg (by simp [h])

/-- With nothing deferred, the answers are those of the serial run so far and
of the write in hand. -/
theorem Inv.order_of_empty (h : Inv W s₀ s) (hempty : s.deferred.isEmpty = true) :
    s.deferred.Stores [] ∧ ∃ done, Serial W s₀ done s.ops s.sys ∧
      done ++ waiting s.main = s.answers := by
  obtain ⟨xs, done, hq, hserial, hans⟩ := h.order
  have hnil := hq.isEmpty_iff.mp hempty
  subst hnil
  exact ⟨hq, done, hserial, by simpa using hans⟩

/-- With no write in hand either, they are those of the serial run. -/
theorem Inv.order_of_settled (h : Inv W s₀ s) (hidle : s.main.inHand = none)
    (hsettled : s.settled = true) :
    s.deferred.Stores [] ∧ Serial W s₀ s.answers s.ops s.sys := by
  obtain ⟨hempty, htaken⟩ := settled_iff.mp hsettled
  obtain ⟨hq, done, hserial, hans⟩ := h.order_of_empty hempty
  rw [waiting_eq_nil hidle htaken, List.append_nil] at hans
  exact ⟨hq, hans ▸ hserial⟩

/-- `service_bridge_safe` has a request only while the main loop has none. -/
theorem Inv.idle_of_safe (h : Inv W s₀ s) {req : U64} (hreq : s.safe = some req) :
    s.main.inHand = none := by
  cases hhand : s.main.inHand with
  | none => rfl
  | some r =>
      have hsafe := (h.inHand r hhand).1
      rw [hreq] at hsafe
      cases hsafe

/-- Nothing more is asked of the main loop while it has no request in hand. -/
theorem Inv.of_idle (ha : Answering s) (hpc : s.main.inHand = none)
    (hport : s.pending = true →
      reqAddr s.mbxReq = A2065_RDP_OFF ∨ reqAddr s.mbxReq = A2065_RAP_OFF)
    (horder : ∃ xs done, s.deferred.Stores xs ∧ Serial W s₀ done s.ops s.sys ∧
      done ++ waiting s.main ++ xs.map deferredAnswer = s.answers) : Inv W s₀ s where
  toAnswering := ha
  port := hport
  inHand := by
    intro req hreq
    rw [hpc] at hreq
    cases hreq
  apply := by
    intro req hreq
    rw [hreq] at hpc
    cases hpc
  order := horder

theorem port_of_mbxReq (h : s.mbxReq = 0) (hp : s.pending = true) :
    reqAddr s.mbxReq = A2065_RDP_OFF ∨ reqAddr s.mbxReq = A2065_RAP_OFF := by
  rw [pending_of_mbxReq h] at hp
  cases hp

/-! ## The main loop -/

section Main

variable {again : Bool} (h : Inv W s₀ s) (ha : Answering (s.stepMain W again))

include h ha

theorem inv_poll (hpc : s.main = .poll)
    (ho : s.pending = true → s.safe = none ∧ s.deferred.isEmpty = true) :
    Inv W s₀ (s.stepMain W again) := by
  have horder := h.order
  rw [hpc] at horder
  simp only [stepMain, hpc] at ha ⊢
  cases hp : s.pending with
  | false =>
      simp only [hp, Bool.false_eq_true, if_false] at ha
      exact .of_idle ha rfl (fun hp' => h.port hp') horder
  | true =>
      simp only [hp, if_true] at ha
      exact ⟨ha, h.port, fun _ _ => ho hp, fun req hreq => (by cases hreq), horder⟩

/-- An answered read is the last access of the serial run. -/
theorem inv_serve_read {req : U64} (hpc : s.main = .serve req) (hrw : reqRw req = false) :
    Inv W s₀ (s.stepMain W again) := by
  obtain ⟨rfl, -⟩ := h.serve req hpc
  obtain ⟨-, hempty⟩ := h.inHand s.mbxReq (by rw [hpc]; rfl)
  obtain ⟨hq, done, hserial, hans⟩ := h.order_of_empty hempty
  rw [hpc, show waiting (.serve s.mbxReq) = [] from rfl, List.append_nil] at hans
  simp only [stepMain, hpc, hrw, Bool.false_eq_true, if_false] at ha ⊢
  refine .of_idle ha rfl (port_of_mbxReq rfl)
    ⟨[], _, hq, hserial.read (reqAddr s.mbxReq), ?_⟩
  simp [answer, hans, hrw, Request.ofWord_read hrw, sys, waiting]

/-- An answered write stays in hand. -/
theorem inv_serve_write {req : U64} (hpc : s.main = .serve req) (hrw : reqRw req = true) :
    Inv W s₀ (s.stepMain W again) := by
  obtain ⟨rfl, -⟩ := h.serve req hpc
  have hhand := h.inHand s.mbxReq (by rw [hpc]; rfl)
  obtain ⟨hq, done, hserial, hans⟩ := h.order_of_empty hhand.2
  rw [hpc, show waiting (.serve s.mbxReq) = [] from rfl, List.append_nil] at hans
  simp only [stepMain, hpc, hrw, if_true] at ha ⊢
  refine ⟨ha, port_of_mbxReq rfl, fun _ _ => hhand, ?_, [], done, hq, hserial, ?_⟩
  · intro r hr
    cases hr
    exact hrw
  · simp [waiting, answer, hans, hrw]

theorem inv_apply {req : U64} (hpc : s.main = .apply req) : Inv W s₀ (s.stepMain W again) := by
  obtain ⟨-, hempty⟩ := h.inHand req (by rw [hpc]; rfl)
  obtain ⟨hq, done, hserial, hans⟩ := h.order_of_empty hempty
  rw [hpc, waiting, Request.ofWord_write (h.apply req hpc)] at hans
  simp only [stepMain, hpc] at ha ⊢
  refine .of_idle ha rfl h.port ⟨[], _, hq, hserial.write _ _, ?_⟩
  rw [List.map_nil, List.append_nil]
  exact (List.append_nil _).trans hans

/-- The oldest deferred write is taken in hand. -/
theorem inv_drain (hpc : s.main = .drain) : Inv W s₀ (s.stepMain W again) := by
  obtain ⟨xs, done, hq, hserial, hans⟩ := h.order
  rw [hpc, show waiting .drain = [] from rfl, List.append_nil] at hans
  simp only [stepMain, hpc] at ha ⊢
  cases xs with
  | nil =>
      rw [hq.pop_nil] at ha ⊢
      exact .of_idle ha rfl h.port ⟨[], done, hq, hserial, by simpa [waiting] using hans⟩
  | cons x xs =>
      obtain ⟨q', hpop, hq'⟩ := hq.pop_cons
      rw [hpop] at ha ⊢
      refine .of_idle ha rfl h.port ⟨xs, done, hq', hserial, ?_⟩
      rw [waiting, List.append_assoc]
      exact hans

theorem inv_saved {data : U16} (hpc : s.main = .saved data) : Inv W s₀ (s.stepMain W again) := by
  obtain ⟨xs, done, hq, hserial, hans⟩ := h.order
  rw [hpc] at hans
  simp only [stepMain, hpc] at ha ⊢
  refine .of_idle ha rfl h.port ⟨xs, _, hq, hserial.write _ _, ?_⟩
  rw [show waiting .drain = [] from rfl, List.append_nil]
  exact hans

end Main

/-- Operations that are no register access find their place in the serial run
whatever is deferred. -/
theorem Inv.other (h : Inv W s₀ s) (m : Move) : Inv W s₀ (s.other W m) := by
  obtain ⟨xs, done, hq, hserial, hans⟩ := h.order
  exact ⟨⟨h.posted, h.safe, h.serve⟩, h.port, h.inHand, h.apply, xs, done, hq, hserial.op m, hans⟩

theorem inv_retry (h : Inv W s₀ s) (again : Bool) (ha : Answering (s.stepMain W again))
    (hpc : s.main = .retry) : Inv W s₀ (s.stepMain W again) := by
  have horder := h.order
  have hother := (h.other (.op .transmit)).order
  rw [show (s.other W (.op .transmit)).main = s.main from rfl, hpc] at hother
  rw [hpc] at horder
  simp only [stepMain, hpc] at ha ⊢
  cases again with
  | true => exact .of_idle ha rfl h.port hother
  | false => exact .of_idle ha rfl h.port horder

theorem inv_stepMain (h : Inv W s₀ s) (again : Bool) (ho : s.Orderly (.main again)) :
    Inv W s₀ (s.stepMain W again) := by
  have ha : Answering (s.stepMain W again) := h.toAnswering.stepMain again ho.apart
  cases hpc : s.main with
  | poll => exact inv_poll h ha hpc (ho hpc)
  | serve req =>
      cases hrw : reqRw req with
      | true => exact inv_serve_write h ha hpc hrw
      | false => exact inv_serve_read h ha hpc hrw
  | apply req => exact inv_apply h ha hpc
  | drain => exact inv_drain h ha hpc
  | saved data => exact inv_saved h ha hpc
  | retry => exact inv_retry h again ha hpc

/-! ## The calls in between -/

theorem chipWget_during (addr : U8) (d : Daemon) (csr0 csr3 : U16)
    (h : addr = A2065_RAP_OFF ∨ (d.rap ≠ 0 ∧ d.rap ≠ 3)) :
    chipWget addr ((d.setCsr 0 csr0).setCsr 3 csr3) = chipWget addr d := by
  have hne : ∀ n : U8, d.rap ≠ n → d.rap.toNat ≠ n.toNat := fun n hn heq =>
    hn (BitVec.eq_of_toNat_eq heq)
  have h0 : addr = A2065_RAP_OFF ∨ d.rap.toNat ≠ 0 := h.imp id fun h => hne 0 h.1
  have h3 : addr = A2065_RAP_OFF ∨ (d.setCsr 0 csr0).rap.toNat ≠ 3 := h.imp id fun h => hne 3 h.2
  rw [chipWget_setCsr _ _ _ _ h3, chipWget_setCsr _ _ _ _ h0]

theorem inv_serveSafe (h : Inv W s₀ s) (csr0 csr3 : U16) {req : U64} (hreq : s.safe = some req)
    (hd : s.Defers req) : Inv W s₀ (s.serveSafe W csr0 csr3 req) := by
  have ha : Answering (s.serveSafe W csr0 csr3 req) := h.toAnswering.serveSafe csr0 csr3 hreq
  obtain ⟨rfl, hp, -⟩ := h.safe req hreq
  have hidle := h.idle_of_safe hreq
  unfold serveSafe at ha ⊢
  cases hrw : reqRw s.mbxReq with
  | false =>
      -- a read of a register the operation in progress leaves alone
      rw [Defers, if_neg (by simp [hrw])] at hd
      obtain ⟨hq, hserial⟩ := h.order_of_settled hidle hd.1
      have htaken := (settled_iff.mp hd.1).2
      simp only [hrw, Bool.false_eq_true, if_false] at ha
      refine .of_idle ha hidle (port_of_mbxReq rfl)
        ⟨[], _, hq, hserial.read (reqAddr s.mbxReq), ?_⟩
      simp [answer, hrw, Request.ofWord_read hrw, sys, chipWget_during _ _ _ _ hd.2,
        waiting_eq_nil hidle htaken]
  | true =>
      rw [Defers, if_pos hrw] at hd
      by_cases hrap : reqAddr s.mbxReq = A2065_RAP_OFF
      · -- a RAP write, made at once with nothing deferred
        simp only [hrap, if_true] at hd
        obtain ⟨hq, hserial⟩ := h.order_of_settled hidle hd
        have htaken := (settled_iff.mp hd).2
        simp only [hrw, hrap, if_true] at ha ⊢
        refine .of_idle ha hidle (port_of_mbxReq rfl)
          ⟨[], _, hq, hserial.write A2065_RAP_OFF _, ?_⟩
        simp [answer, make, hrw, Request.ofWord_write hrw, hrap, waiting_eq_nil hidle htaken]
      · -- an RDP write, deferred behind the others
        have hrdp : reqAddr s.mbxReq = A2065_RDP_OFF := (h.port hp).resolve_right hrap
        have hzero : reqAddr s.mbxReq = 0 := hrdp
        simp only [hrap, if_false] at hd
        obtain ⟨xs, done, hq, hserial, hans⟩ := h.order
        simp only [hrw, hrap, if_true, if_false] at ha ⊢
        rw [if_pos hzero] at ha ⊢
        refine .of_idle ha hidle (port_of_mbxReq rfl) ⟨_, done, hq.push hd, hserial, ?_⟩
        simp [answer, ← hans, hrw, Request.ofWord_write hrw, hrdp, deferredAnswer]

theorem inv_post (h : Inv W s₀ s) {req : U64} (hposts : s.posts req = true) :
    Inv W s₀ { s with mbxReq := req, posted := s.posted ++ [.ofWord req] } := by
  have ha := h.toAnswering.post hposts
  simp only [posts, Bool.and_eq_true, Bool.or_eq_true, beq_iff_eq] at hposts
  exact ⟨ha, fun _ => hposts.2, h.inHand, h.apply, h.order⟩

theorem inv_step (h : Inv W s₀ s) (e : Step) (ho : s.Orderly e) : Inv W s₀ (s.step W e) := by
  cases e with
  | post req =>
      simp only [step]
      split
      case isTrue hposts => exact inv_post h hposts
      case isFalse => exact h
  | main again => exact inv_stepMain h again ho
  | safePoll =>
      have ha : Answering (s.step W .safePoll) := h.toAnswering.step .safePoll ho.apart
      simp only [step] at ha ⊢
      split
      case isTrue hp =>
        rw [if_pos hp] at ha
        exact .of_idle ha (ho hp.1) h.port h.order
      case isFalse => exact h
  | safeServe csr0 csr3 =>
      simp only [step]
      cases hsafe : s.safe with
      | none => exact h
      | some req => exact inv_serveSafe h csr0 csr3 hsafe (ho req hsafe)
  | recv rxbuf len => exact h.other _
  | host ram stack => exact h.other _

end Mailbox

open Mailbox

/-- In every run whose steps are orderly, once the queue is drained, every
request was answered once, and RAP, registers, boardram and answers are those
of the requests one by one in posting order. -/
theorem requests_in_order (W : Wiring) (d : Daemon) (w : World) (steps : List Step)
    (ho : Watch (Mailbox.step W) Orderly (Mailbox.start d w) steps)
    (hdrained : (Mailbox.run W steps (Mailbox.start d w)).Drained) :
    InOrder W (d, w) (Mailbox.run W steps (Mailbox.start d w)) := by
  have hstep : ∀ s e, Inv W (d, w) s → s.Orderly e → Inv W (d, w) (s.step W e) :=
    fun s e hs he => inv_step hs e he
  have hinv : Inv W (d, w) (Mailbox.run W steps (Mailbox.start d w)) :=
    Watch.preserves hstep (inv_start W d w) ho
  generalize Mailbox.run W steps (Mailbox.start d w) = s at hinv hdrained
  obtain ⟨hp, hidle, -, hsettled⟩ := hdrained
  have hposted := hinv.posted
  rw [unanswered, hp] at hposted
  exact ⟨by simpa using hposted, (hinv.order_of_settled hidle hsettled).2⟩

/-! ## Runs -/

/-- The word the FPGA posts. -/
def Request.word : Request → U64
  | .read addr => 1 ||| addr.setWidth 64 <<< 2
  | .write addr data => 1 ||| 2 ||| addr.setWidth 64 <<< 2 ||| data.setWidth 64 <<< 10

/-- A request served by the main loop: taken, answered, made if it is a
write. -/
def viaMain (r : Request) : List Step :=
  .post r.word :: List.replicate 3 (.main false)

/-- A request taken and answered by `service_bridge_safe`. -/
def viaSafe (r : Request) : List Step := [.post r.word, .safePoll, .safeServe 0 0]

/-- The daemon after start-up, with CSR1 and the boardram zero. -/
def atReset : Mailbox := .start (registersReset .boot) .blank

instance Mailbox.decidableDrained (s : Mailbox) : Decidable s.Drained :=
  inferInstanceAs (Decidable (_ ∧ _))

instance Mailbox.decidableDefers (s : Mailbox) (req : U64) : Decidable (s.Defers req) :=
  inferInstanceAs (Decidable (if reqRw req = true then
    if reqAddr req = A2065_RAP_OFF then s.settled = true else s.deferred.isFull = false
    else s.settled = true ∧ (reqAddr req = A2065_RAP_OFF ∨ (s.d.rap ≠ 0 ∧ s.d.rap ≠ 3))))

instance Mailbox.decidableOrderly (s : Mailbox) : (e : Step) → Decidable (s.Orderly e)
  | .main _ => inferInstanceAs (Decidable (s.main = .poll → _ = true → s.safe = none ∧ _ = true))
  | .safePoll => inferInstanceAs (Decidable (_ = true → s.main.inHand = none))
  | .safeServe _ _ =>
      match h : s.safe with
      | none => .isTrue (by simp [Mailbox.Orderly, h])
      | some req => decidable_of_iff (s.Defers req) (by simp [Mailbox.Orderly, h])
  | .post _ | .recv _ _ | .host _ _ => .isTrue trivial

/-- INIT by the main loop; while `chip_init` reads the init block, RAP is
written and an RDP write is deferred, which the main loop drains. -/
def deferredBehindRap : List Step :=
  viaMain (.write A2065_RDP_OFF CSR0.INIT) ++ viaSafe (.write A2065_RAP_OFF 1) ++
    viaSafe (.write A2065_RDP_OFF 0x1234) ++ List.replicate 2 (.main false)

theorem requests_in_order_behind_rap :
    InOrder .null (registersReset .boot, .blank)
      (Mailbox.run .null deferredBehindRap atReset) :=
  requests_in_order .null _ _ deferredBehindRap (by decide +kernel) (by decide +kernel)

/-- The same, but the RDP write is deferred first. -/
def deferredBeforeRap : List Step :=
  viaMain (.write A2065_RDP_OFF CSR0.INIT) ++ viaSafe (.write A2065_RDP_OFF CSR0.STRT) ++
    viaSafe (.write A2065_RAP_OFF 1) ++ List.replicate 2 (.main false)

/-- A serial run without other operations is determined by its requests. -/
theorem Serial.eq_foldl {W : Wiring} {s₀ s : Sys} {answers : List (Request × U16)}
    (h : Serial W s₀ answers [] s) :
    s = answers.foldl (fun s a => match a.1 with
      | .write addr data => (Move.op (.wput addr data)).apply W s
      | .read _ => s) s₀ := by
  obtain ⟨items, rfl, hops, -, rfl⟩ := h
  induction items generalizing s₀ with
  | nil => rfl
  | cons i items ih =>
      cases i with
      | write addr data => exact ih hops
      | read addr result => exact ih hops
      | op m => simp [Item.move] at hops

/-- The deferred STRT is drained under RAP 1 and starts nothing. -/
theorem deferred_write_misdirected :
    ¬ ∀ (W : Wiring) (d : Daemon) (w : World) (steps : List Step),
      (Mailbox.run W steps (Mailbox.start d w)).Drained →
      InOrder W (d, w) (Mailbox.run W steps (Mailbox.start d w)) := by
  intro h
  have hserial := (h .null (registersReset .boot) .blank deferredBeforeRap (by decide +kernel)).2
  have hcsr0 := congrArg (fun s : Sys => s.1.csr0) (Serial.eq_foldl hserial)
  revert hcsr0
  decide +kernel

end A2065
