import Mathlib.Data.List.Basic

/-!
# Bounded response

Several parties move a system, in any order, and the steps of one of them
count. While the system waits, a counted step lowers its rank and no step
raises it; so it does not wait through more counted steps than its rank.
-/

variable {σ ε : Type} {next : σ → ε → σ} {counts : ε → Bool} {Waits : σ → Prop}
  {rank : σ → Nat}

/-- As long as the system waits, its rank pays for the counted steps. -/
def Ranks (next : σ → ε → σ) (counts : ε → Bool) (Waits : σ → Prop) (rank : σ → Nat) : Prop :=
  ∀ s, Waits s → 0 < rank s ∧ ∀ e, Waits (next s e) →
    rank (next s e) + (if counts e then 1 else 0) ≤ rank s

/-- Somewhere on the way the system does not wait. -/
theorem Ranks.response (h : Ranks next counts Waits rank) {s : σ} {es : List ε}
    (hcount : rank s ≤ es.countP counts) :
    ∃ pre post, es = pre ++ post ∧ ¬ Waits (pre.foldl next s) := by
  induction es generalizing s with
  | nil =>
      refine ⟨[], [], rfl, fun hs => ?_⟩
      have hpos := (h s hs).1
      rw [List.countP_nil] at hcount
      exact absurd hcount (Nat.not_le.mpr hpos)
  | cons e es ih =>
      by_cases hs : Waits s
      case neg => exact ⟨[], e :: es, rfl, hs⟩
      by_cases he : Waits (next s e)
      case neg => exact ⟨[e], es, rfl, he⟩
      have hfall := (h s hs).2 e he
      rw [List.countP_cons] at hcount
      obtain ⟨pre, post, rfl, hend⟩ := ih (s := next s e) (by omega)
      exact ⟨e :: pre, post, rfl, hend⟩
