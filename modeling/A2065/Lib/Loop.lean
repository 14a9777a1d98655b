import A2065.Lib.Prog

/-!
# Loops without a bound

`for (;;)` is a body that says after each turn whether there is another one.
Cut off after `n` turns it is a program again (`turns`). Where a measure comes
down from turn to turn, whatever the effects are answered, a loop that is cut
off late enough is the loop itself (`turns_eq`).
-/

namespace Prog

variable {E : Type} {R : E → Type} {α β σ : Type}

theorem Always.of_op {e : E} {k : R e → Prog E R α} {Q : α → Prop} (h : (op e k).Always Q)
    (r : R e) : (k r).Always Q := by
  intro tr a hr
  exact h _ a ⟨r, tr, rfl, hr⟩

/-- What follows a program only has to agree on the results it can have. -/
theorem Always.bind_congr {p : Prog E R α} {f g : α → Prog E R β} {P : α → Prop}
    (hp : p.Always P) (h : ∀ a, P a → f a = g a) : p >>= f = p >>= g := by
  induction p with
  | pure a => exact h a (hp [] a ⟨rfl, rfl⟩)
  | op e k ih =>
      rw [op_bind, op_bind]
      congr 1
      funext r
      exact ih r (hp.of_op r)

/-- At most `n` turns of the loop: its result, or the state it would go on
from. -/
def turns (body : σ → Prog E R (σ ⊕ α)) : Nat → σ → Prog E R (σ ⊕ α)
  | 0, s => Pure.pure (.inl s)
  | n + 1, s => body s >>= Sum.elim (turns body n) fun a => Pure.pure (.inr a)

/-- When each turn that is followed by another one brings `left` down, the loop
ends within `left s + 1` turns, with the result of any `walk` that makes the
same turns. -/
theorem turns_eq {body : σ → Prog E R (σ ⊕ α)} (walk : σ → Prog E R α) (left : σ → Nat)
    (hwalk : ∀ s, walk s = body s >>= Sum.elim walk Pure.pure)
    (hleft : ∀ s, (body s).Always fun r => ∀ s', r = .inl s' → left s' < left s) {n : Nat} {s : σ}
    (hn : left s < n) : turns body n s = walk s >>= fun a => Pure.pure (.inr a) := by
  induction n generalizing s with
  | zero => exact absurd hn (Nat.not_lt_zero _)
  | succ n ih =>
      rw [turns, hwalk s, bind_assoc]
      apply (hleft s).bind_congr
      intro r hr
      cases r with
      | inl s' => exact ih (Nat.lt_of_lt_of_le (hr s' rfl) (Nat.le_of_lt_succ hn))
      | inr a => rfl

end Prog
