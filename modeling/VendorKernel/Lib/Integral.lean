import VendorKernel.Lib.Machine
import Mathlib.Algebra.Ring.Int.Defs

/-! The time integral of a value along a run, and accumulators that are only brought up to date now and then:
the total they stand for is the integral, if no step changes the total at the time it is taken. -/
namespace VendorKernel.Machine

variable {σ α : Type*} {step : σ → α → Option σ} {clock : σ → ℕ} {value : σ → ℤ}

/-- The integral of `value` from the clock of the state to `T`. A step takes effect at the clock
of the state it leads to. -/
def integral (step : σ → α → Option σ) (clock : σ → ℕ) (value : σ → ℤ) (T : ℕ) : σ → List α → ℤ
  | s, [] => value s * ((T : ℤ) - clock s)
  | s, a :: as =>
    match step s a with
    | none => 0
    | some s' => value s * ((clock s' : ℤ) - clock s) + integral step clock value T s' as

/-- The total grows with the value, and no step changes it at its own time. -/
theorem total_eq_integral {ok : σ → α → Prop} (total : σ → ℕ → ℤ) (value : σ → ℤ)
    (hgrow : ∀ s t t', total s t' = total s t + value s * ((t' : ℤ) - t))
    (hstep : ∀ s a s', ok s a → step s a = some s' → total s' (clock s') = total s (clock s')) (T : ℕ) :
    ∀ {as : List α} {s s' : σ}, Meets step ok s as → run step s as = some s' →
      total s' T = total s (clock s) + integral step clock value T s as
  | [], s, s', _, hr => by
    obtain rfl : s = s' := by simpa using hr
    exact hgrow s (clock s) T
  | a :: as, s, s', hm, hr => by
    obtain ⟨s₁, hs₁, hr⟩ := run_cons hr
    have hrest := total_eq_integral total value hgrow hstep T (hm.tail hs₁) hr
    rw [integral, hs₁, hrest, hstep s a s₁ hm.head hs₁, hgrow s (clock s) (clock s₁)]
    exact add_assoc _ _ _

end VendorKernel.Machine
