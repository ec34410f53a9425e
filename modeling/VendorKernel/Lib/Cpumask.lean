import Mathlib.Data.List.FinRange
import Mathlib.Data.List.TakeWhile

/-! Bit masks over `n` CPUs, the iteration over their set bits in increasing order,
and what a loop over such an iteration leaves in a mask. -/
namespace VendorKernel

open List

abbrev Cpumask (n : ℕ) := Fin n → Bool

namespace Cpumask

variable {n : ℕ} {m : Cpumask n}

/-- The set bits in the order in which `for_each_cpu` visits them. -/
def forEachCpu (m : Cpumask n) : List (Fin n) := (finRange n).filter m

def first (m : Cpumask n) : Option (Fin n) := m.forEachCpu.head?

def setCpu (m : Cpumask n) (cpu : Fin n) : Cpumask n := Function.update m cpu true

def clearCpu (m : Cpumask n) (cpu : Fin n) : Cpumask n := Function.update m cpu false

def empty (m : Cpumask n) : Bool := m.forEachCpu.isEmpty

@[simp] theorem mem_forEachCpu {cpu : Fin n} : cpu ∈ m.forEachCpu ↔ m cpu = true := by
  simp [forEachCpu]

theorem forEachCpu_sorted (m : Cpumask n) : m.forEachCpu.Pairwise (· < ·) :=
  (pairwise_lt_finRange n).filter _

theorem empty_iff : m.empty = true ↔ ∀ cpu, m cpu = false := by
  simp [empty, List.isEmpty_iff, List.eq_nil_iff_forall_not_mem]

theorem foldl_setCpu (m : Cpumask n) (l : List (Fin n)) (cpu : Fin n) :
    l.foldl setCpu m cpu = true ↔ m cpu = true ∨ cpu ∈ l := by
  induction l generalizing m with
  | nil => simp
  | cons a l ih =>
    rw [foldl_cons, ih, setCpu]
    by_cases h : cpu = a
    · simp [h]
    · simp [h]

theorem foldl_clearCpu (m : Cpumask n) (l : List (Fin n)) (cpu : Fin n) :
    l.foldl clearCpu m cpu = true ↔ m cpu = true ∧ cpu ∉ l := by
  induction l generalizing m with
  | nil => simp
  | cons a l ih =>
    rw [foldl_cons, ih, clearCpu]
    by_cases h : cpu = a
    · simp [h]
    · simp [h]

private theorem mem_takeWhile_ne {l : List (Fin n)} (hl : l.Pairwise (· < ·)) {c d : Fin n} :
    d ∈ l.takeWhile (· ≠ c) ↔ d ∈ l ∧ (c ∈ l → d < c) := by
  induction l with
  | nil => simp
  | cons a l ih =>
    obtain ⟨ha, hl⟩ := pairwise_cons.mp hl
    by_cases hac : a = c
    · subst hac
      have hlt : d ∈ l → a < d := ha d
      simp only [ne_eq, not_true_eq_false, decide_false, Bool.false_eq_true,
        not_false_eq_true, takeWhile_cons_of_neg, not_mem_nil, mem_cons, true_or,
        forall_const, false_iff, not_and, not_lt]
      rintro (rfl | hd)
      · exact le_rfl
      · exact (hlt hd).le
    · have hmem : c ∈ a :: l ↔ c ∈ l := by simp [Ne.symm hac]
      rw [takeWhile_cons_of_pos (by simpa using hac), mem_cons, mem_cons, ih hl,
        hmem]
      constructor
      · rintro (rfl | ⟨hd, hc⟩)
        · exact ⟨.inl rfl, ha c⟩
        · exact ⟨.inr hd, hc⟩
      · rintro ⟨rfl | hd, hc⟩
        · exact .inl rfl
        · exact .inr ⟨hd, hc⟩

theorem mem_forEachCpu_takeWhile {c? : Option (Fin n)} {d : Fin n} :
    d ∈ m.forEachCpu.takeWhile (some · ≠ c?) ↔ m d = true ∧ ∀ c, c? = some c → m c = true → d < c := by
  cases c? with
  | none => simp [takeWhile_eq_self_iff.mpr]
  | some c => simpa using mem_takeWhile_ne m.forEachCpu_sorted

end Cpumask

end VendorKernel
