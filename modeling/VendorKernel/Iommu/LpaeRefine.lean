import VendorKernel.Iommu.LpaeCalls
import VendorKernel.Lib.Machine

/-! The page table refines a partial function from input addresses to physical ones, without the
contiguous hint and with 4K pages. -/
namespace VendorKernel.Iommu.Lpae
open Machine Nat Option

inductive Call
  | mapPages (iova paddr pgsize pgcount prot : ℕ)
  | mapSg (iova : ℕ) (sg : List (ℕ × ℕ)) (prot : ℕ)
  | unmapPages (iova pgsize pgcount : ℕ)

structure Space (d : Config) where
  root : Table d.height
  abs : ℕ → Option ℕ

def Space.empty (d : Config) : Space d := ⟨fun _ => .zero, fun _ => none⟩

/-- A call without an allocation failure: the function gains what was reported as mapped and loses what was unmapped.
-/
def step (d : Config) (s : Space d) : Call → Option (Space d)
  | .mapPages iova paddr pgsize pgcount prot =>
    let r := mapPages d (fun _ => true) s.root iova paddr pgsize pgcount prot
    some ⟨r.table, replaceOn iova (iova + r.mapped) (linear iova paddr) s.abs⟩
  | .mapSg iova sg prot =>
    (mapSg d (fun _ => true) s.root iova sg prot).map fun r =>
      ⟨r.2.root, if hasAccess prot then
        replaceOn iova (iova + r.2.mapped) (fun x => sgPhys sg (x - iova)) s.abs
      else s.abs⟩
  | .unmapPages iova pgsize pgcount =>
    let r := unmapPages d (fun _ => true) s.root iova pgsize pgcount
    some ⟨r.table, replaceOn iova (iova + r.unmapped) (fun _ => none) s.abs⟩

/-- Successful calls that map what is not mapped and unmap what is. -/
def Allowed (d : Config) (s : Space d) : Call → Prop
  | .mapPages iova paddr pgsize pgcount prot =>
    Issued d iova pgsize pgcount ∧ Backed d paddr pgsize pgcount ∧
    (mapPages d (fun _ => true) s.root iova paddr pgsize pgcount prot).ret = 0 ∧
    ∀ x, iova ≤ x → x < iova + pgsize * pgcount → s.abs x = none
  | .mapSg iova sg prot =>
    (∀ r ∈ mapSg d (fun _ => true) s.root iova sg prot, r.1 = 0) ∧
    ∀ x, iova ≤ x → x < iova + (sg.map Prod.snd).sum → s.abs x = none
  | .unmapPages iova pgsize pgcount =>
    Issued d iova pgsize pgcount ∧
    ∀ x, iova ≤ x → x < iova + pgsize * pgcount → s.abs x ≠ none

def Represents (d : Config) (s : Space d) : Prop :=
  GoodTable d s.root ∧ ∀ x < 2 ^ d.ias, walk d d.pgdBits s.root x = s.abs x

section
variable {d : Config}

theorem Represents.replace {s : Space d} (hs : Represents d s) {t : Table d.height} {lo hi : ℕ}
    {v : ℕ → Option ℕ} (hm : Maps d lo hi v s.root t) :
    Represents d ⟨t, replaceOn lo hi v s.abs⟩ := by
  refine ⟨hm.good, fun x hx => ?_⟩
  show walk d d.pgdBits t x = replaceOn lo hi v s.abs x
  rw [hm.walk x hx]
  by_cases hin : lo ≤ x ∧ x < hi
  · rw [replaceOn_in hin.1 hin.2, replaceOn_in hin.1 hin.2]
  · rw [replaceOn_out hin, replaceOn_out hin, hs.2 x hx]

theorem lives_of_le {p : ℕ → Prop} (hp : ∀ n ≤ d.ptesPerTable, p n) {h : ℕ} (e : Entry h) : e.Lives d p := by
  induction e with
  | zero | leaf => trivial
  | table cnt t ih => exact lives_table_iff.mpr ⟨fun _ => hp _ (count_le _), ih⟩

theorem tame_k4 (hk4 : d.granule = .k4) (hhint : d.contigHint = false) {h : ℕ} (t : Table h) :
    LivesTable d (Tame d) t := by
  have hptes : d.ptesPerTable = 512 := by
    rw [Config.ptesPerTable, Config.bitsPerLevel, hk4]
    rfl
  refine fun j => lives_of_le (fun n hn => ⟨?_, fun h => ?_⟩) (t j)
  · exact lt_of_le_of_lt hn (by rw [hptes]; decide)
  · rw [hhint] at h
    cases h

/-- Allowed calls succeed, and the table follows the function. -/
theorem step_represents (hk4 : d.granule = .k4) (hhint : d.contigHint = false) (s : Space d)
    (c : Call) (hs : Represents d s) (hc : Allowed d s c) :
    ∃ s', step d s c = some s' ∧ Represents d s' := by
  cases c with
  | mapPages iova paddr pgsize pgcount prot =>
    obtain ⟨hi, hb, hret, -⟩ := hc
    exact ⟨_, rfl, hs.replace ((mapPages_maps hi _ prot hb hs.1).2 hret)⟩
  | mapSg iova sg prot =>
    cases hacc : hasAccess prot with
    | true =>
      obtain ⟨ret, s', heq, hmaps⟩ := mapSg_maps (fun _ => true) hacc hs.1 iova sg
      simp only [step, heq, hacc, map_some, if_true]
      exact ⟨_, rfl, hs.replace hmaps⟩
    | false =>
      obtain ⟨ret, s', heq, hroot⟩ := mapSg_noAccess (fun _ => true) hacc s.root iova sg
      simp only [step, heq, hacc, map_some, Bool.false_eq_true, if_false]
      rw [hroot]
      exact ⟨_, rfl, hs⟩
  | unmapPages iova pgsize pgcount =>
    obtain ⟨hi, hmap⟩ := hc
    have hhole : NoHole d iova d.height d.pgdBits pgsize pgcount s.root := by
      refine noHole_of_mapped _ _ _ hi.aligned (supported_matches hi.supported)
        fun x hlo hhi _ => ?_
      rw [hs.2 x (lt_of_lt_of_le hhi hi.inside)]
      exact hmap x hlo hhi
    exact ⟨_, rfl, hs.replace (unmapPages_maps hi _ hs.1 (tame_k4 hk4 hhint _) hhole).1⟩

theorem represents_empty (d : Config) : Represents d (Space.empty d) :=
  ⟨goodTable_zero, fun _ _ => rfl⟩

/-- After every sequence of calls `arm_lpae_iova_to_phys` gives the physical address of the function,
and 0 where it has none. -/
theorem iovaToPhys_refines (d : Config) (hk4 : d.granule = .k4) (hhint : d.contigHint = false)
    (calls : List Call) (hcalls : Meets (step d) (Allowed d) (Space.empty d) calls) :
    ∃ s, run (step d) (Space.empty d) calls = some s ∧ ∀ x < 2 ^ d.ias, iovaToPhys d s.root x = (s.abs x).getD 0 := by
  obtain ⟨s, hrun, hs⟩ := run_some (step_represents hk4 hhint) (represents_empty d) hcalls
  refine ⟨s, hrun, fun x hx => ?_⟩
  rw [iovaToPhys, hs.2 x hx]

end

def smmu4k (hint : Bool) : Config where
  granule := .k4
  ias := 48
  oas := 40
  contigHint := hint
  ias_ge := by decide
  ias_le := by decide
  oas_le := by decide

/-- A block of 2M of which one page is unmapped. -/
theorem iovaToPhys_refines_split : ∃ s, run (step (smmu4k false)) (Space.empty _)
      [.mapPages 0 (2 ^ 21) (2 ^ 21) 1 3, .unmapPages (2 ^ 12) (2 ^ 12) 1] = some s ∧
    ∀ x < 2 ^ 48, iovaToPhys _ s.root x = (s.abs x).getD 0 := by
  have hmap : (mapPages (smmu4k false) (fun _ => true) (Space.empty _).root 0 (2 ^ 21) (2 ^ 21) 1
      3).mapped = 2 ^ 21 := by decide +kernel
  refine iovaToPhys_refines (smmu4k false) rfl rfl _ ⟨⟨?_, ?_, ?_, fun _ _ _ => rfl⟩, ⟨?_, ?_⟩, trivial⟩
  · exact ⟨by decide, by decide, by decide, fun h => by rw [checkAndSetNumCont_noHint rfl]; decide,
      by decide⟩
  · exact ⟨by decide, by decide⟩
  · decide +kernel
  · exact ⟨by decide, by decide, by decide, fun h => by rw [checkAndSetNumCont_noHint rfl]; decide,
      by decide⟩
  · intro x _ hx
    show replaceOn 0 (0 + _) (linear 0 (2 ^ 21)) (fun _ => none) x ≠ none
    rw [replaceOn_in (zero_le x) (by omega)]
    exact some_ne_none _

/-- A call without access reports a page as mapped, and its address is not translated. -/
theorem mapSg_reports_without_access :
    (mapSg (smmu4k false) (fun _ => true) (fun _ => .zero) 0 [(2 ^ 12, 2 ^ 12)] 0).map (fun r =>
      (r.1, r.2.mapped, iovaToPhys (smmu4k false) r.2.root 0)) = some (0, 2 ^ 12, 0) ∧
    sgPhys [(2 ^ 12, 2 ^ 12)] 0 = some (2 ^ 12) := by
  decide +kernel

end VendorKernel.Iommu.Lpae
