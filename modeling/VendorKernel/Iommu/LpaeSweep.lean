import Mathlib.Data.Nat.Prime.Basic
import VendorKernel.Iommu.LpaeFrame

/-! Where `arm_lpae_cont_unmap` clears contiguous bits, and what becomes of a part of a contiguous
block. -/
namespace VendorKernel.Iommu.Lpae

open Machine Config Entry Nat Function

section
variable {d : Config} {h bits iova ptep : ℕ}

theorem round_mod_le {i n m : ℕ} (hnm : m ∣ n ∨ n ∣ m) : i / m * m % n ≤ i % n := by
  rcases hnm with ⟨c, rfl⟩ | hdvd
  · rw [mul_comm (i / m), mul_mod_mul_left, mod_mul, add_comm]
    exact le_add_right _ _
  · rw [mod_eq_zero_of_dvd (dvd_trans hdvd (dvd_mul_left ..))]
    exact zero_le _

theorem findNumCont_dvd_or (d : Config) (h bits : ℕ) : d.findNumCont h ∣ 2 ^ bits ∨ 2 ^ bits ∣ d.findNumCont h := by
  obtain ⟨k, -, hk⟩ := (dvd_prime_pow prime_two).mp (d.findNumCont_dvd h)
  rw [hk]
  rcases le_total k bits with h | h
  · exact .inl (pow_dvd_pow 2 h)
  · exact .inr (pow_dvd_pow 2 h)

theorem lvlIdx_contIova : d.lvlIdx bits h
      (iova / (d.blockSize h * d.findNumCont h) * (d.blockSize h * d.findNumCont h)) =
    iova / d.blockSize h / d.findNumCont h * d.findNumCont h % 2 ^ bits := by
  rw [lvlIdx, Radix.index, ← Nat.div_div_eq_div_mul, Nat.mul_comm (d.blockSize h),
    ← Nat.mul_assoc, Nat.mul_div_cancel _ (d.blockSize_pos h)]

theorem contStart_le (hle : d.lvlIdx bits h iova ≤ ptep) : contStart d h bits iova ptep ≤ ptep := by
  have hidx : d.lvlIdx bits h (iova / (d.blockSize h * d.findNumCont h) *
      (d.blockSize h * d.findNumCont h)) ≤ d.lvlIdx bits h iova := by
    rw [lvlIdx_contIova]
    exact round_mod_le (findNumCont_dvd_or d h bits)
  simp only [contStart]
  omega

theorem contStart_eq (hdvd : d.findNumCont h ∣ 2 ^ bits) (ptep : ℕ) :
    contStart d h bits iova ptep = ptep - d.lvlIdx bits h iova +
      d.lvlIdx bits h iova / d.findNumCont h * d.findNumCont h := by
  obtain ⟨c, hc⟩ := hdvd
  simp only [contStart]
  rw [lvlIdx_contIova, lvlIdx, Radix.index, hc, mul_comm (_ / _ / _),
    mul_mod_mul_left, mod_mul_right_div_self, mul_comm (_ % c)]

end

theorem le_roundUp {n m : ℕ} (hm : 0 < m) : n ≤ roundUp n m := by
  have hdiv := div_add_mod (n + m - 1) m
  have hlt := mod_lt (n + m - 1) hm
  rw [roundUp, mul_comm]
  omega

theorem roundUp_le {n m k : ℕ} (hm : 0 < m) (hk : m ∣ k) (hn : n ≤ k) : roundUp n m ≤ k := by
  obtain ⟨c, rfl⟩ := hk
  rw [roundUp, Nat.mul_comm]
  refine Nat.mul_le_mul_left m (Nat.le_of_lt_succ (Nat.div_lt_of_lt_mul ?_))
  rw [Nat.mul_succ]
  omega

/-! ### The sweeps of the loop -/

theorem contBit_clearCont {h : ℕ} (e : Entry h) : e.clearCont.contBit = false := by
  cases e with
  | zero | leaf => rfl
  | table cnt t =>
    rw [clearCont, contBit, testBit_and]
    have : (tblcntMod - 1 - 2 ^ 10).testBit 10 = false := by decide
    rw [this, Bool.and_false]

/-- Every sweep of `n` rounds from entry `j` on, of `len` entries each, ends in the table. -/
def SweepsInside (d : Config) {h : ℕ} (bits iova len : ℕ) (t : Table h) : (n j reached : ℕ) → Prop
  | 0, _, _ => True
  | n + 1, j, reached =>
    (t j).isZero = true ∨
    if reached ≤ j ∧ (t j).contBit = true then
      contStart d h bits iova j + len ≤ 2 ^ bits ∧
        SweepsInside d bits iova len t n (j + 1) (contStart d h bits iova j + len)
    else SweepsInside d bits iova len t n (j + 1) reached

section
variable {d : Config} {h bits iova : ℕ} {t : Table h}

theorem sweepsInside_of_noCont (len : ℕ) (hno : ∀ j, (t j).contBit = false) :
    ∀ n j reached, SweepsInside d bits iova len t n j reached := by
  intro n
  induction n with
  | zero => exact fun _ _ => trivial
  | succ n ih =>
    intro j reached
    rw [SweepsInside, if_neg (by simp [hno])]
    exact .inr (ih ..)

def SweptTo (bits : ℕ) (t cur : Table h) (j reached : ℕ) : Prop :=
  ∀ k, j ≤ k → k < 2 ^ bits → (cur k).isZero = (t k).isZero ∧
    (cur k).contBit = ((t k).contBit && decide (reached ≤ k))

/-- The loop stays inside just if its sweeps do. -/
theorem unmapLoop_outside_iff (hhint : d.contigHint = true) (pgcount n : ℕ) :
    ∀ (j reached : ℕ) (cur : Table h), d.lvlIdx bits h iova ≤ j → j + n ≤ 2 ^ bits →
    SweptTo bits t cur j reached →
    ((unmapLoop d bits iova pgcount n j cur).2.2 = false ↔
      SweepsInside d bits iova (roundUp pgcount (d.findNumCont h)) t n j reached) := by
  induction n with
  | zero => exact fun _ _ _ _ _ _ => iff_of_true rfl trivial
  | succ n ih =>
    intro j reached cur hj hin hcur
    obtain ⟨hzero, hbit⟩ := hcur j (le_refl j) (by omega)
    rw [unmapLoop, SweepsInside, hzero]
    by_cases hz : (t j).isZero = true
    · rw [if_pos hz]
      exact iff_of_true rfl (.inl hz)
    rw [if_neg hz, or_iff_right hz]
    have hfst := contStart_le hj
    by_cases hc : reached ≤ j ∧ (t j).contBit = true
    · -- the entry is swept, and everything ahead of the end of the sweep loses its bit
      have hcur' : (cur j).contBit = true := by rw [hbit, hc.2, decide_eq_true hc.1]; rfl
      simp only [contUnmapIf, hcur', if_true, contUnmap, hhint, if_pos hc]
      rw [Bool.or_eq_false_iff, decide_eq_false_iff_not, not_lt]
      refine and_congr_right fun _ => ih _ _ _ (by omega) (by omega) fun k hk hlt => ?_
      obtain ⟨hzero', hbit'⟩ := hcur k (by omega) hlt
      rw [update_of_ne (by omega)]
      have hahead : contStart d h bits iova j ≤ k := by omega
      by_cases hk' : k < contStart d h bits iova j + roundUp pgcount (d.findNumCont h)
      · rw [if_pos ⟨hahead, hk', hlt⟩, clearCont_isZero, contBit_clearCont,
          decide_eq_false (not_le.mpr hk'), Bool.and_false]
        exact ⟨hzero', rfl⟩
      · rw [if_neg fun hin => hk' hin.2.1, decide_eq_true (not_lt.mp hk'), hbit',
          decide_eq_true (le_trans hc.1 (by omega))]
        exact ⟨hzero', rfl⟩
    · have hcur' : (cur j).contBit = false := by
        rw [hbit, Bool.and_eq_false_imp]
        exact fun hb => decide_eq_false fun hr => hc ⟨hr, hb⟩
      simp only [contUnmapIf, hcur', Bool.false_eq_true, if_false, if_neg hc, Bool.false_or]
      refine ih _ _ _ (by omega) (by omega) fun k hk hlt => ?_
      rw [update_of_ne (by omega)]
      exact hcur k (by omega) hlt

end

/-! ### The whole call -/

/-- The walk for `iova` ends at a block with the contiguous bit, above the level of the size. -/
def PartOfContBlock (d : Config) (iova : ℕ) : (h bits size : ℕ) → Table h → Prop
  | 0, _, _, _ => False
  | h + 1, bits, size, t =>
    matchesLevel d size (h + 1) = false ∧
    match t (d.lvlIdx bits (h + 1) iova) with
    | .leaf _ _ cont => cont = true
    | .table _ entries => PartOfContBlock d iova h d.bitsPerLevel size entries
    | .zero => False

/-- Where the walk reaches the level of the size above the last one, the sweeps stay in its table. -/
def CallSweepsInside (d : Config) (iova : ℕ) : (h bits size pgcount : ℕ) → Table h → Prop
  | 0, bits, size, pgcount, t =>
    SweepsInside d bits iova (roundUp pgcount (d.findNumCont 0)) t
      (numEntries d bits 0 iova size pgcount) (d.lvlIdx bits 0 iova) 0
  | h + 1, bits, size, pgcount, t =>
    if matchesLevel d size (h + 1) then
      SweepsInside d bits iova (roundUp pgcount (d.findNumCont (h + 1))) t
        (numEntries d bits (h + 1) iova size pgcount) (d.lvlIdx bits (h + 1) iova) 0
    else
      match t (d.lvlIdx bits (h + 1) iova) with
      | .table _ entries =>
        h = 0 ∨ CallSweepsInside d iova h d.bitsPerLevel size pgcount entries
      | _ => True

section
variable {d : Config} {h bits iova len j size addr prot : ℕ} {t : Table h}

theorem contUnmapIf_inside {n : ℕ} (hin : d.lvlIdx d.bitsPerLevel h iova + n ≤ d.ptesPerTable) :
    (contUnmapIf d d.bitsPerLevel iova (d.lvlIdx d.bitsPerLevel h iova) n t).2 = false := by
  have hdvd := d.findNumCont_dvd h
  have hpos := d.findNumCont_pos h
  unfold contUnmapIf contUnmap
  split_ifs
  · simp only [decide_eq_false_iff_not, not_lt]
    rw [contStart_eq hdvd]
    generalize hs : d.lvlIdx d.bitsPerLevel h iova = s at hin
    have hrn := div_mul_le_self s (d.findNumCont h)
    have hle := roundUp_le hpos
      (dvd_sub hdvd (dvd_mul_left (d.findNumCont h) (s / d.findNumCont h)))
      (show n ≤ d.ptesPerTable - s / d.findNumCont h * d.findNumCont h by omega)
    rw [ptesPerTable] at hle hin
    omega
  · rfl
  · rfl

theorem contBit_swept (hhint : d.contigHint = true) (t : Table h) :
    ((contUnmapIf d bits iova (d.lvlIdx bits h iova) (d.findNumCont h) t).1
      (d.lvlIdx bits h iova)).contBit = false := by
  cases hbit : (t (d.lvlIdx bits h iova)).contBit with
  | false => rw [contUnmapIf, hbit, if_neg Bool.false_ne_true, hbit]
  | true =>
    simp only [contUnmapIf, hbit, if_true, contUnmap, hhint]
    have hlt : d.lvlIdx bits h iova < 2 ^ bits := lvlIdx_lt
    have hle := contStart_le (le_refl (d.lvlIdx bits h iova))
    have hrn := le_roundUp (n := d.findNumCont h) (d.findNumCont_pos h)
    have hnear : d.lvlIdx bits h iova < contStart d h bits iova (d.lvlIdx bits h iova) + d.findNumCont h := by
      rcases findNumCont_dvd_or d h bits with hdvd | hdvd
      · rw [contStart_eq hdvd, Nat.sub_self, Nat.zero_add]
        exact Nat.lt_div_mul_add (d.findNumCont_pos h)
      · have := Nat.le_of_dvd (d.findNumCont_pos h) hdvd
        omega
    rw [if_pos ⟨hle, by omega, hlt⟩, contBit_clearCont]

theorem sweepsInside_zero (he : t j = .zero) (n reached : ℕ) : SweepsInside d bits iova len t n j reached := by
  cases n with
  | zero => trivial
  | succ n => exact .inl (isZero_iff.mpr he)

theorem callSweepsInside_splitTable (size pgcount addr prot s n : ℕ) :
    CallSweepsInside d iova h bits size pgcount (splitTable d h addr prot s n) := by
  have hswp (len) : ∀ n' j reached, SweepsInside d bits iova len (splitTable d h addr prot s n) n' j reached :=
    sweepsInside_of_noCont len fun j => by
      rw [splitTable]
      split_ifs <;> rfl
  cases h with
  | zero => exact hswp ..
  | succ h =>
    rw [CallSweepsInside]
    split_ifs
    · exact hswp ..
    · unfold splitTable
      split_ifs <;> trivial

theorem not_partOfContBlock_splitTable (size addr prot s n : ℕ) :
    ¬PartOfContBlock d iova h bits size (splitTable d h addr prot s n) := by
  cases h with
  | zero => exact id
  | succ h =>
    rintro ⟨-, hpart⟩
    unfold splitTable at hpart
    split_ifs at hpart <;> cases hpart

theorem not_partOfContBlock_of_match (hm : matchesLevel d size h = true) : ¬PartOfContBlock d iova h bits size t := by
  cases h with
  | zero => exact id
  | succ h =>
    rintro ⟨hne, -⟩
    rw [hm] at hne
    cases hne

theorem split_noCont (hhint : d.contigHint = true) {cont : Bool} {c : Table h × Bool}
    (he : t (d.lvlIdx bits h iova) = .leaf addr prot cont)
    (hc : c = contUnmapIf d bits iova (d.lvlIdx bits h iova) (d.findNumCont h) t)
    (hc' : c.1 (d.lvlIdx bits h iova) = .leaf addr prot cont) : cont = false ∧ c.2 = false := by
  have hcont : cont = false := by
    have : (c.1 (d.lvlIdx bits h iova)).contBit = false := hc ▸ contBit_swept hhint t
    rwa [hc'] at this
  refine ⟨hcont, ?_⟩
  simp only [hc, contUnmapIf, he, contBit, hcont, Bool.false_eq_true, if_false]

/-- Without a contiguous block above the level of the size, a call sweeps outside a table only in
the loop at the level of the size; with one it removes nothing. -/
theorem armLpaeUnmap_sweeps (alloc : ℕ → Bool) (hhint : d.contigHint = true) (h bits size pgcount : ℕ)
    (t : Table h) (hsize : ∃ k ≤ h, matchesLevel d size k = true) (hiova : size ∣ iova)
    (hfit : bits = d.bitsPerLevel ∨ iova + size * pgcount ≤ (iova / d.span bits h + 1) * d.span bits h) :
    (PartOfContBlock d iova h bits size t → (armLpaeUnmap d alloc iova h bits size pgcount t).unmapped = 0) ∧
    (¬PartOfContBlock d iova h bits size t →
      ((armLpaeUnmap d alloc iova h bits size pgcount t).outside = false ↔
        CallSweepsInside d iova h bits size pgcount t)) := by
  have hgoes := armLpaeUnmap_goes d alloc iova size pgcount h bits t
  generalize armLpaeUnmap d alloc iova h bits size pgcount t = r at hgoes ⊢
  induction hgoes with
  | @zero h bits t he =>
    refine ⟨fun _ => rfl, fun _ => iff_of_true rfl ?_⟩
    cases h with
    | zero => exact sweepsInside_zero he ..
    | succ h =>
      rw [CallSweepsInside, he]
      split_ifs
      · exact sweepsInside_zero he ..
      · trivial
  | @matched h bits t hm =>
    have hblk := blockSize_dvd_of_matches hm hiova
    have hin : d.lvlIdx bits h iova + numEntries d bits h iova size pgcount ≤ 2 ^ bits := by
      rcases hfit with rfl | hfit
      · exact numEntries_le d _ h iova size pgcount (Nat.le_of_lt lvlIdx_lt)
      · refine (run_le_span_iff hblk).mp (Nat.le_trans (Nat.add_le_add_left ?_ iova) hfit)
        exact numEntries_mul_le hm bits iova pgcount
    refine ⟨fun hp => absurd hp (not_partOfContBlock_of_match hm), fun _ => ?_⟩
    refine (unmapLoop_outside_iff hhint pgcount _ _ 0 t (Nat.le_refl _) hin fun k _ _ => ⟨rfl, ?_⟩).trans ?_
    · rw [decide_eq_true (zero_le k), Bool.and_true]
    · cases h with
      | zero => rfl
      | succ h => rw [CallSweepsInside, if_pos hm]
  | bottom hm =>
    rw [matches_zero hsize] at hm
    cases hm
  | last hm he =>
    refine ⟨?_, fun _ => iff_of_true (contUnmapIf_inside ?_) ?_⟩
    · rintro ⟨-, hpart⟩
      rw [he] at hpart
      exact hpart.elim
    · exact numEntries_le d _ 0 iova size pgcount (le_of_lt lvlIdx_lt)
    · rw [CallSweepsInside, hm, he]
      exact .inl rfl
  | down h0 hm he _ ih =>
    obtain ⟨hpart, hins⟩ := ih (matches_lower hm hsize) (.inl rfl)
    simp only [PartOfContBlock, CallSweepsInside, hm, he, h0, true_and, false_or, Bool.false_eq_true, if_false]
    exact ⟨hpart, hins⟩
  | @kept h bits addr prot cont t hm he =>
    refine ⟨fun _ => rfl, fun hpart => iff_of_true ?_ ?_⟩
    · have hcont : cont = false := by
        simpa [PartOfContBlock, hm, he] using hpart
      simp only [contUnmapIf, he, contBit, hcont, Bool.false_eq_true, if_false]
    · rw [CallSweepsInside, hm, he]
      trivial
  | split hm he hc hc' =>
    obtain ⟨hcont, hout⟩ := split_noCont hhint he hc hc'
    refine ⟨fun hpart => ?_, fun _ => iff_of_true hout ?_⟩
    · simp [PartOfContBlock, he, hcont] at hpart
    · rw [CallSweepsInside, hm, he]
      trivial
  | splitDown hm he hc hc' _ _ ih =>
    obtain ⟨hcont, hout⟩ := split_noCont hhint he hc hc'
    obtain ⟨-, hins⟩ := ih (matches_lower hm hsize) (.inl rfl)
    have hr := (hins (not_partOfContBlock_splitTable _ _ _ _ _)).mpr (callSweepsInside_splitTable ..)
    refine ⟨fun hpart => ?_, fun _ => iff_of_true ?_ ?_⟩
    · simp [PartOfContBlock, he, hcont] at hpart
    · rw [hout, hr]
      rfl
    · rw [CallSweepsInside, hm, he]
      trivial

end

/-- `arm_lpae_cont_unmap` keeps to one table, and a part of a contiguous block is removed as asked for,
exactly if the call removes no part of a contiguous block and no sweep of the loop runs past the end of its
table. -/
theorem unmapPages_sweeps_iff (d : Config) (hhint : d.contigHint = true) (alloc : ℕ → Bool)
    (t : Table d.height) (iova pgsize pgcount : ℕ) (hi : Issued d iova pgsize pgcount) :
    ((unmapPages d alloc t iova pgsize pgcount).outside = false ∧
      (PartOfContBlock d iova d.height d.pgdBits pgsize t →
        (unmapPages d alloc t iova pgsize pgcount).unmapped = pgsize * pgcount ∧
        ∀ x < 2 ^ d.ias,
          walk d d.pgdBits (unmapPages d alloc t iova pgsize pgcount).table x =
            replaceOn iova (iova + pgsize * pgcount) (fun _ => none) (walk d d.pgdBits t) x)) ↔
    ¬PartOfContBlock d iova d.height d.pgdBits pgsize t ∧
      CallSweepsInside d iova d.height d.pgdBits pgsize pgcount t := by
  obtain ⟨hargs, hiova⟩ := hi.checks
  have hfit : iova + pgsize * pgcount ≤ (iova / d.span d.pgdBits d.height + 1) * d.span d.pgdBits d.height := by
    rw [d.span_root, Nat.div_eq_of_lt hi.iova_lt, Nat.one_mul]
    exact hi.inside
  obtain ⟨hpart, hins⟩ := armLpaeUnmap_sweeps alloc hhint d.height d.pgdBits pgsize pgcount t
    (supported_matches hi.supported) hi.aligned (.inr hfit)
  rw [unmapPages, if_neg hargs, if_neg (not_not.mpr hiova)]
  constructor
  · rintro ⟨hout, hexact⟩
    have hnot : ¬PartOfContBlock d iova d.height d.pgdBits pgsize t := fun hp => by
      have hzero := (hexact hp).1
      rw [hpart hp] at hzero
      exact (Nat.mul_pos (supported_pos hi.supported) hi.count_pos).ne hzero
    exact ⟨hnot, (hins hnot).mp hout⟩
  · rintro ⟨hnot, hswp⟩
    exact ⟨(hins hnot).mpr hswp, fun hp => absurd hp hnot⟩

/-- One page of a contiguous group of 64K. -/
theorem unmapPages_sweeps_iff_page :
    let t := (mapPages (smmu4k true) (fun _ => true) (fun _ => .zero) 0 (2 ^ 16) (2 ^ 16) 1 3).table
    ((unmapPages (smmu4k true) (fun _ => true) t 0 (2 ^ 12) 1).outside = false ∧
      (PartOfContBlock (smmu4k true) 0 (smmu4k true).height (smmu4k true).pgdBits (2 ^ 12) t →
        (unmapPages (smmu4k true) (fun _ => true) t 0 (2 ^ 12) 1).unmapped = 2 ^ 12 * 1 ∧
        ∀ x < 2 ^ (smmu4k true).ias,
          walk (smmu4k true) (smmu4k true).pgdBits
              (unmapPages (smmu4k true) (fun _ => true) t 0 (2 ^ 12) 1).table x =
            replaceOn 0 (0 + 2 ^ 12 * 1) (fun _ => none) (walk (smmu4k true) (smmu4k true).pgdBits t) x)) ↔
    ¬PartOfContBlock (smmu4k true) 0 (smmu4k true).height (smmu4k true).pgdBits (2 ^ 12) t ∧
      CallSweepsInside (smmu4k true) 0 (smmu4k true).height (smmu4k true).pgdBits (2 ^ 12) 1 t := by
  have hcnt (h : ℕ) : (smmu4k true).checkAndSetNumCont (2 ^ 12) h * 1 < 2 ^ 31 := by
    have := le_of_dvd (by decide) (checkAndSetNumCont_dvd (smmu4k true) (2 ^ 12) h)
    have : (smmu4k true).ptesPerTable = 512 := by decide
    omega
  exact unmapPages_sweeps_iff (smmu4k true) rfl (fun _ => true) _ 0 (2 ^ 12) 1
    ⟨by decide, by decide, by decide, hcnt, by decide⟩

/-- Groups of 32M at the end of a table and at the start of the next one; 20 blocks of 2M are unmapped from
the middle of the first on, and the sweep leaves the table. Of a group at 0 no page can be unmapped. -/
theorem unmapPages_sweeps_lost :
    (run (tableStep (smmu4k true)) (fun _ => .zero)
      [⟨.mapPages (496 * 2 ^ 21) (2 ^ 25) (2 ^ 25) 1 3, fun _ => true⟩,
        ⟨.mapPages (512 * 2 ^ 21) (2 ^ 26) (2 ^ 25) 1 3, fun _ => true⟩]).map (fun t =>
      (unmapPages (smmu4k true) (fun _ => true) t (504 * 2 ^ 21) (2 ^ 21) 20).outside) = some true ∧
    (run (tableStep (smmu4k true)) (fun _ => .zero)
      [⟨.mapPages 0 (2 ^ 25) (2 ^ 25) 1 3, fun _ => true⟩]).map (fun t =>
      (iovaToPhys (smmu4k true) t 0, (unmapPages (smmu4k true) (fun _ => true) t 0 (2 ^ 12) 1).unmapped)) =
      some (2 ^ 25, 0) := by
  decide +kernel

end VendorKernel.Iommu.Lpae
