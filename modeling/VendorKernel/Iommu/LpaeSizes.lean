import VendorKernel.Iommu.LpaeWalk

/-! The page sizes of the tables and the levels they belong to. -/
namespace VendorKernel.Iommu.Lpae

open Config List Nat

section
variable {d : Config} {h size iova : ℕ}

theorem checkAndSetNumCont_pos (d : Config) (size h : ℕ) : 0 < d.checkAndSetNumCont size h := by
  unfold checkAndSetNumCont
  split_ifs
  · exact d.findNumCont_pos h
  · decide

theorem checkAndSetNumCont_noHint (hhint : d.contigHint = false) : d.checkAndSetNumCont size h = 1 := by
  simp [checkAndSetNumCont, findNumCont, hhint]

theorem checkAndSetNumCont_dvd (d : Config) (size h : ℕ) : d.checkAndSetNumCont size h ∣ d.ptesPerTable := by
  unfold checkAndSetNumCont
  split_ifs
  · exact d.findNumCont_dvd h
  · exact one_dvd _

theorem matchesLevel_eq (hm : matchesLevel d size h = true) : size = d.checkAndSetNumCont size h * d.blockSize h := by
  simp only [matchesLevel, Bool.or_eq_true, beq_iff_eq] at hm
  unfold checkAndSetNumCont
  split_ifs with hc
  · exact hc
  · rw [one_mul]
    exact hm.resolve_right hc

theorem div_checkAndSetNumCont (hm : matchesLevel d size h = true) :
    size / d.checkAndSetNumCont size h = d.blockSize h :=
  Nat.div_eq_of_eq_mul_right (checkAndSetNumCont_pos d size h) (matchesLevel_eq hm)

theorem numEntries_le (d : Config) (bits h iova size pgcount : ℕ)
    (hlt : d.lvlIdx bits h iova ≤ d.ptesPerTable) :
    d.lvlIdx bits h iova + numEntries d bits h iova size pgcount ≤ d.ptesPerTable := by
  have : numEntries d bits h iova size pgcount ≤ d.ptesPerTable - d.lvlIdx bits h iova :=
    min_le_right ..
  omega

theorem numEntries_mul_le (hm : matchesLevel d size h = true) (bits iova pgcount : ℕ) :
    numEntries d bits h iova size pgcount * d.blockSize h ≤ size * pgcount := by
  calc numEntries d bits h iova size pgcount * d.blockSize h
      ≤ d.checkAndSetNumCont size h * pgcount * d.blockSize h :=
        mul_le_mul_right _ (min_le_left ..)
    _ = d.checkAndSetNumCont size h * d.blockSize h * pgcount := mul_right_comm ..
    _ = size * pgcount := by rw [← matchesLevel_eq hm]

theorem div_checkAndSetNumCont_dvd (d : Config) (size h : ℕ) : size / d.checkAndSetNumCont size h ∣ size := by
  unfold checkAndSetNumCont
  split_ifs with hc
  · rw [hc, Nat.mul_div_cancel_left _ (d.findNumCont_pos h)]
    exact Nat.dvd_mul_left ..
  · rw [Nat.div_one]

theorem checkAndSetNumCont_eq_one
    (hne : size / d.checkAndSetNumCont size h ≠ d.blockSize h) :
    d.checkAndSetNumCont size h = 1 := by
  unfold checkAndSetNumCont at hne ⊢
  split_ifs at hne ⊢ with hc
  · refine absurd ?_ hne
    rw [hc, Nat.mul_div_cancel_left _ (d.findNumCont_pos h)]
  · rfl

theorem blockSize_dvd_of_matches (hm : matchesLevel d size h = true) (hiova : size ∣ iova) : d.blockSize h ∣ iova :=
  dvd_trans (div_checkAndSetNumCont hm ▸ div_checkAndSetNumCont_dvd d size h) hiova

theorem matches_lower (hm : matchesLevel d size (h + 1) = false)
    (hsize : ∃ k ≤ h + 1, matchesLevel d size k = true) : ∃ k ≤ h, matchesLevel d size k = true := by
  obtain ⟨k, hk, hmk⟩ := hsize
  refine ⟨k, le_of_lt_succ (lt_of_le_of_ne hk ?_), hmk⟩
  rintro rfl
  rw [hm] at hmk
  cases hmk

theorem matches_zero (hsize : ∃ k ≤ 0, matchesLevel d size k = true) : matchesLevel d size 0 = true := by
  obtain ⟨k, hk, hm⟩ := hsize
  exact le_zero.mp hk ▸ hm

end

/-! ### The supported sizes -/

section
variable {d : Config} {size a b : ℕ}

theorem one_le_height (d : Config) : 1 ≤ d.height := by
  have hias := d.ias_ge
  unfold height levels bitsPerLevel
  rcases d.granule_cases with hg | hg | hg <;> simp only [hg, Granule.pgShift] <;> omega

theorem two_le_height (hg : d.granule = .k4) : 2 ≤ d.height := by
  have hias := d.ias_ge
  unfold height levels bitsPerLevel
  simp only [hg, Granule.pgShift]
  omega

section
variable (hs : size ∈ d.pageSizes)
include hs

/-- Every supported size is that of some level. -/
theorem supported_matches : ∃ k ≤ d.height, matchesLevel d size k = true := by
  have hblk : ∀ k ≤ d.height, size = d.blockSize k → ∃ k ≤ d.height, matchesLevel d size k = true := by
    intro k hk hsize
    refine ⟨k, hk, ?_⟩
    rw [matchesLevel, hsize, beq_self_eq_true, Bool.true_or]
  have hgranule : size ∈ d.granule.pageSizes → ∃ k ≤ d.height, matchesLevel d size k = true := by
    have h1 := one_le_height d
    have hbase : ∀ k, d.blockSize k = 2 ^ ((k + 1) * (d.granule.pgShift - 3) + 3) := fun _ => rfl
    rcases d.granule_cases with hg | hg | hg <;>
      simp only [hg, Granule.pageSizes, mem_cons, not_mem_nil, or_false]
    · have h2 := two_le_height hg
      rintro (rfl | rfl | rfl)
      · exact hblk 0 (zero_le _) (by rw [hbase, hg, Granule.pgShift])
      · exact hblk 1 h1 (by rw [hbase, hg, Granule.pgShift])
      · exact hblk 2 h2 (by rw [hbase, hg, Granule.pgShift])
    all_goals
      rintro (rfl | rfl)
      · exact hblk 0 (zero_le _) (by rw [hbase, hg, Granule.pgShift])
      · exact hblk 1 h1 (by rw [hbase, hg, Granule.pgShift])
  have hgroup : ∀ k ≤ d.height, size = d.findNumCont k * d.blockSize k →
      ∃ k ≤ d.height, matchesLevel d size k = true := by
    intro k hk hsize
    refine ⟨k, hk, ?_⟩
    rw [matchesLevel, ← hsize, beq_self_eq_true, Bool.or_true]
  unfold pageSizes at hs
  split_ifs at hs
  · simp only [mem_append, mem_cons, not_mem_nil, or_false] at hs
    rcases hs with hs | hs | hs
    · exact hgranule hs
    · exact hgroup 0 (zero_le _) hs
    · exact hgroup 1 (one_le_height d) hs
  · exact hgranule hs

theorem supported_pos : 0 < size := by
  obtain ⟨k, -, hk⟩ := supported_matches hs
  rw [matchesLevel_eq hk]
  exact Nat.mul_pos (checkAndSetNumCont_pos d size k) (d.blockSize_pos k)

theorem blockSize_zero_dvd : d.blockSize 0 ∣ size := by
  obtain ⟨k, -, hk⟩ := supported_matches hs
  exact dvd_trans (blockSize_dvd (zero_le k)) (blockSize_dvd_of_matches hk (dvd_refl _))

end

theorem and_or_eq_left (ha : size &&& a = size) : size &&& (a ||| b) = size := by
  apply eq_of_testBit_eq
  intro i
  have hi := congrArg (testBit · i) ha
  simp only [testBit_and, testBit_or] at hi ⊢
  revert hi
  cases size.testBit i <;> cases a.testBit i <;> simp

theorem and_foldl_or {l : List ℕ} : ∀ {acc : ℕ}, size ∈ l ∨ size &&& acc = size →
    size &&& l.foldl (· ||| ·) acc = size := by
  induction l with
  | nil => simp
  | cons a l ih =>
    intro acc hs
    rw [foldl_cons]
    apply ih
    rcases hs with hs | hs
    · rcases mem_cons.mp hs with rfl | hs
      · right
        rw [Nat.or_comm]
        exact and_or_eq_left (Nat.and_self size)
      · exact .inl hs
    · exact .inr (and_or_eq_left hs)

end

end VendorKernel.Iommu.Lpae
