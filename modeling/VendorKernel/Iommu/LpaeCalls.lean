import VendorKernel.Iommu.LpaeSg
import VendorKernel.Iommu.LpaeUnmapped

/-! The calls of `io_pgtable_ops` on the whole table, as the IOMMU core issues them. -/
namespace VendorKernel.Iommu.Lpae

open Nat

/-- A range of input addresses as the core passes it: whole pages of a supported size inside the
address space. The entries it counts for are an `int`. -/
structure Issued (d : Config) (iova pgsize pgcount : ℕ) : Prop where
  supported : pgsize ∈ d.pageSizes
  aligned : pgsize ∣ iova
  count_pos : 0 < pgcount
  count_lt : ∀ h, d.checkAndSetNumCont pgsize h * pgcount < 2 ^ 31
  inside : iova + pgsize * pgcount ≤ 2 ^ d.ias

structure Backed (d : Config) (paddr pgsize pgcount : ℕ) : Prop where
  aligned : pgsize ∣ paddr
  inside : paddr + pgsize * pgcount ≤ 2 ^ d.oas

section
variable {d : Config} {root : Table d.height} {iova paddr pgsize pgcount n : ℕ}

section
variable (hi : Issued d iova pgsize pgcount)
include hi

theorem Issued.iova_lt : iova < 2 ^ d.ias := by
  have hpos := Nat.mul_pos (supported_pos hi.supported) hi.count_pos
  have := hi.inside
  omega

theorem Issued.checks : ¬(pgsize = 0 ∨ pgsize &&& d.pgsizeBitmap ≠ pgsize ∨ pgcount = 0) ∧ iova >>> d.ias = 0 := by
  have hsize := supported_pos hi.supported
  have hcnt := hi.count_pos
  refine ⟨?_, ?_⟩
  · rintro (h | h | h)
    · omega
    · exact h (and_foldl_or (.inl hi.supported))
    · omega
  · rw [shiftRight_eq_div_pow]
    exact div_eq_of_lt hi.iova_lt

theorem mapPages_maps (alloc : ℕ → Bool) (prot : ℕ) (hb : Backed d paddr pgsize pgcount) (hg : GoodTable d root) :
    GoodTable d (mapPages d alloc root iova paddr pgsize pgcount prot).table ∧
    ((mapPages d alloc root iova paddr pgsize pgcount prot).ret = 0 →
      Maps d iova (iova + (mapPages d alloc root iova paddr pgsize pgcount prot).mapped)
        (linear iova paddr) root (mapPages d alloc root iova paddr pgsize pgcount prot).table) := by
  have hle : paddr + pgsize * pgcount ≤ 2 ^ d.granule.maxAddrBits :=
    Nat.le_trans hb.inside (Nat.pow_le_pow_right (by decide) d.oas_le)
  have hfit : FitsTable d false iova d.height d.pgdBits pgsize pgcount := by
    refine .inr ?_
    rw [d.span_root, Nat.div_eq_of_lt hi.iova_lt, Nat.one_mul]
    exact hi.inside
  have hsame : Maps d iova (iova + 0) (linear iova paddr) root root := .none hg (Nat.le_refl _)
  unfold mapPages
  split_ifs
  · exact ⟨hg, fun _ => hsame⟩
  · exact ⟨hg, fun _ => hsame⟩
  · exact ⟨hg, fun _ => hsame⟩
  · have hgoes := @armLpaeMap_goes d false iova paddr (protToPte prot) alloc _ d.pgdBits pgsize pgcount false root
    have hgood := (hgoes.good hi.aligned hb.aligned hle hfit hg).1
    refine ⟨hgood, fun hret => ⟨fun x hx => ?_, hgood⟩⟩
    exact (hgoes.walks hi.aligned hb.aligned hle hfit hret).2 x (span_congr_root hx hi.iova_lt)

theorem unmapPages_maps (alloc : ℕ → Bool) (hg : GoodTable d root) (ht : LivesTable d (Tame d) root)
    (hhole : NoHole d iova d.height d.pgdBits pgsize pgcount root) :
    Maps d iova (iova + (unmapPages d alloc root iova pgsize pgcount).unmapped) (fun _ => none) root
      (unmapPages d alloc root iova pgsize pgcount).table ∧
    LivesTable d (· < tblcntMod) (unmapPages d alloc root iova pgsize pgcount).table := by
  obtain ⟨hargs, hiova⟩ := hi.checks
  have hun := armLpaeUnmap_unmapped alloc d.height d.pgdBits pgsize pgcount root hg ht hi.aligned
    hi.count_pos (supported_matches hi.supported) hhole
  rw [unmapPages, if_neg hargs, if_neg (not_not.mpr hiova)]
  exact ⟨⟨fun x hx => hun.walk x (span_congr_root hx hi.iova_lt), hun.good⟩, hun.small⟩

end

theorem holes_eq_zero {entries : Table 0} (hn : d.lvlIdx d.bitsPerLevel 0 iova + n ≤ d.ptesPerTable)
    (hmap : ∀ x, iova ≤ x → x < iova + n * d.blockSize 0 → walk d d.bitsPerLevel entries x ≠ none) :
    holes entries (d.lvlIdx d.bitsPerLevel 0 iova) n = 0 := by
  refine count_iff_forall_not.mpr fun i hi hzero => ?_
  have hin : iova + i * d.blockSize 0 < iova + n * d.blockSize 0 :=
    Nat.add_lt_add_left (Nat.mul_lt_mul_of_pos_right hi (d.blockSize_pos 0)) iova
  have hidx : d.lvlIdx d.bitsPerLevel 0 (iova + i * d.blockSize 0) = d.lvlIdx d.bitsPerLevel 0 iova + i :=
    Radix.index_add (d.blockSize_pos 0) (Nat.lt_of_lt_of_le (Nat.add_lt_add_left hi _) hn)
  refine hmap (iova + i * d.blockSize 0) (Nat.le_add_right ..) hin ?_
  rw [walk, hidx, Entry.isZero_iff.mp hzero, Entry.walk_zero]

/-- A range that is mapped has no hole. -/
theorem noHole_of_mapped (h : ℕ) : ∀ (bits : ℕ) (t : Table h), pgsize ∣ iova →
    (∃ k ≤ h, matchesLevel d pgsize k = true) →
    (∀ x, iova ≤ x → x < iova + pgsize * pgcount →
      x / d.span bits h = iova / d.span bits h → walk d bits t x ≠ none) →
    NoHole d iova h bits pgsize pgcount t := by
  induction h with
  | zero => exact fun _ _ _ _ _ => trivial
  | succ h ih =>
    intro bits t hdvd hsize hmap
    rw [NoHole]
    cases he : t (d.lvlIdx bits (h + 1) iova) with
    | zero => trivial
    | leaf => trivial
    | table cnt entries =>
      by_cases hm : matchesLevel d pgsize (h + 1) = true
      · exact .inl hm
      have hlow := matches_lower (Bool.eq_false_iff.mpr hm) hsize
      -- what is mapped in the block is mapped by the table behind its entry
      have hents : ∀ x, iova ≤ x → x < iova + pgsize * pgcount →
          x / d.blockSize (h + 1) = iova / d.blockSize (h + 1) →
          walk d d.bitsPerLevel entries x ≠ none := by
        intro x hlo hhi hx
        have hspan : x / d.span bits (h + 1) = iova / d.span bits (h + 1) := span_congr_of_block hx
        have := hmap x hlo hhi hspan
        rwa [walk, (Config.lvlIdx_eq_iff hspan).mpr hx, he] at this
      right
      split_ifs with h0
      · subst h0
        have hm0 := matches_zero hlow
        have hblk := blockSize_dvd_of_matches hm0 hdvd
        have hend : iova + numEntries d d.bitsPerLevel 0 iova pgsize pgcount * d.blockSize 0 ≤ _ :=
          numEntries_end hblk
        have hcnt := numEntries_mul_le hm0 d.bitsPerLevel iova pgcount
        have hnone := holes_eq_zero
          (numEntries_le d _ 0 iova pgsize pgcount (le_of_lt Config.lvlIdx_lt))
          fun x hlo hhi => hents x hlo (by omega)
            (Radix.div_eq_of_lt_end hlo (lt_of_lt_of_le hhi hend))
        rw [hnone]
        exact Nat.dvd_zero _
      · exact ih d.bitsPerLevel entries hdvd hlow fun x hlo hhi hx =>
          hents x hlo hhi (by rwa [Config.span_bitsPerLevel] at hx)

end

end VendorKernel.Iommu.Lpae
