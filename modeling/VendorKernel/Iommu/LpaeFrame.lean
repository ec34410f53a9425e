import VendorKernel.Iommu.LpaeRefine

/-! What an unmap call leaves alone: every other translation, and the counts of the last-level
tables. Both hold if and only if no hole is counted off. -/
namespace VendorKernel.Iommu.Lpae
open Machine Config Nat Option Function

/-- The counts of the last-level tables below an entry are the numbers of their entries. -/
def Entry.Counted (d : Config) : {h : ℕ} → Entry h → Prop
  | _, .zero => True
  | _, .leaf .. => True
  | _, .table (h := h) cnt entries =>
      (h = 0 → cnt = live d entries) ∧ ∀ j, (entries j).Counted d

def CountedTable (d : Config) {h : ℕ} (t : Table h) : Prop := ∀ j, (t j).Counted d

section
variable {d : Config} {h cnt : ℕ}

theorem counted_table_iff {t : Table h} : (Entry.table cnt t).Counted d ↔
    (h = 0 → cnt = live d t) ∧ CountedTable d t := by
  rw [Entry.Counted, CountedTable]

theorem counted_of_good {e : Entry h} (hg : e.Good d) (hs : e.Lives d (· < tblcntMod)) : e.Counted d := by
  induction e with
  | zero | leaf => trivial
  | table cnt t ih =>
    obtain ⟨hcnt, hgood⟩ := good_table_iff.mp hg
    obtain ⟨hsm, hlives⟩ := lives_table_iff.mp hs
    refine counted_table_iff.mpr ⟨fun h0 => ?_, fun j => ih j (hgood j) (hlives j)⟩
    rw [hcnt h0, mod_eq_of_lt (hsm h0)]

end

/-! ### A hole shows -/

section
variable {d : Config} {iova size pgcount j x s n cnt h bits : ℕ} {t t' entries : Table 0}

theorem walk_page_ne_none (hj : (t j).isZero = false) (hx : d.lvlIdx d.bitsPerLevel 0 x = j) :
    walk d d.bitsPerLevel t x ≠ none := by
  rw [walk, hx]
  cases he : t j with
  | zero => rw [he] at hj; cases hj
  | leaf => exact some_ne_none _

theorem live_eq_zero_of_walk (hr : Removed d t t' s n) (hs : d.lvlIdx d.bitsPerLevel 0 iova = s)
    (hblk : d.blockSize 0 ∣ iova)
    (hwalk : ∀ x, x / d.blockSize 1 = iova / d.blockSize 1 → ¬(iova ≤ x ∧ x < iova + n * d.blockSize 0) →
      walk d d.bitsPerLevel t x = none) :
    live d t' = 0 := by
  refine count_iff_forall_not.mpr fun j hj hused => ?_
  have hout : ¬(s ≤ j ∧ j < s + n) := by
    rintro ⟨hle, hlt⟩
    rw [hr.run j hle hlt] at hused
    cases hused
  obtain ⟨x, hx, hidx⟩ :=
    Radix.exists_index (q := iova / d.blockSize 1) (d.blockSize_pos 0) hj
  have hspan : x / d.span d.bitsPerLevel 0 = iova / d.span d.bitsPerLevel 0 := by
    rw [span_bitsPerLevel, ← hx, blockSize_succ]
  refine walk_page_ne_none ((hr.rest j hout).isZero ▸ hused) hidx (hwalk x ?_ ?_)
  · rwa [span_bitsPerLevel] at hspan
  · rw [mem_run_iff hspan hblk, hs]
    rwa [show d.lvlIdx d.bitsPerLevel 0 x = j from hidx]

/-- What `unmapLast` does to the count and to the other pages of the table, if both are right, says
that there was no hole. -/
theorem holes_of_unmapLast (hblk : d.blockSize 0 ∣ iova) (hcnt : cnt = live d entries % tblcntMod)
    (hfr : ∀ x, x / d.blockSize 1 = iova / d.blockSize 1 →
      ¬(iova ≤ x ∧ x < iova + numEntries d d.bitsPerLevel 0 iova size pgcount * d.blockSize 0) →
        (unmapLast d iova size pgcount cnt entries).2.1.walk d x = walk d d.bitsPerLevel entries x)
    (hctd : (unmapLast d iova size pgcount cnt entries).2.1.Counted d) :
    tblcntMod ∣ holes entries (d.lvlIdx d.bitsPerLevel 0 iova) (numEntries d d.bitsPerLevel 0 iova size pgcount) := by
  simp only [unmapLast] at hfr hctd
  have hin := numEntries_le d d.bitsPerLevel 0 iova size pgcount (le_of_lt lvlIdx_lt)
  have hrem := removed_clearEntries d d.bitsPerLevel iova (d.lvlIdx d.bitsPerLevel 0 iova)
    (numEntries d d.bitsPerLevel 0 iova size pgcount) (d.lvlIdx d.bitsPerLevel 0 iova)
    (numEntries d d.bitsPerLevel 0 iova size pgcount) entries
  generalize clearEntries _ _ _ = t' at hrem hfr hctd
  generalize numEntries d d.bitsPerLevel 0 iova size pgcount = n at *
  generalize hs : d.lvlIdx d.bitsPerLevel 0 iova = s at *
  obtain ⟨hcounts, -⟩ := hrem.live hin
  have hptes := ptesPerTable_le d
  have hcs : tblcntSub cnt n = live d t' := by
    by_cases hfrd2 : tblcntSub cnt n = 0
    · rw [if_pos hfrd2] at hfr
      rw [hfrd2, live_eq_zero_of_walk hrem hs hblk fun x hx hout => (hfr x hx hout).symm]
    · rw [if_neg hfrd2] at hctd
      exact (counted_table_iff.mp hctd).1 rfl
  rw [tblcntSub] at hcs
  unfold tblcntMod at *
  omega

theorem noHole_of_entry {t : Table h}
    (he : t (d.lvlIdx bits h iova) = .zero ∨ (∃ a p c, t (d.lvlIdx bits h iova) = .leaf a p c) ∨
      matchesLevel d size h = true) :
    NoHole d iova h bits size pgcount t := by
  cases h with
  | zero => trivial
  | succ h =>
    rw [NoHole]
    cases hcase : t (d.lvlIdx bits (h + 1) iova) with
    | zero | leaf => trivial
    | table cnt entries =>
      rcases he with he | ⟨a, p, c, he⟩ | hm
      · rw [hcase] at he
        cases he
      · rw [hcase] at he
        cases he
      · exact .inl hm

/-- If an unmap call changes no other translation and leaves the counts right, no hole was counted
off. -/
theorem noHole_of_frame (alloc : ℕ → Bool) (h bits size pgcount : ℕ) (t : Table h)
    (hg : GoodTable d t) (hiova : size ∣ iova) (hsize : ∃ k ≤ h, matchesLevel d size k = true)
    (hfr : ∀ x, x / d.span bits h = iova / d.span bits h →
      ¬(iova ≤ x ∧ x < iova + (armLpaeUnmap d alloc iova h bits size pgcount t).unmapped) →
      walk d bits (armLpaeUnmap d alloc iova h bits size pgcount t).table x = walk d bits t x)
    (hctd : CountedTable d (armLpaeUnmap d alloc iova h bits size pgcount t).table) :
    NoHole d iova h bits size pgcount t := by
  have hgoes := armLpaeUnmap_goes d alloc iova size pgcount h bits t
  generalize armLpaeUnmap d alloc iova h bits size pgcount t = r at hgoes hfr hctd
  induction hgoes with
  | zero he => exact noHole_of_entry (.inl he)
  | matched hm => exact noHole_of_entry (.inr (.inr hm))
  | bottom => trivial
  | @last bits cnt t entries hm he =>
    dsimp only at hfr hctd
    have hm0 := matches_zero (matches_lower hm hsize)
    obtain ⟨hcnt, -⟩ := good_table_iff.mp (he ▸ hg (d.lvlIdx bits 1 iova))
    simp only [NoHole, he, hm, if_true, Bool.false_eq_true, false_or]
    refine holes_of_unmapLast (blockSize_dvd_of_matches hm0 hiova) (hcnt rfl) (fun x hx hout => ?_) ?_
    · have hspan : x / d.span bits _ = iova / d.span bits _ := span_congr_of_block hx
      have hidx := (lvlIdx_eq_iff hspan).mpr hx
      have hres : (unmapLast d iova size pgcount cnt entries).1 =
          numEntries d d.bitsPerLevel 0 iova size pgcount * d.blockSize 0 := by
        simp only [unmapLast, div_checkAndSetNumCont hm0]
      have := hfr x hspan (by rwa [hres])
      rwa [walk_update, if_pos hidx, walk, hidx, he] at this
    · have := hctd (d.lvlIdx bits 1 iova)
      rwa [update_self] at this
  | @down h bits cnt t entries r h0 hm he _ ih =>
    dsimp only at hfr hctd
    obtain ⟨-, hgood⟩ := good_table_iff.mp (he ▸ hg (d.lvlIdx bits (h + 1) iova))
    have hey := hctd (d.lvlIdx bits (h + 1) iova)
    rw [update_self] at hey
    simp only [NoHole, he, hm, if_neg h0, Bool.false_eq_true, false_or]
    refine ih hgood (matches_lower hm hsize) (fun x hx hout => ?_) (counted_table_iff.mp hey).2
    rw [span_bitsPerLevel] at hx
    have hspan : x / d.span bits _ = iova / d.span bits _ := span_congr_of_block hx
    have hidx := (lvlIdx_eq_iff hspan).mpr hx
    have hold : walk d bits t x = walk d d.bitsPerLevel entries x := by
      rw [walk, hidx, he, walk_table]
    rw [← hold, ← hfr x hspan hout, walk_update, if_pos hidx, walk_table]
  | kept _ he | split _ he | splitDown _ he => exact noHole_of_entry (.inr (.inl ⟨_, _, _, he⟩))

end

/-! ### Runs -/

structure Op where
  call : Call
  alloc : ℕ → Bool

def tableStep (d : Config) (t : Table d.height) (o : Op) : Option (Table d.height) :=
  match o.call with
  | .mapPages iova paddr pgsize pgcount prot =>
    some (mapPages d o.alloc t iova paddr pgsize pgcount prot).table
  | .mapSg iova sg prot => (mapSg d o.alloc t iova sg prot).map fun r => r.2.root
  | .unmapPages iova pgsize pgcount => some (unmapPages d o.alloc t iova pgsize pgcount).table

def Contract (d : Config) : Call → Prop
  | .mapPages iova paddr pgsize pgcount _ =>
    Issued d iova pgsize pgcount ∧ Backed d paddr pgsize pgcount
  | .mapSg .. => True
  | .unmapPages iova pgsize pgcount => Issued d iova pgsize pgcount

def Careful (d : Config) (t : Table d.height) : Call → Prop
  | .unmapPages iova pgsize pgcount =>
    LivesTable d (Tame d) t ∧ NoHole d iova d.height d.pgdBits pgsize pgcount t
  | _ => True

section
variable {d : Config}

/-- Careful calls keep the counts right. -/
theorem tableStep_good (t : Table d.height) (o : Op) (t' : Table d.height) (hg : GoodTable d t)
    (ho : Contract d o.call ∧ Careful d t o.call) (hstep : tableStep d t o = some t') :
    GoodTable d t' := by
  obtain ⟨hc, hcare⟩ := ho
  unfold tableStep at hstep
  cases hcall : o.call with
  | mapPages iova paddr pgsize pgcount prot =>
    rw [hcall] at hstep hc
    cases hstep
    exact (mapPages_maps hc.1 o.alloc prot hc.2 hg).1
  | mapSg iova sg prot =>
    rw [hcall] at hstep
    obtain ⟨r, hr, rfl⟩ := map_eq_some_iff.mp hstep
    cases hacc : hasAccess prot with
    | true =>
      obtain ⟨ret, s', heq, hmaps⟩ := mapSg_maps o.alloc hacc hg iova sg
      obtain rfl := some.inj (heq.symm.trans hr)
      exact hmaps.good
    | false =>
      obtain ⟨ret, s', heq, hroot⟩ := mapSg_noAccess o.alloc hacc t iova sg
      obtain rfl := some.inj (heq.symm.trans hr)
      exact hroot ▸ hg
  | unmapPages iova pgsize pgcount =>
    rw [hcall] at hstep hc hcare
    cases hstep
    exact (unmapPages_maps hc o.alloc hg hcare.1 hcare.2).1.good

/-- In every table that careful calls lead to, an unmap call changes no translation outside the range
it reports and leaves every count right if and only if it counts off no hole. -/
theorem unmapPages_frame_iff (d : Config) (ops : List Op) (t : Table d.height)
    (hrun : run (tableStep d) (fun _ => .zero) ops = some t)
    (hops : Meets (tableStep d) (fun t o => Contract d o.call ∧ Careful d t o.call)
      (fun _ => .zero) ops)
    (alloc : ℕ → Bool) (iova pgsize pgcount : ℕ) (hi : Issued d iova pgsize pgcount)
    (ht : LivesTable d (Tame d) t) :
    ((∀ x < 2 ^ d.ias,
        ¬(iova ≤ x ∧ x < iova + (unmapPages d alloc t iova pgsize pgcount).unmapped) →
        walk d d.pgdBits (unmapPages d alloc t iova pgsize pgcount).table x = walk d d.pgdBits t x) ∧
      CountedTable d (unmapPages d alloc t iova pgsize pgcount).table) ↔
    NoHole d iova d.height d.pgdBits pgsize pgcount t := by
  have hg : GoodTable d t := run_inv tableStep_good goodTable_zero hops hrun
  constructor
  · rintro ⟨hfr, hctd⟩
    obtain ⟨hargs, hiova⟩ := hi.checks
    rw [unmapPages, if_neg hargs, if_neg (not_not.mpr hiova)] at hfr hctd
    refine noHole_of_frame alloc d.height d.pgdBits pgsize pgcount t hg hi.aligned
      (supported_matches hi.supported) (fun x hx hout => hfr x ?_ hout) hctd
    rw [d.span_root, Nat.div_eq_of_lt hi.iova_lt] at hx
    exact (Nat.div_eq_zero_iff.mp hx).resolve_left (Nat.two_pow_pos _).ne'
  · intro hhole
    obtain ⟨hmaps, hsm⟩ := unmapPages_maps hi alloc hg ht hhole
    refine ⟨fun x hx hout => ?_, fun j => counted_of_good (hmaps.good j) (hsm j)⟩
    rw [hmaps.walk x hx, replaceOn_out hout]

end

/-- A page is mapped and unmapped again. -/
theorem unmapPages_frame_iff_page : ∃ t : Table (smmu4k false).height,
    run (tableStep (smmu4k false)) (fun _ => .zero) [⟨.mapPages 0 (2 ^ 12) (2 ^ 12) 1 3, fun _ => true⟩] = some t ∧
    (((∀ x < 2 ^ 48, ¬(0 ≤ x ∧ x < 0 + (unmapPages (smmu4k false) (fun _ => true) t 0 (2 ^ 12)
          1).unmapped) →
        walk (smmu4k false) (smmu4k false).pgdBits
          (unmapPages (smmu4k false) (fun _ => true) t 0 (2 ^ 12) 1).table x =
          walk (smmu4k false) (smmu4k false).pgdBits t x) ∧
      CountedTable (smmu4k false) (unmapPages (smmu4k false) (fun _ => true) t 0 (2 ^ 12) 1).table) ↔
    NoHole (smmu4k false) 0 (smmu4k false).height (smmu4k false).pgdBits (2 ^ 12) 1 t) := by
  have hi : Issued (smmu4k false) 0 (2 ^ 12) 1 := ⟨by decide, by decide, by decide,
    fun h => by rw [checkAndSetNumCont_noHint rfl]; decide, by decide⟩
  have hb : Backed (smmu4k false) (2 ^ 12) (2 ^ 12) 1 := ⟨by decide, by decide⟩
  exact ⟨_, rfl, unmapPages_frame_iff (smmu4k false)
    [⟨.mapPages 0 (2 ^ 12) (2 ^ 12) 1 3, fun _ => true⟩] _ rfl ⟨⟨⟨hi, hb⟩, trivial⟩, trivial⟩
    (fun _ => true) 0 (2 ^ 12) 1 hi (tame_k4 rfl rfl _)⟩

/-- Pages 0 and 2 are mapped and page 1, a hole, is unmapped: unmapping page 0 then takes page 2
along. -/
theorem unmapPages_frame_lost :
    (run (tableStep (smmu4k false)) (fun _ => .zero)
      [⟨.mapPages 0 (2 ^ 12) (2 ^ 12) 1 3, fun _ => true⟩,
        ⟨.mapPages (2 * 2 ^ 12) (2 ^ 13) (2 ^ 12) 1 3, fun _ => true⟩,
        ⟨.unmapPages (2 ^ 12) (2 ^ 12) 1, fun _ => true⟩]).map (fun t =>
      let r := unmapPages (smmu4k false) (fun _ => true) t 0 (2 ^ 12) 1
      (r.unmapped, iovaToPhys (smmu4k false) t (2 * 2 ^ 12),
        iovaToPhys (smmu4k false) r.table (2 * 2 ^ 12))) = some (2 ^ 12, 2 ^ 13, 0) := by
  decide +kernel

end VendorKernel.Iommu.Lpae
