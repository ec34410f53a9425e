import VendorKernel.Iommu.LpaeWalk

/-! What `__arm_lpae_map` does to the walk and to the counts. -/
namespace VendorKernel.Iommu.Lpae

open Config Nat Bool

section
variable {d : Config} {ms cont : Bool} {iova paddr prot h bits size pgcount start n x : ℕ} {t : Table h}

theorem initPte_cases (d : Config) (t : Table h) (start n paddr prot : ℕ) (cont : Bool) :
    armLpaeInitPte d t start n paddr prot cont = none ∨
    (∀ j, start ≤ j → j < start + n → t j = .zero) ∧
      armLpaeInitPte d t start n paddr prot cont = some (initPtes d t start n paddr prot cont) := by
  unfold armLpaeInitPte
  split_ifs with hused
  · exact .inl rfl
  · refine .inr ⟨fun j hle hlt => ?_, rfl⟩
    by_contra hne
    refine hused ⟨j - start, List.mem_range.mpr (by omega), ?_⟩
    rw [Nat.add_sub_cancel' hle]
    exact eq_false_iff.mpr fun hz => hne (Entry.isZero_iff.mp hz)

theorem good_initPtes (ht : GoodTable d t) (hdvd : d.blockSize h ∣ paddr)
    (hle : paddr + n * d.blockSize h ≤ 2 ^ d.granule.maxAddrBits) :
    GoodTable d (initPtes d t start n paddr prot cont) := by
  intro j
  rw [initPtes]
  split_ifs with hj
  · exact good_new_leaf (Nat.dvd_add hdvd (Nat.dvd_mul_left ..)) (Nat.le_trans (block_le_run (by omega)) hle)
  · exact ht j

theorem live_initPtes (hzero : ∀ j, start ≤ j → j < start + n → t j = .zero)
    (hin : start + n ≤ d.ptesPerTable) :
    live d (initPtes d t start n paddr prot cont) = live d t + n := by
  refine (Radix.count_run hin ?_ ?_ ?_).symm
  · intro j hle hlt
    rw [hzero j hle hlt]
    exact Bool.noConfusion
  · intro j _ hj
    rw [initPtes, if_neg hj]
  · intro j hle hlt
    rw [initPtes, if_pos ⟨hle, hlt⟩]
    rfl

/-- The leaves translate their range, and nothing else changes. -/
theorem walk_initPtes (hiova : d.blockSize h ∣ iova) (hpa : d.blockSize h ∣ paddr)
    (hle : paddr + n * d.blockSize h ≤ 2 ^ d.granule.maxAddrBits) (hspan : x / d.span bits h = iova / d.span bits h) :
    walk d bits (initPtes d t (d.lvlIdx bits h iova) n paddr prot cont) x =
      if iova ≤ x ∧ x < iova + n * d.blockSize h then some (paddr + (x - iova))
      else walk d bits t x := by
  have hrun := mem_run_iff (n := n) hspan hiova
  by_cases hx : iova ≤ x ∧ x < iova + n * d.blockSize h
  · have hj := hrun.mp hx
    have hi : d.lvlIdx bits h x - d.lvlIdx bits h iova < n := by omega
    rw [if_pos hx, walk, initPtes, if_pos hj, ← lvlIdx_sub hspan hiova hx.1]
    generalize d.lvlIdx bits h x - d.lvlIdx bits h iova = i at hi ⊢
    have hdvd : d.blockSize h ∣ paddr + i * d.blockSize h :=
      Nat.dvd_add hpa (Nat.dvd_mul_left ..)
    have hend : paddr + i * d.blockSize h + d.blockSize h ≤ 2 ^ d.granule.maxAddrBits :=
      Nat.le_trans (block_le_run hi) hle
    rw [walk_leaf (good_new_leaf hdvd hend), paddr_new_leaf hdvd hend, add_assoc]
  · rw [if_neg hx, walk, initPtes, if_neg fun hj => hx (hrun.mpr hj)]
    rfl

end

/-- The leaves of a call stay in one table: at most a full table, or an aligned group with a `map_state`. At the root
the range is in the address space. -/
def FitsTable (d : Config) (ms : Bool) (iova h bits size pgcount : ℕ) : Prop :=
  if ms then size * pgcount ∣ iova ∧ (pgcount = 1 ∨ size = d.blockSize h ∧ pgcount ∣ 2 ^ bits)
  else bits = d.bitsPerLevel ∨ iova + size * pgcount ≤ (iova / d.span bits h + 1) * d.span bits h

section
variable {d : Config} {ms : Bool} {iova h bits size pgcount u s y : ℕ}

theorem add_le_span (hu : u ∣ y) (hs : u ∣ s) (hpos : 0 < s) : y + u ≤ (y / s + 1) * s := by
  have hlt : y < (y / s + 1) * s := by
    rw [mul_comm]
    exact lt_mul_div_succ y hpos
  have hdvd : u ∣ (y / s + 1) * s - y := Nat.dvd_sub (Nat.dvd_trans hs (Nat.dvd_mul_left ..)) hu
  have := Nat.le_of_dvd (Nat.sub_pos_of_lt hlt) hdvd
  omega

theorem FitsTable.run_le (hfit : FitsTable d ms iova h bits (d.blockSize h) pgcount)
    (hiova : d.blockSize h ∣ iova) :
    iova + leafCount d ms pgcount (d.lvlIdx bits h iova) * d.blockSize h ≤
      (iova / d.span bits h + 1) * d.span bits h := by
  unfold leafCount
  cases ms with
  | true =>
    simp only [if_true] at hfit ⊢
    obtain ⟨hdvd, hcount⟩ := hfit
    have hcount : pgcount ∣ 2 ^ bits := by
      rcases hcount with rfl | ⟨-, hcount⟩
      · exact one_dvd _
      · exact hcount
    rw [Nat.mul_comm pgcount]
    refine add_le_span hdvd ?_ (Nat.mul_pos (Nat.two_pow_pos _) (d.blockSize_pos h))
    rw [Nat.mul_comm]
    exact Nat.mul_dvd_mul_right hcount _
  | false =>
    simp only [false_eq_true, if_false] at hfit ⊢
    rcases hfit with rfl | hfit
    · refine (run_le_span_iff hiova).mpr ?_
      have hlt : d.lvlIdx d.bitsPerLevel h iova < 2 ^ d.bitsPerLevel := lvlIdx_lt
      simp only [ptesPerTable]
      omega
    · refine Nat.le_trans (Nat.add_le_add_left ?_ iova) hfit
      rw [Nat.mul_comm]
      exact Nat.mul_le_mul_left _ (Nat.min_le_left ..)

theorem mapNext_mul (d : Config) (h size pgcount : ℕ) (cont : Bool) :
    (mapNext d h size pgcount cont).1 * (mapNext d h size pgcount cont).2.1 = size * pgcount := by
  unfold mapNext
  split_ifs with hc
  · simp only [pteIsContiguousRange, and_eq_true, beq_iff_eq] at hc
    rw [hc.2, ← mul_assoc, mul_comm (d.blockSize h)]
  · rfl

theorem mapNext_dvd (d : Config) (h size pgcount : ℕ) (cont : Bool) : (mapNext d h size pgcount cont).1 ∣ size := by
  unfold mapNext
  split_ifs with hc
  · simp only [pteIsContiguousRange, and_eq_true, beq_iff_eq] at hc
    exact hc.2 ▸ dvd_mul_left ..
  · exact dvd_refl size

theorem FitsTable.next (hfit : FitsTable d ms iova (h + 1) bits size pgcount) (cont : Bool)
    (hsize : size ≠ d.blockSize (h + 1)) :
    FitsTable d ms iova h d.bitsPerLevel (mapNext d h size pgcount cont).1 (mapNext d h size pgcount cont).2.1 := by
  cases ms with
  | false => exact .inl rfl
  | true =>
    obtain ⟨hdvd, rfl | ⟨heq, -⟩⟩ := hfit
    · refine ⟨by rwa [mapNext_mul], ?_⟩
      unfold mapNext
      split_ifs
      · exact .inr ⟨rfl, by rw [mul_one]; exact d.findNumCont_dvd h⟩
      · exact .inl rfl
    · exact absurd heq hsize

end

section
variable {d : Config} {alloc : ℕ → Bool} {ms cont : Bool} {iova paddr prot h pgcount bits cnt : ℕ}

theorem leaves_le (hle : paddr + d.blockSize h * pgcount ≤ 2 ^ d.granule.maxAddrBits) (start : ℕ) :
    paddr + leafCount d ms pgcount start * d.blockSize h ≤ 2 ^ d.granule.maxAddrBits := by
  have hcount : leafCount d ms pgcount start ≤ pgcount := by
    unfold leafCount
    split_ifs
    · exact le_refl _
    · exact min_le_left ..
  rw [Nat.mul_comm] at hle
  exact Nat.le_trans (Nat.add_le_add_left (Nat.mul_le_mul_right _ hcount) _) hle

/-- A level of `__arm_lpae_map` fails, writes leaves, or goes on in the table behind its entry and counts
what was added there. -/
inductive MapGoes (d : Config) (ms : Bool) (iova paddr prot : ℕ) :
    {h : ℕ} → (bits size pgcount : ℕ) → Bool → Table h → MapResult h → Prop
  | failed {h bits size pgcount ret lvl : ℕ} {cont : Bool} {t : Table h} (hne : ret ≠ 0) :
      MapGoes d ms iova paddr prot bits size pgcount cont t ⟨ret, 0, 0, lvl, t⟩
  | leaves {h bits pgcount n : ℕ} {cont : Bool} {t : Table h}
      (hn : leafCount d ms pgcount (d.lvlIdx bits h iova) = n)
      (hzero : ∀ j, d.lvlIdx bits h iova ≤ j → j < d.lvlIdx bits h iova + n → t j = .zero) :
      MapGoes d ms iova paddr prot bits (d.blockSize h) pgcount cont t
        ⟨0, d.blockSize h * n, n, h, initPtes d t (d.lvlIdx bits h iova) n paddr prot cont⟩
  | down {h bits size pgcount cnt : ℕ} {cont : Bool} {t : Table (h + 1)} {entries : Table h} {r : MapResult h}
      (hsize : size ≠ d.blockSize (h + 1)) (hcd : (t (d.lvlIdx bits (h + 1) iova)).child = some (cnt, entries))
      (hr : MapGoes d ms iova paddr prot d.bitsPerLevel (mapNext d h size pgcount cont).1
        (mapNext d h size pgcount cont).2.1 (mapNext d h size pgcount cont).2.2 entries r) :
      MapGoes d ms iova paddr prot bits size pgcount cont t ⟨r.ret, r.mapped, 0, r.lvl,
        Function.update t (d.lvlIdx bits (h + 1) iova) (.table ((cnt + r.added) % tblcntMod) r.table)⟩

theorem mapLeaf_goes {t : Table h} :
    MapGoes d ms iova paddr prot bits (d.blockSize h) pgcount cont t
      (mapLeaf d ms iova paddr prot bits (d.blockSize h) pgcount cont t) := by
  unfold mapLeaf
  dsimp only
  rcases initPte_cases d t (d.lvlIdx bits h iova) (leafCount d ms pgcount (d.lvlIdx bits h iova)) paddr prot cont
    with hnone | ⟨hzero, hsome⟩
  · rw [hnone]
    exact .failed (by decide)
  · rw [hsome]
    exact .leaves rfl hzero

/-- By induction on the height of the table. -/
theorem armLpaeMap_goes (alloc : ℕ → Bool) (h : ℕ) : ∀ (bits size pgcount : ℕ) (cont : Bool) (t : Table h),
    MapGoes d ms iova paddr prot bits size pgcount cont t
      (armLpaeMap d alloc ms iova paddr prot h bits size pgcount cont t) := by
  induction h with
  | zero =>
    intro bits size pgcount cont t
    rw [armLpaeMap]
    split_ifs with hsize
    · exact hsize ▸ mapLeaf_goes
    · exact .failed (by decide)
  | succ h ih =>
    intro bits size pgcount cont t
    rw [armLpaeMap]
    split_ifs with hsize
    · exact hsize ▸ mapLeaf_goes
    dsimp only
    split_ifs
    · exact .failed (by decide)
    cases hcd : (t (d.lvlIdx bits (h + 1) iova)).child with
    | none => exact .failed (by decide)
    | some c => exact .down hsize hcd (ih ..)

theorem child_good {e : Entry (h + 1)} {t : Table h} (he : e.child = some (cnt, t)) (hg : e.Good d) :
    (h = 0 → cnt = live d t % tblcntMod) ∧ GoodTable d t := by
  cases e with
  | zero =>
    cases he
    exact ⟨fun _ => by rw [live_zero, zero_mod], goodTable_zero⟩
  | leaf => cases he
  | table =>
    cases he
    exact good_table_iff.mp hg

namespace MapGoes
variable {h bits size pgcount : ℕ} {cont : Bool} {t : Table h} {r : MapResult h}
  (hr : MapGoes d ms iova paddr prot bits size pgcount cont t r)
include hr

theorem unchanged (hret : r.ret ≠ 0) : ∀ x, walk d bits r.table x = walk d bits t x := by
  induction hr with
  | failed => exact fun _ => rfl
  | leaves => exact absurd rfl hret
  | down _ hcd _ ih =>
    intro x
    rw [walk_update]
    split_ifs with hidx
    · rw [walk_table, ih hret, child_walk hcd, walk, hidx]
    · rfl

variable (hiova : size ∣ iova) (hpa : size ∣ paddr) (hle : paddr + size * pgcount ≤ 2 ^ d.granule.maxAddrBits)
  (hfit : FitsTable d ms iova h bits size pgcount)
include hiova hpa hle hfit

/-- A call that succeeds maps a range that starts at `iova` and stays in the table, to the physical
range at `paddr`, and changes no other translation. -/
theorem walks (hret : r.ret = 0) :
    iova + r.mapped ≤ (iova / d.span bits h + 1) * d.span bits h ∧
    ∀ x, x / d.span bits h = iova / d.span bits h → walk d bits r.table x =
      if iova ≤ x ∧ x < iova + r.mapped then some (paddr + (x - iova)) else walk d bits t x := by
  induction hr with
  | failed hne => exact absurd hret hne
  | @leaves h _ _ _ _ _ hn =>
    have hrun := hfit.run_le hiova
    subst hn
    rw [mul_comm (d.blockSize h)]
    exact ⟨hrun, fun x hx => walk_initPtes hiova hpa (leaves_le hle _) hx⟩
  | down hsize hcd _ ih =>
    obtain ⟨hend, hwalk⟩ := ih (dvd_trans (mapNext_dvd ..) hiova) (dvd_trans (mapNext_dvd ..) hpa)
      (by rwa [mapNext_mul]) (hfit.next _ hsize) hret
    rw [span_bitsPerLevel] at hend hwalk
    refine ⟨le_trans hend (block_end_le_span iova), fun x hx => ?_⟩
    refine walk_update_block (v := fun x => some (paddr + (x - iova))) hend (fun y hy => ?_) hx
    rw [walk_table, hwalk y hy, child_walk hcd]

/-- A call keeps the table well-formed, and reports the leaves it adds to a last-level table. -/
theorem good (ht : GoodTable d t) :
    GoodTable d r.table ∧ (h = 0 → bits = d.bitsPerLevel → live d r.table = live d t + r.added) := by
  induction hr with
  | failed => exact ⟨ht, fun _ _ => rfl⟩
  | leaves hn hzero =>
    subst hn
    refine ⟨good_initPtes ht hpa (leaves_le hle _), fun _ hbits => ?_⟩
    have hrun := (run_le_span_iff hiova).mp (hfit.run_le hiova)
    subst hbits
    exact live_initPtes hzero hrun
  | down hsize hcd _ ih =>
    obtain ⟨hcnt, hents⟩ := child_good hcd (ht _)
    obtain ⟨hgood, hlive⟩ := ih (dvd_trans (mapNext_dvd ..) hiova) (dvd_trans (mapNext_dvd ..) hpa)
      (by rwa [mapNext_mul]) (hfit.next _ hsize) hents
    refine ⟨ht.update (good_table_iff.mpr ⟨fun h0 => ?_, hgood⟩) _, fun h0 => by cases h0⟩
    rw [hcnt h0, hlive h0 rfl, mod_add_mod]

end MapGoes

end

end VendorKernel.Iommu.Lpae
