import VendorKernel.Iommu.LpaeSizes

/-! What `__arm_lpae_unmap` does to the walk and to the counts. -/
namespace VendorKernel.Iommu.Lpae

open Config Entry Function Nat

/-- The number of entries of each last-level table below an entry has property `p`. -/
def Entry.Lives (d : Config) (p : ℕ → Prop) : {h : ℕ} → Entry h → Prop
  | _, .zero => True
  | _, .leaf .. => True
  | _, .table (h := h) _ entries =>
      (h = 0 → p (live d entries)) ∧ ∀ j, (entries j).Lives d p

def LivesTable (d : Config) (p : ℕ → Prop) {h : ℕ} (t : Table h) : Prop := ∀ j, (t j).Lives d p

/-- A number of entries that fits into the 13 bits of the count and, with the hint, is not taken for
a contiguous bit. -/
def Tame (d : Config) (n : ℕ) : Prop :=
  n < tblcntMod ∧ (d.contigHint = true → n.testBit 10 = false)

section
variable {d : Config} {p p' : ℕ → Prop} {h cnt n : ℕ} {e e' : Entry h} {t : Table h}

theorem lives_table_iff : (table cnt t).Lives d p ↔ (h = 0 → p (live d t)) ∧ LivesTable d p t := by
  rw [Entry.Lives, LivesTable]

theorem Entry.Lives.mono (hp : ∀ n, p n → p' n) (he : e.Lives d p) : e.Lives d p' := by
  induction e with
  | zero | leaf => trivial
  | table cnt t ih =>
    obtain ⟨hlive, ht⟩ := lives_table_iff.mp he
    exact lives_table_iff.mpr ⟨fun h0 => hp _ (hlive h0), fun j => ih j (ht j)⟩

theorem LivesTable.update (ht : LivesTable d p t) (he : e.Lives d p) (i : ℕ) : LivesTable d p (update t i e) :=
  (forall_update_iff t (p := fun _ e => e.Lives d p)).mpr ⟨he, fun j _ => ht j⟩

theorem and_contMask (hlt : n < tblcntMod) (hbit : n.testBit 10 = false) : n &&& (tblcntMod - 1 - 2 ^ 10) = n := by
  apply eq_of_testBit_eq
  intro i
  rw [testBit_and]
  rcases lt_or_ge i 13 with hi | hi
  · by_cases h10 : i = 10
    · rw [h10, hbit, Bool.false_and]
    · have hmask : (tblcntMod - 1 - 2 ^ 10).testBit i = true := by
        revert i
        decide
      rw [hmask, Bool.and_true]
  · have : n.testBit i = false :=
      Nat.testBit_lt_two_pow (Nat.lt_of_lt_of_le hlt (Nat.pow_le_pow_right (by decide) hi))
    rw [this, Bool.false_and]

theorem good_clearCont (hg : e.Good d) (ht : e.Lives d (Tame d)) (hhint : d.contigHint = true) :
    e.clearCont.Good d := by
  cases e with
  | zero => trivial
  | leaf => exact hg
  | table cnt t =>
    obtain ⟨hcnt, hgood⟩ := good_table_iff.mp hg
    obtain ⟨htame, -⟩ := lives_table_iff.mp ht
    refine good_table_iff.mpr ⟨fun h0 => ?_, hgood⟩
    obtain ⟨hlt, hbit⟩ := htame h0
    rw [hcnt h0, mod_eq_of_lt hlt, and_contMask hlt (hbit hhint)]

theorem Cleared.good (hc : Cleared d e e') (hg : e.Good d) (ht : e.Lives d (Tame d)) : e'.Good d := by
  rcases hc with rfl | ⟨hhint, rfl⟩
  · exact hg
  · exact good_clearCont hg ht hhint

theorem Cleared.lives (hc : Cleared d e e') (he : e.Lives d p) : e'.Lives d p := by
  rcases hc with rfl | ⟨-, rfl⟩
  · exact he
  · cases e with
    | zero | leaf => trivial
    | table cnt t => exact lives_table_iff.mpr (lives_table_iff.mp he)

end

def holes {h : ℕ} (t : Table h) (s k : ℕ) : ℕ := count (fun i => (t (s + i)).isZero = true) k

/-- `k` entries from `s` on are removed, and the others have at most lost their contiguous bit. -/
structure Removed (d : Config) {h : ℕ} (t t' : Table h) (s k : ℕ) : Prop where
  run : ∀ j, s ≤ j → j < s + k → t' j = .zero
  rest : ∀ j, ¬(s ≤ j ∧ j < s + k) → Cleared d (t j) (t' j)

namespace Removed
variable {d : Config} {h bits s k iova x : ℕ} {t t' : Table h}

theorem walk (hr : Removed d t t' (d.lvlIdx bits h iova) k) (hiova : d.blockSize h ∣ iova)
    (hspan : x / d.span bits h = iova / d.span bits h) :
    walk d bits t' x =
      if iova ≤ x ∧ x < iova + k * d.blockSize h then none else walk d bits t x := by
  have hrun := mem_run_iff (n := k) hspan hiova
  rw [Lpae.walk]
  split_ifs with hx
  · rw [hr.run _ (hrun.mp hx).1 (hrun.mp hx).2, walk_zero]
  · exact (hr.rest _ fun hj => hx (hrun.mpr hj)).walk x

section
variable (hr : Removed d t t' s k)
include hr

theorem entry {q : Entry h → Prop} (hzero : q .zero) (j : ℕ) (hq : Cleared d (t j) (t' j) → q (t' j)) : q (t' j) := by
  by_cases hj : s ≤ j ∧ j < s + k
  · rwa [hr.run j hj.1 hj.2]
  · exact hq (hr.rest j hj)

theorem good (hg : GoodTable d t) (ht : LivesTable d (Tame d) t) : GoodTable d t' :=
  fun j => hr.entry trivial j fun hc => hc.good (hg j) (ht j)

theorem lives {p : ℕ → Prop} (ht : LivesTable d p t) : LivesTable d p t' :=
  fun j => hr.entry trivial j fun hc => hc.lives (ht j)

theorem live (hin : s + k ≤ d.ptesPerTable) :
    live d t' + k = live d t + holes t s k ∧ live d t' + k ≤ d.ptesPerTable := by
  have hfree : ∀ j, s ≤ j → j < s + k → ¬(t' j).isZero = false := by
    intro j hle hlt
    rw [hr.run j hle hlt]
    exact Bool.noConfusion
  refine ⟨Radix.count_run_free hin hfree (fun j _ hj => ?_) (fun i _ => ?_), Radix.count_add_run_le hin hfree⟩
  · rw [(hr.rest j hj).isZero]
  · rw [Bool.not_eq_false]

end

end Removed

section
variable {d : Config} {h : ℕ}

/-- The loop removes what it counts. -/
theorem unmapLoop_removed (bits iova pgcount n : ℕ) : ∀ (ptep : ℕ) (t : Table h),
    (unmapLoop d bits iova pgcount n ptep t).1 ≤ n ∧
    Removed d t (unmapLoop d bits iova pgcount n ptep t).2.1 ptep (unmapLoop d bits iova pgcount n ptep t).1 := by
  induction n with
  | zero =>
    intro ptep t
    rw [unmapLoop]
    exact ⟨le_refl 0, fun j hle hlt => by omega, fun _ _ => .inl rfl⟩
  | succ n ih =>
    intro ptep t
    rw [unmapLoop]
    split_ifs with hzero
    · exact ⟨zero_le _, fun j hle hlt => by omega, fun _ _ => .inl rfl⟩
    · dsimp only
      generalize hc : contUnmapIf d bits iova ptep pgcount t = c
      obtain ⟨hle, hrun, hrest⟩ := ih (ptep + 1) (update c.1 ptep .zero)
      have hcleared : ∀ j, j ≠ ptep → Cleared d (t j) (update c.1 ptep .zero j) := by
        intro j hj
        rw [update_of_ne hj, ← hc]
        exact cleared_contUnmapIf ..
      refine ⟨succ_le_succ hle, fun j hle hlt => ?_, fun j hj => ?_⟩
      · by_cases hjp : j = ptep
        · have := hrest j (by omega)
          rw [hjp, update_self] at this
          rcases this with h₁ | ⟨-, h₁⟩
          · rw [hjp, h₁]
          · rw [hjp, h₁]
            rfl
        · exact hrun j (by omega) (by omega)
      · exact (hcleared j (by omega)).trans (hrest j (by omega))

end

/-! ### Splitting a block -/

section
variable {d : Config} {h addr prot s n j : ℕ} {cont : Bool}

section
variable (hg : (leaf addr prot cont : Entry (h + 1)).Good d)
include hg

theorem good_part (hj : j < d.ptesPerTable) :
    d.blockSize h ∣ iopteToPaddr d addr + j * d.blockSize h ∧
      iopteToPaddr d addr + j * d.blockSize h + d.blockSize h ≤ 2 ^ d.granule.maxAddrBits := by
  obtain ⟨hdvd, hle⟩ := good_leaf_iff.mp hg
  refine ⟨Nat.dvd_add (Nat.dvd_trans (blockSize_dvd (Nat.le_succ h)) hdvd) (Nat.dvd_mul_left ..),
    Nat.le_trans (block_le_run hj) ?_⟩
  rwa [← blockSize_succ]

theorem good_splitTable : GoodTable d (splitTable d h addr prot s n) := by
  intro j
  rw [splitTable]
  split_ifs with hj
  · trivial
  · obtain ⟨hdvd, hle⟩ := good_part hg (not_le.mp (not_or.mp hj).1)
    exact good_new_leaf hdvd hle

end

theorem lives_splitTable {p : ℕ → Prop} : LivesTable d p (splitTable d h addr prot s n) := by
  intro j
  rw [splitTable]
  split_ifs <;> trivial

theorem live_splitTable (hin : s + n ≤ d.ptesPerTable) :
    live d (splitTable d h addr prot s n) = d.ptesPerTable - n := by
  have hall : count (fun _ => True) d.ptesPerTable = d.ptesPerTable :=
    count_iff_forall.mpr fun _ _ => trivial
  have hrun : live d (splitTable d h addr prot s n) + n = count (fun _ => True) d.ptesPerTable := by
    refine Radix.count_run hin (fun j hle hlt => ?_) (fun j hj hout => ?_) fun _ _ _ => trivial
    · rw [splitTable, if_pos (.inr ⟨hle, hlt⟩)]
      exact Bool.noConfusion
    · rw [splitTable, if_neg (not_or.mpr ⟨not_le.mpr hj, hout⟩)]
      simp [isZero]
  omega

theorem walk_splitTable (hg : (leaf addr prot cont : Entry (h + 1)).Good d) (x : ℕ) :
    walk d d.bitsPerLevel (splitTable d h addr prot s n) x =
      if s ≤ d.lvlIdx d.bitsPerLevel h x ∧ d.lvlIdx d.bitsPerLevel h x < s + n then none
      else (leaf addr prot cont : Entry (h + 1)).walk d x := by
  have hlt : d.lvlIdx d.bitsPerLevel h x < d.ptesPerTable := lvlIdx_lt
  rw [walk, splitTable]
  by_cases hx : s ≤ d.lvlIdx d.bitsPerLevel h x ∧ d.lvlIdx d.bitsPerLevel h x < s + n
  · rw [if_pos (.inr hx), if_pos hx, walk_zero]
  · rw [if_neg (not_or.mpr ⟨not_le.mpr hlt, hx⟩), if_neg hx, walk_leaf hg]
    obtain ⟨hdvd, hle⟩ := good_part hg hlt
    rw [walk_leaf (good_new_leaf hdvd hle), paddr_new_leaf hdvd hle, blockSize_succ,
      mul_comm d.ptesPerTable, mod_mul, add_assoc, add_comm (x % _),
      mul_comm (d.blockSize h)]
    rfl

end

/-! ### The recursion -/

theorem eqLeaf_iff {h addr prot : ℕ} {cont : Bool} {e : Entry h} :
    e.eqLeaf addr prot cont = true ↔ e = .leaf addr prot cont := by
  cases e <;> simp [eqLeaf, and_assoc]

inductive UnmapGoes (d : Config) (iova size pgcount : ℕ) :
    {h : ℕ} → (bits : ℕ) → Table h → UnmapResult h → Prop
  | zero {h bits : ℕ} {t : Table h} (hz : t (d.lvlIdx bits h iova) = .zero) :
      UnmapGoes d iova size pgcount bits t ⟨0, t, false⟩
  | matched {h bits : ℕ} {t : Table h} (hm : matchesLevel d size h = true) :
      UnmapGoes d iova size pgcount bits t (unmapMatch d bits iova size pgcount t)
  | bottom {bits : ℕ} {t : Table 0} (hm : matchesLevel d size 0 = false) :
      UnmapGoes d iova size pgcount bits t
        ⟨0, (contUnmapIf d bits iova (d.lvlIdx bits 0 iova) (d.findNumCont 0) t).1,
          (contUnmapIf d bits iova (d.lvlIdx bits 0 iova) (d.findNumCont 0) t).2⟩
  | last {bits cnt : ℕ} {t : Table 1} {entries : Table 0} (hm : matchesLevel d size 1 = false)
      (he : t (d.lvlIdx bits 1 iova) = .table cnt entries) :
      UnmapGoes d iova size pgcount bits t ⟨(unmapLast d iova size pgcount cnt entries).1,
        update t (d.lvlIdx bits 1 iova) (unmapLast d iova size pgcount cnt entries).2.1,
        (unmapLast d iova size pgcount cnt entries).2.2⟩
  | down {h bits cnt : ℕ} {t : Table (h + 1)} {entries : Table h} {r : UnmapResult h} (h0 : h ≠ 0)
      (hm : matchesLevel d size (h + 1) = false)
      (he : t (d.lvlIdx bits (h + 1) iova) = .table cnt entries)
      (hr : UnmapGoes d iova size pgcount d.bitsPerLevel entries r) :
      UnmapGoes d iova size pgcount bits t ⟨r.unmapped,
        update t (d.lvlIdx bits (h + 1) iova) (.table cnt r.table), r.outside⟩
  | kept {h bits addr prot : ℕ} {cont : Bool} {t : Table (h + 1)}
      (hm : matchesLevel d size (h + 1) = false)
      (he : t (d.lvlIdx bits (h + 1) iova) = .leaf addr prot cont) :
      UnmapGoes d iova size pgcount bits t
        ⟨0, (contUnmapIf d bits iova (d.lvlIdx bits (h + 1) iova) (d.findNumCont (h + 1)) t).1,
          (contUnmapIf d bits iova (d.lvlIdx bits (h + 1) iova) (d.findNumCont (h + 1)) t).2⟩
  | split {h bits addr prot : ℕ} {cont : Bool} {t : Table (h + 1)} {c : Table (h + 1) × Bool}
      (hm : matchesLevel d size (h + 1) = false)
      (he : t (d.lvlIdx bits (h + 1) iova) = .leaf addr prot cont)
      (hc : c = contUnmapIf d bits iova (d.lvlIdx bits (h + 1) iova) (d.findNumCont (h + 1)) t)
      (hc' : c.1 (d.lvlIdx bits (h + 1) iova) = .leaf addr prot cont)
      (hsize' : size / d.checkAndSetNumCont size h = d.blockSize h) :
      UnmapGoes d iova size pgcount bits t
        ⟨numEntries d d.bitsPerLevel h iova size pgcount * (size / d.checkAndSetNumCont size h),
          update c.1 (d.lvlIdx bits (h + 1) iova)
            (.table ((d.ptesPerTable - numEntries d d.bitsPerLevel h iova size pgcount) %
              tblcntMod) (splitTable d h addr prot (d.lvlIdx d.bitsPerLevel h iova)
                (numEntries d d.bitsPerLevel h iova size pgcount))), c.2⟩
  | splitDown {h bits addr prot : ℕ} {cont : Bool} {t : Table (h + 1)} {c : Table (h + 1) × Bool}
      {r : UnmapResult h} (hm : matchesLevel d size (h + 1) = false)
      (he : t (d.lvlIdx bits (h + 1) iova) = .leaf addr prot cont)
      (hc : c = contUnmapIf d bits iova (d.lvlIdx bits (h + 1) iova) (d.findNumCont (h + 1)) t)
      (hc' : c.1 (d.lvlIdx bits (h + 1) iova) = .leaf addr prot cont)
      (hne : size / d.checkAndSetNumCont size h ≠ d.blockSize h)
      (hr : UnmapGoes d iova size pgcount d.bitsPerLevel (splitTable d h addr prot 0 0) r) :
      UnmapGoes d iova size pgcount bits t ⟨r.unmapped,
        update c.1 (d.lvlIdx bits (h + 1) iova) (.table (d.ptesPerTable % tblcntMod) r.table), c.2 || r.outside⟩

theorem armLpaeUnmap_goes (d : Config) (alloc : ℕ → Bool) (iova size pgcount : ℕ) : ∀ h bits (t : Table h),
    UnmapGoes d iova size pgcount bits t (armLpaeUnmap d alloc iova h bits size pgcount t) := by
  intro h
  induction h with
  | zero =>
    intro bits t
    rw [armLpaeUnmap]
    split_ifs with hz hm
    · exact .zero (isZero_iff.mp hz)
    · exact .matched hm
    · exact .bottom (Bool.eq_false_iff.mpr hm)
  | succ h ih =>
    intro bits t
    rw [armLpaeUnmap]
    by_cases hz : (t (d.lvlIdx bits (h + 1) iova)).isZero = true
    · rw [if_pos hz]
      exact .zero (isZero_iff.mp hz)
    rw [if_neg hz]
    by_cases hm : matchesLevel d size (h + 1) = true
    · rw [if_pos hm]
      exact .matched hm
    rw [if_neg hm]
    have hm := Bool.eq_false_iff.mpr hm
    cases he : t (d.lvlIdx bits (h + 1) iova) with
    | zero => exact .zero he
    | table cnt entries =>
      show UnmapGoes _ _ _ _ _ _ (if h = 0 then (⟨_, _, _⟩ : UnmapResult (h + 1)) else ⟨_, _, _⟩)
      split_ifs with h0
      · subst h0
        exact .last hm he
      · exact .down h0 hm he (ih ..)
    | leaf addr prot cont =>
      dsimp only
      split_ifs with hfail hsize
      · exact .kept hm he
      · simp only [Bool.or_eq_true, Bool.not_eq_true', not_or, Bool.not_eq_false] at hfail
        exact .split hm he rfl (eqLeaf_iff.mp hfail.2) hsize
      · simp only [Bool.or_eq_true, Bool.not_eq_true', not_or, Bool.not_eq_false] at hfail
        rw [checkAndSetNumCont_eq_one hsize, Nat.div_one, Nat.one_mul]
        exact .splitDown hm he rfl (eqLeaf_iff.mp hfail.2) hsize (ih ..)

/-! ### Unmapping without holes -/

/-- In a last-level table the call counts off no empty entry, or a whole table of `2 ^ 13` of them. -/
def NoHole (d : Config) (iova : ℕ) : (h bits size pgcount : ℕ) → Table h → Prop
  | 0, _, _, _, _ => True
  | h + 1, bits, size, pgcount, t =>
    match t (d.lvlIdx bits (h + 1) iova) with
    | .table _ entries =>
      matchesLevel d size (h + 1) = true ∨
      if h = 0 then
        tblcntMod ∣ holes entries (d.lvlIdx d.bitsPerLevel h iova) (numEntries d d.bitsPerLevel h iova size pgcount)
      else NoHole d iova h d.bitsPerLevel size pgcount entries
    | _ => True

/-- The call has removed the range it reports and changed no other translation, and no count has to
wrap. -/
structure Unmapped (d : Config) (iova : ℕ) {h : ℕ} (bits : ℕ) (t : Table h) (r : UnmapResult h) :
    Prop where
  walk : ∀ x, x / d.span bits h = iova / d.span bits h → walk d bits r.table x =
    if iova ≤ x ∧ x < iova + r.unmapped then none else walk d bits t x
  good : GoodTable d r.table
  small : LivesTable d (· < tblcntMod) r.table
  inside : bits = d.bitsPerLevel → iova + r.unmapped ≤ (iova / d.span bits h + 1) * d.span bits h

section
variable {d : Config} {iova h bits size pgcount cnt len : ℕ} {t t' entries : Table h} {outside : Bool}

theorem lt_span_end (d : Config) (iova bits h : ℕ) : iova < (iova / d.span bits h + 1) * d.span bits h := by
  rw [Nat.mul_comm]
  exact Nat.lt_mul_div_succ iova (Nat.mul_pos (Nat.two_pow_pos _) (d.blockSize_pos h))

section
variable (ht : LivesTable d (Tame d) t)
include ht

theorem LivesTable.small : LivesTable d (· < tblcntMod) t := fun j => (ht j).mono fun _ hn => hn.1

variable (hg : GoodTable d t)
include hg

theorem unmapped_cleared (hc : ∀ j, Cleared d (t j) (t' j)) (outside : Bool) :
    Unmapped d iova bits t ⟨0, t', outside⟩ where
  walk x _ := by
    rw [add_zero, if_neg (by omega)]
    exact (hc _).walk x
  good j := (hc j).good (hg j) (ht j)
  small j := (hc j).lives (ht.small j)
  inside _ := le_of_lt (lt_span_end d iova bits h)

theorem unmapped_match (hm : matchesLevel d size h = true) (hiova : size ∣ iova) :
    Unmapped d iova bits t (unmapMatch d bits iova size pgcount t) := by
  have hblk := blockSize_dvd_of_matches hm hiova
  obtain ⟨hle, hrem⟩ := unmapLoop_removed bits iova pgcount
    (numEntries d bits h iova size pgcount) (d.lvlIdx bits h iova) t
  refine ⟨fun x hx => ?_, hrem.good hg ht, hrem.lives ht.small, fun hbits => ?_⟩
  · simp only [unmapMatch, div_checkAndSetNumCont hm]
    exact hrem.walk hblk hx
  · simp only [unmapMatch, div_checkAndSetNumCont hm]
    subst hbits
    refine (run_le_span_iff hblk).mpr (Nat.le_trans (Nat.add_le_add_left hle _) ?_)
    exact numEntries_le d _ h iova size pgcount (Nat.le_of_lt lvlIdx_lt)

theorem unmapped_entry {e : Entry h} (hc : ∀ j, Cleared d (t j) (t' j)) (hgood : e.Good d)
    (hsm : e.Lives d (· < tblcntMod)) (hend : iova + len ≤ (iova / d.blockSize h + 1) * d.blockSize h)
    (hwalk : ∀ x, x / d.blockSize h = iova / d.blockSize h → e.walk d x =
      if iova ≤ x ∧ x < iova + len then none else (t (d.lvlIdx bits h iova)).walk d x) :
    Unmapped d iova bits t ⟨len, update t' (d.lvlIdx bits h iova) e, outside⟩ where
  walk x hx := by
    have hold : walk d bits t' x = walk d bits t x := (hc _).walk x
    rw [← hold]
    refine walk_update_block (v := fun _ => none) hend (fun y hy => ?_) hx
    rw [hwalk y hy, (hc _).walk y]
  good := GoodTable.update (fun j => (hc j).good (hg j) (ht j)) hgood _
  small := LivesTable.update (fun j => (hc j).lives (ht.small j)) hsm _
  inside _ := le_trans hend (block_end_le_span iova)

end

theorem unmapped_table {t t' : Table (h + 1)} {r : UnmapResult h} (hc : ∀ j, Cleared d (t j) (t' j))
    (hg : GoodTable d t) (ht : LivesTable d (Tame d) t) (h0 : h ≠ 0)
    (hr : Unmapped d iova d.bitsPerLevel entries r)
    (hwalk : ∀ x, walk d d.bitsPerLevel entries x = (t (d.lvlIdx bits (h + 1) iova)).walk d x) :
    Unmapped d iova bits t ⟨r.unmapped, update t' (d.lvlIdx bits (h + 1) iova) (.table cnt r.table), outside⟩ := by
  have hend := hr.inside rfl
  have hblk := hr.walk
  rw [span_bitsPerLevel] at hend hblk
  refine unmapped_entry ht hg hc (good_table_iff.mpr ⟨fun h => absurd h h0, hr.good⟩)
    (lives_table_iff.mpr ⟨fun h => absurd h h0, hr.small⟩) hend fun x hx => ?_
  rw [walk_table, hblk x hx, hwalk]

theorem ptesPerTable_le (d : Config) : d.ptesPerTable ≤ tblcntMod := by
  rw [ptesPerTable, bitsPerLevel]
  cases d.granule <;> decide

theorem numEntries_pos (hcount : 0 < pgcount) : 0 < numEntries d d.bitsPerLevel h iova size pgcount := by
  have hlt : d.lvlIdx d.bitsPerLevel h iova < d.ptesPerTable := lvlIdx_lt
  exact Nat.lt_min.mpr ⟨Nat.mul_pos (checkAndSetNumCont_pos d size h) hcount, by omega⟩

theorem numEntries_end (hblk : d.blockSize h ∣ iova) :
    iova + numEntries d d.bitsPerLevel h iova size pgcount * d.blockSize h ≤
      (iova / d.blockSize (h + 1) + 1) * d.blockSize (h + 1) := by
  rw [← span_bitsPerLevel]
  exact (run_le_span_iff hblk).mpr (numEntries_le d _ h iova size pgcount (le_of_lt lvlIdx_lt))

theorem removed_clearEntries (d : Config) (bits iova ptep num s n : ℕ) (t : Table h) :
    Removed d t (clearEntries (contUnmapIf d bits iova ptep num t).1 s n) s n where
  run j hle hlt := if_pos ⟨hle, hlt⟩
  rest j hj := by
    rw [clearEntries, if_neg hj]
    exact cleared_contUnmapIf ..

/-- The last level counts off what it clears. -/
theorem unmapLast_entry (hiova : d.blockSize h ∣ iova) (hcount : 0 < pgcount)
    (hcnt : cnt = live d entries % tblcntMod) (hg : GoodTable d entries)
    (ht : LivesTable d (Tame d) entries) (hlive : live d entries < tblcntMod)
    (hhole : tblcntMod ∣ holes entries (d.lvlIdx d.bitsPerLevel h iova)
      (numEntries d d.bitsPerLevel h iova size pgcount)) :
    (unmapLast d iova size pgcount cnt entries).2.1.Good d ∧
    (unmapLast d iova size pgcount cnt entries).2.1.Lives d (· < tblcntMod) ∧
    ∀ x, x / d.blockSize (h + 1) = iova / d.blockSize (h + 1) →
      (unmapLast d iova size pgcount cnt entries).2.1.walk d x =
        if iova ≤ x ∧ x < iova + numEntries d d.bitsPerLevel h iova size pgcount * d.blockSize h then none
        else walk d d.bitsPerLevel entries x := by
  simp only [unmapLast]
  have hpos : 0 < numEntries d d.bitsPerLevel h iova size pgcount := numEntries_pos hcount
  have hin := numEntries_le d d.bitsPerLevel h iova size pgcount (le_of_lt lvlIdx_lt)
  have hrem := removed_clearEntries d d.bitsPerLevel iova (d.lvlIdx d.bitsPerLevel h iova)
    (numEntries d d.bitsPerLevel h iova size pgcount) (d.lvlIdx d.bitsPerLevel h iova)
    (numEntries d d.bitsPerLevel h iova size pgcount) entries
  have hwalk := fun x => hrem.walk hiova (x := x)
  rw [span_bitsPerLevel] at hwalk
  generalize clearEntries _ _ _ = t' at hrem hwalk ⊢
  generalize numEntries d d.bitsPerLevel h iova size pgcount = n at *
  obtain ⟨hcounts, hrest⟩ := hrem.live hin
  have hptes := ptesPerTable_le d
  have hsub : tblcntSub cnt n = live d t' % tblcntMod := by
    unfold tblcntSub tblcntMod at *
    omega
  rw [hsub]
  have hsm : live d t' < tblcntMod := by omega
  rw [mod_eq_of_lt hsm]
  by_cases hemp : live d t' = 0
  · -- the table is freed, and it has no entry left
    rw [if_pos hemp]
    refine ⟨trivial, trivial, fun x hx => ?_⟩
    have hnone := count_iff_forall_not.mp hemp (d.lvlIdx d.bitsPerLevel h x) lvlIdx_lt
    have hzero : t' (d.lvlIdx d.bitsPerLevel h x) = .zero :=
      isZero_iff.mp (eq_true_of_ne_false hnone)
    rw [← hwalk x hx, walk, hzero]
    rfl
  · rw [if_neg hemp]
    refine ⟨good_table_iff.mpr ⟨fun _ => (mod_eq_of_lt hsm).symm, hrem.good hg ht⟩,
      lives_table_iff.mpr ⟨fun _ => hsm, hrem.lives ht.small⟩, fun x hx => ?_⟩
    rw [walk_table, hwalk x hx]

theorem noHole_splitTable (addr prot s n : ℕ) : NoHole d iova h bits size pgcount (splitTable d h addr prot s n) := by
  cases h with
  | zero => trivial
  | succ h =>
    simp only [NoHole, splitTable]
    split_ifs <;> trivial

/-- By induction on the height, down to the level of the size. -/
theorem armLpaeUnmap_unmapped (alloc : ℕ → Bool) (h bits size pgcount : ℕ) (t : Table h)
    (hg : GoodTable d t) (ht : LivesTable d (Tame d) t) (hiova : size ∣ iova) (hcount : 0 < pgcount)
    (hsize : ∃ k ≤ h, matchesLevel d size k = true) (hhole : NoHole d iova h bits size pgcount t) :
    Unmapped d iova bits t (armLpaeUnmap d alloc iova h bits size pgcount t) := by
  have hgoes := armLpaeUnmap_goes d alloc iova size pgcount h bits t
  generalize armLpaeUnmap d alloc iova h bits size pgcount t = r at hgoes ⊢
  induction hgoes with
  | zero => exact unmapped_cleared ht hg (fun _ => .inl rfl) false
  | matched hm => exact unmapped_match ht hg hm hiova
  | bottom hm =>
    rw [matches_zero hsize] at hm
    cases hm
  | @last bits cnt t entries hm he =>
    have hm0 := matches_zero (matches_lower hm hsize)
    have hblk := blockSize_dvd_of_matches hm0 hiova
    obtain ⟨hcnt, hgood⟩ := good_table_iff.mp (he ▸ hg (d.lvlIdx bits 1 iova))
    obtain ⟨hlive, htame⟩ := lives_table_iff.mp (he ▸ ht (d.lvlIdx bits 1 iova))
    simp only [NoHole, he, hm, if_true, Bool.false_eq_true, false_or] at hhole
    obtain ⟨hey, hsm, hwalk⟩ :=
      unmapLast_entry hblk hcount (hcnt rfl) hgood htame (hlive rfl).1 hhole
    simp only [unmapLast, div_checkAndSetNumCont hm0]
    refine unmapped_entry ht hg (fun _ => .inl rfl) hey hsm (numEntries_end hblk)
      fun x hx => ?_
    rw [he]
    exact hwalk x hx
  | @down h bits cnt t entries r h0 hm he _ ih =>
    obtain ⟨-, hgood⟩ := good_table_iff.mp (he ▸ hg (d.lvlIdx bits (h + 1) iova))
    obtain ⟨-, htame⟩ := lives_table_iff.mp (he ▸ ht (d.lvlIdx bits (h + 1) iova))
    simp only [NoHole, he, hm, if_neg h0, Bool.false_eq_true, false_or] at hhole
    refine unmapped_table (fun _ => .inl rfl) hg ht h0 (ih hgood htame (matches_lower hm hsize) hhole) fun x => ?_
    rw [he, walk_table]
  | kept => exact unmapped_cleared ht hg (fun j => cleared_contUnmapIf ..) _
  | @split h bits addr prot cont t c _ he hc _ hsize' =>
    -- the block is split, and the part goes
    have hcl : ∀ j, Cleared d (t j) (c.1 j) := fun j => hc ▸ cleared_contUnmapIf ..
    have hleaf := he ▸ hg (d.lvlIdx bits (h + 1) iova)
    have hblk : d.blockSize h ∣ iova :=
      dvd_trans (hsize' ▸ div_checkAndSetNumCont_dvd d size h) hiova
    have hin := numEntries_le d d.bitsPerLevel h iova size pgcount (le_of_lt lvlIdx_lt)
    have hlive : live d (splitTable d h addr prot _ _) = _ := live_splitTable hin
    have hpos : 0 < numEntries d d.bitsPerLevel h iova size pgcount := numEntries_pos hcount
    have hptes := ptesPerTable_le d
    rw [hsize']
    refine unmapped_entry ht hg hcl (good_table_iff.mpr ⟨fun _ => ?_, good_splitTable hleaf⟩)
      (lives_table_iff.mpr ⟨fun _ => ?_, lives_splitTable⟩) (numEntries_end hblk) fun x hx => ?_
    · rw [hlive]
    · omega
    · rw [← span_bitsPerLevel] at hx
      rw [walk_table, walk_splitTable hleaf, he]
      exact if_congr (mem_run_iff hx hblk).symm rfl rfl
  | @splitDown h bits addr prot cont t c r hm he hc _ hne _ ih =>
    -- the block is split, and a block of the next level is next
    have hcl : ∀ j, Cleared d (t j) (c.1 j) := fun j => hc ▸ cleared_contUnmapIf ..
    have hleaf := he ▸ hg (d.lvlIdx bits (h + 1) iova)
    have hlow := matches_lower hm hsize
    have h0 : h ≠ 0 := by
      rintro rfl
      exact hne (div_checkAndSetNumCont (matches_zero hlow))
    refine unmapped_table hcl hg ht h0 (ih (good_splitTable hleaf) lives_splitTable
      hlow (noHole_splitTable ..)) fun x => ?_
    rw [walk_splitTable hleaf, if_neg (by omega), he]

end

end VendorKernel.Iommu.Lpae
