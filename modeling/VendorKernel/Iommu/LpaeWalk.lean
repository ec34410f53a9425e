import Mathlib.Data.Nat.Bitwise
import VendorKernel.Iommu.LpaeMap
import VendorKernel.Iommu.LpaeUnmap

/-! What a well-formed page table is, and what the walk sees of an updated one. -/
namespace VendorKernel.Iommu.Lpae

open Config Entry Function Nat Radix

/-! ### Physical addresses in entries -/

theorem testBit_addrMask (i : ℕ) : addrMask.testBit i = (decide (12 ≤ i) && decide (i < 48)) := by
  have hmask : addrMask = (2 ^ 36 - 1) <<< 12 := by decide
  rw [hmask, testBit_shiftLeft, testBit_two_pow_sub_one]
  rcases lt_or_ge i 12 with h | h
  · simp [not_le.mpr h]
  · simp only [ge_iff_le, h, decide_true, Bool.true_and]
    congr 1
    exact propext ⟨fun _ => by omega, fun _ => by omega⟩

theorem testBit_of_dvd {k p i : ℕ} (h : 2 ^ k ∣ p) (hi : i < k) : p.testBit i = false := by
  obtain ⟨q, rfl⟩ := h
  rw [testBit_two_pow_mul]
  simp [not_le.mpr hi]

theorem testBit_paddrToIopte (p i : ℕ) : (paddrToIopte p).testBit i =
    ((p.testBit i || p.testBit (36 + i)) && (decide (12 ≤ i) && decide (i < 48))) := by
  rw [paddrToIopte, testBit_and, testBit_or, testBit_shiftRight, testBit_addrMask]

theorem paddrToIopte_eq {p : ℕ} (hp : p < 2 ^ 48) (hali : 2 ^ 12 ∣ p) : paddrToIopte p = p := by
  apply eq_of_testBit_eq
  intro i
  rw [testBit_paddrToIopte]
  have hhigh : ∀ j, 48 ≤ j → p.testBit j = false := fun j hj =>
    Nat.testBit_lt_two_pow (Nat.lt_of_lt_of_le hp (Nat.pow_le_pow_right (by decide) hj))
  rcases Nat.lt_or_ge i 12 with hi | hi
  · rw [testBit_of_dvd hali hi]
    simp [not_le.mpr hi]
  · rw [hhigh (36 + i) (by omega), Bool.or_false]
    rcases lt_or_ge i 48 with hi' | hi'
    · simp [hi, hi']
    · rw [hhigh i hi', Bool.false_and]

theorem unpack_paddrToIopte {p : ℕ} (hp : p < 2 ^ 52) (hali : 2 ^ 16 ∣ p) :
    ((paddrToIopte p &&& addrMask) ||| (paddrToIopte p &&& addrMask) <<< 36) &&& (addrMask <<< 4) = p := by
  apply eq_of_testBit_eq
  intro i
  have hhigh : ∀ j, 52 ≤ j → p.testBit j = false := fun j hj =>
    Nat.testBit_lt_two_pow (Nat.lt_of_lt_of_le hp (Nat.pow_le_pow_right (by decide) hj))
  have hlow : ∀ j, j < 16 → p.testBit j = false := fun j hj => testBit_of_dvd hali hj
  simp only [Nat.testBit_and, Nat.testBit_or, Nat.testBit_shiftLeft, testBit_addrMask, testBit_paddrToIopte]
  rcases lt_or_ge i 16 with h | h
  · rw [hlow i h]
    simp
    omega
  rcases lt_or_ge i 48 with h' | h'
  · rw [hhigh (36 + i) (by omega)]
    have hin : 4 ≤ i ∧ 12 ≤ i - 4 ∧ i - 4 < 48 ∧ 12 ≤ i := by omega
    simp only [ge_iff_le, hin, h', decide_true, Bool.and_true, Bool.or_false]
    rcases lt_or_ge i 36 with h'' | h''
    · simp [not_le.mpr h'']
    · simp [show ¬12 ≤ i - 36 by omega]
  · rcases lt_or_ge i 52 with h'' | h''
    · rw [hlow (i - 36) (by omega)]
      have hin : 36 ≤ i ∧ 12 ≤ i - 36 ∧ i - 36 < 48 ∧ 4 ≤ i ∧ 12 ≤ i - 4 ∧ i - 4 < 48 := by omega
      simp [hin, not_lt.mpr h']
    · rw [hhigh i h'']
      simp [show ¬i - 4 < 48 by omega]

theorem iopteToPaddr_paddrToIopte {d : Config} {p : ℕ} (hp : p < 2 ^ d.granule.maxAddrBits)
    (hali : d.blockSize 0 ∣ p) : iopteToPaddr d (paddrToIopte p) = p := by
  rw [blockSize, bitsPerLevel] at hali
  have hsm : d.granule ≠ .k64 → p < 2 ^ 48 → 2 ^ 12 ∣ p → iopteToPaddr d (paddrToIopte p) = p := by
    intro hg hlt hdvd
    rw [iopteToPaddr, if_neg hg, paddrToIopte, Nat.and_assoc]
    exact paddrToIopte_eq hlt hdvd
  rcases d.granule_cases with hg | hg | hg <;> rw [hg] at hp hali
  · exact hsm (by rw [hg]; decide) hp hali
  · exact hsm (by rw [hg]; decide) hp (dvd_trans (by decide) hali)
  · rw [iopteToPaddr, if_pos hg]
    exact unpack_paddrToIopte hp hali

/-! ### The walk and updates of a table -/

section
variable {d : Config} {h bits iova x cnt len : ℕ} {t : Table h}

@[simp] theorem walk_table (cnt : ℕ) (t : Table h) (x : ℕ) : (table cnt t).walk d x = walk d d.bitsPerLevel t x := by
  rw [Entry.walk, walk]

theorem walk_update (t : Table h) (i : ℕ) (e : Entry h) (x : ℕ) :
    walk d bits (update t i e) x =
      if d.lvlIdx bits h x = i then e.walk d x else walk d bits t x := by
  rw [walk, update_apply]
  split_ifs <;> rfl

theorem walk_clearCont (e : Entry h) (x : ℕ) : e.clearCont.walk d x = e.walk d x := by
  cases e with
  | zero => rfl
  | leaf => rfl
  | table => rw [clearCont, walk_table, walk_table]

theorem child_walk {e : Entry (h + 1)} (he : e.child = some (cnt, t)) (x : ℕ) :
    walk d d.bitsPerLevel t x = e.walk d x := by
  cases e with
  | zero =>
    cases he
    rfl
  | leaf => cases he
  | table =>
    cases he
    rw [walk_table]

theorem walk_update_block {e : Entry h} {v : ℕ → Option ℕ}
    (hend : iova + len ≤ (iova / d.blockSize h + 1) * d.blockSize h)
    (hwalk : ∀ x, x / d.blockSize h = iova / d.blockSize h → e.walk d x =
      if iova ≤ x ∧ x < iova + len then v x else (t (d.lvlIdx bits h iova)).walk d x)
    (hspan : x / d.span bits h = iova / d.span bits h) :
    walk d bits (update t (d.lvlIdx bits h iova) e) x =
      if iova ≤ x ∧ x < iova + len then v x else walk d bits t x := by
  rw [walk_update]
  by_cases hx : x / d.blockSize h = iova / d.blockSize h
  · have hidx := (lvlIdx_eq_iff hspan).mpr hx
    rw [if_pos hidx, hwalk x hx, walk, hidx]
  · rw [if_neg fun hidx => hx ((lvlIdx_eq_iff hspan).mp hidx), if_neg]
    rintro ⟨hle, hlt⟩
    exact hx (div_eq_of_lt_end hle (lt_of_lt_of_le hlt hend))

theorem span_congr_of_block (hx : x / d.blockSize h = iova / d.blockSize h) :
    x / d.span bits h = iova / d.span bits h := by
  rw [span, Nat.mul_comm, ← Nat.div_div_eq_div_mul, ← Nat.div_div_eq_div_mul, hx]

theorem block_end_le_span (iova : ℕ) : (iova / d.blockSize h + 1) * d.blockSize h ≤
    (iova / d.span bits h + 1) * d.span bits h := by
  have hdiv := div_eq (n := 2 ^ bits) (m := d.blockSize h) (x := iova)
  have hlt : index (2 ^ bits) (d.blockSize h) iova < 2 ^ bits :=
    index_lt (Nat.two_pow_pos _)
  rw [span, ← Nat.mul_assoc]
  refine Nat.mul_le_mul_right _ ?_
  rw [add_mul, mul_comm (iova / _)]
  omega

theorem clearCont_clearCont (e : Entry h) : e.clearCont.clearCont = e.clearCont := by
  cases e with
  | zero | leaf => rfl
  | table cnt t => rw [clearCont, clearCont, Nat.and_assoc, Nat.and_self]

theorem clearCont_isZero (e : Entry h) : e.clearCont.isZero = e.isZero := by
  cases e <;> rfl

def Cleared (d : Config) (e e' : Entry h) : Prop :=
  e' = e ∨ d.contigHint = true ∧ e' = e.clearCont

namespace Cleared
variable {e e' e'' : Entry h}

theorem trans (h₁ : Cleared d e e') (h₂ : Cleared d e' e'') : Cleared d e e'' := by
  rcases h₂ with rfl | ⟨hhint, rfl⟩
  · exact h₁
  · rcases h₁ with rfl | ⟨-, rfl⟩
    · exact .inr ⟨hhint, rfl⟩
    · exact .inr ⟨hhint, clearCont_clearCont e⟩

theorem isZero (hc : Cleared d e e') : e'.isZero = e.isZero := by
  rcases hc with rfl | ⟨-, rfl⟩
  · rfl
  · exact clearCont_isZero e

theorem walk (hc : Cleared d e e') (x : ℕ) : e'.walk d x = e.walk d x := by
  rcases hc with rfl | ⟨-, rfl⟩
  · rfl
  · exact walk_clearCont e x

end Cleared

theorem cleared_contUnmapIf (d : Config) (bits iova ptep num : ℕ) (t : Table h) (j : ℕ) :
    Cleared d (t j) ((contUnmapIf d bits iova ptep num t).1 j) := by
  unfold contUnmapIf contUnmap
  split_ifs with hbit hhint
  · dsimp only
    split_ifs
    · exact .inr ⟨hhint, rfl⟩
    · exact .inl rfl
  · exact .inl rfl
  · exact .inl rfl

end

/-! ### Well-formed tables -/

def live (d : Config) {h : ℕ} (t : Table h) : ℕ :=
  count (fun j => (t j).isZero = false) d.ptesPerTable

/-- Leaves map aligned physical blocks, and an entry that points to a last-level table counts its
entries. -/
def Entry.Good (d : Config) : {h : ℕ} → Entry h → Prop
  | _, .zero => True
  | h, .leaf addr _ _ => d.blockSize h ∣ iopteToPaddr d addr ∧
      iopteToPaddr d addr + d.blockSize h ≤ 2 ^ d.granule.maxAddrBits
  | _, .table (h := h) cnt entries =>
      (h = 0 → cnt = live d entries % tblcntMod) ∧ ∀ j, (entries j).Good d

def GoodTable (d : Config) {h : ℕ} (t : Table h) : Prop := ∀ j, (t j).Good d

section
variable {d : Config} {h prot p addr cnt k q i n m : ℕ} {cont : Bool} {t : Table h}

theorem good_leaf_iff :
    (leaf addr prot cont : Entry h).Good d ↔ d.blockSize h ∣ iopteToPaddr d addr ∧
      iopteToPaddr d addr + d.blockSize h ≤ 2 ^ d.granule.maxAddrBits := by
  rw [Entry.Good]

theorem good_table_iff : (table cnt t).Good d ↔ (h = 0 → cnt = live d t % tblcntMod) ∧ GoodTable d t := by
  rw [Entry.Good, GoodTable]

theorem GoodTable.update (ht : GoodTable d t) {e : Entry h} (he : e.Good d) (i : ℕ) : GoodTable d (update t i e) :=
  (forall_update_iff t (p := fun _ e => e.Good d)).mpr ⟨he, fun j _ => ht j⟩

theorem goodTable_zero : GoodTable d (fun _ => .zero : Table h) := fun _ => trivial

theorem live_zero : live d (fun _ => .zero : Table h) = 0 :=
  count_iff_forall_not.mpr fun _ _ => Bool.noConfusion

theorem blockSize_dvd (hk : k ≤ h) : d.blockSize k ∣ d.blockSize h :=
  Nat.pow_dvd_pow 2 (Nat.add_le_add_right (Nat.mul_le_mul_right _ (Nat.succ_le_succ hk)) 3)

theorem or_mod_blockSize (hq : d.blockSize h ∣ q) (x : ℕ) : q ||| x % d.blockSize h = q + x % d.blockSize h := by
  obtain ⟨k, rfl⟩ := hq
  exact (two_pow_add_eq_or_of_lt (mod_lt _ (d.blockSize_pos h)) k).symm

theorem walk_leaf (hg : (leaf addr prot cont : Entry h).Good d) (x : ℕ) :
    (leaf addr prot cont : Entry h).walk d x = some (iopteToPaddr d addr + x % d.blockSize h) := by
  rw [Entry.walk, or_mod_blockSize (good_leaf_iff.mp hg).1]

theorem block_le_run (hi : i < n) : p + i * m + m ≤ p + n * m := by
  rw [Nat.add_assoc, ← Nat.succ_mul]
  exact Nat.add_le_add_left (Nat.mul_le_mul_right m hi) p

section
variable (hdvd : d.blockSize h ∣ p) (hle : p + d.blockSize h ≤ 2 ^ d.granule.maxAddrBits)
include hdvd hle

theorem paddr_new_leaf : iopteToPaddr d (paddrToIopte p) = p :=
  iopteToPaddr_paddrToIopte (Nat.lt_of_lt_of_le (Nat.lt_add_of_pos_right (d.blockSize_pos h)) hle)
    (Nat.dvd_trans (blockSize_dvd (Nat.zero_le h)) hdvd)

theorem good_new_leaf : (leaf (paddrToIopte p) prot cont : Entry h).Good d := by
  rw [good_leaf_iff, paddr_new_leaf hdvd hle]
  exact ⟨hdvd, hle⟩

end

end

end VendorKernel.Iommu.Lpae
