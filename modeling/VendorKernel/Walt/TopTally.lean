import VendorKernel.Lib.Tally
import VendorKernel.Walt.TopTasks

/-! What a top-task table counts: every bucket holds the number of tasks whose non-zero load falls into it,
and the bitmap marks the occupied ones. -/
namespace VendorKernel.Walt

open Tally TopTable Function RankedTable

def InBucket (i x : ℕ) : Prop := x ≠ 0 ∧ loadToIndex x = i

instance (i : ℕ) : DecidablePred (InBucket i) := fun _ => inferInstanceAs (Decidable (_ ∧ _))

theorem loadToIndex_lt (x : ℕ) : loadToIndex x < numLoadIndices := by
  unfold loadToIndex numLoadIndices
  omega

theorem loadToIndex_mono {x y : ℕ} (h : x ≤ y) : loadToIndex x ≤ loadToIndex y := by
  have hdiv : x / schedLoadGranule ≤ y / schedLoadGranule := Nat.div_le_div_right h
  unfold loadToIndex
  omega

@[simp] theorem loadToIndex_zero : loadToIndex 0 = 0 := rfl

theorem mark_inBucket_self {x : ℕ} (hx : x ≠ 0) : mark (InBucket (loadToIndex x)) x = 1 := by
  simp [mark, InBucket, hx]

theorem mark_inBucket_ne {i x : ℕ} (h : loadToIndex x ≠ i) : mark (InBucket i) x = 0 := by
  simp [mark, InBucket, h]

@[simp] theorem mark_inBucket_zero (i : ℕ) : mark (InBucket i) 0 = 0 := by
  simp [mark, InBucket]

namespace TopTable

def BitsMatch (t : TopTable) : Prop :=
  ∀ i < numLoadIndices, t.bitmap (numLoadIndices - 1 - i) = true ↔ t.count i ≠ 0

def remove (t : TopTable) (index : ℕ) : TopTable := (t.dec index).clearBitIfZero index

def insert (t : TopTable) (index : ℕ) : TopTable := (t.inc index).setBitIfOne index

variable {t : TopTable} {index a b i j : ℕ}

@[simp] theorem clearBitIfZero_fields (t : TopTable) (i : ℕ) :
    (t.clearBitIfZero i).count = t.count ∧ (t.clearBitIfZero i).underflow = t.underflow := by
  unfold clearBitIfZero
  split <;> exact ⟨rfl, rfl⟩

@[simp] theorem setBitIfOne_fields (t : TopTable) (i : ℕ) :
    (t.setBitIfOne i).count = t.count ∧ (t.setBitIfOne i).underflow = t.underflow := by
  unfold setBitIfOne
  split <;> exact ⟨rfl, rfl⟩

theorem count_remove (hpos : t.count index ≠ 0) (hle : t.count index ≤ 255) (j : ℕ) :
    (t.remove index).count j = if j = index then t.count index - 1 else t.count j := by
  have hval : (t.count index + 255) % 256 = t.count index - 1 := by omega
  rw [remove, (clearBitIfZero_fields ..).1, dec, hval]
  exact update_apply ..

theorem count_insert (hlt : t.count index < 255) (j : ℕ) :
    (t.insert index).count j = if j = index then t.count index + 1 else t.count j := by
  have hval : (t.count index + 1) % 256 = t.count index + 1 := by omega
  rw [insert, (setBitIfOne_fields ..).1, inc, hval]
  exact update_apply ..

@[simp] theorem underflow_insert (t : TopTable) (index : ℕ) : (t.insert index).underflow = t.underflow := by
  simp [insert, inc]

theorem BitsMatch.clearBitIfZero_eq (h : t.BitsMatch) (hi : index < numLoadIndices) : t.clearBitIfZero index = t := by
  unfold clearBitIfZero
  split
  · next h0 =>
    have hbit : t.bitmap (numLoadIndices - index - 1) = false := by
      have := h index hi
      rw [Nat.sub_right_comm, Bool.eq_false_iff, ne_eq, this]
      simpa using h0
    rw [← hbit, update_eq_self]
  · rfl

theorem BitsMatch.setBitIfOne_eq (h : t.BitsMatch) (hi : index < numLoadIndices) : t.setBitIfOne index = t := by
  unfold setBitIfOne
  split
  · next h1 =>
    have hbit : t.bitmap (numLoadIndices - index - 1) = true := by
      rw [Nat.sub_right_comm, h index hi]
      omega
    rw [← hbit, update_eq_self]
  · rfl

theorem clearBitIfZero_inc (hab : a ≠ b) (t : TopTable) :
    (t.inc b).clearBitIfZero a = (t.clearBitIfZero a).inc b := by
  by_cases h : t.count a = 0
  · simp [clearBitIfZero, inc, h, hab]
  · simp [clearBitIfZero, inc, h, hab]

private theorem bit_ne (hi : i < numLoadIndices) (hj : j < numLoadIndices) (hne : j ≠ i) :
    numLoadIndices - 1 - j ≠ numLoadIndices - i - 1 := by
  omega

theorem BitsMatch.remove (h : t.BitsMatch) (hi : index < numLoadIndices)
    (hpos : t.count index ≠ 0) (hle : t.count index ≤ 255) : (t.remove index).BitsMatch := by
  intro j hj
  have hj' := h j hj
  rw [count_remove hpos hle j]
  by_cases hji : j = index
  · subst hji
    have hval : (t.count j + 255) % 256 = t.count j - 1 := by omega
    by_cases h0 : t.count j - 1 = 0
    · simp [remove, clearBitIfZero, dec, hval, h0, Nat.sub_right_comm]
    · simp [remove, clearBitIfZero, dec, hval, h0, hj', hpos]
  · have hbit := bit_ne hi hj hji
    unfold TopTable.remove clearBitIfZero
    split
    · simp [dec, hbit, hj']
    · simp [dec, hj']

theorem BitsMatch.insert (h : t.BitsMatch) (hi : index < numLoadIndices)
    (hlt : t.count index < 255) : (t.insert index).BitsMatch := by
  intro j hj
  have hj' := h j hj
  rw [count_insert hlt j]
  by_cases hji : j = index
  · subst hji
    have hval : (t.count j + 1) % 256 = t.count j + 1 := by omega
    by_cases h0 : t.count j = 0
    · simp [insert, setBitIfOne, inc, h0, Nat.sub_right_comm]
    · simp [insert, setBitIfOne, inc, hval, h0, hj']
  · have hbit := bit_ne hi hj hji
    unfold TopTable.insert setBitIfOne
    split
    · simp [inc, hbit, hj']
    · simp [inc, hj']

theorem BitsMatch.inc_eq (h : t.BitsMatch) (ha : a < numLoadIndices) (hlt : t.count b < 255) :
    ((t.inc b).clearBitIfZero a).setBitIfOne b = t.insert b := by
  by_cases hab : a = b
  · have hval : (t.count b + 1) % 256 ≠ 0 := by omega
    have hne : (t.inc b).count a ≠ 0 := by simpa [inc, hab] using hval
    rw [clearBitIfZero, if_neg hne]
    rfl
  · rw [clearBitIfZero_inc hab, h.clearBitIfZero_eq ha]
    rfl

theorem bitsMatch_clear (t : TopTable) : t.clear.BitsMatch := by
  intro i hi
  have hne : ¬numLoadIndices - 1 - i = numLoadIndices := by omega
  simp [clear, hne]

end TopTable

section
variable {τ : Type*} [Fintype τ]

structure Tracks (t : TopTable) (load : τ → ℕ) : Prop where
  count_eq : ∀ i, t.count i = tally (InBucket i) load
  bits : t.BitsMatch
  no_underflow : t.underflow = false

def FitsU8 (load : τ → ℕ) : Prop := ∀ i, tally (InBucket i) load ≤ 255

theorem fitsU8_of_card (h : Fintype.card τ ≤ 255) (load : τ → ℕ) : FitsU8 load :=
  fun _ => (Finset.card_le_univ _).trans h

theorem tracks_clear (t : TopTable) (h : t.underflow = false) : Tracks t.clear fun _ : τ => 0 where
  count_eq i := (tally_eq_zero _ (by simp [InBucket])).symm
  bits := t.bitsMatch_clear
  no_underflow := h

variable {t : TopTable} {load : τ → ℕ} {p : τ}

theorem Tracks.mark_le_count (h : Tracks t load) (p : τ) (i : ℕ) : mark (InBucket i) (load p) ≤ t.count i := by
  rw [h.count_eq]
  exact mark_le_tally _ load p

theorem Tracks.count_ne_zero (h : Tracks t load) (hp : load p ≠ 0) : t.count (loadToIndex (load p)) ≠ 0 := by
  have hmem := h.mark_le_count p (loadToIndex (load p))
  rw [mark_inBucket_self hp] at hmem
  omega

variable [DecidableEq τ] {x old new : ℕ}

/-- An entry leaves its bucket. -/
theorem Tracks.remove (h : Tracks t load) (hfit : FitsU8 load) (hp : load p ≠ 0) :
    Tracks (t.remove (loadToIndex (load p))) (update load p 0) := by
  have hpos := h.count_ne_zero hp
  have hle : t.count (loadToIndex (load p)) ≤ 255 := h.count_eq _ ▸ hfit _
  refine ⟨?_, h.bits.remove (loadToIndex_lt _) hpos hle, ?_⟩
  · intro i
    have hup := tally_update (InBucket i) load p 0
    have hi := h.count_eq i
    rw [count_remove hpos hle]
    split
    · next heq =>
      subst heq
      rw [mark_inBucket_self hp, mark_inBucket_zero] at hup
      omega
    · next hne =>
      rw [mark_inBucket_ne (Ne.symm hne), mark_inBucket_zero] at hup
      omega
  · simpa [TopTable.remove, dec, hpos] using h.no_underflow

section
variable (h : Tracks t load) (hp : load p = 0) (hx : x ≠ 0) (hfit : FitsU8 (update load p x))
include h hp hx hfit

theorem Tracks.count_lt : t.count (loadToIndex x) < 255 := by
  have hroom := tally_update (InBucket (loadToIndex x)) load p x
  have hbd := hfit (loadToIndex x)
  rw [hp, mark_inBucket_self hx, mark_inBucket_zero, ← h.count_eq] at hroom
  omega

/-- An entry comes into its bucket. -/
theorem Tracks.insert : Tracks (t.insert (loadToIndex x)) (update load p x) := by
  have hlt := h.count_lt hp hx hfit
  refine ⟨?_, h.bits.insert (loadToIndex_lt _) hlt, ?_⟩
  · intro i
    have hup := tally_update (InBucket i) load p x
    have hi := h.count_eq i
    rw [hp, mark_inBucket_zero] at hup
    rw [count_insert hlt]
    split
    · next heq =>
      subst heq
      rw [mark_inBucket_self hx] at hup
      omega
    · next hne =>
      rw [mark_inBucket_ne (Ne.symm hne)] at hup
      omega
  · rw [underflow_insert]
    exact h.no_underflow

end

def ChangesBucket (old new : ℕ) : Prop :=
  loadToIndex old ≠ loadToIndex new ∨ old = 0 ∧ new ≠ 0

instance (old new : ℕ) : Decidable (ChangesBucket old new) :=
  inferInstanceAs (Decidable (_ ∨ _))

theorem ChangesBucket.new_ne_zero (h : ChangesBucket old new) (hle : old ≤ new) : new ≠ 0 := by
  rintro rfl
  obtain rfl : old = 0 := by omega
  simp [ChangesBucket] at h

theorem Tracks.same_bucket (h : Tracks t load) (hx : load p ≤ x) (hsame : ¬ChangesBucket (load p) x) :
    Tracks t (update load p x) := by
  obtain ⟨hidx, hzero⟩ := not_or.mp hsame
  have hiff : load p = 0 ↔ x = 0 := by
    refine ⟨?_, fun h0 => by omega⟩
    intro h0
    by_contra hx0
    exact hzero ⟨h0, hx0⟩
  refine ⟨?_, h.bits, h.no_underflow⟩
  intro i
  have hup := tally_update (InBucket i) load p x
  have hbucket : InBucket i (load p) ↔ InBucket i x := by
    simp only [InBucket, ne_eq, hiff, not_not.mp hidx]
  have hmark : mark (InBucket i) (load p) = mark (InBucket i) x := by simp [mark, hbucket]
  have hi := h.count_eq i
  omega

theorem Tracks.grow (h : Tracks t load) (hp : load p ≠ 0) (hx : load p ≤ x) (hfit : FitsU8 load)
    (hfit' : FitsU8 (update load p x)) :
    Tracks ((t.remove (loadToIndex (load p))).insert (loadToIndex x)) (update load p x) := by
  have hins := (h.remove hfit hp).insert (p := p) (x := x) (by simp) (by omega)
    (by simpa using hfit')
  simpa using hins

theorem Tracks.change_bucket (h : Tracks t load) (hx : load p ≤ x) (hchg : ChangesBucket (load p) x)
    (hfit : FitsU8 load) (hfit' : FitsU8 (update load p x)) :
    Tracks ((((if load p ≠ 0 then t.dec (loadToIndex (load p)) else t).inc
        (loadToIndex x)).clearBitIfZero (loadToIndex (load p))).setBitIfOne (loadToIndex x))
      (update load p x) := by
  have hx0 := hchg.new_ne_zero hx
  split
  · next hp =>
    have hne : loadToIndex (load p) ≠ loadToIndex x := hchg.resolve_right fun h0 => hp h0.1
    rw [clearBitIfZero_inc hne]
    exact h.grow hp hx hfit hfit'
  · next hp =>
    have hp0 := not_not.mp hp
    rw [h.bits.inc_eq (loadToIndex_lt _) (h.count_lt hp0 hx0 hfit')]
    exact h.insert hp0 hx0 hfit'

/-! ### The table operations keep track -/

variable {r : RankedTable}

section
variable (h : Tracks r.toTopTable load)
include h

theorem tracks_migrateSubtraction (hfit : FitsU8 load) :
    Tracks (r.migrateSubtraction (load p)).toTopTable (update load p 0) := by
  unfold migrateSubtraction
  split
  · next h0 =>
    rw [← h0, update_eq_self]
    exact h
  · next hp =>
    have hrem := h.remove hfit hp
    dsimp only
    split <;> exact hrem

theorem tracks_migrateAddition (hp : load p = 0) (hfit : FitsU8 (update load p x)) :
    Tracks (r.migrateAddition x).toTopTable (update load p x) := by
  unfold migrateAddition
  split
  · next h0 =>
    rw [h0, ← hp, update_eq_self]
    exact h
  · next hx => exact h.insert hp hx hfit

theorem tracks_updateSameWindow (hx : load p ≤ x) (hfit : FitsU8 load)
    (hfit' : FitsU8 (update load p x)) :
    Tracks (r.updateSameWindow (load p) x).toTopTable (update load p x) := by
  unfold updateSameWindow
  dsimp only
  split
  · next hchg =>
    have hx0 := ChangesBucket.new_ne_zero hchg hx
    rw [if_pos hx0]
    exact h.change_bucket hx hchg hfit hfit'
  · next hsame =>
    rw [h.bits.clearBitIfZero_eq (loadToIndex_lt _), h.bits.setBitIfOne_eq (loadToIndex_lt _)]
    exact h.same_bucket hx hsame

theorem tracks_updatePrevFull (hp : load p = 0) (hfit : FitsU8 (update load p x)) :
    Tracks (r.updatePrevFull x).toTopTable (update load p x) := by
  unfold updatePrevFull
  by_cases hx : x = 0
  · have hidx := loadToIndex_lt x
    simp only [hx, ne_eq, not_true_eq_false, if_false]
    rw [← hx, h.bits.setBitIfOne_eq hidx, hx, ← hp, update_eq_self]
    exact h
  · simp only [ne_eq, hx, not_false_eq_true, if_true]
    exact h.insert hp hx hfit

theorem tracks_updatePrevNext (hx : load p ≤ x) (hfit : FitsU8 load)
    (hfit' : FitsU8 (update load p x)) :
    Tracks (r.updatePrevNext (load p) x).toTopTable (update load p x) := by
  unfold updatePrevNext
  dsimp only
  split
  · next hchg => exact h.change_bucket hx hchg hfit hfit'
  · next hsame => exact h.same_bucket hx hsame

end

end

end VendorKernel.Walt
