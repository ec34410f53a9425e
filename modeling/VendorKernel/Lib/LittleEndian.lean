import VendorKernel.Lib.RingBuffer

/-! Numbers stored as bytes, the least significant one first. -/
namespace VendorKernel.LittleEndian

open RingBuffer UInt8 Nat List

variable (mem : ℕ → UInt8)

def leByte (w k : ℕ) : UInt8 := .ofNat (w / 256 ^ k)

def readLE (mem : ℕ → UInt8) (a : ℕ) : ℕ → ℕ
  | 0 => 0
  | n + 1 => (mem a).toNat + 256 * readLE mem (a + 1) n

def leBytes (w : ℕ) : ℕ → List UInt8
  | 0 => []
  | n + 1 => .ofNat w :: leBytes (w / 256) n

def ofLE : List UInt8 → ℕ
  | [] => 0
  | b :: bs => b.toNat + 256 * ofLE bs

def storeLow (w v k : ℕ) : ℕ := w / 256 ^ k * 256 ^ k + v

theorem leByte_succ (w k : ℕ) : leByte w (k + 1) = leByte (w / 256) k := by
  rw [leByte, leByte, Nat.pow_succ', Nat.div_div_eq_div_mul]

theorem readLE_of_leByte {mem : ℕ → UInt8} {a w n : ℕ} (h : ∀ j < n, mem (a + j) = leByte w j) :
    readLE mem a n = w % 256 ^ n := by
  induction n generalizing a w with
  | zero => rw [pow_zero, mod_one, readLE]
  | succ n ih =>
    have hlow : (mem a).toNat = w % 256 := by
      rw [← Nat.add_zero a, h 0 (Nat.succ_pos n), leByte, Nat.pow_zero, Nat.div_one, toNat_ofNat']
    have hhigh : readLE mem (a + 1) n = w / 256 % 256 ^ n := by
      apply ih
      intro j hj
      rw [Nat.add_right_comm, Nat.add_assoc, h (j + 1) (Nat.succ_lt_succ hj), leByte_succ]
    rw [readLE, hlow, hhigh, Nat.pow_succ', Nat.mod_mul]

@[simp] theorem leBytes_length (w n : ℕ) : (leBytes w n).length = n := by
  induction n generalizing w with
  | zero => rfl
  | succ n ih => rw [leBytes, length_cons, ih]

theorem ofLE_leBytes (w n : ℕ) : ofLE (leBytes w n) = w % 256 ^ n := by
  induction n generalizing w with
  | zero => rw [pow_zero, mod_one, leBytes, ofLE]
  | succ n ih =>
    have hlow : (ofNat w).toNat = w % 256 := toNat_ofNat'
    rw [leBytes, ofLE, ih, hlow, pow_succ', mod_mul]

theorem ofLE_lt (bs : List UInt8) : ofLE bs < 256 ^ bs.length := by
  induction bs with
  | nil => exact one_pos
  | cons b bs ih =>
    have hb : b.toNat < 256 := b.toNat_lt
    rw [ofLE, length_cons]
    omega

theorem ofLE_slice (a n : ℕ) : ofLE (slice mem a n) = readLE mem a n := by
  induction n generalizing a with
  | zero => rfl
  | succ n ih => rw [slice, ofLE, ih, readLE]

theorem readLE_lt (a n : ℕ) : readLE mem a n < 256 ^ n := by
  have h := ofLE_lt (slice mem a n)
  rwa [ofLE_slice, slice_length] at h

theorem leBytes_ofLE (bs : List UInt8) : leBytes (ofLE bs) bs.length = bs := by
  induction bs with
  | nil => rfl
  | cons b bs ih =>
    have hb : b.toNat < 256 := b.toNat_lt
    have hhigh : (b.toNat + 256 * ofLE bs) / 256 = ofLE bs := by omega
    have hlow : ofNat (b.toNat + 256 * ofLE bs) = b := by
      apply UInt8.toNat_inj.mp
      rw [UInt8.toNat_ofNat']
      omega
    rw [ofLE, length_cons, leBytes, hhigh, hlow, ih]

theorem readLE_add (a m n : ℕ) : readLE mem a (m + n) = readLE mem a m + 256 ^ m * readLE mem (a + m) n := by
  induction m generalizing a with
  | zero => simp [readLE]
  | succ m ih =>
    rw [succ_add, readLE, readLE, ih, pow_succ', add_right_comm a 1 m, add_assoc a, mul_add, mul_assoc, add_assoc]

theorem readLE_eq_iff (a m n : ℕ) : readLE mem a m = readLE mem a (m + n) ↔ readLE mem a (m + n) < 256 ^ m := by
  have hlow := readLE_lt mem a m
  rw [readLE_add]
  constructor
  · omega
  · intro hlt
    have hhigh : readLE mem (a + m) n = 0 := by
      by_contra hne
      have hle : 256 ^ m ≤ 256 ^ m * readLE mem (a + m) n :=
        Nat.le_mul_of_pos_right _ (Nat.pos_of_ne_zero hne)
      omega
    rw [hhigh, Nat.mul_zero, Nat.add_zero]

theorem storeLow_of_lt {w v k : ℕ} (h : w < 256 ^ k) : storeLow w v k = v := by
  rw [storeLow, Nat.div_eq_of_lt h, Nat.zero_mul, Nat.zero_add]

theorem lt_of_storeLow_lt {w v k : ℕ} (h : storeLow w v k < 256 ^ k) : w < 256 ^ k := by
  have hpos : 0 < 256 ^ k := Nat.pow_pos (by decide)
  by_contra hlarge
  have hquot : 0 < w / 256 ^ k := Nat.div_pos (not_lt.mp hlarge) hpos
  have hle : 256 ^ k ≤ w / 256 ^ k * 256 ^ k := Nat.le_mul_of_pos_left _ hquot
  rw [storeLow] at h
  omega

end VendorKernel.LittleEndian
