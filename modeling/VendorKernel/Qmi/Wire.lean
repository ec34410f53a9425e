import VendorKernel.Qmi.Encode

/-! What a structure looks like on the wire: the pieces that the encoder stores one after the other, and how
far a buffer takes them. -/
namespace VendorKernel.Qmi

open LittleEndian RingBuffer List Nat

/-- A piece that the encoder stores after one check; `fail` stands for data that is not encoded. -/
inductive Leaf where
  | emit (bytes : List UInt8)
  | string (bytes : List UInt8)
  | fail

def Leaf.bytes : Leaf → List UInt8
  | emit bytes => bytes
  | string bytes => bytes
  | fail => []

def instancesAt {α : Type*} (inner : ℕ → List α) (size : ℕ) : (n a : ℕ) → List α
  | 0, _ => []
  | n + 1, a => inner a ++ instancesAt inner size n (a + size)

theorem mem_instancesAt {α : Type*} {inner : ℕ → List α} {size n a : ℕ} {x : α} :
    x ∈ instancesAt inner size n a ↔ ∃ i < n, x ∈ inner (a + i * size) := by
  induction n generalizing a with
  | zero => simp [instancesAt]
  | succ n ih =>
    have hsh (i : ℕ) : a + size + i * size = a + (i + 1) * size := by
      rw [succ_mul]
      omega
    rw [instancesAt, mem_append, ih]
    simp only [hsh]
    constructor
    · rintro (hx | ⟨i, hi, hx⟩)
      · exact ⟨0, succ_pos n, by simpa using hx⟩
      · exact ⟨i + 1, succ_lt_succ hi, hx⟩
    · rintro ⟨i, hi, hx⟩
      cases i with
      | zero => exact .inl (by simpa using hx)
      | succ i => exact .inr ⟨i, lt_of_succ_lt_succ hi, hx⟩

namespace Field

variable (f : Field) (src : ℕ → UInt8) (base : ℕ)

def instances : ℕ :=
  match f.count with
  | .one => 1
  | .static n => n
  | .var lenOffset size _ => readLE src (base + lenOffset) size.bytes

def present : Bool :=
  match f.flag with
  | none => true
  | some flagOffset => src (base + flagOffset) != 0

def stringLeaf (level max : ℕ) : Leaf :=
  let len := strlen src (base + f.offset) (max + 1)
  let string := slice src (base + f.offset) len
  if max < len then .fail
  else if level = 1 then .emit string
  else .string (leBytes len (stringLenSize max) ++ string)

def elemLeaves (level : ℕ) (inner : ℕ → List Leaf) : List Leaf :=
  match f.kind with
  | .basic _ => [.emit (slice src (base + f.offset) (f.instances src base * f.elemSize))]
  | .string max => [f.stringLeaf src base level max]
  | .struct => instancesAt inner f.elemSize (f.instances src base) (base + f.offset)

def leaves (level : ℕ) (inner : ℕ → List Leaf) : List Leaf :=
  match f.count with
  | .var _ size max =>
    let n := f.instances src base
    .emit (leBytes n size.bytes) ::
      if n = 0 then [] else if max < n then [.fail] else f.elemLeaves src base level inner
  | _ => f.elemLeaves src base level inner

end Field

namespace Schema

def leaves (src : ℕ → UInt8) : Schema → (base : ℕ) → List Leaf
  | nil _, _ => []
  | cons f nested next, base =>
    f.leaves src base 2 (nested.leaves src) ++ next.leaves src base

def tlvs (src : ℕ → UInt8) : Schema → (base : ℕ) → List (UInt8 × List Leaf)
  | nil _, _ => []
  | cons f nested next, base =>
    if f.present src base then
      (f.tlvType, f.leaves src base 1 (nested.leaves src)) :: next.tlvs src base
    else next.tlvs src base

end Schema

/-- How a buffer takes a list of pieces: all of them, none behind its end, or one behind its end. -/
inductive Scan where
  | fits (bytes : List UInt8)
  | stops
  | overruns
  deriving DecidableEq

def Scan.prepend (bytes : List UInt8) : Scan → Scan
  | fits rest => fits (bytes ++ rest)
  | other => other

def Scan.andThen (s : Scan) (next : List UInt8 → Scan) : Scan :=
  match s with
  | fits bytes => (next bytes).prepend bytes
  | other => other

/-- The pieces from offset `pos` of a buffer of length `len` on. The check of a nested string leaves out the
header of the TLV. -/
def scan (len : ℕ) : (pos : ℕ) → List Leaf → Scan
  | _, [] => .fits []
  | pos, .emit bytes :: rest =>
    if pos + bytes.length ≤ len then (scan len (pos + bytes.length) rest).prepend bytes
    else .stops
  | pos, .string bytes :: rest =>
    if pos + bytes.length ≤ len then (scan len (pos + bytes.length) rest).prepend bytes
    else if pos + bytes.length ≤ len + TLV_HEADER_SIZE then .overruns
    else .stops
  | _, .fail :: _ => .stops

def tlvHeader (tlvType : UInt8) (len : ℕ) : List UInt8 := tlvType :: leBytes len 2

def scanTlvs (len : ℕ) : (pos : ℕ) → List (UInt8 × List Leaf) → Scan
  | _, [] => .fits []
  | pos, (tlvType, leaves) :: rest =>
    match scan len (pos + TLV_HEADER_SIZE) leaves with
    | .fits value =>
      (scanTlvs len (pos + TLV_HEADER_SIZE + value.length) rest).prepend (tlvHeader tlvType value.length ++ value)
    | other => other

/-- The first piece that does not fit is the string of a nested structure, at most three bytes too long. -/
def Schema.Overruns (S : Schema) (src : ℕ → UInt8) (len : ℕ) : Prop :=
  scanTlvs len 0 (S.tlvs src 0) = .overruns

instance (S : Schema) (src : ℕ → UInt8) (len : ℕ) : Decidable (S.Overruns src len) :=
  inferInstanceAs (Decidable (_ = _))

section
variable {len pos : ℕ} {xs ys : List Leaf} {bytes : List UInt8}

theorem Scan.prepend_prepend (xs ys : List UInt8) (s : Scan) : (s.prepend ys).prepend xs = s.prepend (xs ++ ys) := by
  cases s with
  | fits bytes => rw [prepend, prepend, prepend, append_assoc]
  | stops => rfl
  | overruns => rfl

/-- The pieces of two parts, one after the other. -/
theorem scan_append : scan len pos (xs ++ ys) =
    (scan len pos xs).andThen fun bytes => scan len (pos + bytes.length) ys := by
  induction xs generalizing pos with
  | nil =>
    change scan len pos ys = (scan len pos ys).prepend []
    cases scan len pos ys <;> rfl
  | cons x xs ih =>
    have hsto (bs : List UInt8) : (scan len (pos + bs.length) (xs ++ ys)).prepend bs =
        ((scan len (pos + bs.length) xs).prepend bs).andThen fun bytes =>
          scan len (pos + bytes.length) ys := by
      rw [ih]
      cases scan len (pos + bs.length) xs with
      | fits bytes =>
        simp only [Scan.prepend, Scan.andThen, length_append, ← add_assoc]
        exact Scan.prepend_prepend _ _ _
      | stops => rfl
      | overruns => rfl
    cases x with
    | emit bs =>
      rw [cons_append, scan, scan]
      split
      case isTrue => exact hsto bs
      case isFalse => rfl
    | string bs =>
      rw [cons_append, scan, scan]
      split
      case isTrue => exact hsto bs
      case isFalse => split <;> rfl
    | fail => rfl

theorem Scan.prepend_eq_fits {s : Scan} {xs : List UInt8} (h : s.prepend xs = fits bytes) :
    ∃ rest, s = fits rest ∧ bytes = xs ++ rest := by
  cases s with
  | fits rest =>
    cases h
    exact ⟨rest, rfl, rfl⟩
  | stops => cases h
  | overruns => cases h

theorem scan_fits_le (hne : xs ≠ []) (h : scan len pos xs = .fits bytes) : pos + bytes.length ≤ len := by
  induction xs generalizing pos bytes with
  | nil => exact absurd rfl hne
  | cons x xs ih =>
    have hsto {bs : List UInt8} (hroom : pos + bs.length ≤ len)
        (hrest : (scan len (pos + bs.length) xs).prepend bs = .fits bytes) :
        pos + bytes.length ≤ len := by
      obtain ⟨rest, hscan, rfl⟩ := Scan.prepend_eq_fits hrest
      cases xs with
      | nil =>
        cases hscan
        rwa [append_nil]
      | cons y ys =>
        rw [length_append, ← add_assoc]
        exact ih (cons_ne_nil y ys) hscan
    cases x with
    | emit bs =>
      rw [scan] at h
      split at h
      case isTrue hroom => exact hsto hroom h
      case isFalse => cases h
    | string bs =>
      rw [scan] at h
      split at h
      case isTrue hroom => exact hsto hroom h
      case isFalse => split at h <;> cases h
    | fail => cases h

end

end VendorKernel.Qmi
