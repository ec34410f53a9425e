import VendorKernel.Qmi.Wire

/-! One round of the loop of `qmi_encode`, against the pieces that it stores. -/
namespace VendorKernel.Qmi

open LittleEndian Overlay RingBuffer Enc Qmi.Field Nat List

section
variable {src : ℕ → UInt8} {i outBufLen level : ℕ}
  {encode : Cells → (bufDst bufSrc outBufLen : ℕ) → ℤ × Cells} {s : Enc}

theorem Enc.closeTlv_ne_none (level : ℕ) (tlvType : UInt8) (h : s.outBuf i ≠ none) :
    (s.closeTlv level tlvType).outBuf i ≠ none := by
  unfold closeTlv
  split
  case isTrue => exact put_ne_none _ h
  case isFalse => exact h

theorem qmiEncodeStructElem_ne_none
    (henc : ∀ outBuf bufDst bufSrc outBufLen, outBuf i ≠ none → (encode outBuf bufDst bufSrc outBufLen).2 i ≠ none)
    {elemSize elemLen bufDst bufSrc encodedBytes : ℕ} {outBuf : Cells} (h : outBuf i ≠ none) :
    (qmiEncodeStructElem encode elemSize outBufLen elemLen outBuf bufDst bufSrc encodedBytes).2 i ≠ none := by
  induction elemLen generalizing outBuf bufDst bufSrc encodedBytes with
  | zero => exact h
  | succ n ih =>
    have hr := henc outBuf bufDst bufSrc (subU32 outBufLen encodedBytes) h
    rw [qmiEncodeStructElem]
    split
    case isTrue => exact hr
    case isFalse => exact ih hr

def roundCells : Except (ℤ × Cells) (Skip × Enc) → Cells
  | .error r => r.2
  | .ok (_, s) => s.outBuf

theorem encodeDataLen_ne_none {ei : ElemInfo} {bufSrc : ℕ} (h : s.outBuf i ≠ none) :
    roundCells (encodeDataLen src ei level bufSrc outBufLen s) i ≠ none := by
  unfold encodeDataLen
  dsimp only
  split
  case isTrue => exact h
  case isFalse =>
    split
    case isTrue => exact closeTlv_ne_none _ _ (put_ne_none _ h)
    case isFalse => exact put_ne_none _ h

theorem encodeElem_ne_none
    (henc : ∀ outBuf bufDst bufSrc outBufLen, outBuf i ≠ none → (encode outBuf bufDst bufSrc outBufLen).2 i ≠ none)
    {ei : ElemInfo} {inCStruct : ℕ} (h : s.outBuf i ≠ none) {r : Except (ℤ × Cells) (Skip × Enc)}
    (hr : encodeElem src encode ei level inCStruct outBufLen s = r) : roundCells r i ≠ none := by
  subst hr
  unfold encodeElem
  dsimp only
  split
  case h_1 => exact h
  case h_2 =>
    split
    case h_1 => exact h
    case h_2 => exact encodeDataLen_ne_none h
    case h_3 =>
      split
      case isTrue => exact h
      case isFalse => exact closeTlv_ne_none _ _ (put_ne_none _ h)
    case h_4 =>
      split
      case isTrue => exact qmiEncodeStructElem_ne_none henc h
      case isFalse => exact closeTlv_ne_none _ _ (qmiEncodeStructElem_ne_none henc h)
    case h_5 =>
      split
      case h_1 => exact h
      case h_2 => exact closeTlv_ne_none _ _ (put_ne_none _ h)

theorem encodeLoop_ne_none (t : EiArray) {inCStruct : ℕ} {skip : Skip} (h : s.outBuf i ≠ none) :
    (encodeLoop src t level inCStruct outBufLen skip s).2 i ≠ none := by
  induction t generalizing level inCStruct outBufLen skip s with
  | null => exact h
  | eoti =>
    rw [encodeLoop]
    split <;> exact h
  | elem ei eiArray next ihNested ihNext =>
    rw [encodeLoop]
    split
    case isTrue => exact ihNext h
    case isFalse =>
      dsimp only
      split
      case h_1 heq => exact encodeElem_ne_none (fun _ _ _ _ hb => ihNested hb) h heq
      case h_2 heq =>
        apply ihNext
        exact encodeElem_ne_none (fun _ _ _ _ hb => ihNested hb) h heq

end

/-- The pieces all fit, or a check fails with nothing stored behind the end, or something is stored there. -/
def Ends (len : ℕ) (buf : Cells) (ok : List UInt8 → ℤ × Cells → Prop) (r : ℤ × Cells) :
    Scan → Prop
  | .fits bytes => ok bytes r
  | .stops => r.1 < 0 ∧ ∀ i, len ≤ i → r.2 i = buf i
  | .overruns => ∃ i, len ≤ i ∧ r.2 i ≠ none

section
variable {len pos : ℕ} {buf : Cells} {xs ys : List Leaf} {bytes : List UInt8} {r : ℤ × Cells}
  {ok ok' : List UInt8 → ℤ × Cells → Prop}

theorem Ends.of_fits (h : ok bytes r) : Ends len buf ok r (.fits bytes) := h

theorem Ends.rejected {rc : ℤ} (hrc : rc < 0) : Ends len buf ok (rc, buf) .stops :=
  ⟨hrc, fun _ _ => rfl⟩

theorem Ends.mono {scan : Scan} (h : Ends len buf ok r scan)
    (hok : ∀ bytes, scan = .fits bytes → ok bytes r → ok' bytes r) : Ends len buf ok' r scan := by
  cases scan with
  | fits bytes => exact hok bytes rfl h
  | stops => exact h
  | overruns => exact h

theorem put_of_fits (h : scan len pos xs = .fits bytes) {i : ℕ} (hi : len ≤ i) : put buf pos bytes i = buf i := by
  by_cases hne : xs = []
  · subst hne
    cases h
    rw [put_nil]
  · exact put_outside _ (.inr (le_trans (scan_fits_le hne h) hi))

theorem scan_fits_le' (h : scan len pos xs = .fits bytes) (hpos : pos ≤ len + TLV_HEADER_SIZE) :
    pos + bytes.length ≤ len + TLV_HEADER_SIZE := by
  by_cases hne : xs = []
  · subst hne
    cases h
    exact hpos
  · exact le_trans (scan_fits_le hne h) (le_add_right len TLV_HEADER_SIZE)

theorem Ends.prepend {scan : Scan} (hfr : ∀ i, len ≤ i → put buf pos bytes i = buf i)
    (h : Ends len (put buf pos bytes) (fun rest r => ok (bytes ++ rest) r) r scan) :
    Ends len buf ok r (scan.prepend bytes) := by
  cases scan with
  | fits rest => exact h
  | stops => exact ⟨h.1, fun i hi => (h.2 i hi).trans (hfr i hi)⟩
  | overruns => exact h

theorem Ends.append
    (h : Ends len buf (fun bytes r => Ends len (put buf pos bytes)
      (fun rest r => ok (bytes ++ rest) r) r (scan len (pos + bytes.length) ys)) r
      (scan len pos xs)) :
    Ends len buf ok r (scan len pos (xs ++ ys)) := by
  rw [scan_append]
  cases hxs : scan len pos xs with rw [hxs] at h
  | fits bytes =>
    exact Ends.prepend (fun i hi => put_of_fits hxs hi) h
  | stops =>
    exact h
  | overruns =>
    exact h

end

/-- The output buffer ends at `len`, three bytes earlier than the call takes it to, for the header of the TLV. -/
structure Room (len outBufLen : ℕ) (s : Enc) : Prop where
  balance : s.bufDst + outBufLen = s.encodedBytes + len + TLV_HEADER_SIZE
  le : s.bufDst ≤ len + TLV_HEADER_SIZE
  lt : outBufLen < 2 ^ 32

def Stored (s : Enc) (bytes : List UInt8) (r : ℤ × Cells) : Prop :=
  r = (((s.encodedBytes + bytes.length : ℕ) : ℤ), put s.outBuf s.bufDst bytes)

def EncodesNested (src : ℕ → UInt8) (len : ℕ) (t : EiArray) (inner : ℕ → List Leaf) : Prop :=
  ∀ (level base outBufLen : ℕ) (s : Enc), 1 < level → Room len outBufLen s →
    Ends len s.outBuf (Stored s) (encodeLoop src t level base outBufLen .no s) (scan len s.bufDst (inner base))

section
variable {src : ℕ → UInt8} {len level : ℕ} {f : Field} {nested next : EiArray} {inner : ℕ → List Leaf}

/-- By induction on the instances that are left. -/
theorem qmiEncodeStructElem_ends (hlv : 0 < level) (hinn : EncodesNested src len nested inner)
    {elemSize outBufLen elemLen bufDst bufSrc encodedBytes : ℕ} {outBuf : Cells}
    (hbal : bufDst + outBufLen = encodedBytes + len + TLV_HEADER_SIZE)
    (hle : bufDst ≤ len + TLV_HEADER_SIZE) (hlt : outBufLen < 2 ^ 32) :
    Ends len outBuf
      (fun bytes r => r = (((encodedBytes + bytes.length : ℕ) : ℤ), put outBuf bufDst bytes))
      (qmiEncodeStructElem (fun outBuf bufDst bufSrc outBufLen =>
        encodeLoop src nested (level + 1) bufSrc outBufLen .no (.start (level + 1) outBuf bufDst))
        elemSize outBufLen elemLen outBuf bufDst bufSrc encodedBytes)
      (scan len bufDst (instancesAt inner elemSize elemLen bufSrc)) := by
  induction elemLen generalizing outBuf bufDst bufSrc encodedBytes with
  | zero => exact congrArg _ (put_nil _ _).symm
  | succ n ih =>
    have hini : start (level + 1) outBuf bufDst = ⟨outBuf, bufDst, bufDst, 0, 0, 0⟩ := by
      rw [start, if_neg (by omega)]
    have hsub : subU32 outBufLen encodedBytes = outBufLen - encodedBytes :=
      subU32_eq hlt (by omega)
    have hfst := hinn (level + 1) bufSrc (outBufLen - encodedBytes)
      (.start (level + 1) outBuf bufDst) (by omega) (by
        rw [hini]
        exact ⟨by simp only; omega, hle, by omega⟩)
    rw [qmiEncodeStructElem, hsub]
    rw [hini] at hfst ⊢
    apply Ends.append
    generalize encodeLoop src nested (level + 1) bufSrc (outBufLen - encodedBytes) .no
      ⟨outBuf, bufDst, bufDst, 0, 0, 0⟩ = r at hfst
    cases hscan : scan len bufDst (inner bufSrc) with rw [hscan] at hfst
    | fits bytes =>
      obtain rfl : r = (((0 + bytes.length : ℕ) : ℤ), put outBuf bufDst bytes) := hfst
      have hend := scan_fits_le' hscan hle
      have hrest := @ih (bufDst + bytes.length) (bufSrc + elemSize) (encodedBytes + bytes.length)
        (put outBuf bufDst bytes) (by omega) hend
      rw [zero_add]
      apply Ends.of_fits
      apply hrest.mono
      intro bytes' _ hr
      rw [hr, put_append, length_append, add_assoc]
    | stops =>
      rw [if_pos hfst.1]
      exact hfst
    | overruns =>
      obtain ⟨i, hi, hr⟩ := hfst
      refine ⟨i, hi, ?_⟩
      split
      case isTrue => exact hr
      case isFalse =>
        exact qmiEncodeStructElem_ne_none (fun _ _ _ _ hb => encodeLoop_ne_none _ hb) hr

theorem Room.emit {outBufLen dataLenValue : ℕ} {s : Enc} {bytes : List UInt8}
    (h : Room len outBufLen s) (hle : s.bufDst + bytes.length ≤ len + TLV_HEADER_SIZE) :
    Room len outBufLen ({ s with dataLenValue }.emit bytes) := by
  obtain ⟨hbal, -, hlt⟩ := h
  refine ⟨?_, hle, hlt⟩
  simp only [Enc.emit, Enc.advance]
  omega

theorem scan_emit (pos : ℕ) (bytes : List UInt8) : scan len pos [.emit bytes] =
    if pos + bytes.length ≤ len then .fits bytes else .stops := by
  simp [scan, Scan.prepend]

def Enc.stored (s : Enc) (n level : ℕ) (tlvType : UInt8) (bytes : List UInt8) : Enc :=
  ({ s with dataLenValue := n }.emit bytes).closeTlv level tlvType

def RoundEnds (len : ℕ) (buf : Cells) (after : List UInt8 → Enc)
    (r : Except (ℤ × Cells) (Skip × Enc)) : Scan → Prop
  | .fits bytes => r = .ok (.no, after bytes)
  | .stops => ∃ rc, r = .error rc ∧ rc.1 < 0 ∧ ∀ i, len ≤ i → rc.2 i = buf i
  | .overruns => ∃ i, len ≤ i ∧ roundCells r i ≠ none

theorem RoundEnds.rejected {buf : Cells} {after : List UInt8 → Enc} {rc : ℤ} (hrc : rc < 0) :
    RoundEnds len buf after (.error (rc, buf)) .stops := ⟨_, rfl, hrc, fun _ _ => rfl⟩

theorem scan_string (pos : ℕ) (bytes : List UInt8) : scan len pos [.string bytes] =
    if pos + bytes.length ≤ len then .fits bytes
    else if pos + bytes.length ≤ len + TLV_HEADER_SIZE then .overruns
    else .stops := by
  simp [scan, Scan.prepend]

theorem Enc.stored_last {s : Enc} {n : ℕ} {tlvType : UInt8} {bytes : List UInt8}
    (hpos : 0 < bytes.length) :
    (s.stored n level tlvType bytes).outBuf (s.bufDst + (bytes.length - 1)) ≠ none := by
  apply closeTlv_ne_none
  change put s.outBuf s.bufDst bytes (s.bufDst + (bytes.length - 1)) ≠ none
  rw [put_inside _ _ (by omega), getElem?_eq_getElem (by omega)]
  exact Option.some_ne_none _

section
variable {base outBufLen : ℕ} {s : Enc} {encode : Cells → (bufDst bufSrc outBufLen : ℕ) → ℤ × Cells}

section
variable (hroom : Room len outBufLen s) (hcnt : encodeCount f.elemInfo s.dataLenValue = some (f.instances src base))
include hroom hcnt

theorem basic_ends {type : BasicType} (hkind : f.kind = .basic type) :
    RoundEnds len s.outBuf (s.stored (f.instances src base) level f.tlvType)
      (encodeElem src encode f.elemInfo level base outBufLen s)
      (scan len s.bufDst [.emit (slice src (base + f.offset) (f.instances src base * f.elemSize))]) := by
  have htype : f.elemInfo.dataType = .basic type := elemInfo_basic hkind
  have hsize : f.elemInfo.elemSize = f.elemSize := rfl
  have hbal := hroom.balance
  rw [encodeElem, hcnt, scan_emit, slice_length]
  simp only [htype, hsize]
  by_cases hfit : s.bufDst + f.instances src base * f.elemSize ≤ len
  · rw [if_pos hfit, if_neg (by omega)]
    rfl
  · rw [if_neg hfit, if_pos (by omega)]
    exact .rejected (by decide)

theorem string_ends {max : ℕ} (hkind : f.kind = .string max) (hsize : f.elemSize = 1) :
    RoundEnds len s.outBuf (s.stored (f.instances src base) level f.tlvType)
      (encodeElem src encode f.elemInfo level base outBufLen s)
      (scan len s.bufDst [f.stringLeaf src base level max]) := by
  obtain ⟨htype, hmax⟩ := elemInfo_string hkind
  have hsize' : f.elemInfo.elemSize = 1 := hsize
  obtain ⟨hbal, hle, hlt⟩ := hroom
  have hsub : subU32 outBufLen s.encodedBytes = outBufLen - s.encodedBytes :=
    subU32_eq hlt (by omega)
  rw [encodeElem, hcnt]
  simp only [htype, qmiEncodeStringElem, hmax, hsize', hsub, stringLeaf, stringLenSize, mul_one]
  rw [show base + f.elemInfo.offset = base + f.offset from rfl]
  generalize hstr : strlen src (base + f.offset) (max + 1) = n
  by_cases hlong : max < n
  · rw [if_pos hlong, if_pos hlong]
    exact .rejected (by decide)
  rw [if_neg hlong, if_neg hlong]
  by_cases hlv : level = 1
  · rw [if_pos hlv, if_pos hlv, scan_emit, slice_length]
    by_cases hfit : s.bufDst + n ≤ len
    · rw [if_pos hfit, if_neg (by omega)]
      rfl
    · rw [if_neg hfit, if_pos (by omega)]
      exact .rejected (by decide)
  · rw [if_neg hlv, if_neg hlv, scan_string]
    generalize hsz : (if max ≤ U8_MAX then 1 else 2) = sz
    have hbs : (leBytes n sz ++ slice src (base + f.offset) n).length = sz + n := by
      rw [length_append, leBytes_length, slice_length]
    have hpos : 0 < sz := by
      rw [← hsz]
      split <;> decide
    rw [hbs]
    by_cases hfit : s.bufDst + (sz + n) ≤ len
    · rw [if_pos hfit, if_neg (by omega)]
      rfl
    rw [if_neg hfit]
    -- The check does not count the header of the TLV, so three bytes too many pass it.
    by_cases hover : s.bufDst + (sz + n) ≤ len + TLV_HEADER_SIZE
    · rw [if_pos hover, if_neg (by omega)]
      refine ⟨s.bufDst + (sz + n - 1), by omega, ?_⟩
      rw [← hbs]
      exact stored_last (by omega)
    · rw [if_neg hover, if_pos (by omega)]
      exact .rejected (by decide)

theorem struct_ends (hkind : f.kind = .struct) (hlv : 0 < level)
    (hinn : EncodesNested src len nested inner) :
    RoundEnds len s.outBuf (s.stored (f.instances src base) level f.tlvType)
      (encodeElem src (fun outBuf bufDst bufSrc outBufLen =>
        encodeLoop src nested (level + 1) bufSrc outBufLen .no (.start (level + 1) outBuf bufDst))
        f.elemInfo level base outBufLen s)
      (scan len s.bufDst (instancesAt inner f.elemSize (f.instances src base) (base + f.offset))) := by
  have htype : f.elemInfo.dataType = .struct := elemInfo_struct hkind
  have hsize : f.elemInfo.elemSize = f.elemSize := rfl
  obtain ⟨hbal, hle, hlt⟩ := hroom
  have hsub : subU32 outBufLen s.encodedBytes = outBufLen - s.encodedBytes :=
    subU32_eq hlt (by omega)
  have hends := @qmiEncodeStructElem_ends src len level nested inner hlv hinn f.elemSize
    (outBufLen - s.encodedBytes) (f.instances src base) s.bufDst (base + f.offset) 0 s.outBuf
    (by omega) hle (by omega)
  rw [encodeElem, hcnt]
  simp only [htype, hsize, hsub]
  rw [show base + f.elemInfo.offset = base + f.offset from rfl]
  generalize qmiEncodeStructElem _ _ _ _ _ _ _ _ = r at hends ⊢
  cases hscan : scan len s.bufDst (instancesAt inner f.elemSize (f.instances src base) (base + f.offset)) with
    rw [hscan] at hends
  | fits bytes =>
    obtain rfl : r = (((0 + bytes.length : ℕ) : ℤ), put s.outBuf s.bufDst bytes) := hends
    rw [zero_add]
    rfl
  | stops =>
    rw [if_pos hends.1]
    exact ⟨r, rfl, hends⟩
  | overruns =>
    obtain ⟨i, hi, hr⟩ := hends
    refine ⟨i, hi, ?_⟩
    split
    case isTrue => exact hr
    case isFalse => exact closeTlv_ne_none _ _ hr

theorem elem_ends (hok : f.Ok) (hlv : 0 < level)
    (hinn : f.kind = .struct → EncodesNested src len nested inner) :
    Ends len s.outBuf
      (fun bytes r => r = encodeLoop src next level base outBufLen .no
        (s.stored (f.instances src base) level f.tlvType bytes))
      (encodeLoop src (.elem f.elemInfo nested next) level base outBufLen .no s)
      (scan len s.bufDst (f.elemLeaves src base level inner)) := by
  have hrn : RoundEnds len s.outBuf (s.stored (f.instances src base) level f.tlvType)
      (encodeElem src (fun outBuf bufDst bufSrc outBufLen =>
        encodeLoop src nested (level + 1) bufSrc outBufLen .no (.start (level + 1) outBuf bufDst))
        f.elemInfo level base outBufLen s)
      (scan len s.bufDst (f.elemLeaves src base level inner)) := by
    unfold elemLeaves
    cases hkind : f.kind with
    | basic type => exact basic_ends hroom hcnt hkind
    | string max =>
      have hstg := hok.string_single (by rw [hkind]; rfl)
      exact string_ends hroom hcnt hkind hstg.2.1
    | struct => exact struct_ends hroom hcnt hkind hlv (hinn hkind)
  rw [encodeLoop]
  dsimp only
  generalize encodeElem _ _ _ _ _ _ _ = r at hrn ⊢
  cases hscan : scan len s.bufDst (f.elemLeaves src base level inner) with rw [hscan] at hrn
  | fits bytes =>
    obtain rfl : r = .ok (.no, s.stored (f.instances src base) level f.tlvType bytes) := hrn
    rfl
  | stops =>
    obtain ⟨rc, rfl, hrc⟩ := hrn
    exact hrc
  | overruns =>
    obtain ⟨i, hi, hr⟩ := hrn
    refine ⟨i, hi, ?_⟩
    cases r with
    | error r => exact hr
    | ok p => exact encodeLoop_ne_none next hr

end

theorem Enc.emit_emit (s : Enc) (xs ys : List UInt8) : (s.emit xs).emit ys = s.emit (xs ++ ys) := by
  simp only [emit, advance, put_append, length_append, add_assoc]

theorem lenEntry_round {lenOffset max : ℕ} {size : LenSize} {t : EiArray}
    (hcnt : f.count = .var lenOffset size max) (hroom : Room len outBufLen s) :
    encodeLoop src (.elem ⟨.dataLen, 1, size.bytes, .noArray, f.tlvType, lenOffset⟩ .null t) level
        base outBufLen .no s =
      let n := f.instances src base
      let s' := { s with dataLenValue := n }.emit (leBytes n size.bytes)
      if s.bufDst + size.bytes ≤ len then
        if n = 0 then encodeLoop src t level base outBufLen .one (s'.closeTlv level f.tlvType)
        else encodeLoop src t level base outBufLen .no s'
      else (-ETOOSMALL, s.outBuf) := by
  have hn : f.instances src base = readLE src (base + lenOffset) size.bytes := by
    rw [instances, hcnt]
  have hsr (v : ℕ) : storeLow 1 v size.bytes = v :=
    storeLow_of_lt (by cases size <;> decide)
  have hsz (a b c d) : dataLenSize ⟨a, b, size.bytes, c, f.tlvType, d⟩ = size.bytes :=
    dataLenSize_eq rfl
  have hbal := hroom.balance
  rw [encodeLoop, if_neg (by exact id)]
  simp only [encodeElem, encodeCount, encodeDataLen, hsr, hsz, ← hn]
  by_cases hfit : s.bufDst + size.bytes ≤ len
  · rw [if_neg (by omega)]
    dsimp only
    split <;> rfl
  · rw [if_pos (by omega), if_neg hfit]

end

end

end VendorKernel.Qmi
