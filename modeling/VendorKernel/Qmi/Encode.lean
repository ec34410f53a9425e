import VendorKernel.Lib.Overlay
import VendorKernel.Qmi.Table

/-! `qmi_encode`: a C structure to TLVs, directed by a table. The output buffer is kept as the cells that
were written. -/
namespace VendorKernel.Qmi

open LittleEndian Overlay RingBuffer

abbrev Cells := ℕ → Option UInt8

def strlen (mem : ℕ → UInt8) (a : ℕ) : ℕ → ℕ
  | 0 => 0
  | bound + 1 => if mem a = 0 then 0 else strlen mem (a + 1) bound + 1

/-- The variables of the loop of `qmi_encode`, pointers as offsets in the output buffer of the message. -/
structure Enc where
  outBuf : Cells
  bufDst : ℕ
  tlvPointer : ℕ
  tlvLen : ℕ
  encodedBytes : ℕ
  dataLenValue : ℕ

/-- The entries that `skip_to_next_elem` still passes over: none, the next one, or all that follow with the
type of the one passed last. -/
inductive Skip where
  | no
  | one
  | same (tlvType : UInt8)

def Skip.passes : Skip → UInt8 → Prop
  | no, _ => False
  | one, _ => True
  | same tlvType, type => type = tlvType

instance : (skip : Skip) → (type : UInt8) → Decidable (skip.passes type)
  | .no, _ => isFalse id
  | .one, _ => isTrue trivial
  | .same tlvType, type => inferInstanceAs (Decidable (type = tlvType))

def Skip.behind (level : ℕ) (type : UInt8) : Skip := if 1 < level then .no else .same type

def Skip.after (level : ℕ) (type : UInt8) : Skip → Skip
  | one => behind level type
  | other => other

namespace Enc

variable (s : Enc)

def advance (rc : ℕ) (outBuf : Cells) : Enc :=
  { s with outBuf, bufDst := s.bufDst + rc, encodedBytes := s.encodedBytes + rc
           tlvLen := s.tlvLen + rc }

def emit (bytes : List UInt8) : Enc := s.advance bytes.length (put s.outBuf s.bufDst bytes)

def closeTlv (level : ℕ) (tlvType : UInt8) : Enc :=
  if level = 1 then
    { s with outBuf := put s.outBuf s.tlvPointer (tlvType :: leBytes s.tlvLen 2)
             encodedBytes := s.encodedBytes + TLV_HEADER_SIZE
             tlvPointer := s.bufDst, tlvLen := 0, bufDst := s.bufDst + TLV_HEADER_SIZE }
  else s

def start (level : ℕ) (outBuf : Cells) (bufDst : ℕ) : Enc :=
  { outBuf, tlvPointer := bufDst, tlvLen := 0, encodedBytes := 0, dataLenValue := 0
    bufDst := if level = 1 then bufDst + TLV_HEADER_SIZE else bufDst }

end Enc

def encodeCount (ei : ElemInfo) (dataLenValue : ℕ) : Option ℕ :=
  match ei.arrayType with
  | .noArray => some 1
  | .staticArray => some ei.elemLen
  | .varLenArray =>
    if dataLenValue = 0 ∨ ei.elemLen < dataLenValue then none else some dataLenValue

def qmiEncodeStringElem (src : ℕ → UInt8) (ei : ElemInfo) (bufSrc outBufLen level : ℕ) : Except ℤ (List UInt8) :=
  let stringLen := strlen src bufSrc (ei.elemLen + 1)
  let stringLenSz := if ei.elemLen ≤ U8_MAX then 1 else 2
  let string := slice src bufSrc (stringLen * ei.elemSize)
  if ei.elemLen < stringLen then .error (-EINVAL)
  else if level = 1 then
    if outBufLen < stringLen + TLV_HEADER_SIZE then .error (-ETOOSMALL) else .ok string
  else if outBufLen < stringLen + stringLenSz then .error (-ETOOSMALL)
  else .ok (leBytes stringLen stringLenSz ++ string)

/-- `qmi_encode_struct_elem` for the `elemLen` instances that are left, `encode` being the call of
`qmi_encode` for an instance. -/
def qmiEncodeStructElem (encode : Cells → (bufDst bufSrc outBufLen : ℕ) → ℤ × Cells)
    (elemSize outBufLen : ℕ) :
    (elemLen : ℕ) → Cells → (bufDst bufSrc encodedBytes : ℕ) → ℤ × Cells
  | 0, outBuf, _, _, encodedBytes => (encodedBytes, outBuf)
  | elemLen + 1, outBuf, bufDst, bufSrc, encodedBytes =>
    let r := encode outBuf bufDst bufSrc (subU32 outBufLen encodedBytes)
    if r.1 < 0 then r
    else qmiEncodeStructElem encode elemSize outBufLen elemLen r.2 (bufDst + r.1.toNat)
      (bufSrc + elemSize) (encodedBytes + r.1.toNat)

def dataLenSize (ei : ElemInfo) : ℕ := if ei.elemSize = 1 then 1 else 2

theorem dataLenSize_eq {ei : ElemInfo} {size : LenSize} (h : ei.elemSize = size.bytes) :
    dataLenSize ei = size.bytes := by
  rw [dataLenSize, h]
  cases size <;> rfl

/-- The case `QMI_DATA_LEN`: the length is read into the low bytes of `data_len_value`, and an empty
array ends its TLV. -/
def encodeDataLen (src : ℕ → UInt8) (ei : ElemInfo) (level bufSrc outBufLen : ℕ) (s : Enc) :
    Except (ℤ × Cells) (Skip × Enc) :=
  let dataLenValue := storeLow s.dataLenValue (readLE src bufSrc ei.elemSize) ei.elemSize
  let s := { s with dataLenValue }
  if outBufLen < dataLenSize ei + s.encodedBytes + TLV_HEADER_SIZE then
    .error (-ETOOSMALL, s.outBuf)
  else
    let s := s.emit (leBytes dataLenValue (dataLenSize ei))
    .ok (if dataLenValue = 0 then (.one, s.closeTlv level ei.tlvType) else (.no, s))

def encodeElem (src : ℕ → UInt8) (encode : Cells → (bufDst bufSrc outBufLen : ℕ) → ℤ × Cells)
    (ei : ElemInfo) (level inCStruct outBufLen : ℕ) (s : Enc) :
    Except (ℤ × Cells) (Skip × Enc) :=
  let bufSrc := inCStruct + ei.offset
  match encodeCount ei s.dataLenValue with
  | none => .error (-EINVAL, s.outBuf)
  | some dataLenValue =>
    let s := { s with dataLenValue }
    match ei.dataType with
    | .optFlag => .ok (if src bufSrc ≠ 0 then .no else Skip.behind level ei.tlvType, s)
    | .dataLen => encodeDataLen src ei level bufSrc outBufLen s
    | .basic _ =>
      if outBufLen < dataLenValue * ei.elemSize + s.encodedBytes + TLV_HEADER_SIZE then
        .error (-ETOOSMALL, s.outBuf)
      else
        .ok (.no, (s.emit (slice src bufSrc (dataLenValue * ei.elemSize))).closeTlv level ei.tlvType)
    | .struct =>
      let r := qmiEncodeStructElem encode ei.elemSize (subU32 outBufLen s.encodedBytes)
        dataLenValue s.outBuf s.bufDst bufSrc 0
      if r.1 < 0 then .error r
      else .ok (.no, (s.advance r.1.toNat r.2).closeTlv level ei.tlvType)
    | .string =>
      match qmiEncodeStringElem src ei bufSrc (subU32 outBufLen s.encodedBytes) level with
      | .error rc => .error (rc, s.outBuf)
      | .ok bytes => .ok (.no, (s.emit bytes).closeTlv level ei.tlvType)

def encodeLoop (src : ℕ → UInt8) :
    EiArray → (level inCStruct outBufLen : ℕ) → Skip → Enc → ℤ × Cells
  | .null, _, _, _, _, s => (0, s.outBuf)
  | .eoti tlvType, _, _, _, skip, s =>
    -- The closing entry is compared like the others: with the type that is being skipped, the
    -- source goes on behind the end of the table.
    if skip.passes tlvType then (-EFAULT, s.outBuf) else (s.encodedBytes, s.outBuf)
  | .elem ei eiArray next, level, inCStruct, outBufLen, skip, s =>
    if skip.passes ei.tlvType then
      encodeLoop src next level inCStruct outBufLen (skip.after level ei.tlvType) s
    else
      let encode := fun outBuf bufDst bufSrc outBufLen =>
        encodeLoop src eiArray (level + 1) bufSrc outBufLen .no (.start (level + 1) outBuf bufDst)
      match encodeElem src encode ei level inCStruct outBufLen s with
      | .error r => r
      | .ok (skip, s) => encodeLoop src next level inCStruct outBufLen skip s

def qmiEncode (eiArray : EiArray) (src : ℕ → UInt8) (outBufLen : ℕ) : ℤ × Cells :=
  encodeLoop src eiArray 1 0 outBufLen .no (.start 1 (fun _ => none) 0)

end VendorKernel.Qmi
