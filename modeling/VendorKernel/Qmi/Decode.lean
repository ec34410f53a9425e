import VendorKernel.Qmi.Encode

/-! `qmi_decode`: TLVs to a C structure, directed by a table. The structure is kept as the cells that were
written (none in one that was zeroed), `buf_src` as the rest of the input. -/
namespace VendorKernel.Qmi

open LittleEndian Overlay Qmi.Field

def OPTIONAL_TLV_TYPE_START : UInt8 := 0x10

/-- One store by an element for which `declared` bytes from `start` on are meant: it ends `reach` bytes
behind `start`. -/
structure Store where
  start : ℕ
  declared : ℕ
  reach : ℕ

/-- `out_c_struct`. The list of stores is not in the source. -/
structure Out where
  cells : Cells
  stores : List Store

def Out.store (out : Out) (start declared offset : ℕ) (bytes : List UInt8) : Out :=
  { cells := put out.cells (start + offset) bytes
    stores := ⟨start, declared, offset + bytes.length⟩ :: out.stores }

/-- What a part of the decoder comes to: an access outside of the input or the table, an error, or
a result. -/
inductive Outcome (α : Type) where
  | fault
  | fail (rc : ℤ) (out : Out)
  | ok (result : α)

def Outcome.bind {α β : Type} (r : Outcome α) (next : α → Outcome β) : Outcome β :=
  match r with
  | fault => fault
  | fail rc out => fail rc out
  | ok result => next result

structure Dec where
  out : Out
  bufSrc : List UInt8
  decodedBytes : ℕ
  dataLenValue : ℕ
  tlvLen : ℕ

def Dec.start (out : Out) (bufSrc : List UInt8) : Dec := ⟨out, bufSrc, 0, 0, 0⟩

def Dec.advance (s : Dec) (rc : ℕ) (out : Out) : Dec :=
  { s with out, bufSrc := s.bufSrc.drop rc, decodedBytes := s.decodedBytes + rc }

def qmiDecodeBasicElem (out : Out) (bufSrc : List UInt8) (elemLen elemSize srcLen : ℕ) : Outcome (List UInt8) :=
  if srcLen < elemLen * elemSize then .fail (-EINVAL) out
  else if bufSrc.length < elemLen * elemSize then .fault
  else .ok (bufSrc.take (elemLen * elemSize))

/-- The loop of `qmi_decode_struct_elem` over the `left` instances to come; `decode` is the call of
`qmi_decode` for an instance. -/
def decodeStructs (decode : Out → (bufDst : ℕ) → List UInt8 → (inBufLen : ℕ) → Outcome (ℕ × Out))
    (elemSize tlvLen level : ℕ) :
    (left : ℕ) → Out → (bufDst : ℕ) → List UInt8 → (decodedBytes : ℕ) → Outcome (ℕ × Out)
  | 0, out, _, _, decodedBytes =>
    if level ≤ 2 ∧ decodedBytes ≠ tlvLen ∨ 2 < level ∧ tlvLen < decodedBytes then
      .fail (-EFAULT) out
    else .ok (decodedBytes, out)
  | left + 1, out, bufDst, bufSrc, decodedBytes =>
    if decodedBytes < tlvLen then
      (decode out bufDst bufSrc (tlvLen - decodedBytes)).bind fun (rc, out) =>
        decodeStructs decode elemSize tlvLen level left out (bufDst + elemSize) (bufSrc.drop rc) (decodedBytes + rc)
    else if level ≤ 2 ∧ decodedBytes ≠ tlvLen ∨ 2 < level then .fail (-EFAULT) out
    else .ok (decodedBytes, out)

def qmiDecodeStructElem
    (decode : Out → (bufDst : ℕ) → List UInt8 → (inBufLen : ℕ) → Outcome (ℕ × Out))
    (ei : ElemInfo) (out : Out) (bufDst : ℕ) (bufSrc : List UInt8)
    (elemLen tlvLen level srcLen : ℕ) : Outcome (ℕ × Out) :=
  if srcLen < tlvLen then .fail (-EINVAL) out
  else decodeStructs decode ei.elemSize tlvLen level elemLen out bufDst bufSrc 0

def decodeStringLen (ei : ElemInfo) (out : Out) (bufSrc : List UInt8) (tlvLen level srcLen : ℕ) : Outcome (ℕ × ℕ) :=
  if level = 1 then .ok (tlvLen, 0)
  else
    let stringLenSz := if ei.elemLen ≤ U8_MAX then 1 else 2
    (qmiDecodeBasicElem out bufSrc 1 stringLenSz srcLen).bind fun bytes =>
      .ok (ofLE bytes, bytes.length)

def qmiDecodeStringElem (ei : ElemInfo) (out : Out) (bufDst : ℕ) (bufSrc : List UInt8)
    (tlvLen level srcLen : ℕ) : Outcome (ℕ × Out) :=
  (decodeStringLen ei out bufSrc tlvLen level srcLen).bind fun (stringLen, decodedBytes) =>
    if ei.elemLen ≤ stringLen then .fail (-ETOOSMALL) out
    else if tlvLen < stringLen then .fail (-EFAULT) out
    else
      (qmiDecodeBasicElem out (bufSrc.drop decodedBytes) stringLen ei.elemSize
        (subU32 srcLen decodedBytes)).bind fun bytes =>
        let out := out.store bufDst (ei.elemLen * ei.elemSize) 0 bytes
        .ok (decodedBytes + bytes.length, out.store bufDst (ei.elemLen * ei.elemSize) stringLen [0])

/-- The loop for a length element: the length goes into the low bytes of `data_len_value`, which goes as a
whole into the structure. -/
def decodeDataLen (ei : ElemInfo) (base inBufLen : ℕ) (s : Dec) : Outcome Dec :=
  (qmiDecodeBasicElem s.out s.bufSrc 1 (dataLenSize ei) (subU32 inBufLen s.decodedBytes)).bind
    fun bytes =>
      let dataLenValue := storeLow s.dataLenValue (ofLE bytes) (dataLenSize ei)
      let out := s.out.store (base + ei.offset) 4 0 (leBytes dataLenValue 4)
      .ok ({ s with dataLenValue, tlvLen := subU32 s.tlvLen (dataLenSize ei) }.advance bytes.length out)

/-- `data_len_value` in front of an element, or none when the structure has no room for as many. -/
def decodeCount (ei : ElemInfo) (dataLenValue : ℕ) : Option ℕ :=
  match ei.arrayType with
  | .noArray => some 1
  | .staticArray => some ei.elemLen
  | .varLenArray => if ei.elemLen < dataLenValue then none else some dataLenValue

def decodeElem (decode : Out → (bufDst : ℕ) → List UInt8 → (inBufLen : ℕ) → Outcome (ℕ × Out))
    (ei : ElemInfo) (level base inBufLen : ℕ) (s : Dec) : Outcome Dec :=
  let bufDst := base + ei.offset
  match decodeCount ei s.dataLenValue with
  | none => .fail (-ETOOSMALL) s.out
  | some dataLenValue =>
    let s := { s with dataLenValue }
    let srcLen := subU32 inBufLen s.decodedBytes
    match ei.dataType with
    | .basic _ =>
      (qmiDecodeBasicElem s.out s.bufSrc dataLenValue ei.elemSize srcLen).bind fun bytes =>
        .ok (s.advance bytes.length (s.out.store bufDst (ei.elemLen * ei.elemSize) 0 bytes))
    | .struct =>
      (qmiDecodeStructElem decode ei s.out bufDst s.bufSrc dataLenValue s.tlvLen (level + 1)
        srcLen).bind fun (rc, out) => .ok (s.advance rc out)
    | .string =>
      (qmiDecodeStringElem ei s.out bufDst s.bufSrc s.tlvLen level srcLen).bind fun (rc, out) =>
        .ok (s.advance rc out)
    | _ => .fail (-EINVAL) s.out

/-- Where the loop is within a round: in front of it, or behind a flag or a length element. -/
inductive Phase where
  | start
  | afterFlag
  | afterLen
  deriving DecidableEq

/-- In front of an element. There is no length for an element of a nested structure: all that is left may be
its. -/
def Dec.atElem (level inBufLen : ℕ) (phase : Phase) (s : Dec) : Dec :=
  if phase = .start ∧ 1 < level then { s with tlvLen := subU32 inBufLen s.decodedBytes } else s

/-- The loop of `qmi_decode` from an entry of the table on. At the level of the message it is left
after one TLV. -/
def decodeLoop : EiArray → (level base inBufLen : ℕ) → Phase → Dec → Outcome Dec
  | .null, _, _, _, _, _ => .fault
  | .eoti _, _, _, _, phase, s =>
    -- Behind a flag or a length element, the closing entry is an unknown data type.
    if phase = .start then .ok s else .fail (-EINVAL) s.out
  | .elem ei eiArray next, level, base, inBufLen, phase, s =>
    if phase = .start ∧ 1 < level ∧ inBufLen ≤ s.decodedBytes then .ok s
    else
      let s := s.atElem level inBufLen phase
      if phase = .start ∧ ei.dataType = .optFlag then
        decodeLoop next level base inBufLen .afterFlag
          { s with out := s.out.store (base + ei.offset) 1 0 [1] }
      else if phase ≠ .afterLen ∧ ei.dataType = .dataLen then
        (decodeDataLen ei base inBufLen s).bind (decodeLoop next level base inBufLen .afterLen)
      else
        let decode := fun out bufDst bufSrc inBufLen =>
          (decodeLoop eiArray (level + 1) bufDst inBufLen .start (.start out bufSrc)).bind
            fun s => .ok (s.decodedBytes, s.out)
        (decodeElem decode ei level base inBufLen s).bind fun s =>
          if level = 1 then .ok s else decodeLoop next level base inBufLen .start s

def decodeInstance (nested : EiArray) (level : ℕ) (out : Out) (bufDst : ℕ) (bufSrc : List UInt8)
    (inBufLen : ℕ) : Outcome (ℕ × Out) :=
  (decodeLoop nested level bufDst inBufLen .start (.start out bufSrc)).bind
    fun s => .ok (s.decodedBytes, s.out)

namespace Field

variable (f : Field)

def decodeFlag (base : ℕ) (s : Dec) : Dec :=
  match f.flag with
  | some flagOffset => { s with out := s.out.store (base + flagOffset) 1 0 [1] }
  | none => s

def decodeLen (base inBufLen : ℕ) (s : Dec) : Outcome Dec :=
  match f.count with
  | .var lenOffset size _ =>
    decodeDataLen ⟨.dataLen, 1, size.bytes, .noArray, f.tlvType, lenOffset⟩ base inBufLen s
  | _ => .ok s

def decode (nested : EiArray) (level base inBufLen : ℕ) (s : Dec) : Outcome Dec :=
  (f.decodeLen base inBufLen (f.decodeFlag base (s.atElem level inBufLen .start))).bind
    (decodeElem (decodeInstance nested (level + 1)) f.elemInfo level base inBufLen)

theorem dataType_ne : f.dataType ≠ .optFlag ∧ f.dataType ≠ .dataLen := by
  unfold dataType
  split <;> exact ⟨ElemType.noConfusion, ElemType.noConfusion⟩

end Field

theorem Outcome.bind_assoc {α β γ : Type} (r : Outcome α) (next : α → Outcome β)
    (last : β → Outcome γ) : (r.bind next).bind last = r.bind fun a => (next a).bind last := by
  cases r <;> rfl

section
variable {f : Field} {nested next : EiArray} {level base inBufLen : ℕ} {phase : Phase} {s : Dec}

theorem decodeLoop_elem :
    decodeLoop (.elem f.elemInfo nested next) level base inBufLen phase s =
      if phase = .start ∧ 1 < level ∧ inBufLen ≤ s.decodedBytes then .ok s
      else (decodeElem (decodeInstance nested (level + 1)) f.elemInfo level base inBufLen
        (s.atElem level inBufLen phase)).bind fun s =>
          if level = 1 then .ok s else decodeLoop next level base inBufLen .start s := by
  have hflag : ¬ (phase = .start ∧ f.elemInfo.dataType = .optFlag) :=
    fun h => f.dataType_ne.1 h.2
  have hdata : ¬ (phase ≠ .afterLen ∧ f.elemInfo.dataType = .dataLen) :=
    fun h => f.dataType_ne.2 h.2
  rw [decodeLoop]
  rw [if_neg hflag, if_neg hdata]
  rfl

theorem decodeLoop_lenEntry (hphase : phase ≠ .afterLen) :
    decodeLoop (f.lenEntry (.elem f.elemInfo nested next)) level base inBufLen phase s =
      if phase = .start ∧ 1 < level ∧ inBufLen ≤ s.decodedBytes then .ok s
      else (f.decodeLen base inBufLen (s.atElem level inBufLen phase)).bind fun s =>
        (decodeElem (decodeInstance nested (level + 1)) f.elemInfo level base inBufLen s).bind
          fun s => if level = 1 then .ok s else decodeLoop next level base inBufLen .start s := by
  cases hcnt : f.count with
  | one =>
    rw [lenEntry, decodeLen, hcnt]
    exact decodeLoop_elem
  | static n =>
    rw [lenEntry, decodeLen, hcnt]
    exact decodeLoop_elem
  | var lenOffset size max =>
    have hflag : ¬ (phase = .start ∧ ElemType.dataLen = .optFlag) :=
      fun h => ElemType.noConfusion h.2
    rw [lenEntry, decodeLen, hcnt]
    rw [decodeLoop]
    rw [if_neg hflag, if_pos (show _ ∧ _ from ⟨hphase, rfl⟩)]
    congr 2

theorem decodeLoop_entries :
    decodeLoop (f.entries nested next) level base inBufLen .start s =
      if 1 < level ∧ inBufLen ≤ s.decodedBytes then .ok s
      else (f.decode nested level base inBufLen s).bind fun s =>
        if level = 1 then .ok s else decodeLoop next level base inBufLen .start s := by
  unfold entries flagEntry decode decodeFlag
  rw [Outcome.bind_assoc]
  cases hflag : f.flag with dsimp only
  | none =>
    rw [decodeLoop_lenEntry Phase.noConfusion]
    simp
  | some flagOffset =>
    rw [decodeLoop]
    simp only [true_and, and_self, if_true]
    split
    case isTrue => rfl
    case isFalse =>
      rw [decodeLoop_lenEntry Phase.noConfusion]
      congr 1

theorem decodeLoop_message :
    decodeLoop (f.entries nested next) 1 base inBufLen .start s = f.decode nested 1 base inBufLen s := by
  rw [decodeLoop_entries]
  cases f.decode nested 1 base inBufLen s <;> rfl

end

def findEi : EiArray → (type : UInt8) → Option EiArray
  | .null, _ => none
  | .eoti _, _ => none
  | .elem ei eiArray next, type =>
    if ei.tlvType = type then some (.elem ei eiArray next) else findEi next type

/-- The decoder between two TLVs, with the lengths of the values that it took so far, which are not
in the source. -/
structure TlvDec where
  dec : Dec
  taken : List ℕ

def decodeTlvs (eiArray : EiArray) (inBufLen : ℕ) : (rounds : ℕ) → TlvDec → Outcome TlvDec
  | 0, s => if s.dec.decodedBytes < inBufLen then .fault else .ok s
  | rounds + 1, ⟨s, taken⟩ =>
    if inBufLen ≤ s.decodedBytes then .ok ⟨s, taken⟩
    else if inBufLen < s.decodedBytes + TLV_HEADER_SIZE then .fail (-EINVAL) s.out
    else match s.bufSrc with
      | tlvType :: len0 :: len1 :: _ =>
        let s := { s.advance TLV_HEADER_SIZE s.out with tlvLen := ofLE [len0, len1] }
        match findEi eiArray tlvType with
        | none =>
          if tlvType < OPTIONAL_TLV_TYPE_START then .fail (-EINVAL) s.out
          else decodeTlvs eiArray inBufLen rounds ⟨s.advance s.tlvLen s.out, taken ++ [s.tlvLen]⟩
        | some ei =>
          (decodeLoop ei 1 0 inBufLen .start s).bind fun s' =>
            decodeTlvs eiArray inBufLen rounds ⟨s', taken ++ [s'.decodedBytes - s.decodedBytes]⟩
      | _ => .fault

/-- `qmi_decode` at level 1, into a structure of which nothing was written. Every round takes at least a
byte. -/
def qmiDecode (eiArray : EiArray) (input : List UInt8) : Outcome TlvDec :=
  decodeTlvs eiArray input.length input.length ⟨.start ⟨fun _ => none, []⟩ input, []⟩

end VendorKernel.Qmi
