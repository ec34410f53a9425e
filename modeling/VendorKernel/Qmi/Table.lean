import VendorKernel.Lib.LittleEndian

/-! The tables that describe QMI messages, as the C code lays them out (`EiArray`), and those that a list of
fields unfolds to (`Schema`). -/
namespace VendorKernel.Qmi

open LittleEndian

def EFAULT : ℤ := 14

def EINVAL : ℤ := 22

def ETOOSMALL : ℤ := 525

def TLV_HEADER_SIZE : ℕ := 3

def U8_MAX : ℕ := 255

def subU32 (a b : ℕ) : ℕ := (a + (2 ^ 32 - b)) % 2 ^ 32

theorem subU32_eq {a b : ℕ} (ha : a < 2 ^ 32) (hb : b ≤ a) : subU32 a b = a - b := by
  rw [subU32]
  omega

inductive BasicType where
  | unsigned1Byte
  | unsigned2Byte
  | unsigned4Byte
  | unsigned8Byte
  | signed2ByteEnum
  | signed4ByteEnum
  deriving DecidableEq

inductive ElemType where
  | optFlag
  | dataLen
  | basic (type : BasicType)
  | struct
  | string
  deriving DecidableEq

inductive ArrayType where
  | noArray
  | staticArray
  | varLenArray
  deriving DecidableEq

structure ElemInfo where
  dataType : ElemType
  elemLen : ℕ
  elemSize : ℕ
  arrayType : ArrayType
  tlvType : UInt8
  offset : ℕ

/-- A pointer into an array of `struct qmi_elem_info`: null, the closing entry, or an element and the rest. -/
inductive EiArray where
  | null
  | eoti (tlvType : UInt8)
  | elem (ei : ElemInfo) (eiArray next : EiArray)

inductive LenSize where
  | u8
  | u16
  deriving DecidableEq

def LenSize.bytes : LenSize → ℕ
  | .u8 => 1
  | .u16 => 2

/-- How many instances a field has: one, always `n`, or as many as the `u32` at `lenOffset` tells,
at most `max`. -/
inductive Count where
  | one
  | static (n : ℕ)
  | var (lenOffset : ℕ) (size : LenSize) (max : ℕ)
  deriving DecidableEq

def Count.capacity : Count → ℕ
  | .one => 1
  | .static n => n
  | .var _ _ max => max

def Count.Ok : Count → Prop
  | .var _ size max => max < 256 ^ size.bytes
  | _ => True

instance : (count : Count) → Decidable count.Ok
  | .one => isTrue trivial
  | .static _ => isTrue trivial
  | .var _ size max => inferInstanceAs (Decidable (max < 256 ^ size.bytes))

inductive Kind where
  | basic (type : BasicType)
  | string (max : ℕ)
  | struct
  deriving DecidableEq

def Kind.isString : Kind → Bool
  | .string _ => true
  | _ => false

structure Field where
  tlvType : UInt8
  flag : Option ℕ
  count : Count
  kind : Kind
  elemSize : ℕ
  offset : ℕ

inductive Schema where
  | nil (eoti : UInt8)
  | cons (f : Field) (nested next : Schema)

namespace Field

variable (f : Field)

def arrayType : ArrayType :=
  match f.count with
  | .one => .noArray
  | .static _ => .staticArray
  | .var _ _ _ => .varLenArray

def dataType : ElemType :=
  match f.kind with
  | .basic type => .basic type
  | .string _ => .string
  | .struct => .struct

def elemLen : ℕ :=
  match f.kind with
  | .string max => max
  | _ => f.count.capacity

def elemInfo : ElemInfo :=
  { dataType := f.dataType, elemLen := f.elemLen, elemSize := f.elemSize
    arrayType := f.arrayType, tlvType := f.tlvType, offset := f.offset }

def lenEntry (rest : EiArray) : EiArray :=
  match f.count with
  | .var lenOffset size _ =>
    .elem ⟨.dataLen, 1, size.bytes, .noArray, f.tlvType, lenOffset⟩ .null rest
  | _ => rest

def flagEntry (rest : EiArray) : EiArray :=
  match f.flag with
  | some flagOffset => .elem ⟨.optFlag, 1, 1, .noArray, f.tlvType, flagOffset⟩ .null rest
  | none => rest

def entries (nested next : EiArray) : EiArray :=
  f.flagEntry (f.lenEntry (.elem f.elemInfo nested next))

/-- Where the field keeps its data, as start and length: the flag, the length, which is a `u32` there, and
the instances. -/
def parts : List (ℕ × ℕ) :=
  f.flag.toList.map (·, 1) ++
    (match f.count with
    | .var lenOffset _ _ => [(lenOffset, 4)]
    | _ => []) ++
    [(f.offset, f.elemLen * f.elemSize)]

def stringLenSize (max : ℕ) : ℕ := if max ≤ U8_MAX then 1 else 2

/-- The most bytes that the field can take on the wire, `inner` being that for an instance of its nested
structure. -/
def maxSize (level inner : ℕ) : ℕ :=
  (match f.count with
  | .var _ size _ => size.bytes
  | _ => 0) +
  match f.kind with
  | .basic _ => f.elemLen * f.elemSize
  | .string max => if level = 1 then max else stringLenSize max + max
  | .struct => f.elemLen * inner

/-- The field has room for an instance, an array's length fits its length element, and a string is one of bytes. -/
structure Ok : Prop where
  elemSize_pos : 0 < f.elemSize
  elemLen_pos : 0 < f.elemLen
  count_ok : f.count.Ok
  string_single : f.kind.isString → f.count = .one ∧ f.elemSize = 1 ∧ f.elemLen < 2 ^ 16

instance : Decidable f.Ok :=
  decidable_of_iff (0 < f.elemSize ∧ 0 < f.elemLen ∧ f.count.Ok ∧
      (f.kind.isString → f.count = .one ∧ f.elemSize = 1 ∧ f.elemLen < 2 ^ 16))
    ⟨fun h => ⟨h.1, h.2.1, h.2.2.1, h.2.2.2⟩,
      fun h => ⟨h.elemSize_pos, h.elemLen_pos, h.count_ok, h.string_single⟩⟩

variable {f}

theorem Ok.elemLen_eq (hok : f.Ok) (hcnt : f.count ≠ .one) : f.elemLen = f.count.capacity := by
  unfold elemLen
  split
  case h_1 heq => exact absurd (hok.string_single (by rw [heq]; rfl)).1 hcnt
  case h_2 => rfl

theorem Ok.elemLen_static (hok : f.Ok) {n : ℕ} (hcnt : f.count = .static n) : f.elemLen = n := by
  rw [hok.elemLen_eq (by rw [hcnt]; exact Count.noConfusion), hcnt, Count.capacity]

theorem Ok.elemLen_var (hok : f.Ok) {lenOffset max : ℕ} {size : LenSize}
    (hcnt : f.count = .var lenOffset size max) : f.elemLen = max := by
  rw [hok.elemLen_eq (by rw [hcnt]; exact Count.noConfusion), hcnt, Count.capacity]

theorem elemInfo_basic {type : BasicType} (hkind : f.kind = .basic type) : f.elemInfo.dataType = .basic type := by
  rw [elemInfo, dataType, hkind]

theorem elemInfo_string {max : ℕ} (hkind : f.kind = .string max) :
    f.elemInfo.dataType = .string ∧ f.elemInfo.elemLen = max := by
  rw [elemInfo, dataType, elemLen, hkind]
  exact ⟨rfl, rfl⟩

theorem elemInfo_struct (hkind : f.kind = .struct) : f.elemInfo.dataType = .struct := by
  rw [elemInfo, dataType, hkind]

end Field

def Apart (p q : ℕ × ℕ) : Prop := p.1 + p.2 ≤ q.1 ∨ q.1 + q.2 ≤ p.1

instance (p q : ℕ × ℕ) : Decidable (Apart p q) := inferInstanceAs (Decidable (_ ∨ _))

namespace Schema

def toEiArray : Schema → EiArray
  | nil eoti => .eoti eoti
  | cons f nested next => f.entries nested.toEiArray next.toEiArray

def parts : Schema → List (ℕ × ℕ)
  | nil _ => []
  | cons f _ next => f.parts ++ next.parts

def types : Schema → List UInt8
  | nil eoti => [eoti]
  | cons f _ next => f.tlvType :: next.types

def maxSize : Schema → ℕ
  | nil _ => 0
  | cons f nested next => f.maxSize 2 nested.maxSize + next.maxSize

/-- No field is optional: only a TLV can be left out. -/
def Mandatory : Schema → Prop
  | nil _ => True
  | cons f _ next => f.flag = none ∧ next.Mandatory

/-- A structure of `size` bytes can be nested: it has a field, none is optional, and all lie within
it. -/
structure Nestable (size : ℕ) (s : Schema) : Prop where
  nonempty : s.parts ≠ []
  mandatory : s.Mandatory
  within : ∀ p ∈ s.parts, p.1 + p.2 ≤ size

def Sound : Schema → Prop
  | nil _ => True
  | cons f nested next =>
    f.Ok ∧ f.parts.Pairwise Apart ∧ (∀ p ∈ f.parts, ∀ q ∈ next.parts, Apart p q) ∧
      (f.kind = .struct → nested.Nestable f.elemSize ∧ nested.Sound) ∧ next.Sound

/-- Each field of a message has a TLV type of its own, and its TLV can tell its length. -/
def Tagged : Schema → Prop
  | nil _ => True
  | cons f nested next =>
    f.tlvType ∉ next.types ∧ f.maxSize 1 nested.maxSize < 2 ^ 16 ∧ next.Tagged

instance decidableMandatory : (s : Schema) → Decidable s.Mandatory
  | nil _ => isTrue trivial
  | cons f _ next =>
    have := decidableMandatory next
    inferInstanceAs (Decidable (f.flag = none ∧ next.Mandatory))

instance (size : ℕ) (s : Schema) : Decidable (s.Nestable size) :=
  decidable_of_iff (s.parts ≠ [] ∧ s.Mandatory ∧ ∀ p ∈ s.parts, p.1 + p.2 ≤ size)
    ⟨fun h => ⟨h.1, h.2.1, h.2.2⟩, fun h => ⟨h.nonempty, h.mandatory, h.within⟩⟩

instance decidableSound : (s : Schema) → Decidable s.Sound
  | nil _ => isTrue trivial
  | cons f nested next =>
    have := decidableSound nested
    have := decidableSound next
    inferInstanceAs (Decidable (f.Ok ∧ f.parts.Pairwise Apart ∧
      (∀ p ∈ f.parts, ∀ q ∈ next.parts, Apart p q) ∧
      (f.kind = .struct → nested.Nestable f.elemSize ∧ nested.Sound) ∧ next.Sound))

instance decidableTagged : (s : Schema) → Decidable s.Tagged
  | nil _ => isTrue trivial
  | cons f nested next =>
    have := decidableTagged next
    inferInstanceAs (Decidable (f.tlvType ∉ next.types ∧ f.maxSize 1 nested.maxSize < 2 ^ 16 ∧ next.Tagged))

structure WellFormed (s : Schema) : Prop where
  sound : s.Sound
  tagged : s.Tagged

end Schema

end VendorKernel.Qmi
