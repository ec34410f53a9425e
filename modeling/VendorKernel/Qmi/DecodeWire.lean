import VendorKernel.Qmi.DecodeFrames

/-! The decoder on the bytes that the encoder stores: which structures it takes, and what it stores
for them. -/
namespace VendorKernel.Qmi

open LittleEndian Overlay RingBuffer List Qmi.Field Leaf Nat

def wire (leaves : List Leaf) : List UInt8 := leaves.flatMap bytes

/-- Nothing is left over in `data_len_value` that a length would not overwrite. -/
def Count.Fresh (dataLenValue : ℕ) : Count → Prop
  | .var _ size _ => dataLenValue < 256 ^ size.bytes
  | _ => True

instance (dataLenValue : ℕ) : (count : Count) → Decidable (count.Fresh dataLenValue)
  | .one => isTrue trivial
  | .static _ => isTrue trivial
  | .var _ size _ => inferInstanceAs (Decidable (dataLenValue < 256 ^ size.bytes))

def Kind.Terminated (src : ℕ → UInt8) (a : ℕ) : Kind → Prop
  | .string max => strlen src a (max + 1) < max
  | _ => True

instance (src : ℕ → UInt8) (a : ℕ) : (kind : Kind) → Decidable (kind.Terminated src a)
  | .basic _ => isTrue trivial
  | .string max => inferInstanceAs (Decidable (strlen src a (max + 1) < max))
  | .struct => isTrue trivial

namespace Field

variable (f : Field) (src : ℕ → UInt8) (base : ℕ)

def DecodesElem (inner : ℕ → Prop) : Prop :=
  f.kind.Terminated src (base + f.offset) ∧
    (f.kind = .struct → ∀ i < f.instances src base, inner (base + f.offset + i * f.elemSize))

/-- The decoder takes the field, with `dataLenValue` left over from the field before it. -/
def Decodes (dataLenValue : ℕ) (inner : ℕ → Prop) : Prop :=
  f.count.Fresh dataLenValue ∧ f.DecodesElem src base inner

instance (inner : ℕ → Prop) [DecidablePred inner] : Decidable (f.DecodesElem src base inner) :=
  inferInstanceAs (Decidable (_ ∧ _))

instance (dataLenValue : ℕ) (inner : ℕ → Prop) [DecidablePred inner] :
    Decidable (f.Decodes src base dataLenValue inner) :=
  inferInstanceAs (Decidable (_ ∧ _))

def elemStores (inner : ℕ → List (ℕ × List UInt8)) : List (ℕ × List UInt8) :=
  let a := base + f.offset
  match f.kind with
  | .basic _ => [(a, slice src a (f.instances src base * f.elemSize))]
  | .string max => [(a, slice src a (strlen src a (max + 1)) ++ [0])]
  | .struct => instancesAt inner f.elemSize (f.instances src base) a

def flagStores : List (ℕ × List UInt8) :=
  match f.flag with
  | some flagOffset => [(base + flagOffset, [1])]
  | none => []

def lenStores : List (ℕ × List UInt8) :=
  match f.count with
  | .var lenOffset _ _ => [(base + lenOffset, leBytes (f.instances src base) 4)]
  | _ => []

def stores (inner : ℕ → List (ℕ × List UInt8)) : List (ℕ × List UInt8) :=
  f.flagStores base ++ f.lenStores src base ++ f.elemStores src base inner

end Field

namespace Schema

def Decodes (src : ℕ → UInt8) : Schema → (base dataLenValue : ℕ) → Prop
  | nil _, _, _ => True
  | cons f nested next, base, dataLenValue =>
    if f.present src base then
      f.Decodes src base dataLenValue (fun a => nested.Decodes src a 0) ∧
        next.Decodes src base (f.instances src base)
    else next.Decodes src base dataLenValue

instance decidableDecodes (src : ℕ → UInt8) :
    (S : Schema) → (base dataLenValue : ℕ) → Decidable (S.Decodes src base dataLenValue)
  | nil _, _, _ => isTrue trivial
  | cons f nested next, base, dataLenValue =>
    have : DecidablePred fun a => nested.Decodes src a 0 :=
      fun a => decidableDecodes src nested a 0
    have := decidableDecodes src next base
    inferInstanceAs (Decidable (if f.present src base then
      f.Decodes src base dataLenValue (fun a => nested.Decodes src a 0) ∧
        next.Decodes src base (f.instances src base)
    else next.Decodes src base dataLenValue))

def stores (src : ℕ → UInt8) : Schema → (base : ℕ) → List (ℕ × List UInt8)
  | nil _, _ => []
  | cons f nested next, base =>
    (if f.present src base then f.stores src base (nested.stores src) else []) ++
      next.stores src base

end Schema

/-- The decoder accepts exactly when `accepts`, with `post` of the result, and otherwise returns an
error. -/
def Outcome.Decides {α : Type} (accepts : Prop) (post : α → Prop) : Outcome α → Prop
  | .fault => False
  | .fail _ _ => ¬ accepts
  | .ok result => accepts ∧ post result

section
variable {α β : Type} {accepts accepts' : Prop} {P Q : α → Prop}

variable {r : Outcome α}

section
variable (h : r.Decides accepts P)
include h

theorem Outcome.Decides.bind {next : α → Outcome β} {Q : β → Prop} (hnext : ∀ a, P a → (next a).Decides accepts' Q) :
    (r.bind next).Decides (accepts ∧ accepts') Q := by
  cases r with
  | fault => exact h
  | fail rc out => exact fun hall => h hall.1
  | ok a =>
    have hrest := hnext a h.2
    change (next a).Decides (accepts ∧ accepts') Q
    cases hr : next a with rw [hr] at hrest
    | fault =>
      exact hrest
    | fail rc out =>
      exact fun hall => hrest hall.2
    | ok b =>
      exact ⟨⟨h.1, hrest.1⟩, hrest.2⟩

theorem Outcome.Decides.map {g : α → β} {Q : β → Prop} (hPQ : ∀ a, P a → Q (g a)) :
    (r.bind fun a => .ok (g a)).Decides accepts Q := by
  cases r with
  | fault => exact h
  | fail rc out => exact h
  | ok a => exact ⟨h.1, hPQ a h.2⟩

theorem Outcome.Decides.mono (hacc : accepts ↔ accepts') (hPQ : ∀ a, P a → Q a) : r.Decides accepts' Q := by
  cases r with
  | fault => exact h
  | fail rc out => exact fun hall => h (hacc.mpr hall)
  | ok a => exact ⟨hacc.mp h.1, hPQ a h.2⟩

theorem Outcome.Decides.exists_ok_iff (hPQ : accepts → ∀ a, P a → (Q a ↔ accepts')) :
    (∃ a, r = .ok a ∧ Q a) ↔ accepts ∧ accepts' := by
  cases r with
  | fault => exact absurd h id
  | fail rc out =>
    constructor
    · rintro ⟨b, hb, -⟩
      cases hb
    · exact fun hall => absurd hall.1 h
  | ok a =>
    constructor
    · rintro ⟨b, hb, hQ⟩
      cases hb
      exact ⟨h.1, (hPQ h.1 a h.2).mp hQ⟩
    · rintro ⟨hall, hall'⟩
      exact ⟨a, rfl, (hPQ hall a h.2).mpr hall'⟩

theorem Outcome.Decides.exists_fail (hnot : ¬ accepts) : ∃ rc out, r = .fail rc out := by
  cases r with
  | fault => exact absurd h id
  | fail rc out => exact ⟨rc, out, rfl⟩
  | ok a => exact absurd h.1 hnot

end

end

theorem qmiDecodeBasicElem_wire {out : Out} {bytes rest : List UInt8} {elemLen elemSize srcLen : ℕ}
    (hbs : bytes.length = elemLen * elemSize) (hsrc : bytes.length ≤ srcLen) :
    qmiDecodeBasicElem out (bytes ++ rest) elemLen elemSize srcLen = .ok bytes := by
  rw [qmiDecodeBasicElem, if_neg (by omega), if_neg (by rw [length_append]; omega), ← hbs,
    take_left]

def InstanceDecides (decode : Out → (bufDst : ℕ) → List UInt8 → (inBufLen : ℕ) → Outcome (ℕ × Out))
    (bytes : List UInt8) (accepts : Prop) (stores : List (ℕ × List UInt8)) (a : ℕ) : Prop :=
  ∀ out rest inBufLen, bytes.length ≤ inBufLen → inBufLen ≤ bytes.length + rest.length →
    inBufLen < 2 ^ 32 →
    (decode out a (bytes ++ rest) inBufLen).Decides accepts fun p =>
      p.1 = bytes.length ∧ p.2.cells = puts out.cells stores

theorem wire_cons (leaf : Leaf) (leaves : List Leaf) : wire (leaf :: leaves) = leaf.bytes ++ wire leaves := rfl

theorem wire_append (xs ys : List Leaf) : wire (xs ++ ys) = wire xs ++ wire ys :=
  flatMap_append

/-- By induction on the instances that are left. -/
theorem decodeStructs_wire
    {decode : InstanceDecoder}
    {inner : ℕ → List Leaf} {accepts : ℕ → Prop} {stores : ℕ → List (ℕ × List UInt8)}
    {elemSize tlvLen level left a decodedBytes : ℕ} {out : Out} {rest : List UInt8}
    (hdcd : ∀ i < left, InstanceDecides decode (wire (inner (a + i * elemSize)))
      (accepts (a + i * elemSize)) (stores (a + i * elemSize)) (a + i * elemSize))
    (hpos : ∀ i < left, 0 < (wire (inner (a + i * elemSize))).length)
    (hle : decodedBytes + (wire (instancesAt inner elemSize left a)).length ≤ tlvLen)
    (hexact : level ≤ 2 → decodedBytes + (wire (instancesAt inner elemSize left a)).length = tlvLen)
    (hsrc : tlvLen ≤ decodedBytes + (wire (instancesAt inner elemSize left a)).length + rest.length)
    (hlt : tlvLen < 2 ^ 32) :
    (decodeStructs decode elemSize tlvLen level left out a
      (wire (instancesAt inner elemSize left a) ++ rest) decodedBytes).Decides
      (∀ i < left, accepts (a + i * elemSize)) fun p =>
        p.1 = decodedBytes + (wire (instancesAt inner elemSize left a)).length ∧
          p.2.cells = puts out.cells (instancesAt stores elemSize left a) := by
  induction left generalizing a decodedBytes out with
  | zero =>
    change level ≤ 2 → decodedBytes + 0 = tlvLen at hexact
    rw [decodeStructs, if_neg (by omega)]
    exact ⟨fun i hi => absurd hi (not_lt_zero i), rfl, rfl⟩
  | succ left ih =>
    have hfst := hdcd 0 (succ_pos left)
    have hpos0 := hpos 0 (succ_pos left)
    rw [zero_mul, add_zero] at hfst hpos0
    rw [instancesAt, wire_append, length_append] at hle hexact hsrc
    rw [instancesAt, wire_append, append_assoc, decodeStructs, if_pos (by omega)]
    have hsh (i : ℕ) : a + elemSize + i * elemSize = a + (i + 1) * elemSize := by
      rw [succ_mul]
      omega
    have hrun := hfst out (wire (instancesAt inner elemSize left (a + elemSize)) ++ rest)
      (tlvLen - decodedBytes) (by omega) (by rw [length_append]; omega) (by omega)
    have hall : (∀ i < left + 1, accepts (a + i * elemSize)) ↔
        accepts a ∧ ∀ i < left, accepts (a + elemSize + i * elemSize) := by
      simp only [hsh]
      rw [forall_lt_succ_left, zero_mul, add_zero]
    rw [hall]
    apply hrun.bind
    rintro ⟨rc, out'⟩ ⟨hrc, hce⟩
    dsimp only at hrc hce ⊢
    subst hrc
    rw [drop_left]
    have hih := @ih (a + elemSize) (decodedBytes + (wire (inner a)).length) out'
      (fun i hi => by rw [hsh]; exact hdcd (i + 1) (by omega))
      (fun i hi => by rw [hsh]; exact hpos (i + 1) (by omega))
      (by omega) (by omega) (by omega)
    apply hih.mono Iff.rfl
    intro p hp
    rw [instancesAt, puts_append, ← hce, length_append, ← add_assoc]
    exact hp

structure Dec.Before (level inBufLen : ℕ) (bytes rest : List UInt8) (s : Dec) : Prop where
  bufSrc : s.bufSrc = bytes ++ rest
  le : s.decodedBytes + bytes.length ≤ inBufLen
  src : inBufLen ≤ s.decodedBytes + bytes.length + rest.length
  message : level = 1 → s.tlvLen = bytes.length
  nested : level ≠ 1 → bytes.length ≤ s.tlvLen ∧ s.tlvLen ≤ inBufLen - s.decodedBytes

structure Dec.After (s : Dec) (bytes rest : List UInt8) (n : ℕ) (cells : Cells) (s' : Dec) :
    Prop where
  decodedBytes : s'.decodedBytes = s.decodedBytes + bytes.length
  bufSrc : s'.bufSrc = rest
  dataLenValue : s'.dataLenValue = n
  cells : s'.out.cells = cells

namespace Field
variable (f : Field) (src : ℕ → UInt8) (base : ℕ)

def InnerDecides (decode : InstanceDecoder)
    (inner : ℕ → List Leaf) (accepts : ℕ → Prop) (stores : ℕ → List (ℕ × List UInt8)) : Prop :=
  f.kind = .struct → ∀ i < f.instances src base, let a := base + f.offset + i * f.elemSize
    InstanceDecides decode (wire (inner a)) (accepts a) (stores a) a

def InnerPos (inner : ℕ → List Leaf) : Prop :=
  f.kind = .struct → ∀ i < f.instances src base, 0 < (wire (inner (base + f.offset + i * f.elemSize))).length

def ElemDecides (level inBufLen : ℕ)
    (decode : InstanceDecoder)
    (inner : ℕ → List Leaf) (accepts : ℕ → Prop) (stores : ℕ → List (ℕ × List UInt8)) (s : Dec)
    (rest : List UInt8) : Prop :=
  (decodeElem decode f.elemInfo level base inBufLen s).Decides (f.DecodesElem src base accepts)
    (s.After (wire (f.elemLeaves src base level inner)) rest (f.instances src base)
      (puts s.out.cells (f.elemStores src base stores)))

end Field

section
variable {src : ℕ → UInt8} {f : Field} {level base inBufLen : ℕ} {s : Dec} {rest : List UInt8}
  {inner : ℕ → List Leaf} {accepts : ℕ → Prop} {stores : ℕ → List (ℕ × List UInt8)}
  {decode : InstanceDecoder}

theorem Dec.Before.advance {bytes : List UInt8} {n rc : ℕ} {out : Out} {cells : Cells}
    (h : s.Before level inBufLen bytes rest) (hrc : rc = bytes.length) (hce : out.cells = cells) :
    s.After bytes rest n cells ({ s with dataLenValue := n }.advance rc out) := by
  subst hrc
  refine ⟨rfl, ?_, rfl, hce⟩
  simp only [Dec.advance, h.bufSrc, drop_left]

theorem Dec.Before.tlvLen {bytes : List UInt8} (h : s.Before level inBufLen bytes rest) :
    bytes.length ≤ s.tlvLen ∧ s.tlvLen ≤ inBufLen - s.decodedBytes := by
  have hle := h.le
  by_cases hlv : level = 1
  · rw [h.message hlv]
    exact ⟨le_refl _, by omega⟩
  · exact h.nested hlv

theorem basic_decides {type : BasicType} (hkind : f.kind = .basic type) (hlen : inBufLen < 2 ^ 32)
    (hcnt : decodeCount f.elemInfo s.dataLenValue = some (f.instances src base))
    (h : s.Before level inBufLen (wire (f.elemLeaves src base level inner)) rest) :
    f.ElemDecides src base level inBufLen decode inner accepts stores s rest := by
  have htype : f.elemInfo.dataType = .basic type := elemInfo_basic hkind
  have hwire : wire (f.elemLeaves src base level inner) =
      slice src (base + f.offset) (f.instances src base * f.elemSize) := by
    rw [elemLeaves, hkind]
    exact append_nil _
  unfold Field.ElemDecides
  rw [hwire] at h ⊢
  have hle := h.le
  have hbasic : qmiDecodeBasicElem s.out s.bufSrc (f.instances src base) f.elemInfo.elemSize
      (inBufLen - s.decodedBytes) = .ok (slice src (base + f.offset) (f.instances src base * f.elemSize)) := by
    rw [h.bufSrc]
    exact qmiDecodeBasicElem_wire (slice_length _ _ _) (by omega)
  rw [decodeElem, hcnt]
  dsimp only
  rw [htype, subU32_eq hlen (by omega)]
  rw [hbasic]
  refine ⟨⟨?_, ?_⟩, h.advance rfl ?_⟩
  · rw [hkind]
    exact trivial
  · rw [hkind]
    exact fun h => Kind.noConfusion h
  · rw [elemStores, hkind]
    rfl

def stringPrefix (level max n : ℕ) : List UInt8 :=
  if level = 1 then [] else leBytes n (Field.stringLenSize max)

theorem decodeStringLen_wire {ei : ElemInfo} {out : Out} {n srcLen tlvLen : ℕ} {bytes : List UInt8}
    (hn : n ≤ ei.elemLen) (hmax : ei.elemLen < 2 ^ 16)
    (hsrc : (stringPrefix level ei.elemLen n).length ≤ srcLen) (htlv : level = 1 → tlvLen = n) :
    decodeStringLen ei out (stringPrefix level ei.elemLen n ++ bytes) tlvLen level srcLen =
      .ok (n, (stringPrefix level ei.elemLen n).length) := by
  unfold decodeStringLen stringPrefix at *
  by_cases hlv : level = 1
  · rw [if_pos hlv, if_pos hlv, htlv hlv]
    rfl
  · rw [if_neg hlv] at hsrc ⊢
    rw [if_neg hlv]
    have hfits : ofLE (leBytes n (stringLenSize ei.elemLen)) = n := by
      rw [ofLE_leBytes]
      unfold stringLenSize U8_MAX
      split <;> omega
    dsimp only
    rw [← stringLenSize, qmiDecodeBasicElem_wire (by rw [leBytes_length, one_mul]) hsrc]
    rw [Outcome.bind, hfits]

theorem qmiDecodeStringElem_wire {ei : ElemInfo} {out : Out} {bufDst n srcLen tlvLen : ℕ}
    {string : List UInt8} (hstg : string.length = n) (hsize : ei.elemSize = 1)
    (hn : n ≤ ei.elemLen) (hmax : ei.elemLen < 2 ^ 16)
    (hsrc : (stringPrefix level ei.elemLen n).length + n ≤ srcLen) (hlt : srcLen < 2 ^ 32)
    (htlv : level = 1 → tlvLen = n) (hle : n ≤ tlvLen) :
    (qmiDecodeStringElem ei out bufDst (stringPrefix level ei.elemLen n ++ string ++ rest) tlvLen
      level srcLen).Decides (n < ei.elemLen) fun p =>
        p.1 = (stringPrefix level ei.elemLen n ++ string).length ∧
          p.2.cells = put out.cells bufDst (string ++ [0]) := by
  rw [qmiDecodeStringElem, append_assoc, decodeStringLen_wire hn hmax (by omega) htlv]
  change Outcome.Decides _ _ (if ei.elemLen ≤ n then _ else _)
  by_cases hterm : n < ei.elemLen
  · rw [if_neg (by omega), if_neg (by omega), drop_left, subU32_eq hlt (by omega),
      qmiDecodeBasicElem_wire (by rw [hsize, hstg, mul_one]) (by omega)]
    refine ⟨hterm, by rw [length_append], ?_⟩
    change put (put out.cells (bufDst + 0) string) (bufDst + n) [0] = _
    rw [add_zero, ← hstg, put_append]
  · rw [if_pos (by omega)]
    exact hterm

theorem Field.wire_string {max : ℕ} (hkind : f.kind = .string max)
    (hfail : fail ∉ f.elemLeaves src base level inner) :
    strlen src (base + f.offset) (max + 1) ≤ max ∧
      wire (f.elemLeaves src base level inner) =
        stringPrefix level max (strlen src (base + f.offset) (max + 1)) ++
          slice src (base + f.offset) (strlen src (base + f.offset) (max + 1)) := by
  have hstr : ¬ max < strlen src (base + f.offset) (max + 1) := by
    intro hlong
    apply hfail
    simp [elemLeaves, hkind, stringLeaf, hlong]
  refine ⟨not_lt.mp hstr, ?_⟩
  rw [elemLeaves, hkind]
  by_cases hlv : level = 1 <;>
    simp [wire, stringLeaf, hstr, hlv, bytes, stringPrefix]

section
variable (hlen : inBufLen < 2 ^ 32)
  (hcnt : decodeCount f.elemInfo s.dataLenValue = some (f.instances src base))
  (h : s.Before level inBufLen (wire (f.elemLeaves src base level inner)) rest)
include hlen hcnt h

theorem string_decides {max : ℕ} (hok : f.Ok) (hkind : f.kind = .string max)
    (hfail : fail ∉ f.elemLeaves src base level inner) :
    f.ElemDecides src base level inBufLen decode inner accepts stores s rest := by
  obtain ⟨htype, hmax⟩ := elemInfo_string hkind
  obtain ⟨-, hsize, hshort⟩ := hok.string_single (by rw [hkind]; rfl)
  obtain ⟨hstr, hwire⟩ := wire_string hkind hfail
  have hdcs : f.DecodesElem src base accepts ↔ strlen src (base + f.offset) (max + 1) < max := by
    simp [Field.DecodesElem, hkind, Kind.Terminated]
  have hstores : puts s.out.cells (f.elemStores src base stores) =
      put s.out.cells (base + f.offset)
        (slice src (base + f.offset) (strlen src (base + f.offset) (max + 1)) ++ [0]) := by
    rw [elemStores, hkind, puts_cons, puts_nil]
  unfold Field.ElemDecides
  rw [hwire] at h ⊢
  rw [hdcs, hstores]
  generalize strlen src (base + f.offset) (max + 1) = n at *
  have hle := h.le
  have htlv := h.tlvLen.1
  have hmsg (hlv : level = 1) : s.tlvLen = n := by
    rw [h.message hlv, stringPrefix, if_pos hlv, nil_append, slice_length]
  rw [length_append, slice_length] at hle htlv
  have hrun := @qmiDecodeStringElem_wire level rest f.elemInfo s.out (base + f.offset) n
    (inBufLen - s.decodedBytes) s.tlvLen (slice src (base + f.offset) n) (slice_length _ _ _) hsize
    (by omega) hshort (by rw [hmax]; omega) (by omega) hmsg (by omega)
  rw [hmax, ← h.bufSrc] at hrun
  rw [decodeElem, hcnt]
  dsimp only
  rw [htype, subU32_eq hlen (by omega)]
  apply hrun.map
  rintro ⟨rc, out⟩ ⟨hrc, hce⟩
  exact h.advance hrc hce

theorem struct_decides (hkind : f.kind = .struct) (hlv : 0 < level)
    (hdcd : f.InnerDecides src base decode inner accepts stores) (hpos : f.InnerPos src base inner) :
    f.ElemDecides src base level inBufLen decode inner accepts stores s rest := by
  have htype : f.elemInfo.dataType = .struct := elemInfo_struct hkind
  have hdcs : f.DecodesElem src base accepts ↔
      ∀ i < f.instances src base, accepts (base + f.offset + i * f.elemSize) := by
    simp [Field.DecodesElem, hkind, Kind.Terminated]
  have hlvs : f.elemLeaves src base level inner =
      instancesAt inner f.elemSize (f.instances src base) (base + f.offset) := by
    rw [elemLeaves, hkind]
  have hstores : f.elemStores src base stores =
      instancesAt stores f.elemSize (f.instances src base) (base + f.offset) := by
    rw [elemStores, hkind]
  unfold Field.ElemDecides
  rw [hlvs] at h ⊢
  rw [hdcs, hstores]
  have hle := h.le
  have hsrc := h.src
  obtain ⟨hge, htlv⟩ := h.tlvLen
  have hrun := @decodeStructs_wire decode inner accepts stores f.elemSize s.tlvLen (level + 1)
    (f.instances src base) (base + f.offset) 0 s.out rest (hdcd hkind) (hpos hkind)
    (by omega) (fun hlow => by rw [h.message (by omega), zero_add]) (by omega) (by omega)
  rw [decodeElem, hcnt]
  dsimp only
  rw [htype, subU32_eq hlen (by omega)]
  rw [qmiDecodeStructElem, if_neg (by omega)]
  rw [← h.bufSrc, zero_add] at hrun
  apply hrun.map
  rintro ⟨rc, out⟩ ⟨hrc, hce⟩
  exact h.advance hrc hce

theorem elem_decides (hok : f.Ok) (hlv : 0 < level) (hfail : fail ∉ f.elemLeaves src base level inner)
    (hdcd : f.InnerDecides src base decode inner accepts stores) (hpos : f.InnerPos src base inner) :
    f.ElemDecides src base level inBufLen decode inner accepts stores s rest := by
  cases hkind : f.kind with
  | basic type => exact basic_decides hkind hlen hcnt h
  | string max => exact string_decides hlen hcnt h hok hkind hfail
  | struct => exact struct_decides hlen hcnt h hkind hlv hdcd hpos

end

def Field.lenWire (f : Field) (src : ℕ → UInt8) (base : ℕ) : List UInt8 :=
  match f.count with
  | .var _ size _ => leBytes (f.instances src base) size.bytes
  | _ => []

theorem Field.elemLeaves_empty (f : Field) (hok : f.Ok) (hcnt : f.count ≠ .one)
    (hemp : f.instances src base = 0) : wire (f.elemLeaves src base level inner) = [] ∧
      fail ∉ f.elemLeaves src base level inner := by
  unfold elemLeaves
  cases hkind : f.kind with
  | basic type =>
    rw [hemp, zero_mul]
    exact ⟨rfl, by simp⟩
  | string max => exact absurd (hok.string_single (by rw [hkind]; rfl)).1 hcnt
  | struct =>
    rw [hemp]
    exact ⟨rfl, not_mem_nil⟩

theorem Field.wire_leaves (hok : f.Ok) (hfail : fail ∉ f.leaves src base level inner) :
    wire (f.leaves src base level inner) =
        f.lenWire src base ++ wire (f.elemLeaves src base level inner) ∧
      fail ∉ f.elemLeaves src base level inner ∧
      f.instances src base ≤ f.count.capacity := by
  unfold leaves lenWire at *
  cases hcnt : f.count with rw [hcnt] at hfail
  | one =>
    refine ⟨rfl, hfail, ?_⟩
    rw [instances, hcnt]
    exact le_refl 1
  | static n =>
    refine ⟨rfl, hfail, ?_⟩
    rw [instances, hcnt]
    exact le_refl n
  | var lenOffset size max =>
    dsimp only at hfail ⊢
    by_cases hemp : f.instances src base = 0
    · obtain ⟨hwire, hnone⟩ := f.elemLeaves_empty hok (by rw [hcnt]; exact Count.noConfusion)
        hemp
      rw [if_pos hemp, hwire, append_nil]
      exact ⟨append_nil _, hnone, by omega⟩
    · rw [if_neg hemp] at hfail ⊢
      by_cases hlong : max < f.instances src base
      · rw [if_pos hlong] at hfail
        exact absurd (by simp) hfail
      · rw [if_neg hlong] at hfail ⊢
        exact ⟨rfl, fun h => hfail (mem_cons_of_mem _ h), not_lt.mp hlong⟩

theorem decodeDataLen_wire {ei : ElemInfo} {n size : ℕ} (hsize : dataLenSize ei = size)
    (hn : n < 256 ^ size) (hlen : inBufLen < 2 ^ 32) (hsrc : s.bufSrc = leBytes n size ++ rest)
    (hle : s.decodedBytes + size ≤ inBufLen) :
    decodeDataLen ei base inBufLen s =
      .ok { s with
        dataLenValue := storeLow s.dataLenValue n size
        tlvLen := subU32 s.tlvLen size
        bufSrc := rest
        decodedBytes := s.decodedBytes + size
        out := s.out.store (base + ei.offset) 4 0 (leBytes (storeLow s.dataLenValue n size) 4) } := by
  have hbasic : qmiDecodeBasicElem s.out s.bufSrc 1 size (inBufLen - s.decodedBytes) = .ok (leBytes n size) := by
    rw [hsrc]
    exact qmiDecodeBasicElem_wire (by rw [leBytes_length, one_mul])
      (by rw [leBytes_length]; omega)
  have hvl : ofLE (leBytes n size) = n := by
    rw [ofLE_leBytes, mod_eq_of_lt hn]
  rw [decodeDataLen, hsize, subU32_eq hlen (by omega), hbasic]
  simp only [Outcome.bind, hvl, leBytes_length, Dec.advance, hsrc, drop_left']

theorem decodeFlag_cells (f : Field) (base : ℕ) (s : Dec) :
    (f.decodeFlag base s).out.cells = puts s.out.cells (f.flagStores base) := by
  unfold decodeFlag flagStores
  cases f.flag <;> rfl

theorem decodeFlag_before {bytes : List UInt8} (hlen : inBufLen < 2 ^ 32)
    (hsrc : s.bufSrc = bytes ++ rest) (hle : s.decodedBytes + bytes.length ≤ inBufLen)
    (hbuf : inBufLen ≤ s.decodedBytes + bytes.length + rest.length)
    (hmsg : level = 1 → s.tlvLen = bytes.length) (hlv : 0 < level) :
    (f.decodeFlag base (s.atElem level inBufLen .start)).Before level inBufLen bytes rest ∧
      (f.decodeFlag base (s.atElem level inBufLen .start)).decodedBytes = s.decodedBytes ∧
      (f.decodeFlag base (s.atElem level inBufLen .start)).dataLenValue = s.dataLenValue ∧
      (f.decodeFlag base (s.atElem level inBufLen .start)).out.cells = puts s.out.cells (f.flagStores base) := by
  obtain ⟨hsrc0, hdec0, htlv0, hvl0⟩ :=
    decodeFlag_fields f base (s.atElem level inBufLen .start)
  rw [decodeFlag_cells, hvl0, hdec0]
  unfold Dec.atElem at *
  by_cases htop : 1 < level
  · rw [if_pos ⟨rfl, htop⟩] at *
    refine ⟨⟨hsrc0.trans hsrc, by rw [hdec0]; exact hle, by rw [hdec0]; exact hbuf,
      fun h => by omega, fun _ => ?_⟩, rfl, rfl, rfl⟩
    rw [htlv0, hdec0, subU32_eq hlen (by omega)]
    exact ⟨by dsimp only; omega, le_refl _⟩
  · rw [if_neg (fun h => htop h.2)] at *
    exact ⟨⟨hsrc0.trans hsrc, by rw [hdec0]; exact hle, by rw [hdec0]; exact hbuf,
      fun h => htlv0.trans (hmsg h), fun h => by omega⟩, rfl, rfl, rfl⟩

theorem Dec.Before.front {front bytes : List UInt8} {k n : ℕ} {out : Out}
    (h : s.Before level inBufLen (front ++ bytes) rest) (hlen : inBufLen < 2 ^ 32)
    (hk : front.length = k) :
    Dec.Before level inBufLen bytes rest
      { out, bufSrc := bytes ++ rest, decodedBytes := s.decodedBytes + k, dataLenValue := n
        tlvLen := subU32 s.tlvLen k } := by
  have hle := h.le
  have hsrc := h.src
  obtain ⟨hge, htlv⟩ := h.tlvLen
  rw [length_append] at hle hsrc hge
  have hsub : subU32 s.tlvLen k = s.tlvLen - k := subU32_eq (by omega) (by omega)
  refine ⟨rfl, by dsimp only; omega, by dsimp only; omega, fun hlv => ?_, fun hlv => ?_⟩
  · have hmsg := h.message hlv
    rw [length_append] at hmsg
    dsimp only
    omega
  · dsimp only
    omega

/-- An array with its length in front. What is left over from an earlier length, above the bytes of
this one, makes it too long for the structure. -/
theorem var_decides {lenOffset max : ℕ} {size : LenSize} (hok : f.Ok)
    (hcnt : f.count = .var lenOffset size max) (hlv : 0 < level) (hlen : inBufLen < 2 ^ 32)
    (hfail : fail ∉ f.elemLeaves src base level inner) (hroom : f.instances src base ≤ max)
    (hdcd : f.InnerDecides src base decode inner accepts stores) (hpos : f.InnerPos src base inner)
    (h : s.Before level inBufLen
      (leBytes (f.instances src base) size.bytes ++ wire (f.elemLeaves src base level inner)) rest) :
    ((decodeDataLen ⟨.dataLen, 1, size.bytes, .noArray, f.tlvType, lenOffset⟩ base inBufLen s).bind
      (decodeElem decode f.elemInfo level base inBufLen)).Decides
      (s.dataLenValue < 256 ^ size.bytes ∧ f.DecodesElem src base accepts)
      (s.After
        (leBytes (f.instances src base) size.bytes ++ wire (f.elemLeaves src base level inner))
        rest (f.instances src base)
        (puts (put s.out.cells (base + lenOffset) (leBytes (f.instances src base) 4))
          (f.elemStores src base stores))) := by
  have hmax : f.elemLen = max := hok.elemLen_var hcnt
  have hbd : max < 256 ^ size.bytes := by
    have hcountOk := hok.count_ok
    rwa [hcnt] at hcountOk
  have hvar (dataLenValue : ℕ) : decodeCount f.elemInfo dataLenValue =
      if max < dataLenValue then none else some dataLenValue := by
    simp only [decodeCount, elemInfo, arrayType, hcnt, hmax]
  have hsrc := h.bufSrc
  have hle := h.le
  rw [append_assoc] at hsrc
  rw [length_append, leBytes_length] at hle
  rw [decodeDataLen_wire (dataLenSize_eq rfl) (by omega) hlen hsrc (by omega), Outcome.bind]
  by_cases hfs : s.dataLenValue < 256 ^ size.bytes
  · rw [storeLow_of_lt hfs]
    have hrun := @elem_decides src f level base inBufLen _ rest inner accepts stores decode hlen
      (by rw [hvar, if_neg (by dsimp only; omega)]) (@Dec.Before.front level inBufLen s rest _ _ _
        (f.instances src base)
        (s.out.store (base + lenOffset) 4 0 (leBytes (f.instances src base) 4)) h hlen
        (leBytes_length _ _)) hok hlv hfail hdcd hpos
    apply hrun.mono
    · exact (and_iff_right hfs).symm
    · intro s' hs'
      refine ⟨?_, hs'.bufSrc, hs'.dataLenValue, hs'.cells⟩
      rw [hs'.decodedBytes, length_append, leBytes_length, add_assoc]
  · have hhigh : ¬ storeLow s.dataLenValue (f.instances src base) size.bytes < 256 ^ size.bytes :=
      fun hsm => hfs (lt_of_storeLow_lt hsm)
    rw [decodeElem, hvar, if_pos (by dsimp only; omega)]
    exact fun hacc => hfs hacc.1

/-- A field with its flag and its length. -/
theorem field_decides {nested : EiArray} (hok : f.Ok) (hlv : 0 < level) (hlen : inBufLen < 2 ^ 32)
    (hfail : fail ∉ f.leaves src base level inner)
    (hdcd : f.InnerDecides src base (decodeInstance nested (level + 1)) inner accepts stores)
    (hpos : f.InnerPos src base inner)
    (hsrc : s.bufSrc = wire (f.leaves src base level inner) ++ rest)
    (hle : s.decodedBytes + (wire (f.leaves src base level inner)).length ≤ inBufLen)
    (hbuf : inBufLen ≤ s.decodedBytes + (wire (f.leaves src base level inner)).length + rest.length)
    (hmsg : level = 1 → s.tlvLen = (wire (f.leaves src base level inner)).length) :
    (f.decode nested level base inBufLen s).Decides (f.Decodes src base s.dataLenValue accepts)
      (s.After (wire (f.leaves src base level inner)) rest (f.instances src base)
        (puts s.out.cells (f.stores src base stores))) := by
  obtain ⟨hbef, hdec, hvl, hce⟩ :=
    @decodeFlag_before f level base inBufLen s rest _ hlen hsrc hle hbuf hmsg hlv
  obtain ⟨hwire, hfail', hroom⟩ := wire_leaves hok hfail
  rw [Field.decode, Field.stores, puts_append, puts_append, ← hce, Field.Decodes, ← hvl]
  generalize f.decodeFlag base (s.atElem level inBufLen .start) = s0 at *
  have haf {s' : Dec} {n : ℕ} {bytes : List UInt8} {cells : Cells}
      (h : s0.After bytes rest n cells s') : s.After bytes rest n cells s' :=
    ⟨h.decodedBytes.trans (by rw [hdec]), h.bufSrc, h.dataLenValue, h.cells⟩
  unfold decodeLen lenStores
  rw [hwire] at hbef ⊢
  unfold lenWire at *
  cases hcnt : f.count with
  | one =>
    rw [hcnt] at hbef
    have hone : decodeCount f.elemInfo s0.dataLenValue = some (f.instances src base) := by
      simp [decodeCount, elemInfo, arrayType, instances, hcnt]
    apply (elem_decides hlen hone hbef hok hlv hfail' hdcd hpos).mono
    · exact (and_iff_right trivial).symm
    · exact fun s' => haf
  | static n =>
    rw [hcnt] at hbef
    have hstc : decodeCount f.elemInfo s0.dataLenValue = some (f.instances src base) := by
      simp [decodeCount, elemInfo, arrayType, instances, hcnt, hok.elemLen_static hcnt]
    apply (elem_decides hlen hstc hbef hok hlv hfail' hdcd hpos).mono
    · exact (and_iff_right trivial).symm
    · exact fun s' => haf
  | var lenOffset size max =>
    rw [hcnt] at hbef hroom
    apply (var_decides hok hcnt hlv hlen hfail' hroom hdcd hpos hbef).mono
    · exact Iff.rfl
    · exact fun s' => haf

end

end VendorKernel.Qmi
