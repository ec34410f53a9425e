import VendorKernel.Qmi.Decode
import VendorKernel.Qmi.Wire

/-! What the decoder accesses, whatever the input: only bytes of the input, and of the structure only
what the table declares. -/
namespace VendorKernel.Qmi

open LittleEndian Overlay List Qmi.Field Schema Nat Option Dec

namespace Field

variable (f : Field)

def Region (inner : ℕ → ℕ × ℕ → Prop) (base : ℕ) (r : ℕ × ℕ) : Prop :=
  (∃ flagOffset, f.flag = some flagOffset ∧ r = (base + flagOffset, 1)) ∨
  (∃ lenOffset size max, f.count = .var lenOffset size max ∧ r = (base + lenOffset, 4)) ∨
  (f.kind ≠ .struct ∧ r = (base + f.offset, f.elemLen * f.elemSize)) ∨
  (f.kind = .struct ∧ ∃ i < f.elemLen, inner (base + f.offset + i * f.elemSize) r)

end Field

def Schema.Region : Schema → (base : ℕ) → ℕ × ℕ → Prop
  | nil _, _, _ => False
  | cons f nested next, base, r => f.Region nested.Region base r ∨ next.Region base r

def Out.Within (R : ℕ × ℕ → Prop) (out : Out) : Prop :=
  ∀ w ∈ out.stores, R (w.start, w.declared) ∧ w.reach ≤ w.declared

theorem Out.Within.store {R : ℕ × ℕ → Prop} {out : Out} (h : out.Within R)
    {start declared offset : ℕ} {bytes : List UInt8} (hR : R (start, declared))
    (hrch : offset + bytes.length ≤ declared) :
    (out.store start declared offset bytes).Within R :=
  forall_mem_cons.mpr ⟨⟨hR, hrch⟩, h⟩

/-- No access outside of the input, errors only with the stores in `R`, and `P` of a result. -/
def Outcome.Holds {α : Type} (R : ℕ × ℕ → Prop) (P : α → Prop) : Outcome α → Prop
  | .fault => False
  | .fail rc out => rc < 0 ∧ out.Within R
  | .ok result => P result

section
variable {α β : Type} {R : ℕ × ℕ → Prop}

theorem Outcome.Holds.bind {r : Outcome α} {next : α → Outcome β} {P : α → Prop} {Q : β → Prop}
    (h : r.Holds R P) (hnext : ∀ a, P a → (next a).Holds R Q) : (r.bind next).Holds R Q := by
  cases r with
  | fault => exact h
  | fail rc out => exact h
  | ok a => exact hnext a h

theorem Outcome.Holds.mono {r : Outcome α} {P Q : α → Prop} (h : r.Holds R P)
    (hPQ : ∀ a, P a → Q a) : r.Holds R Q := by
  cases r with
  | fault => exact h
  | fail rc out => exact h
  | ok a => exact hPQ a h

theorem qmiDecodeBasicElem_holds {out : Out} (hout : out.Within R) {bufSrc : List UInt8}
    {srcLen : ℕ} (hsrc : srcLen ≤ bufSrc.length) (elemLen elemSize : ℕ) :
    (qmiDecodeBasicElem out bufSrc elemLen elemSize srcLen).Holds R fun bytes =>
      bytes = bufSrc.take (elemLen * elemSize) ∧ bytes.length = elemLen * elemSize ∧ elemLen * elemSize ≤ srcLen := by
  unfold qmiDecodeBasicElem
  by_cases hshort : srcLen < elemLen * elemSize
  · rw [if_pos hshort]
    exact ⟨by decide, hout⟩
  · rw [if_neg hshort, if_neg (by omega)]
    exact ⟨rfl, by rw [length_take]; omega, by omega⟩

abbrev InstanceDecoder := Out → (bufDst : ℕ) → List UInt8 → (inBufLen : ℕ) → Outcome (ℕ × Out)

def InstanceHolds (R : ℕ × ℕ → Prop)
    (decode : Out → (bufDst : ℕ) → List UInt8 → (inBufLen : ℕ) → Outcome (ℕ × Out))
    (bufDst : ℕ) : Prop :=
  ∀ out bufSrc inBufLen, out.Within R → inBufLen ≤ bufSrc.length → inBufLen < 2 ^ 32 →
    (decode out bufDst bufSrc inBufLen).Holds R fun p => p.1 ≤ inBufLen ∧ p.2.Within R

section
variable {decode : InstanceDecoder} {elemSize tlvLen level bufDst left decodedBytes elemLen srcLen : ℕ} {out : Out}
  {bufSrc : List UInt8}

theorem decodeStructs_holds (htlv : tlvLen < 2 ^ 32)
    (hdcd : ∀ i < left, InstanceHolds R decode (bufDst + i * elemSize)) (hout : out.Within R)
    (hle : decodedBytes ≤ tlvLen) (hsrc : tlvLen ≤ decodedBytes + bufSrc.length) :
    (decodeStructs decode elemSize tlvLen level left out bufDst bufSrc decodedBytes).Holds R
      fun p => p.1 ≤ tlvLen ∧ p.2.Within R ∧ (level = 2 → p.1 = tlvLen) := by
  induction left generalizing out bufDst bufSrc decodedBytes with rw [decodeStructs]
  | zero =>
    split
    case isTrue => exact ⟨by decide, hout⟩
    case isFalse hend => exact ⟨hle, hout, by omega⟩
  | succ left ih =>
    split
    case isTrue hmore =>
      have hfst := hdcd 0 (succ_pos left) out bufSrc (tlvLen - decodedBytes) hout (by omega) (by omega)
      rw [zero_mul] at hfst
      apply hfst.bind
      rintro ⟨rc, out'⟩ ⟨hrc, hout'⟩
      apply ih
      · intro i hi
        have hlater := hdcd (i + 1) (by omega)
        rwa [succ_mul, add_comm (i * elemSize), ← add_assoc] at hlater
      · exact hout'
      · omega
      · rw [length_drop]
        omega
    case isFalse =>
      split
      case isTrue => exact ⟨by decide, hout⟩
      case isFalse hend => exact ⟨hle, hout, by omega⟩

theorem qmiDecodeStructElem_holds {ei : ElemInfo}
    (hdcd : ∀ i < elemLen, InstanceHolds R decode (bufDst + i * ei.elemSize)) (hout : out.Within R)
    (hsrc : srcLen ≤ bufSrc.length) (hlt : srcLen < 2 ^ 32) :
    (qmiDecodeStructElem decode ei out bufDst bufSrc elemLen tlvLen level srcLen).Holds R
      fun p => p.1 ≤ srcLen ∧ p.2.Within R ∧ (level = 2 → p.1 = tlvLen) := by
  unfold qmiDecodeStructElem
  split
  case isTrue => exact ⟨by decide, hout⟩
  case isFalse hfit =>
    apply (decodeStructs_holds (by omega) hdcd hout (zero_le _) (by omega)).mono
    rintro p ⟨hp, hp'⟩
    exact ⟨by omega, hp'⟩

end

variable {ei : ElemInfo} {out : Out} {bufSrc : List UInt8} {tlvLen level srcLen bufDst inBufLen rc : ℕ}

theorem decodeStringLen_holds (hout : out.Within R) (hsrc : srcLen ≤ bufSrc.length) :
    (decodeStringLen ei out bufSrc tlvLen level srcLen).Holds R fun p =>
      p.2 ≤ srcLen ∧ (level = 1 → p = (tlvLen, 0)) := by
  unfold decodeStringLen
  split
  case isTrue => exact ⟨zero_le srcLen, fun _ => rfl⟩
  case isFalse hlv =>
    apply (qmiDecodeBasicElem_holds hout hsrc 1 _).bind
    rintro bytes ⟨-, hlen, hle⟩
    exact ⟨hlen.trans_le hle, fun h => absurd h hlv⟩

theorem qmiDecodeStringElem_holds (hsize : ei.elemSize = 1) (hR : R (bufDst, ei.elemLen * ei.elemSize))
    (hout : out.Within R) (hsrc : srcLen ≤ bufSrc.length) (hlt : srcLen < 2 ^ 32) :
    (qmiDecodeStringElem ei out bufDst bufSrc tlvLen level srcLen).Holds R
      fun p => p.1 ≤ srcLen ∧ p.2.Within R ∧ (level = 1 → p.1 = tlvLen) := by
  apply (decodeStringLen_holds hout hsrc).bind
  rintro ⟨stringLen, decodedBytes⟩ ⟨hdec, hmsg⟩
  dsimp only at hdec ⊢
  split
  case isTrue => exact ⟨by decide, hout⟩
  case isFalse hlen =>
    split
    case isTrue => exact ⟨by decide, hout⟩
    case isFalse =>
      have hsub : subU32 srcLen decodedBytes = srcLen - decodedBytes := subU32_eq hlt hdec
      rw [hsize, mul_one]
      apply (qmiDecodeBasicElem_holds hout (by rw [length_drop]; omega) stringLen 1).bind
      rintro bytes ⟨-, hbs, hle⟩
      rw [hsize, mul_one] at hR
      rw [mul_one] at hbs hle
      refine ⟨by omega, ?_, fun hlv => ?_⟩
      · apply Out.Within.store _ hR
        · rw [length_singleton]
          omega
        · exact hout.store hR (by omega)
      · obtain ⟨rfl, rfl⟩ := Prod.mk.inj (hmsg hlv)
        rw [hbs, zero_add]

structure Dec.Inside (inBufLen : ℕ) (s : Dec) : Prop where
  le : s.decodedBytes ≤ inBufLen
  src : inBufLen ≤ s.decodedBytes + s.bufSrc.length

theorem Dec.Inside.advance {s : Dec} (h : s.Inside inBufLen) (hrc : rc ≤ inBufLen - s.decodedBytes) (out : Out) :
    (s.advance rc out).Inside inBufLen := by
  obtain ⟨hle, hsrc⟩ := h
  constructor
  · simp only [Dec.advance]
    omega
  · simp only [Dec.advance, length_drop]
    omega

structure Dec.Good (R : ℕ × ℕ → Prop) (inBufLen decodedBytes : ℕ) (s : Dec) : Prop where
  inside : s.Inside inBufLen
  within : s.out.Within R
  progress : decodedBytes ≤ s.decodedBytes

section
variable {f : Field} {inBufLen start base level dataLenValue n : ℕ} {s : Dec}

theorem Dec.Good.advance (h : s.Good R inBufLen start) (hrc : rc ≤ inBufLen - s.decodedBytes) (hout : out.Within R) :
    (s.advance rc out).Good R inBufLen start :=
  ⟨h.inside.advance hrc out, hout, le_trans h.progress (le_add_right _ rc)⟩

theorem Dec.Good.src_le (h : s.Good R inBufLen start) : inBufLen - s.decodedBytes ≤ s.bufSrc.length := by
  have := h.inside.src
  omega

theorem decodeDataLen_holds (hlen : inBufLen < 2 ^ 32) (hR : R (base + ei.offset, 4))
    (h : s.Good R inBufLen start) :
    (decodeDataLen ei base inBufLen s).Holds R fun s' => s'.Good R inBufLen start ∧
      s'.decodedBytes = s.decodedBytes + dataLenSize ei ∧
      s'.bufSrc = s.bufSrc.drop (dataLenSize ei) ∧ s'.tlvLen = subU32 s.tlvLen (dataLenSize ei) ∧
      s'.dataLenValue = storeLow s.dataLenValue (ofLE (s.bufSrc.take (dataLenSize ei))) (dataLenSize ei) := by
  unfold decodeDataLen
  rw [subU32_eq hlen h.inside.le]
  apply (qmiDecodeBasicElem_holds h.within h.src_le 1 (dataLenSize ei)).bind
  rintro bytes ⟨htake, hbs, hle⟩
  rw [one_mul] at htake hbs hle
  have hgood : Dec.Good R inBufLen start { s with
      dataLenValue := storeLow s.dataLenValue (ofLE bytes) (dataLenSize ei)
      tlvLen := subU32 s.tlvLen (dataLenSize ei) } :=
    ⟨⟨h.inside.le, h.inside.src⟩, h.within, h.progress⟩
  refine ⟨hgood.advance ?_ ?_, ?_, ?_, rfl, ?_⟩
  · exact hbs.trans_le hle
  · exact h.within.store hR (by rw [leBytes_length])
  · simp only [advance, hbs]
  · simp only [advance, hbs]
  · simp only [advance, htake]

theorem decodeCount_le (hok : f.Ok) (h : decodeCount f.elemInfo dataLenValue = some n) : n ≤ f.elemLen := by
  have hpos := hok.elemLen_pos
  unfold decodeCount at h
  split at h
  case h_1 => cases h; exact hpos
  case h_2 => cases h; exact le_refl _
  case h_3 =>
    split at h
    case isTrue => cases h
    case isFalse hle => cases h; exact not_lt.mp hle

section
variable (h : s.Good R inBufLen start)
include h

/-- An element is stored where its entry says. -/
theorem decodeElem_holds {decode : InstanceDecoder} (hok : f.Ok) (hlen : inBufLen < 2 ^ 32)
    (hR : f.kind ≠ .struct → R (base + f.offset, f.elemLen * f.elemSize))
    (hdcd : f.kind = .struct → ∀ i < f.elemLen, InstanceHolds R decode (base + f.offset + i * f.elemSize)) :
    (decodeElem decode f.elemInfo level base inBufLen s).Holds R fun s' =>
      s'.Good R inBufLen start ∧ ∃ n k, decodeCount f.elemInfo s.dataLenValue = some n ∧
        s'.decodedBytes = s.decodedBytes + k ∧ s'.bufSrc = s.bufSrc.drop k ∧
        (level = 1 → match f.kind with
          | .basic _ => k = n * f.elemSize
          | _ => k = s.tlvLen) := by
  unfold decodeElem
  dsimp only
  cases hcnt : decodeCount f.elemInfo s.dataLenValue with
  | none => exact ⟨by decide, h.within⟩
  | some n =>
    have hn := decodeCount_le hok hcnt
    have hgood : Dec.Good R inBufLen start { s with dataLenValue := n } :=
      ⟨⟨h.inside.le, h.inside.src⟩, h.within, h.progress⟩
    rw [subU32_eq hlen h.inside.le]
    cases hkind : f.kind with
    | basic type =>
      have htype : f.elemInfo.dataType = .basic type := elemInfo_basic hkind
      rw [htype]
      apply (qmiDecodeBasicElem_holds h.within h.src_le n f.elemInfo.elemSize).bind
      rintro bytes ⟨-, hbs, hle⟩
      refine ⟨hgood.advance (hbs.trans_le hle) ?_, n, bytes.length, rfl, rfl, rfl, fun _ => hbs⟩
      apply h.within.store
      · exact hR (by rw [hkind]; exact Kind.noConfusion)
      · rw [hbs, zero_add]
        exact mul_le_mul_right _ hn
    | string max =>
      have htype : f.elemInfo.dataType = .string := (elemInfo_string hkind).1
      have hsize := (hok.string_single (by rw [hkind]; rfl)).2.1
      rw [htype]
      apply (qmiDecodeStringElem_holds hsize
        (hR (by rw [hkind]; exact Kind.noConfusion)) h.within h.src_le (by omega)).bind
      rintro ⟨rc, out⟩ ⟨hrc, hout, htk⟩
      exact ⟨hgood.advance hrc hout, n, rc, rfl, rfl, rfl, htk⟩
    | struct =>
      have htype : f.elemInfo.dataType = .struct := elemInfo_struct hkind
      rw [htype]
      apply (qmiDecodeStructElem_holds
        (fun i hi => hdcd hkind i (lt_of_lt_of_le hi hn)) h.within h.src_le (by omega)).bind
      rintro ⟨rc, out⟩ ⟨hrc, hout, htk⟩
      exact ⟨hgood.advance hrc hout, n, rc, rfl, rfl, rfl, fun hlv => htk (by rw [hlv])⟩

theorem Dec.Good.atElem (phase : Phase) : (s.atElem level inBufLen phase).Good R inBufLen start := by
  unfold Dec.atElem
  split
  case isTrue => exact ⟨⟨h.inside.le, h.inside.src⟩, h.within, h.progress⟩
  case isFalse => exact h

theorem decodeFlag_good (hR : ∀ flagOffset, f.flag = some flagOffset → R (base + flagOffset, 1)) :
    (f.decodeFlag base s).Good R inBufLen start := by
  unfold decodeFlag
  split
  case h_1 flagOffset hflag =>
    exact ⟨⟨h.inside.le, h.inside.src⟩, h.within.store (hR flagOffset hflag) (le_refl 1), h.progress⟩
  case h_2 => exact h

theorem decodeLen_holds (hlen : inBufLen < 2 ^ 32)
    (hR : ∀ lenOffset size max, f.count = .var lenOffset size max → R (base + lenOffset, 4)) :
    (f.decodeLen base inBufLen s).Holds R (Dec.Good R inBufLen start) := by
  unfold decodeLen
  split
  case h_1 lenOffset size max hcnt =>
    exact (decodeDataLen_holds hlen (hR lenOffset size max hcnt) h).mono fun _ => And.left
  case h_2 => exact h

end

variable {nested next : EiArray}

def NestedHolds (R : ℕ × ℕ → Prop) (t : EiArray) (base : ℕ) : Prop :=
  ∀ level inBufLen start s, 1 < level → inBufLen < 2 ^ 32 → Dec.Good R inBufLen start s →
    (decodeLoop t level base inBufLen .start s).Holds R (Dec.Good R inBufLen start)

theorem NestedHolds.instanceHolds (h : NestedHolds R nested base) (hlv : 0 < level) :
    InstanceHolds R (decodeInstance nested (level + 1)) base := by
  intro out bufSrc inBufLen hout hsrc hlen
  have hini : Dec.Good R inBufLen 0 (.start out bufSrc) :=
    ⟨⟨zero_le _, hsrc.trans (le_add_left _ _)⟩, hout, zero_le _⟩
  apply (h (level + 1) inBufLen 0 _ (by omega) hlen hini).bind
  intro s hs
  exact ⟨hs.inside.le, hs.within⟩

theorem field_holds (hok : f.Ok) (hlen : inBufLen < 2 ^ 32) (hlv : 0 < level)
    {inner : ℕ → ℕ × ℕ → Prop} (hR : ∀ r, f.Region inner base r → R r)
    (hnst : f.kind = .struct → ∀ base', (∀ r, inner base' r → R r) → NestedHolds R nested base')
    (h : s.Good R inBufLen start) :
    (f.decode nested level base inBufLen s).Holds R (Dec.Good R inBufLen start) := by
  have hflag (flagOffset : ℕ) (hflag : f.flag = some flagOffset) : R (base + flagOffset, 1) :=
    hR _ (.inl ⟨flagOffset, hflag, rfl⟩)
  have hcnt (lenOffset : ℕ) (size : LenSize) (max : ℕ)
      (hcnt : f.count = .var lenOffset size max) : R (base + lenOffset, 4) :=
    hR _ (.inr (.inl ⟨lenOffset, size, max, hcnt, rfl⟩))
  apply (decodeLen_holds (decodeFlag_good (h.atElem .start) hflag) hlen hcnt).bind
  intro s' hs'
  refine (decodeElem_holds hs' hok hlen ?_ ?_).mono fun _ => And.left
  · exact fun hkind => hR _ (.inr (.inr (.inl ⟨hkind, rfl⟩)))
  · intro hkind i hi
    apply NestedHolds.instanceHolds _ hlv
    apply hnst hkind
    exact fun r hr => hR r (.inr (.inr (.inr ⟨hkind, i, hi, hr⟩)))

end

end

theorem nested_holds {R : ℕ × ℕ → Prop} (S : Schema) (hso : S.Sound) (base : ℕ)
    (hR : ∀ r, S.Region base r → R r) : NestedHolds R S.toEiArray base := by
  induction S generalizing base with
  | nil eoti =>
    intro level inBufLen start s hlv hlen h
    rw [toEiArray]
    exact h
  | cons f nested next ihNested ihNext =>
    intro level inBufLen start s hlv hlen h
    obtain ⟨hok, -, -, hnst, hnext⟩ := hso
    rw [toEiArray, decodeLoop_entries]
    split
    case isTrue => exact h
    case isFalse =>
      apply (field_holds hok hlen (by omega) (fun r hr => hR r (.inl hr))
        (fun hkind base' hR' => ihNested (hnst hkind).2 base' hR') h).bind
      intro s' hs'
      rw [if_neg (by omega)]
      exact ihNext hnext base (fun r hr => hR r (.inr hr)) level inBufLen start s' hlv hlen hs'

def Schema.find : Schema → (type : UInt8) → Option (Field × Schema × Schema)
  | nil _, _ => none
  | cons f nested next, type =>
    if f.tlvType = type then some (f, nested, next) else next.find type

theorem findEi_entries (f : Field) (nested next : EiArray) (type : UInt8) :
    findEi (f.entries nested next) type =
      if f.tlvType = type then some (f.entries nested next) else findEi next type := by
  unfold entries flagEntry lenEntry
  by_cases htype : f.tlvType = type <;> split <;> split <;> simp [findEi, elemInfo, htype]

theorem findEi_toEiArray (S : Schema) (type : UInt8) :
    findEi S.toEiArray type = (S.find type).map fun p => p.1.entries p.2.1.toEiArray p.2.2.toEiArray := by
  induction S with
  | nil eoti => rfl
  | cons f nested next _ ihNext =>
    rw [toEiArray, findEi_entries, find, ihNext]
    split <;> rfl

section
variable {S nested next : Schema} {type : UInt8} {f : Field}

theorem Schema.find_sound (hso : S.Sound) (h : S.find type = some (f, nested, next)) :
    f.Ok ∧ (f.kind = .struct → nested.Sound) := by
  induction S with
  | nil eoti => cases h
  | cons g nested' next' _ ihNext =>
    obtain ⟨hok, -, -, hnst, hnext⟩ := hso
    rw [find] at h
    split at h
    case isTrue =>
      cases h
      exact ⟨hok, fun hkind => (hnst hkind).2⟩
    case isFalse => exact ihNext hnext h

theorem Schema.find_region (h : S.find type = some (f, nested, next)) {base : ℕ} {r : ℕ × ℕ}
    (hr : f.Region nested.Region base r) : S.Region base r := by
  induction S with
  | nil eoti => cases h
  | cons g nested' next' _ ihNext =>
    rw [find] at h
    split at h
    case isTrue =>
      cases h
      exact .inl hr
    case isFalse => exact .inr (ihNext h)

end

variable {len rounds n : ℕ} {s : Dec} {taken : List ℕ}

theorem exists_tlvHeader {src : List UInt8} (h : TLV_HEADER_SIZE ≤ src.length) :
    ∃ type n rest, n < 2 ^ 16 ∧ src = tlvHeader type n ++ rest := by
  match src, h with
  | type :: len0 :: len1 :: rest, _ =>
    have hlt : ofLE [len0, len1] < 256 ^ 2 := ofLE_lt [len0, len1]
    have hbs : leBytes (ofLE [len0, len1]) 2 = [len0, len1] := leBytes_ofLE [len0, len1]
    refine ⟨type, ofLE [len0, len1], rest, by omega, ?_⟩
    rw [tlvHeader, hbs]
    rfl

theorem decodeTlvs_header {t : EiArray} {type : UInt8} {rest : List UInt8}
    (hlen : s.decodedBytes + TLV_HEADER_SIZE ≤ len) (hn : n < 2 ^ 16) (hsrc : s.bufSrc = tlvHeader type n ++ rest) :
    decodeTlvs t len (rounds + 1) ⟨s, taken⟩ =
      let s := { s with bufSrc := rest, decodedBytes := s.decodedBytes + TLV_HEADER_SIZE, tlvLen := n }
      match findEi t type with
      | none =>
        if type < OPTIONAL_TLV_TYPE_START then .fail (-EINVAL) s.out
        else decodeTlvs t len rounds ⟨s.advance n s.out, taken ++ [n]⟩
      | some ei =>
        (decodeLoop ei 1 0 len .start s).bind fun s' =>
          decodeTlvs t len rounds ⟨s', taken ++ [s'.decodedBytes - s.decodedBytes]⟩ := by
  have hpos : 0 < TLV_HEADER_SIZE := by decide
  have hvl : ofLE (leBytes n 2) = n := by
    rw [ofLE_leBytes]
    exact mod_eq_of_lt hn
  obtain ⟨out, bufSrc, decodedBytes, dataLenValue, tlvLen⟩ := s
  dsimp only at hlen hsrc
  subst hsrc
  rw [decodeTlvs, if_neg (by dsimp only; omega), if_neg (by dsimp only; omega)]
  simp only [tlvHeader, leBytes, cons_append, nil_append]
  rw [leBytes, leBytes, leBytes] at hvl
  rw [hvl]
  rfl

/-- By induction on the rounds: each takes a header at least. -/
theorem decodeTlvs_holds (S : Schema) (hso : S.Sound) (hlen : len < 2 ^ 32)
    (hrounds : len ≤ s.decodedBytes + rounds) (hsrc : len ≤ s.decodedBytes + s.bufSrc.length)
    (hwin : s.out.Within (S.Region 0)) :
    (decodeTlvs S.toEiArray len rounds ⟨s, taken⟩).Holds (S.Region 0) fun r =>
      r.dec.out.Within (S.Region 0) := by
  induction rounds generalizing s taken with
  | zero =>
    rw [decodeTlvs, if_neg (by dsimp only; omega)]
    exact hwin
  | succ rounds ih =>
    have hhdr : TLV_HEADER_SIZE = 3 := rfl
    by_cases hend : len ≤ s.decodedBytes
    · rw [decodeTlvs, if_pos hend]
      exact hwin
    by_cases hshort : len < s.decodedBytes + TLV_HEADER_SIZE
    · rw [decodeTlvs, if_neg hend, if_pos hshort]
      exact ⟨by decide, hwin⟩
    obtain ⟨type, n, rest, hn, hbuf⟩ := @exists_tlvHeader s.bufSrc (by omega)
    have hrest : s.bufSrc.length = TLV_HEADER_SIZE + rest.length := by
      rw [hbuf, length_append]
      rfl
    rw [decodeTlvs_header (by omega) hn hbuf, findEi_toEiArray]
    cases hfind : S.find type with
    | none =>
      rw [map_none]
      dsimp only
      split
      case isTrue => exact ⟨by decide, hwin⟩
      case isFalse =>
        apply ih
        · simp only [advance]
          omega
        · simp only [advance, length_drop]
          omega
        · exact hwin
    | some p =>
      obtain ⟨f, nested, next⟩ := p
      obtain ⟨hok, hnst⟩ := find_sound hso hfind
      have hgood : Dec.Good (S.Region 0) len (s.decodedBytes + TLV_HEADER_SIZE) { s with
          bufSrc := rest, decodedBytes := s.decodedBytes + TLV_HEADER_SIZE, tlvLen := n } :=
        ⟨⟨by dsimp only; omega, by dsimp only; omega⟩, hwin, le_refl _⟩
      rw [map_some]
      dsimp only
      rw [decodeLoop_message]
      apply (field_holds hok hlen one_pos (fun r hr => S.find_region hfind hr)
        (fun hkind base' hR => nested_holds nested (hnst hkind) base' hR) hgood).bind
      intro s' hs'
      have hprogress := hs'.progress
      have hsrc' := hs'.inside.src
      exact ih (by omega) (by omega) hs'.within

end VendorKernel.Qmi
