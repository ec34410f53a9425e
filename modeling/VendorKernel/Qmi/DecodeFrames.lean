import VendorKernel.Qmi.DecodeBounds

/-! How much of the input the decoder takes for a TLV, against what the TLV claims. -/
namespace VendorKernel.Qmi

open LittleEndian Overlay Qmi.Field List Nat Outcome

structure Tlv where
  type : UInt8
  value : List UInt8

def Tlv.bytes (t : Tlv) : List UInt8 := tlvHeader t.type t.value.length ++ t.value

namespace Field

variable (f : Field)

/-- What the elements of a basic type take after the header of their TLV: an array tells its length itself. -/
def basicSize (src : List UInt8) : ℕ :=
  match f.count with
  | .one => f.elemSize
  | .static n => n * f.elemSize
  | .var _ size _ => size.bytes + ofLE (src.take size.bytes) * f.elemSize

/-- The TLV claims the length of its elements: of basic types the decoder does not check it. -/
def Sizes (n : ℕ) (src : List UInt8) : Prop :=
  match f.kind with
  | .basic _ => n = f.basicSize src
  | _ => True

end Field

/-- Header after header, an unknown TLV claims no more than is left, one of basic type what its elements take. -/
def Schema.Sized (S : Schema) : List UInt8 → Prop
  | type :: len0 :: len1 :: rest =>
    (match S.find type with
      | none => ofLE [len0, len1] ≤ rest.length
      | some (f, _) => f.Sizes (ofLE [len0, len1]) rest) ∧ S.Sized (rest.drop (ofLE [len0, len1]))
  | _ => True
termination_by input => input.length
decreasing_by
  simp only [length_drop, length_cons]
  omega

/-- The input is a list of TLVs, and the decoder took them one by one. -/
def Complete (input : List UInt8) (taken : List ℕ) : Prop :=
  ∃ tlvs : List Tlv, input = tlvs.flatMap Tlv.bytes ∧ (∀ t ∈ tlvs, t.value.length < 2 ^ 16) ∧
    taken = tlvs.map (·.value.length)

section
variable {α β : Type}

theorem Outcome.Holds.of_ok {R : ℕ × ℕ → Prop} {P : α → Prop} {r : Outcome α} {a : α} (h : r.Holds R P)
    (hr : r = .ok a) : P a := by
  rw [hr] at h
  exact h

theorem Outcome.bind_eq_ok {r : Outcome α} {next : α → Outcome β} {b : β}
    (h : r.bind next = .ok b) : ∃ a, r = .ok a ∧ next a = .ok b := by
  cases r with
  | fault => cases h
  | fail rc out => cases h
  | ok a => exact ⟨a, rfl, h⟩

end

section
variable {f : Field} {base len lenOffset max n k tlvLen dataLenValue start : ℕ} {s s' : Dec} {src : List UInt8}
  {size : LenSize}

theorem decodeCount_var (hcnt : f.count = .var lenOffset size max)
    (h : decodeCount f.elemInfo dataLenValue = some n) : n = dataLenValue ∧ n ≤ f.elemLen := by
  rw [decodeCount, elemInfo, arrayType, hcnt] at h
  dsimp only at h
  split at h
  case isTrue => cases h
  case isFalse hle =>
    cases h
    exact ⟨rfl, not_lt.mp hle⟩

theorem Field.sizes_iff (hk : match f.kind with | .basic _ => k = n * f.elemSize | _ => k = tlvLen)
    (hsize : n * f.elemSize = f.basicSize src) : k = tlvLen ↔ f.Sizes tlvLen src := by
  unfold Sizes
  cases hkind : f.kind with rw [hkind] at hk
  | basic type =>
    rw [hk, hsize, eq_comm]
  | string max =>
    exact iff_of_true hk trivial
  | struct =>
    exact iff_of_true hk trivial

theorem Field.sizes_var_iff (hcnt : f.count = .var lenOffset size max)
    (hk : match f.kind with | .basic _ => k = ofLE (src.take size.bytes) * f.elemSize | _ => k = tlvLen)
    (htlv : tlvLen = subU32 n size.bytes) (hn : n < 2 ^ 16) (hfit : k < 2 ^ 31) :
    size.bytes + k = n ↔ f.Sizes n src := by
  have hbs : size.bytes ≤ 2 := by cases size <;> decide
  have hoth (hk : k = tlvLen) : size.bytes + k = n := by
    rw [htlv, subU32] at hk
    omega
  unfold Sizes
  cases hkind : f.kind with rw [hkind] at hk
  | basic type =>
    rw [basicSize, hcnt, hk, eq_comm]
  | string max =>
    exact iff_of_true (hoth hk) trivial
  | struct =>
    exact iff_of_true (hoth hk) trivial

theorem decodeFlag_fields (f : Field) (base : ℕ) (s : Dec) :
    (f.decodeFlag base s).bufSrc = s.bufSrc ∧
      (f.decodeFlag base s).decodedBytes = s.decodedBytes ∧
      (f.decodeFlag base s).tlvLen = s.tlvLen ∧
      (f.decodeFlag base s).dataLenValue = s.dataLenValue := by
  unfold decodeFlag
  split <;> exact ⟨rfl, rfl, rfl, rfl⟩

/-- What the decoder takes for a field is what its TLV claims exactly when the field is not of basic type or the
claim is right. -/
theorem field_taken {nested : EiArray} (hok : f.Ok) (hlen : len < 2 ^ 31) (hn : n < 2 ^ 16) (htlv : s.tlvLen = n)
    (h : f.decode nested 1 base len s = .ok s') (hgood : s.Good (fun _ => True) len start)
    (hnst : f.kind = .struct → ∀ base, NestedHolds (fun _ => True) nested base) :
    s'.Good (fun _ => True) len start ∧ ∃ k, s'.decodedBytes = s.decodedBytes + k ∧
      s'.bufSrc = s.bufSrc.drop k ∧ (k = n ↔ f.Sizes n s.bufSrc) := by
  obtain ⟨s1, hlen1, helem⟩ := bind_eq_ok h
  obtain ⟨hsrc0, hdec0, htlv0, -⟩ := decodeFlag_fields f base s
  replace hgood : (f.decodeFlag base s).Good (fun _ => True) len start :=
    decodeFlag_good hgood (fun _ _ => trivial)
  rw [← htlv0] at htlv
  rw [← hsrc0, ← hdec0]
  have htk (hgood1 : s1.Good (fun _ => True) len start) :=
    (decodeElem_holds hgood1 hok (by omega)
      (fun _ => trivial) (fun hkind _ _ => (hnst hkind _).instanceHolds one_pos)).of_ok helem
  unfold decodeLen at hlen1
  cases hcnt : f.count with rw [hcnt] at hlen1
  | one =>
    cases hlen1
    obtain ⟨hgood', m, k, hm, hbs, hbuf, hk⟩ := htk hgood
    have hm' : some 1 = some m := by
      rw [← hm, decodeCount, elemInfo, arrayType, hcnt]
    cases hm'
    refine ⟨hgood', k, hbs, hbuf, htlv ▸ sizes_iff (hk rfl) ?_⟩
    rw [basicSize, hcnt, one_mul]
  | static l =>
    cases hlen1
    obtain ⟨hgood', m, k, hm, hbs, hbuf, hk⟩ := htk hgood
    have hm' : some l = some m := by
      rw [← hm, decodeCount, elemInfo, arrayType, hcnt, hok.elemLen_static hcnt]
    cases hm'
    refine ⟨hgood', k, hbs, hbuf, htlv ▸ sizes_iff (hk rfl) ?_⟩
    rw [basicSize, hcnt]
  | var lenOffset size max =>
    obtain ⟨hgood1, hbs1, hbuf1, htlv1, hvl1⟩ :=
      (decodeDataLen_holds (by omega) trivial hgood).of_ok hlen1
    obtain ⟨hgood', m, k, hm, hbs, hbuf, hk⟩ := htk hgood1
    have hle := hgood'.inside.le
    replace hk := hk rfl
    have hmax : f.elemLen = max := hok.elemLen_var hcnt
    rw [dataLenSize_eq rfl] at hbs1 hbuf1 htlv1 hvl1
    obtain ⟨rfl, hroom⟩ := decodeCount_var hcnt hm
    have hlow : s1.dataLenValue = ofLE ((f.decodeFlag base s).bufSrc.take size.bytes) := by
      rw [hvl1] at hroom ⊢
      have hbd := hok.count_ok
      rw [hcnt] at hbd
      have hsm := lt_of_le_of_lt (hroom.trans_eq hmax) hbd
      rw [storeLow_of_lt (lt_of_storeLow_lt hsm)]
    rw [hlow] at hk
    refine ⟨hgood', size.bytes + k, by omega, ?_, ?_⟩
    · rw [hbuf, hbuf1, drop_drop]
    · exact sizes_var_iff hcnt hk (by rw [htlv1, htlv]) hn (by omega)

end

section
variable {len rounds : ℕ} {s : Dec} {taken : List ℕ} {r d : TlvDec}

theorem decodeTlvs_taken {t : EiArray} (h : decodeTlvs t len rounds d = .ok r) : d.taken <+: r.taken := by
  revert h
  fun_induction decodeTlvs t len rounds d with
  | case1 | case4 | case5 | case8 => exact nofun
  | case2 | case3 =>
    rintro ⟨⟩
    exact prefix_refl _
  | case6 _ _ _ _ _ _ _ _ _ _ _ _ _ ih => exact fun h => (prefix_append _ _).trans (ih h)
  | case7 _ _ _ _ _ _ _ _ _ _ _ _ _ ih =>
    intro h
    obtain ⟨s', -, h⟩ := bind_eq_ok h
    exact (prefix_append _ _).trans (ih s' h)

theorem tlvHeader_inj {type type' : UInt8} {n n' : ℕ} {rest rest' : List UInt8} (hn : n < 2 ^ 16) (hn' : n' < 2 ^ 16)
    (h : tlvHeader type n ++ rest = tlvHeader type' n' ++ rest') : n = n' ∧ rest = rest' := by
  obtain ⟨hhead, htail⟩ := append_inj h rfl
  have hlen := congrArg ofLE (cons.inj hhead).2
  rw [ofLE_leBytes, ofLE_leBytes] at hlen
  exact ⟨by omega, htail⟩

theorem complete_nil : Complete [] [] := ⟨[], rfl, fun _ ht => absurd ht not_mem_nil, rfl⟩

/-- A complete TLV lies wholly within the input. -/
theorem complete_header {type : UInt8} {n : ℕ} {rest : List UInt8} {lens : List ℕ} (hn : n < 2 ^ 16) :
    Complete (tlvHeader type n ++ rest) lens ↔
      n ≤ rest.length ∧ ∃ lens', lens = n :: lens' ∧ Complete (rest.drop n) lens' := by
  constructor
  · rintro ⟨_ | ⟨t, tlvs⟩, hsrc, hvals, rfl⟩
    · cases hsrc
    · rw [flatMap_cons, Tlv.bytes, append_assoc] at hsrc
      obtain ⟨rfl, rfl⟩ := tlvHeader_inj hn (hvals t mem_cons_self) hsrc
      refine ⟨by simp, _, rfl, tlvs, by rw [drop_left], ?_, rfl⟩
      exact fun t ht => hvals t (mem_cons_of_mem _ ht)
  · rintro ⟨hle, _, rfl, tlvs, hsrc, hvals, rfl⟩
    have hlen : (rest.take n).length = n := length_take_of_le hle
    refine ⟨⟨type, rest.take n⟩ :: tlvs, ?_, ?_, ?_⟩
    · rw [flatMap_cons, ← hsrc, Tlv.bytes, append_assoc, hlen, take_append_drop]
    · exact forall_mem_cons.mpr ⟨by rw [hlen]; exact hn, hvals⟩
    · rw [map_cons, hlen]

theorem Schema.sized_header {S : Schema} {type : UInt8} {n : ℕ} {rest : List UInt8} (hn : n < 2 ^ 16) :
    S.Sized (tlvHeader type n ++ rest) ↔
      (match S.find type with | none => n ≤ rest.length | some (f, _) => f.Sizes n rest) ∧
        S.Sized (rest.drop n) := by
  have hvl : ofLE (leBytes n 2) = n := by
    rw [ofLE_leBytes]
    exact mod_eq_of_lt hn
  rw [leBytes, leBytes, leBytes] at hvl
  simp only [tlvHeader, leBytes, cons_append, nil_append]
  rw [Sized, hvl]

theorem frames_of_end {S : Schema} (hdec : s.decodedBytes + s.bufSrc.length = len) (hend : len ≤ s.decodedBytes)
    (h : Outcome.ok ⟨s, taken⟩ = .ok r) :
    (r.dec.decodedBytes = len ∧ ∃ lens, r.taken = taken ++ lens ∧ Complete s.bufSrc lens) ↔ S.Sized s.bufSrc := by
  cases h
  have hnil : s.bufSrc = [] := length_eq_zero_iff.mp (by omega)
  rw [hnil]
  exact iff_of_true ⟨by dsimp only; omega, [], (append_nil _).symm, complete_nil⟩ (by simp [Schema.Sized])

/-- What is accepted was taken TLV by TLV to its end exactly when the claimed lengths are right. -/
theorem decodeTlvs_frames {S : Schema} (hso : S.Sound) (hlen : len < 2 ^ 31)
    (hdec : s.decodedBytes + s.bufSrc.length = len)
    (h : decodeTlvs S.toEiArray len rounds ⟨s, taken⟩ = .ok r) (hwin : s.out.Within fun _ => True) :
    (r.dec.decodedBytes = len ∧ ∃ lens, r.taken = taken ++ lens ∧ Complete s.bufSrc lens) ↔ S.Sized s.bufSrc := by
  induction rounds generalizing s taken with
  | zero =>
    rw [decodeTlvs] at h
    split at h
    case isTrue => cases h
    case isFalse hend => exact frames_of_end hdec (not_lt.mp hend) h
  | succ rounds ih =>
    have hhdr : TLV_HEADER_SIZE = 3 := rfl
    by_cases hend : len ≤ s.decodedBytes
    · rw [decodeTlvs, if_pos hend] at h
      exact frames_of_end hdec hend h
    by_cases hshort : len < s.decodedBytes + TLV_HEADER_SIZE
    · rw [decodeTlvs, if_neg hend, if_pos hshort] at h
      cases h
    obtain ⟨type, n, rest, hn, hbuf⟩ := @exists_tlvHeader s.bufSrc (by omega)
    have hrest : s.bufSrc.length = TLV_HEADER_SIZE + rest.length := by
      rw [hbuf, length_append]
      rfl
    rw [decodeTlvs_header (by omega) hn hbuf, findEi_toEiArray] at h
    rw [hbuf, S.sized_header hn]
    -- Once the decoder has taken what the TLV claims, and that was there, the next rounds decide.
    have hnext {s' : Dec} (hle : n ≤ rest.length) (hdec' : s'.decodedBytes = s.decodedBytes + TLV_HEADER_SIZE + n)
        (hbuf' : s'.bufSrc = rest.drop n) (h : decodeTlvs S.toEiArray len rounds ⟨s', taken ++ [n]⟩ = .ok r)
        (hwin' : s'.out.Within fun _ => True) :
        (r.dec.decodedBytes = len ∧ ∃ lens, r.taken = taken ++ lens ∧ Complete (tlvHeader type n ++ rest) lens) ↔
          S.Sized (rest.drop n) := by
      have hlens : s'.decodedBytes + s'.bufSrc.length = len := by
        rw [hbuf', length_drop]
        omega
      rw [← hbuf', ← ih hlens h hwin']
      simp only [complete_header hn, hbuf', append_assoc, singleton_append]
      refine and_congr_right fun _ => ⟨?_, ?_⟩
      · rintro ⟨_, hr, _, lens', rfl, hc⟩
        exact ⟨lens', hr, hc⟩
      · rintro ⟨lens', hr, hc⟩
        exact ⟨_, hr, hle, lens', rfl, hc⟩
    cases hfind : S.find type with
    | none =>
      rw [hfind, Option.map_none] at h
      dsimp only at h ⊢
      split at h
      case isTrue => cases h
      case isFalse =>
        by_cases hle : n ≤ rest.length
        · exact (hnext hle rfl rfl h hwin).trans (and_iff_right hle).symm
        · refine iff_of_false ?_ (fun hc => hle hc.1)
          rintro ⟨_, _, _, hc⟩
          exact hle ((complete_header hn).mp hc).1
    | some p =>
      obtain ⟨f, nested, next⟩ := p
      obtain ⟨hok, hnst⟩ := Schema.find_sound hso hfind
      rw [hfind] at h
      obtain ⟨s', hs', hloop⟩ := bind_eq_ok h
      rw [decodeLoop_message] at hs'
      obtain ⟨hgood, k, hbs, hbuf', hsz⟩ := field_taken hok hlen hn rfl hs'
        ⟨⟨by dsimp only; omega, by dsimp only; omega⟩, hwin, le_rfl⟩
        fun hkind base => nested_holds nested (hnst hkind) base fun _ _ => trivial
      dsimp only at hbs hbuf' hsz ⊢
      have htk : s'.decodedBytes - (s.decodedBytes + TLV_HEADER_SIZE) = k := by omega
      rw [htk] at hloop
      by_cases hfit : f.Sizes n rest
      · obtain rfl := hsz.mpr hfit
        have hle := hgood.inside.le
        exact (hnext (by omega) hbs hbuf' hloop hgood.within).trans (and_iff_right hfit).symm
      · -- The length that was taken is on record, and it is not the one the TLV claims.
        refine iff_of_false ?_ (fun hc => hfit hc.1)
        rintro ⟨_, lens, hr, hc⟩
        refine hfit (hsz.mp ?_)
        obtain ⟨-, lens', rfl, -⟩ := (complete_header hn).mp hc
        obtain ⟨more, hmore⟩ := decodeTlvs_taken hloop
        rw [hr, append_assoc] at hmore
        exact (cons.inj (append_cancel_left hmore)).1

end

theorem Outcome.Holds.and_of_ok {α : Type} {R : ℕ × ℕ → Prop} {P Q : α → Prop} {r : Outcome α}
    (h : r.Holds R P) (hQ : ∀ a, r = .ok a → Q a) : r.Holds R fun a => P a ∧ Q a := by
  cases r with
  | fault => exact h
  | fail rc out => exact h
  | ok a => exact ⟨h, hQ a rfl⟩

/-- Whatever the input, the decoder ends, reads only bytes of it and stores only what the table declares.
What it accepts was taken to its end, as complete TLVs, exactly when every unknown TLV claims no more than is
left and every TLV of basic type claims what its elements take. -/
theorem qmi_decode_bounded_framed (S : Schema) (hS : S.WellFormed) (input : List UInt8)
    (hlen : input.length < 2 ^ 31) :
    (qmiDecode S.toEiArray input).Holds (S.Region 0) fun r =>
      r.dec.out.Within (S.Region 0) ∧
        (r.dec.decodedBytes = input.length ∧ Complete input r.taken ↔ S.Sized input) := by
  have hwin : Out.Within (S.Region 0) ⟨fun _ => none, []⟩ :=
    fun w hw => absurd hw not_mem_nil
  have hhs : (qmiDecode S.toEiArray input).Holds (S.Region 0) fun r =>
      r.dec.out.Within (S.Region 0) :=
    decodeTlvs_holds S hS.sound (by omega) (le_add_left _ _) (le_add_left _ _) hwin
  apply hhs.and_of_ok
  intro r hr
  have hframes : (r.dec.decodedBytes = input.length ∧ ∃ lens, r.taken = [] ++ lens ∧ Complete input lens) ↔
      S.Sized input :=
    decodeTlvs_frames hS.sound hlen (zero_add _) hr fun _ hw => absurd hw not_mem_nil
  simpa only [nil_append, exists_eq_left'] using hframes

def byteSchema : Schema := .cons ⟨1, none, .one, .basic .unsigned1Byte, 1, 0⟩ (.nil 0) (.nil 0)

/-- A byte, then an unknown TLV of one byte. -/
theorem qmi_decode_bounded_framed_byte :
    (∃ r, qmiDecode byteSchema.toEiArray [1, 1, 0, 7, 0x10, 1, 0, 9] = .ok r ∧ r.taken = [1, 1]) ∧
    (qmiDecode byteSchema.toEiArray [1, 1, 0, 7, 0x10, 1, 0, 9]).Holds (byteSchema.Region 0) fun r =>
      r.dec.out.Within (byteSchema.Region 0) ∧
        (r.dec.decodedBytes = 8 ∧ Complete [1, 1, 0, 7, 0x10, 1, 0, 9] r.taken ↔
          byteSchema.Sized [1, 1, 0, 7, 0x10, 1, 0, 9]) :=
  ⟨⟨_, rfl, rfl⟩, qmi_decode_bounded_framed byteSchema ⟨by decide, by decide⟩ [1, 1, 0, 7, 0x10, 1, 0, 9] (by decide)⟩

/-- Of an unknown TLV only the header is there, and eight bytes of three are decoded; a byte that
claims to be two hundred is accepted. -/
theorem qmi_decode_truncated_accepted :
    byteSchema.WellFormed ∧
      (∃ r, qmiDecode byteSchema.toEiArray [0x10, 5, 0] = .ok r ∧ r.dec.decodedBytes = 8) ∧
      ∃ r, qmiDecode byteSchema.toEiArray [1, 200, 0, 7] = .ok r ∧ r.dec.decodedBytes = 4 ∧ r.taken = [1] :=
  ⟨⟨by decide, by decide⟩, ⟨_, rfl, rfl⟩, _, rfl, rfl, rfl⟩

end VendorKernel.Qmi
