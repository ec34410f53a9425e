import VendorKernel.Qmi.EncodeRounds

/-! The encoder of a whole message, and when it keeps to its output buffer. -/
namespace VendorKernel.Qmi

open LittleEndian Overlay RingBuffer Qmi.Field List Ends Enc Nat Skip Qmi.Count

section
variable {src : ℕ → UInt8} {len level base outBufLen : ℕ} {f : Field} {nested next : EiArray}
  {inner : ℕ → List Leaf} {s : Enc}

/-- A field is stored as its pieces. -/
theorem field_ends (hok : f.Ok) (hlv : 0 < level)
    (hinn : f.kind = .struct → EncodesNested src len nested inner) (hroom : Room len outBufLen s)
    (hnext : ∀ s, encodeLoop src next level base outBufLen (.behind level f.tlvType) s =
      encodeLoop src next level base outBufLen .no s) :
    Ends len s.outBuf
      (fun bytes r => r = encodeLoop src next level base outBufLen .no
        (s.stored (f.instances src base) level f.tlvType bytes))
      (encodeLoop src (f.lenEntry (.elem f.elemInfo nested next)) level base outBufLen .no s)
      (scan len s.bufDst (f.leaves src base level inner)) := by
  unfold lenEntry leaves
  cases hcnt : f.count with
  | one =>
    refine elem_ends hroom ?_ hok hlv hinn
    simp [encodeCount, elemInfo, arrayType, instances, hcnt]
  | static n =>
    refine elem_ends hroom ?_ hok hlv hinn
    have hlen := hok.elemLen_eq (by rw [hcnt]; exact Count.noConfusion)
    simp [encodeCount, elemInfo, arrayType, instances, hlen, hcnt, Count.capacity]
  | var lenOffset size max =>
    have hlen := hok.elemLen_eq (by rw [hcnt]; exact Count.noConfusion)
    dsimp only
    rw [lenEntry_round hcnt hroom, ← singleton_append]
    apply append
    rw [scan_emit, leBytes_length]
    by_cases hfit : s.bufDst + size.bytes ≤ len
    · rw [if_pos hfit, if_pos hfit]
      apply of_fits
      by_cases hemp : f.instances src base = 0
      · -- An empty array: its TLV is closed, and the entry of the array is skipped.
        rw [if_pos hemp, if_pos hemp, encodeLoop]
        apply of_fits
        rw [Skip.after, elemInfo, hnext, append_nil]
        rfl
      rw [if_neg hemp, if_neg hemp]
      by_cases hlong : max < f.instances src base
      · have hcnt' : encodeCount f.elemInfo (f.instances src base) = none := by
          simp [encodeCount, elemInfo, arrayType, hcnt, hlen, capacity, hlong]
        rw [if_pos hlong, encodeLoop]
        simp only [encodeElem, emit, advance, hcnt']
        exact .rejected (by decide)
      · have hcnt' : encodeCount f.elemInfo (f.instances src base) = some (f.instances src base) := by
          simp [encodeCount, elemInfo, arrayType, hcnt, hlen, capacity, hlong, hemp]
        have hroom' := @Room.emit len outBufLen (f.instances src base) s
          (leBytes (f.instances src base) size.bytes) hroom (by rw [leBytes_length]; omega)
        rw [if_neg hlong]
        apply (elem_ends hroom' hcnt' hok hlv hinn).mono
        intro bytes _ hr
        rw [hr, stored, stored, ← emit_emit]
        rfl
    · rw [if_neg hfit, if_neg hfit]
      exact .rejected (by decide)

end

section
variable {src : ℕ → UInt8} {len level base : ℕ}

theorem Field.leaves_level (f : Field) (base : ℕ) (inner : ℕ → List Leaf) (hlv : 1 < level) :
    f.leaves src base level inner = f.leaves src base 2 inner := by
  have hne : level ≠ 1 := by omega
  simp [leaves, elemLeaves, stringLeaf, hne]

/-- By induction on the table of the structure. -/
theorem encodesNested (S : Schema) (hso : S.Sound) (hmand : S.Mandatory) :
    EncodesNested src len S.toEiArray (S.leaves src) := by
  induction S with
  | nil eoti =>
    intro level base outBufLen s hlv hroom
    rw [Schema.toEiArray]
    apply of_fits
    rw [Stored, put_nil]
    rfl
  | cons f nested next ihNested ihNext =>
    intro level base outBufLen s hlv hroom
    obtain ⟨hok, -, -, hnst, hnext⟩ := hso
    obtain ⟨hflag, hmand⟩ := hmand
    have hinn (hkind : f.kind = .struct) : EncodesNested src len nested.toEiArray (nested.leaves src) :=
      ihNested (hnst hkind).2 (hnst hkind).1.mandatory
    have hne : level ≠ 1 := by omega
    rw [Schema.toEiArray, entries, flagEntry, hflag, Schema.leaves, ← f.leaves_level base _ hlv]
    apply append
    apply (field_ends hok (by omega) hinn hroom (by
      intro s
      rw [behind, if_pos hlv])).mono
    intro bytes hfits hr
    have hroom' := @Room.emit len outBufLen (f.instances src base) s bytes hroom (scan_fits_le' hfits hroom.le)
    rw [stored, closeTlv, if_neg hne] at hr
    rw [hr]
    apply (ihNext hnext hmand level base outBufLen _ hlv hroom').mono
    intro bytes' _ hr'
    rw [hr', Stored, length_append, ← put_append, ← add_assoc]
    rfl

theorem Field.leaves_ne_nil {f : Field} (hok : f.Ok) {inner : ℕ → List Leaf}
    (hinn : f.kind = .struct → ∀ a, inner a ≠ []) : f.leaves src base level inner ≠ [] := by
  have helem (hn : 0 < f.instances src base) : f.elemLeaves src base level inner ≠ [] := by
    unfold elemLeaves
    cases hkind : f.kind with
    | basic type => exact cons_ne_nil _ _
    | string max => exact cons_ne_nil _ _
    | struct =>
      obtain ⟨n, hn⟩ := exists_eq_succ_of_ne_zero hn.ne'
      rw [hn]
      exact append_ne_nil_of_left_ne_nil (hinn hkind _) _
  unfold leaves
  cases hcnt : f.count with
  | one =>
    apply helem
    rw [instances, hcnt]
    exact one_pos
  | static n =>
    apply helem
    have hlen := hok.elemLen_eq (by rw [hcnt]; exact Count.noConfusion)
    have hpos := hok.elemLen_pos
    rw [hlen, hcnt] at hpos
    rw [instances, hcnt]
    exact hpos
  | var lenOffset size max => exact cons_ne_nil _ _

theorem Schema.leaves_ne_nil (S : Schema) (hso : S.Sound) (hps : S.parts ≠ []) (base : ℕ) :
    S.leaves src base ≠ [] := by
  induction S generalizing base with
  | nil eoti => exact absurd rfl hps
  | cons f nested next ihNested ihNext =>
    obtain ⟨hok, -, -, hnst, -⟩ := hso
    apply append_ne_nil_of_left_ne_nil
    exact Field.leaves_ne_nil hok fun hkind =>
      ihNested (hnst hkind).2 (hnst hkind).1.nonempty

end

section
variable {src : ℕ → UInt8} {len level n : ℕ} {f : Field} {nested next : EiArray} {base outBufLen pos : ℕ} {s : Enc}

theorem Field.entries_eq (f : Field) (nested next : EiArray) :
    ∃ ei eiArray rest, f.entries nested next = .elem ei eiArray rest ∧ ei.tlvType = f.tlvType := by
  unfold entries flagEntry lenEntry
  split
  · exact ⟨_, _, _, rfl, rfl⟩
  · split
    · exact ⟨_, _, _, rfl, rfl⟩
    · exact ⟨_, _, _, rfl, rfl⟩

theorem encodeLoop_same {S : Schema} {tlvType : UInt8} (htype : tlvType ∉ S.types)
    (level base outBufLen : ℕ) (s : Enc) :
    encodeLoop src S.toEiArray level base outBufLen (.same tlvType) s =
      encodeLoop src S.toEiArray level base outBufLen .no s := by
  cases S with
  | nil eoti =>
    have hne : ¬ (same tlvType).passes eoti := by
      exact fun h => htype (by rw [← h]; exact mem_cons_self)
    rw [Schema.toEiArray, encodeLoop, encodeLoop, if_neg hne, if_neg (by exact id)]
  | cons f nested next =>
    obtain ⟨ei, eiArray, rest, heq, hei⟩ := f.entries_eq nested.toEiArray next.toEiArray
    have hne : ¬ (same tlvType).passes ei.tlvType := by
      rw [hei]
      exact fun h => htype (by rw [← h]; exact mem_cons_self)
    rw [Schema.toEiArray, heq, encodeLoop, encodeLoop, if_neg hne, if_neg (by exact id)]

structure Enc.AtTlv (pos : ℕ) (s : Enc) : Prop where
  bufDst : s.bufDst = pos + TLV_HEADER_SIZE
  tlvPointer : s.tlvPointer = pos
  tlvLen : s.tlvLen = 0
  encodedBytes : s.encodedBytes = pos

theorem encodeLoop_skip_field :
    encodeLoop src (f.lenEntry (.elem f.elemInfo nested next)) level base outBufLen
        (.same f.tlvType) s =
      encodeLoop src next level base outBufLen (.same f.tlvType) s := by
  unfold lenEntry
  split
  · rw [encodeLoop, if_pos (by exact rfl), Skip.after, encodeLoop, if_pos (by exact rfl),
      Skip.after]
    · exact Skip.noConfusion
    · exact Skip.noConfusion
  · rw [encodeLoop, if_pos (by exact rfl), Skip.after]
    exact Skip.noConfusion

theorem flagEntry_round
    (hnext : ∀ s, encodeLoop src next 1 base outBufLen (.same f.tlvType) s =
      encodeLoop src next 1 base outBufLen .no s) :
    ∃ n, encodeLoop src (f.entries nested next) 1 base outBufLen .no s =
      if f.present src base then
        encodeLoop src (f.lenEntry (.elem f.elemInfo nested next)) 1 base outBufLen .no
          { s with dataLenValue := n }
      else encodeLoop src next 1 base outBufLen .no { s with dataLenValue := n } := by
  unfold entries flagEntry present
  cases hflag : f.flag with
  | none => exact ⟨s.dataLenValue, rfl⟩
  | some flagOffset =>
    refine ⟨1, ?_⟩
    rw [encodeLoop, if_neg (by exact id)]
    by_cases hset : src (base + flagOffset) = 0
    · simp [encodeElem, encodeCount, hset, behind, encodeLoop_skip_field, hnext]
    · simp [encodeElem, encodeCount, hset]

theorem Enc.stored_message (hs : s.AtTlv pos) (tlvType : UInt8) (value : List UInt8) :
    (s.stored n 1 tlvType value).outBuf =
        put s.outBuf pos (tlvHeader tlvType value.length ++ value) ∧
      (s.stored n 1 tlvType value).AtTlv (pos + TLV_HEADER_SIZE + value.length) := by
  obtain ⟨hdst, hptr, hlen, hbs⟩ := hs
  constructor
  · change put (put s.outBuf s.bufDst value) s.tlvPointer
      (tlvType :: leBytes (s.tlvLen + value.length) 2) = _
    rw [hdst, hptr, hlen, zero_add, ← put_header]
    rfl
  · constructor
    · change s.bufDst + value.length + TLV_HEADER_SIZE = _
      rw [hdst]
    · change s.bufDst + value.length = _
      rw [hdst]
    · rfl
    · change s.encodedBytes + value.length + TLV_HEADER_SIZE = _
      omega

/-- A message is stored TLV by TLV. -/
theorem encodesMessage (S : Schema) (hso : S.Sound) (htag : S.Tagged) (hs : s.AtTlv pos)
    (hpos : pos ≤ len) (hlen : len < 2 ^ 32) :
    Ends len s.outBuf
      (fun bytes r => r = (((pos + bytes.length : ℕ) : ℤ), put s.outBuf pos bytes))
      (encodeLoop src S.toEiArray 1 base len .no s) (scanTlvs len pos (S.tlvs src base)) := by
  induction S generalizing pos s with
  | nil eoti =>
    rw [Schema.toEiArray, encodeLoop]
    apply of_fits
    rw [put_nil, hs.encodedBytes]
    rfl
  | cons f nested next ihNested ihNext =>
    obtain ⟨hok, -, -, hnst, hnext⟩ := hso
    obtain ⟨htype, -, htag⟩ := htag
    have hinn (hkind : f.kind = .struct) : EncodesNested src len nested.toEiArray (nested.leaves src) :=
      encodesNested nested (hnst hkind).2 (hnst hkind).1.mandatory
    obtain ⟨n, hflag⟩ := @flagEntry_round src f nested.toEiArray next.toEiArray base len s
      (encodeLoop_same htype 1 base len)
    rw [Schema.toEiArray, hflag, Schema.tlvs]
    have hs' : Enc.AtTlv pos { s with dataLenValue := n } := ⟨hs.1, hs.2, hs.3, hs.4⟩
    have hout : ({ s with dataLenValue := n } : Enc).outBuf = s.outBuf := rfl
    generalize ({ s with dataLenValue := n } : Enc) = s' at hs' hout ⊢
    rw [← hout]
    by_cases hpres : f.present src base
    · have hroom : Room len len s' :=
        ⟨by rw [hs'.bufDst, hs'.encodedBytes]; omega, by rw [hs'.bufDst]; omega, hlen⟩
      have hfi := field_ends hok one_pos hinn hroom (encodeLoop_same htype 1 base len)
      rw [if_pos hpres, if_pos hpres, scanTlvs]
      rw [hs'.bufDst] at hfi
      cases hscan : scan len (pos + TLV_HEADER_SIZE) (f.leaves src base 1 (nested.leaves src)) with
      | fits value =>
        have hne : f.leaves src base 1 (nested.leaves src) ≠ [] :=
          leaves_ne_nil hok fun hkind =>
            nested.leaves_ne_nil (hnst hkind).2 (hnst hkind).1.nonempty
        have hend := scan_fits_le hne hscan
        obtain ⟨hbuf, hat⟩ := stored_message hs' f.tlvType value
        have hrest := ihNext hnext htag hat hend
        have hsize : (tlvHeader f.tlvType value.length ++ value).length = TLV_HEADER_SIZE + value.length := by
          rw [length_append]
          rfl
        rw [hscan] at hfi
        rw [hbuf, ← hfi] at hrest
        refine prepend ?_ (hrest.mono ?_)
        · intro i hi
          exact put_outside _ (.inr (by omega))
        · intro bytes _ hr
          rw [hr, add_assoc pos, ← hsize, put_append, add_assoc, ← length_append]
      | stops =>
        rw [hscan] at hfi
        exact hfi
      | overruns =>
        rw [hscan] at hfi
        exact hfi
    · rw [if_neg hpres, if_neg hpres]
      exact ihNext hnext htag hs' hpos

theorem qmiEncode_ends (S : Schema) (hS : S.WellFormed) (hlen : len < 2 ^ 32) :
    Ends len (fun _ => none)
      (fun bytes r => r = ((bytes.length : ℤ), put (fun _ => none) 0 bytes))
      (qmiEncode S.toEiArray src len) (scanTlvs len 0 (S.tlvs src 0)) := by
  have hini : (start 1 (fun _ => none) 0).AtTlv 0 := ⟨rfl, rfl, rfl, rfl⟩
  apply (encodesMessage S hS.sound hS.tagged hini (zero_le len) hlen).mono
  intro bytes _ hr
  rw [zero_add] at hr
  exact hr

theorem scanTlvs_fits_le {bytes : List UInt8} {tlvs : List (UInt8 × List Leaf)} (hpos : pos ≤ len)
    (hne : ∀ p ∈ tlvs, p.2 ≠ []) (h : scanTlvs len pos tlvs = .fits bytes) : pos + bytes.length ≤ len := by
  induction tlvs generalizing pos bytes with
  | nil =>
    cases h
    exact hpos
  | cons tlv rest ih =>
    obtain ⟨tlvType, leaves⟩ := tlv
    rw [scanTlvs] at h
    cases hscan : scan len (pos + TLV_HEADER_SIZE) leaves with rw [hscan] at h
    | fits value =>
      obtain ⟨tail, htail, rfl⟩ := Scan.prepend_eq_fits h
      have hvl := scan_fits_le (hne _ mem_cons_self) hscan
      have hend := ih hvl (fun p hp => hne p (mem_cons_of_mem _ hp)) htail
      simp only [length_append, tlvHeader, length_cons, leBytes_length, TLV_HEADER_SIZE] at hend ⊢
      omega
    | stops =>
      cases h
    | overruns =>
      cases h

theorem Schema.tlvs_ne_nil (S : Schema) (hso : S.Sound) (base : ℕ) : ∀ p ∈ S.tlvs src base, p.2 ≠ [] := by
  induction S with
  | nil eoti => exact fun p hp => absurd hp not_mem_nil
  | cons f nested next ihNested ihNext =>
    obtain ⟨hok, -, -, hnst, hnext⟩ := hso
    intro p hp
    rw [tlvs] at hp
    split at hp
    case isTrue =>
      rcases mem_cons.mp hp with rfl | hp
      · exact Field.leaves_ne_nil hok fun hkind =>
          nested.leaves_ne_nil (hnst hkind).2 (hnst hkind).1.nonempty
      · exact ihNext hnext p hp
    case isFalse => exact ihNext hnext p hp

/-- The encoder keeps to its buffer, and says so when that is not enough, unless the first piece
that does not fit is the string of a nested structure that ends at most three bytes behind the
buffer. -/
theorem qmi_encode_within_buffer_iff (S : Schema) (hS : S.WellFormed) (src : ℕ → UInt8) (len : ℕ)
    (hlen : len < 2 ^ 32) :
    ((∀ i, (qmiEncode S.toEiArray src len).2 i ≠ none → i < len) ∧
      (0 ≤ (qmiEncode S.toEiArray src len).1 → (qmiEncode S.toEiArray src len).1 ≤ len)) ↔
      ¬ S.Overruns src len := by
  have hends := @qmiEncode_ends src len S hS hlen
  generalize qmiEncode S.toEiArray src len = r at hends ⊢
  unfold Schema.Overruns
  cases hscan : scanTlvs len 0 (S.tlvs src 0) with rw [hscan] at hends
  | fits bytes =>
    have hend := scanTlvs_fits_le (zero_le len) (S.tlvs_ne_nil hS.sound 0) hscan
    obtain rfl : r = ((bytes.length : ℤ), put (fun _ => none) 0 bytes) := hends
    refine ⟨fun _ => Scan.noConfusion, fun _ => ⟨?_, fun _ => by exact_mod_cast (by omega)⟩⟩
    intro i hi
    by_contra hout
    have hcell : put (fun _ => none) 0 bytes i = none := put_outside _ (.inr (by omega))
    exact hi hcell
  | stops =>
    refine ⟨fun _ => Scan.noConfusion, fun _ => ⟨?_, fun h => absurd hends.1 (not_lt.mpr h)⟩⟩
    intro i hi
    by_contra hout
    exact hi (hends.2 i (by omega))
  | overruns =>
    obtain ⟨i, hi, hr⟩ := hends
    refine ⟨fun h => absurd (h.1 i hr) (by omega), fun h => absurd rfl h⟩

def namedSchema : Schema :=
  .cons ⟨1, none, .one, .struct, 4, 0⟩ (.cons ⟨0, none, .one, .string 4, 1, 0⟩ (.nil 0) (.nil 0)) (.nil 0)

def abc : ℕ → UInt8
  | 0 => 97
  | 1 => 98
  | 2 => 99
  | _ => 0

/-- A message with one structure in it, which holds a string of at most four bytes. -/
theorem qmi_encode_within_buffer_named :
    (∀ i, (qmiEncode namedSchema.toEiArray abc 7).2 i ≠ none → i < 7) ∧
      (0 ≤ (qmiEncode namedSchema.toEiArray abc 7).1 → (qmiEncode namedSchema.toEiArray abc 7).1 ≤ (7 : ℕ)) :=
  (qmi_encode_within_buffer_iff namedSchema ⟨by decide, by decide⟩ abc 7 (by decide)).mpr
    (by decide)

/-- The seven bytes of the message go into a buffer of five. -/
theorem qmi_encode_overruns_named :
    namedSchema.WellFormed ∧ (qmiEncode namedSchema.toEiArray abc 5).1 = 7 ∧
      (qmiEncode namedSchema.toEiArray abc 5).2 5 = some 98 ∧
      (qmiEncode namedSchema.toEiArray abc 5).2 6 = some 99 :=
  ⟨⟨by decide, by decide⟩, by decide, by decide, by decide⟩

end
end VendorKernel.Qmi
