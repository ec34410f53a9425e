import VendorKernel.Qmi.DecodeMessage
import VendorKernel.Qmi.Layout

/-! The way from a C structure to a message and back. -/
namespace VendorKernel.Qmi

open LittleEndian Overlay RingBuffer List Qmi.Field Leaf Nat

def memory (cells : Cells) : ℕ → UInt8 := fun i => (cells i).getD 0

def encoded (r : ℤ × Cells) : List UInt8 := slice (memory r.2) 0 r.1.toNat

def Schema.messageLen (S : Schema) (src : ℕ → UInt8) : ℕ := (tlvBytes (S.tlvs src 0)).length

namespace Field

variable (f : Field) (src dst : ℕ → UInt8) (base : ℕ)

def length : ℕ :=
  match f.count with
  | .one => 1
  | .static n => n
  | .var lenOffset _ _ => readLE src (base + lenOffset) 4

/-- The same elements up to the length, or the same string. -/
def SameElem (inner : ℕ → Prop) : Prop :=
  let a := base + f.offset
  match f.kind with
  | .basic _ =>
    slice dst a (f.length src base * f.elemSize) = slice src a (f.length src base * f.elemSize)
  | .string max =>
    strlen dst a (max + 1) = strlen src a (max + 1) ∧
      slice dst a (strlen src a (max + 1)) = slice src a (strlen src a (max + 1))
  | .struct => ∀ i < f.length src base, inner (a + i * f.elemSize)

def Same (inner : ℕ → Prop) : Prop :=
  f.length dst base = f.length src base ∧ f.SameElem src dst base inner

def LengthFits : Prop :=
  match f.count with
  | .var lenOffset size _ => readLE src (base + lenOffset) 4 < 256 ^ size.bytes
  | _ => True

instance : Decidable (f.LengthFits src base) := by
  unfold LengthFits
  split <;> infer_instance

end Field

namespace Schema

/-- The structure in `dst` has the fields that the one in `src` has, with the same contents. -/
def Same (src dst : ℕ → UInt8) : Schema → (base : ℕ) → Prop
  | nil _, _ => True
  | cons f nested next, base =>
    f.present dst base = f.present src base ∧
      (f.present src base → f.Same src dst base (nested.Same src dst)) ∧ next.Same src dst base

def LengthsFit (src : ℕ → UInt8) : Schema → (base : ℕ) → Prop
  | nil _, _ => True
  | cons f nested next, base =>
    (f.present src base → f.LengthFits src base ∧ (f.kind = .struct →
      ∀ i < f.instances src base, nested.LengthsFit src (base + f.offset + i * f.elemSize))) ∧
      next.LengthsFit src base

instance decidableLengthsFit (src : ℕ → UInt8) :
    (S : Schema) → (base : ℕ) → Decidable (S.LengthsFit src base)
  | nil _, _ => isTrue trivial
  | cons f nested next, base =>
    have := decidableLengthsFit src nested
    have := decidableLengthsFit src next base
    inferInstanceAs (Decidable ((f.present src base → f.LengthFits src base ∧ (f.kind = .struct →
      ∀ i < f.instances src base, nested.LengthsFit src (base + f.offset + i * f.elemSize))) ∧
      next.LengthsFit src base))

def Unset (src dst : ℕ → UInt8) : Schema → (base : ℕ) → Prop
  | nil _, _ => True
  | cons f _ next, base =>
    (f.present src base = false → f.present dst base = false) ∧ next.Unset src dst base

end Schema

section
variable {src dst : ℕ → UInt8} {a bound : ℕ}

theorem strlen_copy (hlt : strlen src a bound < bound)
    (hcopy : slice dst a (strlen src a bound + 1) = slice src a (strlen src a bound) ++ [0]) :
    strlen dst a bound = strlen src a bound := by
  induction bound generalizing a with
  | zero => rfl
  | succ bound ih =>
    rw [strlen] at hlt hcopy
    rw [strlen, strlen]
    by_cases hzero : src a = 0
    · rw [if_pos hzero] at hcopy
      have hdst : dst a = 0 := (cons.inj hcopy).1
      rw [if_pos hdst, if_pos hzero]
    · rw [if_neg hzero] at hlt hcopy
      obtain ⟨hhead, htail⟩ := cons.inj hcopy
      rw [if_neg (by rw [hhead]; exact hzero), if_neg hzero, ih (lt_of_succ_lt_succ hlt) htail]

end

section
variable {f : Field} {src dst : ℕ → UInt8} {base i : ℕ} {inner : ℕ → List (ℕ × List UInt8)}
  {same fits accepts : ℕ → Prop}

def Holds (dst : ℕ → UInt8) (stores : List (ℕ × List UInt8)) : Prop :=
  ∀ st ∈ stores, slice dst st.1 st.2.length = st.2

theorem holds_append {stores stores' : List (ℕ × List UInt8)} :
    Holds dst (stores ++ stores') ↔ Holds dst stores ∧ Holds dst stores' := by
  simp only [Holds, forall_mem_append]

theorem Field.lengthFits_iff : f.LengthFits src base ↔ f.instances src base = f.length src base := by
  unfold LengthFits instances length
  cases f.count with
  | one => simp
  | static n => simp
  | var lenOffset size max =>
    cases size with
    | u8 => exact (readLE_eq_iff src (base + lenOffset) 1 3).symm
    | u16 => exact (readLE_eq_iff src (base + lenOffset) 2 2).symm

theorem Field.length_of_holds (h : Holds dst (f.lenStores src base)) : f.length dst base = f.instances src base := by
  unfold lenStores at h
  cases hcnt : f.count with
  | one => rw [length, instances, hcnt]
  | static n => rw [length, instances, hcnt]
  | var lenOffset size max =>
    rw [hcnt] at h
    have hsl := h _ (mem_singleton_self _)
    rw [leBytes_length] at hsl
    have hlt : f.instances src base < 256 ^ 4 := by
      rw [instances, hcnt]
      apply (readLE_lt src (base + lenOffset) size.bytes).trans_le
      cases size <;> decide
    rw [length, hcnt]
    dsimp only at hsl ⊢
    rw [← ofLE_slice, hsl, ofLE_leBytes, mod_eq_of_lt hlt]

theorem Field.present_of_holds (h : Holds dst (f.flagStores base)) : f.present dst base = true := by
  unfold flagStores at h
  unfold present
  cases hflag : f.flag with
  | none => rfl
  | some flagOffset =>
    rw [hflag] at h
    have hsl := h _ (mem_singleton_self _)
    have hone : dst (base + flagOffset) = 1 := (cons.inj hsl).1
    simp [hone]

section
variable (hcont : f.Contained src base accepts) (hinn : f.kind = .struct → ∀ i < f.instances src base,
  (same (base + f.offset + i * f.elemSize) ↔ fits (base + f.offset + i * f.elemSize)))
include hcont hinn

/-- The elements of a field whose length the wire can tell are those that were encoded. -/
theorem Field.sameElem_iff (h : Holds dst (f.elemStores src base inner))
    (hfits : f.instances src base = f.length src base) :
    f.SameElem src dst base same ↔ (f.kind = .struct →
      ∀ i < f.instances src base, fits (base + f.offset + i * f.elemSize)) := by
  unfold elemStores at h
  unfold SameElem
  rw [← hfits]
  cases hkind : f.kind with
  | basic type =>
    rw [hkind] at h
    have hsl := h _ (mem_singleton_self _)
    rw [slice_length] at hsl
    exact iff_of_true hsl fun hstruct => Kind.noConfusion hstruct
  | string max =>
    rw [hkind] at h
    have hterm := hcont.2.1
    rw [hkind] at hterm
    change strlen src (base + f.offset) (max + 1) < max at hterm
    have hsl := h _ (mem_singleton_self _)
    rw [length_append, slice_length] at hsl
    refine iff_of_true ⟨strlen_copy (by omega) hsl, ?_⟩ fun hstruct => Kind.noConfusion hstruct
    rw [slice_add] at hsl
    exact (append_inj hsl (by rw [slice_length, slice_length])).1
  | struct =>
    refine ⟨fun hsame _ i hi => ?_, fun hfit i hi => ?_⟩
    · exact (hinn hkind i hi).mp (hsame i hi)
    · exact (hinn hkind i hi).mpr (hfit rfl i hi)

theorem Field.same_iff (h : Holds dst (f.stores src base inner)) :
    f.Same src dst base same ↔ f.LengthFits src base ∧ (f.kind = .struct →
      ∀ i < f.instances src base, fits (base + f.offset + i * f.elemSize)) := by
  rw [stores, holds_append, holds_append] at h
  rw [Field.Same, lengthFits_iff, length_of_holds h.1.2]
  exact and_congr_right fun hfits => sameElem_iff hcont hinn h.2 hfits

end

theorem Schema.unset_of_mandatory (S : Schema) (h : S.Mandatory) (base : ℕ) : S.Unset src dst base := by
  induction S with
  | nil eoti => exact trivial
  | cons f nested next _ ihNext =>
    refine ⟨fun habs => ?_, ihNext h.2⟩
    rw [present_of_mandatory h.1] at habs
    cases habs

theorem Field.holds_instance (hkind : f.kind = .struct) (h : Holds dst (f.stores src base inner))
    (hi : i < f.instances src base) : Holds dst (inner (base + f.offset + i * f.elemSize)) := by
  rw [stores, holds_append, elemStores, hkind] at h
  exact fun st hst => h.2 st (mem_instancesAt.mpr ⟨i, hi, hst⟩)

/-- With all that the decoder stores in memory, the structure is the one that was encoded unless the wire
cannot tell a length. -/
theorem Schema.same_iff (S : Schema) (hso : S.Sound) (h : Holds dst (S.stores src base))
    (hcont : S.Contained src base) (hunset : S.Unset src dst base) :
    S.Same src dst base ↔ S.LengthsFit src base := by
  induction S generalizing base with
  | nil eoti => exact Iff.rfl
  | cons f nested next ihNested ihNext =>
    obtain ⟨hok, -, -, hnst, hnext⟩ := hso
    rw [stores, holds_append] at h
    rw [Same, LengthsFit, ihNext hnext h.2 hcont.2 hunset.2]
    by_cases hpres : f.present src base
    · have hfi := h.1
      rw [if_pos hpres] at hfi
      have hflag := hfi
      rw [Field.stores, holds_append, holds_append] at hflag
      have hfield_iff := same_iff (hcont.1 hpres) (fun hkind i hi =>
        ihNested (hnst hkind).2 (holds_instance hkind hfi hi) ((hcont.1 hpres).2.2 hkind i hi)
          (nested.unset_of_mandatory (hnst hkind).1.mandatory _)) hfi
      rw [present_of_holds hflag.1.1, hpres, hfield_iff]
      exact and_iff_right rfl
    · simp [hpres, hunset.1 (by simpa using hpres)]

end

section
variable {src : ℕ → UInt8} {base : ℕ} {cells : Cells}

theorem Field.present_of_cell {f : Field} (habs : f.present src base = false)
    (hcell : ∀ flagOffset, f.flag = some flagOffset → cells (base + flagOffset) = none) :
    f.present (memory cells) base = false := by
  unfold present at *
  cases hflag : f.flag with
  | none =>
    rw [hflag] at habs
    cases habs
  | some flagOffset => simp [memory, hcell flagOffset hflag]

theorem Schema.unset_puts (S : Schema) (hso : S.Sound) (hcont : S.Contained src base)
    (hce : ∀ p ∈ S.parts, ∀ j < p.2, cells (base + p.1 + j) = none) :
    S.Unset src (memory (puts cells (S.stores src base))) base := by
  induction S generalizing cells with
  | nil eoti => exact trivial
  | cons f nested next _ ihNext =>
    have hhead := head_within hso hcont
    obtain ⟨-, -, hap, -, hnext⟩ := hso
    rw [stores, puts_append]
    constructor
    · intro habs
      apply present_of_cell habs
      intro flagOffset hflag
      have hmem : (flagOffset, 1) ∈ f.parts := by simp [Field.parts, hflag]
      rw [puts_outside, habs]
      · exact hce (flagOffset, 1) (mem_append_left _ hmem) 0 one_pos
      · intro st hst
        exact (next.stores_within hnext hcont.2 st hst).outside
          (fun p hp => (hap _ hmem p hp).symm) one_pos
    · apply ihNext hnext hcont.2
      intro p hp j hj
      rw [puts_outside]
      · exact hce p (mem_append_right _ hp) j hj
      · intro st hst
        exact (hhead st hst).outside (fun q hq => hap q hq p hp) hj

theorem holds_puts {stores : List (ℕ × List UInt8)} (hap : stores.Pairwise NoOverlap) :
    Holds (memory (puts cells stores)) stores := by
  intro st hst
  apply slice_of_getElem?
  intro j hj
  rw [memory, puts_inside hap hst hj, getElem?_eq_getElem hj, Option.getD_some]

end

section
variable {src : ℕ → UInt8} {base dataLenValue level : ℕ}

theorem Field.contained {f : Field} {nested : Schema} (hok : f.Ok)
    (hfail : fail ∉ f.leaves src base level (nested.leaves src))
    (hdcs : f.Decodes src base dataLenValue fun a => nested.Decodes src a 0)
    (hnst : f.kind = .struct → ∀ a, fail ∉ nested.leaves src a → nested.Decodes src a 0 → nested.Contained src a) :
    f.Contained src base (nested.Contained src) := by
  refine ⟨(wire_leaves hok hfail).2.2, hdcs.2.1, fun hkind i hi => ?_⟩
  exact hnst hkind _ (fail_notMem_inner hok hkind hfail hi) (hdcs.2.2 hkind i hi)

theorem Schema.contained_nested (S : Schema) (hso : S.Sound) (hmand : S.Mandatory)
    (hfail : fail ∉ S.leaves src base) (hdcs : S.Decodes src base dataLenValue) :
    S.Contained src base := by
  induction S generalizing base dataLenValue with
  | nil eoti => exact trivial
  | cons f nested next ihNested ihNext =>
    obtain ⟨hok, -, -, hnst, hnext⟩ := hso
    rw [leaves, mem_append, not_or] at hfail
    rw [Decodes, if_pos (present_of_mandatory hmand.1 base)] at hdcs
    refine ⟨fun _ => ?_, ihNext hnext hmand.2 hfail.2 hdcs.2⟩
    exact contained hok hfail.1 hdcs.1 fun hkind a =>
      ihNested (hnst hkind).2 (hnst hkind).1.mandatory

theorem Schema.contained_message (S : Schema) (hso : S.Sound)
    (hfail : ∀ p ∈ S.tlvs src base, fail ∉ p.2) (hdcs : S.Decodes src base dataLenValue) :
    S.Contained src base := by
  induction S generalizing dataLenValue with
  | nil eoti => exact trivial
  | cons f nested next _ ihNext =>
    obtain ⟨hok, -, -, hnst, hnext⟩ := hso
    rw [tlvs] at hfail
    rw [Decodes] at hdcs
    by_cases hpres : f.present src base
    · rw [if_pos hpres] at hfail hdcs
      rw [forall_mem_cons] at hfail
      refine ⟨fun _ => ?_, ihNext hnext hfail.2 hdcs.2⟩
      exact contained hok hfail.1 hdcs.1 fun hkind a =>
        nested.contained_nested (hnst hkind).2 (hnst hkind).1.mandatory
    · rw [if_neg hpres] at hfail hdcs
      exact ⟨fun h => absurd h hpres, ihNext hnext hfail hdcs⟩

end

section
variable {len pos : ℕ} {bytes xs all : List UInt8} {leaves : List Leaf} {tlvs : List (UInt8 × List Leaf)}

/-- What fits is all of the bytes; a buffer that is overrun is too short for them. -/
def Scan.Of (len pos : ℕ) (all : List UInt8) (ok : Prop) : Scan → Prop
  | .fits bytes => bytes = all ∧ ok
  | .stops => True
  | .overruns => len < pos + all.length

theorem Scan.Of.prepend {s : Scan} {ok ok' : Prop} (h : s.Of len (pos + xs.length) all ok) (hok : ok → ok') :
    (s.prepend xs).Of len pos (xs ++ all) ok' := by
  cases s with
  | fits bytes => exact ⟨by rw [h.1], hok h.2⟩
  | stops => trivial
  | overruns =>
    change len < pos + (xs ++ all).length
    rwa [length_append, ← add_assoc]

/-- A buffer takes the pieces as the bytes they are. -/
theorem scan_of (len pos : ℕ) (leaves : List Leaf) :
    (scan len pos leaves).Of len pos (wire leaves) (fail ∉ leaves) := by
  induction leaves generalizing pos with
  | nil => exact ⟨rfl, not_mem_nil⟩
  | cons leaf leaves ih =>
    have hsto (hne : fail ≠ leaf) : ((scan len (pos + leaf.bytes.length) leaves).prepend leaf.bytes).Of len pos
        (wire (leaf :: leaves)) (fail ∉ leaf :: leaves) :=
      (ih _).prepend fun hfail => not_mem_cons_of_ne_of_not_mem hne hfail
    cases leaf with
    | emit bs =>
      rw [scan]
      split_ifs
      · exact hsto Leaf.noConfusion
      · trivial
    | string bs =>
      rw [scan]
      split_ifs
      · exact hsto Leaf.noConfusion
      · rw [Scan.Of, wire_cons, length_append, bytes]
        omega
      · trivial
    | fail => trivial

theorem scanTlvs_of (len pos : ℕ) (tlvs : List (UInt8 × List Leaf)) :
    (scanTlvs len pos tlvs).Of len pos (tlvBytes tlvs) (∀ p ∈ tlvs, fail ∉ p.2) := by
  induction tlvs generalizing pos with
  | nil => exact ⟨rfl, nofun⟩
  | cons tlv rest ih =>
    obtain ⟨type, leaves⟩ := tlv
    have hvl := scan_of len (pos + TLV_HEADER_SIZE) leaves
    rw [scanTlvs]
    cases hscan : scan len (pos + TLV_HEADER_SIZE) leaves with rw [hscan] at hvl
    | fits value =>
      obtain ⟨rfl, hfail⟩ := hvl
      rw [tlvBytes_cons]
      refine Scan.Of.prepend ?_ fun hrest => forall_mem_cons.mpr ⟨hfail, hrest⟩
      have hpos : pos + (tlvHeader type (wire leaves).length ++ wire leaves).length =
          pos + TLV_HEADER_SIZE + (wire leaves).length := by
        simp [tlvHeader, TLV_HEADER_SIZE]
        omega
      rw [hpos]
      exact ih _
    | stops => trivial
    | overruns =>
      rw [Scan.Of] at hvl ⊢
      rw [tlvBytes_cons_length]
      omega

/-- What the encoder accepts it stores as a whole. -/
theorem encoded_eq (S : Schema) (hS : S.WellFormed) {src : ℕ → UInt8} (hlen : len < 2 ^ 32)
    (hen : S.messageLen src ≤ len) (hacpt : 0 ≤ (qmiEncode S.toEiArray src len).1) :
    (qmiEncode S.toEiArray src len).1 = S.messageLen src ∧
      encoded (qmiEncode S.toEiArray src len) = tlvBytes (S.tlvs src 0) ∧
      ∀ p ∈ S.tlvs src 0, fail ∉ p.2 := by
  have hends := @qmiEncode_ends src len S hS hlen
  generalize qmiEncode S.toEiArray src len = r at *
  have hof := scanTlvs_of len 0 (S.tlvs src 0)
  cases hscan : scanTlvs len 0 (S.tlvs src 0) with rw [hscan] at hends hof
  | fits bytes =>
    obtain rfl : r = ((bytes.length : ℤ), put (fun _ => none) 0 bytes) := hends
    obtain ⟨rfl, hfail⟩ := hof
    have hhs : Holds (memory (puts (fun _ => none) [(0, tlvBytes (S.tlvs src 0))])) _ :=
      holds_puts (pairwise_singleton _ _)
    exact ⟨rfl, hhs _ (mem_singleton_self _), hfail⟩
  | stops => exact absurd hends.1 (not_lt.mpr hacpt)
  | overruns =>
    rw [Scan.Of, zero_add] at hof
    exact absurd hen (not_le.mpr hof)

end

theorem qmiDecode_encoded (S : Schema) (hS : S.WellFormed) {src : ℕ → UInt8} {len : ℕ}
    (hlen : len < 2 ^ 32) (hen : S.messageLen src ≤ len)
    (hacpt : 0 ≤ (qmiEncode S.toEiArray src len).1) :
    (qmiDecode S.toEiArray (encoded (qmiEncode S.toEiArray src len))).Decides (S.Decodes src 0 0)
      fun r => r.dec.decodedBytes = S.messageLen src ∧ r.dec.out.cells = puts (fun _ => none) (S.stores src 0) := by
  obtain ⟨-, hbs, hfail⟩ := encoded_eq S hS hlen hen hacpt
  rw [hbs]
  exact decodeTlvs_decides S (lt_of_le_of_lt hen hlen) hS.sound hS.tagged (fun _ _ => rfl)
    (le_add_left _ _) hfail rfl (zero_add _)

/-- A structure that the encoder accepts comes back from the decoder as it was exactly when every string
leaves room for its end, no length is mixed with what is left of the one before, and the wire can tell every
length. -/
theorem qmi_round_trip_iff (S : Schema) (hS : S.WellFormed) (src : ℕ → UInt8) (len : ℕ)
    (hlen : len < 2 ^ 32) (henough : S.messageLen src ≤ len)
    (haccepted : 0 ≤ (qmiEncode S.toEiArray src len).1) :
    (∃ r, qmiDecode S.toEiArray (encoded (qmiEncode S.toEiArray src len)) = .ok r ∧
      (r.dec.decodedBytes : ℤ) = (qmiEncode S.toEiArray src len).1 ∧
      S.Same src (memory r.dec.out.cells) 0) ↔ S.Decodes src 0 0 ∧ S.LengthsFit src 0 := by
  obtain ⟨hrc, -, hfail⟩ := encoded_eq S hS hlen henough haccepted
  apply (qmiDecode_encoded S hS hlen henough haccepted).exists_ok_iff
  rintro hdcs r ⟨hdec, hce⟩
  have hin := S.contained_message hS.sound hfail hdcs
  rw [hce, hdec, hrc, S.same_iff hS.sound (holds_puts (S.stores_noOverlap hS.sound hin)) hin
    (S.unset_puts hS.sound hin fun _ _ _ _ => rfl)]
  exact and_iff_right rfl

/-- A string in a nested structure. -/
theorem qmi_round_trip_named :
    namedSchema.messageLen abc = 7 ∧ (qmiEncode namedSchema.toEiArray abc 7).1 = 7 ∧
      ∃ r, qmiDecode namedSchema.toEiArray (encoded (qmiEncode namedSchema.toEiArray abc 7)) =
          .ok r ∧
        (r.dec.decodedBytes : ℤ) = (qmiEncode namedSchema.toEiArray abc 7).1 ∧
        namedSchema.Same abc (memory r.dec.out.cells) 0 :=
  ⟨by decide, by decide,
    (qmi_round_trip_iff namedSchema ⟨by decide, by decide⟩ abc 7 (by decide) (by decide)
      (by decide)).mpr (by decide)⟩

def wordSchema : Schema := .cons ⟨1, none, .one, .string 3, 1, 0⟩ (.nil 0) (.nil 0)

def staleSchema : Schema :=
  .cons ⟨1, none, .static 256, .basic .unsigned1Byte, 1, 0⟩ (.nil 0)
    (.cons ⟨2, none, .var 256 .u8 4, .basic .unsigned1Byte, 1, 260⟩ (.nil 0) (.nil 0))

/-- The encoder accepts a string of three bytes that the decoder refuses. It also refuses an empty array
behind 256 bytes, whose length is left over. -/
theorem qmi_round_trip_refused :
    (wordSchema.WellFormed ∧ (qmiEncode wordSchema.toEiArray abc 6).1 = 6 ∧
      ∃ out, qmiDecode wordSchema.toEiArray (encoded (qmiEncode wordSchema.toEiArray abc 6)) =
        .fail (-ETOOSMALL) out) ∧
    staleSchema.WellFormed ∧ (qmiEncode staleSchema.toEiArray (fun _ => 0) 263).1 = 263 ∧
      ∃ rc out, qmiDecode staleSchema.toEiArray
        (encoded (qmiEncode staleSchema.toEiArray (fun _ => 0) 263)) = .fail rc out :=
  have hstale : staleSchema.WellFormed := ⟨by decide, by decide⟩
  have hrc : (qmiEncode staleSchema.toEiArray (fun _ => 0) 263).1 = 263 := by decide +kernel
  ⟨⟨⟨by decide, by decide⟩, by decide, _, rfl⟩, hstale, hrc,
    (qmiDecode_encoded staleSchema hstale (by decide) (by decide +kernel)
      (by rw [hrc]; decide)).exists_fail (by decide)⟩

end VendorKernel.Qmi
