import VendorKernel.Qmi.DecodeWire
import VendorKernel.Qmi.EncodeBounds

/-! The decoder on the bytes of a whole message. -/
namespace VendorKernel.Qmi

open LittleEndian Overlay RingBuffer Qmi.Field List Leaf Schema Nat

section
variable {src : ℕ → UInt8} {f : Field} {level base i size bound n a : ℕ} {inner : ℕ → List Leaf}

theorem Field.fail_notMem_inner (hok : f.Ok) (hkind : f.kind = .struct)
    (hfail : fail ∉ f.leaves src base level inner) (hi : i < f.instances src base) :
    fail ∉ inner (base + f.offset + i * f.elemSize) := by
  have helem := (wire_leaves hok hfail).2.1
  rw [elemLeaves, hkind] at helem
  exact fun hmem => helem (mem_instancesAt.mpr ⟨i, hi, hmem⟩)

theorem wire_instancesAt_le (h : ∀ i < n, (wire (inner (a + i * size))).length ≤ bound) :
    (wire (instancesAt inner size n a)).length ≤ n * bound := by
  induction n generalizing a with
  | zero => exact zero_le _
  | succ n ih =>
    have hfst := h 0 (succ_pos n)
    rw [zero_mul, add_zero] at hfst
    have hrest := @ih (a + size) fun i hi => by
      have hnext := h (i + 1) (succ_lt_succ hi)
      rwa [succ_mul, add_comm (i * size), ← add_assoc] at hnext
    rw [instancesAt, wire_append, length_append, succ_mul]
    omega

theorem Field.wire_le (hok : f.Ok) (hfail : fail ∉ f.leaves src base level inner)
    (hinn : f.kind = .struct → ∀ i < f.instances src base,
      (wire (inner (base + f.offset + i * f.elemSize))).length ≤ bound) :
    (wire (f.leaves src base level inner)).length ≤ f.maxSize level bound := by
  obtain ⟨hwire, hfail', hroom⟩ := wire_leaves hok hfail
  rw [hwire, length_append]
  apply Nat.add_le_add
  · unfold lenWire
    cases f.count with
    | one => exact le_refl 0
    | static n => exact le_refl 0
    | var lenOffset size max => simp
  · cases hkind : f.kind with
    | basic type =>
      rw [elemLeaves, elemLen, hkind]
      simpa [wire, bytes] using mul_le_mul_right f.elemSize hroom
    | string max =>
      obtain ⟨hstr, hstg⟩ := wire_string hkind hfail'
      rw [hstg, stringPrefix]
      by_cases hlv : level = 1
      · simpa [hlv] using hstr
      · simpa [hlv] using hstr
    | struct =>
      rw [elemLeaves, elemLen, hkind]
      exact (wire_instancesAt_le (hinn hkind)).trans (mul_le_mul_right _ hroom)

theorem Schema.wire_le (S : Schema) (hso : S.Sound) (hfail : fail ∉ S.leaves src base) :
    (wire (S.leaves src base)).length ≤ S.maxSize := by
  induction S generalizing base with
  | nil eoti => exact zero_le _
  | cons f nested next ihNested ihNext =>
    obtain ⟨hok, -, -, hnst, hnext⟩ := hso
    rw [leaves, mem_append, not_or] at hfail
    rw [leaves, wire_append, length_append]
    apply Nat.add_le_add
    · apply wire_le hok hfail.1
      intro hkind i hi
      exact ihNested (hnst hkind).2 (fail_notMem_inner hok hkind hfail.1 hi)
    · exact ihNext hnext hfail.2

theorem Field.wire_pos (hok : f.Ok) (hfail : fail ∉ f.leaves src base level inner)
    (hlv : level ≠ 1) (hinn : f.InnerPos src base inner) :
    0 < (wire (f.leaves src base level inner)).length := by
  obtain ⟨hwire, hfail', hroom⟩ := wire_leaves hok hfail
  have helem (hn : 0 < f.instances src base) : 0 < (wire (f.elemLeaves src base level inner)).length := by
    cases hkind : f.kind with
    | basic type =>
      rw [elemLeaves, hkind]
      simpa [wire, bytes] using Nat.mul_pos hn hok.elemSize_pos
    | string max =>
      obtain ⟨hstr, hstg⟩ := wire_string hkind hfail'
      rw [hstg, length_append, stringPrefix, if_neg hlv, leBytes_length, stringLenSize]
      split <;> omega
    | struct =>
      obtain ⟨n, hn'⟩ := exists_eq_succ_of_ne_zero hn.ne'
      have hfst := hinn hkind 0 hn
      rw [zero_mul, add_zero] at hfst
      rw [elemLeaves, hkind]
      rw [hn', instancesAt, wire_append, length_append]
      omega
  rw [hwire, length_append]
  unfold lenWire
  cases hcnt : f.count with
  | one =>
    have hn := helem (by rw [instances, hcnt]; exact one_pos)
    omega
  | static n =>
    have hpos := hok.elemLen_pos
    rw [hok.elemLen_static hcnt] at hpos
    have hn := helem (by rw [instances, hcnt]; exact hpos)
    omega
  | var lenOffset size max =>
    have hsize : 0 < size.bytes := by cases size <;> decide
    rw [leBytes_length]
    omega

theorem Schema.wire_pos (S : Schema) (hso : S.Sound) (hps : S.parts ≠ [])
    (hfail : fail ∉ S.leaves src base) : 0 < (wire (S.leaves src base)).length := by
  induction S generalizing base with
  | nil eoti => exact absurd rfl hps
  | cons f nested next ihNested ihNext =>
    obtain ⟨hok, -, -, hnst, -⟩ := hso
    rw [leaves, mem_append, not_or] at hfail
    have hfi : 0 < (wire (f.leaves src base 2 (nested.leaves src))).length := by
      apply wire_pos hok hfail.1 (by decide)
      intro hkind i hi
      exact ihNested (hnst hkind).2 (hnst hkind).1.nonempty (fail_notMem_inner hok hkind hfail.1 hi)
    rw [leaves, wire_append, length_append]
    omega

theorem Field.instance_pos {nested : Schema} (hok : f.Ok)
    (hnst : f.kind = .struct → nested.Nestable f.elemSize ∧ nested.Sound)
    (hfail : fail ∉ f.leaves src base level (nested.leaves src)) (hkind : f.kind = .struct)
    (i : ℕ) (hi : i < f.instances src base) :
    0 < (wire (nested.leaves src (base + f.offset + i * f.elemSize))).length :=
  nested.wire_pos (hnst hkind).2 (hnst hkind).1.nonempty (fail_notMem_inner hok hkind hfail hi)

end

section
variable {src : ℕ → UInt8}

def NestedDecides (src : ℕ → UInt8) (S : Schema) (base : ℕ) : Prop :=
  ∀ level inBufLen s rest, 1 < level → inBufLen < 2 ^ 32 →
    s.bufSrc = wire (S.leaves src base) ++ rest →
    s.decodedBytes + (wire (S.leaves src base)).length ≤ inBufLen →
    inBufLen ≤ s.decodedBytes + (wire (S.leaves src base)).length + rest.length →
    (decodeLoop S.toEiArray level base inBufLen .start s).Decides
      (S.Decodes src base s.dataLenValue) fun s' =>
        s'.decodedBytes = s.decodedBytes + (wire (S.leaves src base)).length ∧
          s'.out.cells = puts s.out.cells (S.stores src base)

theorem NestedDecides.instanceDecides {S : Schema} {base level : ℕ} (h : NestedDecides src S base)
    (hlv : 0 < level) :
    InstanceDecides (decodeInstance S.toEiArray (level + 1)) (wire (S.leaves src base))
      (S.Decodes src base 0) (S.stores src base) base := by
  intro out rest inBufLen hle hsrc hlen
  apply (h (level + 1) inBufLen (.start out _) rest (by omega) hlen rfl
    (by simpa [Dec.start] using hle) (by simpa [Dec.start] using hsrc)).map
  rintro s ⟨hdec, hce⟩
  exact ⟨hdec.trans (zero_add _), hce⟩

theorem Field.present_of_mandatory {f : Field} (hflag : f.flag = none) (base : ℕ) : f.present src base = true := by
  rw [present, hflag]

/-- By induction on the table of the structure. -/
theorem nestedDecides (S : Schema) (hso : S.Sound) (hmand : S.Mandatory) (base : ℕ)
    (hfail : fail ∉ S.leaves src base) : NestedDecides src S base := by
  induction S generalizing base with
  | nil eoti =>
    intro level inBufLen s rest _ _ _ _ _
    exact ⟨trivial, rfl, rfl⟩
  | cons f nested next ihNested ihNext =>
    intro level inBufLen s rest hlv hlen hsrc hle hbuf
    obtain ⟨hok, -, -, hnst, hnext⟩ := hso
    obtain ⟨hflag, hmand⟩ := hmand
    have hpres := @Field.present_of_mandatory src f hflag base
    rw [Schema.leaves, mem_append, not_or] at hfail
    rw [Schema.leaves, ← f.leaves_level base _ hlv, wire_append] at *
    rw [append_assoc] at hsrc
    rw [length_append] at hle hbuf
    have hpos := instance_pos hok hnst hfail.1
    have hfi := wire_pos hok hfail.1 (by omega) hpos
    have hdcd : f.InnerDecides src base (decodeInstance nested.toEiArray (level + 1)) (nested.leaves src)
        (nested.Decodes src · 0) (nested.stores src) := fun hkind i hi =>
      (ihNested (hnst hkind).2 (hnst hkind).1.mandatory _
        (fail_notMem_inner hok hkind hfail.1 hi)).instanceDecides (show 0 < level by omega)
    rw [toEiArray, decodeLoop_entries, if_neg (by omega), Schema.Decodes, if_pos hpres]
    apply (field_decides hok (by omega) hlen hfail.1 hdcd hpos hsrc (by omega)
      (by rw [length_append]; omega) (by omega)).bind
    intro s' hs'
    rw [if_neg (by omega), ← hs'.dataLenValue]
    have hdec := hs'.decodedBytes
    apply (ihNext hnext hmand base hfail.2 level inBufLen s' rest hlv hlen hs'.bufSrc
      (by omega) (by omega)).mono Iff.rfl
    rintro s'' ⟨hdec', hce⟩
    rw [hdec', hce, hs'.cells, hdec, Schema.stores, if_pos hpres, puts_append, length_append, add_assoc]
    exact ⟨rfl, rfl⟩

end

section
variable {src : ℕ → UInt8} {len rounds : ℕ}

def tlvBytes (tlvs : List (UInt8 × List Leaf)) : List UInt8 :=
  tlvs.flatMap fun p => tlvHeader p.1 (wire p.2).length ++ wire p.2

section
variable (type : UInt8) (leaves : List Leaf) (rest : List (UInt8 × List Leaf))

theorem tlvBytes_cons :
    tlvBytes ((type, leaves) :: rest) = tlvHeader type (wire leaves).length ++ (wire leaves ++ tlvBytes rest) := by
  simp [tlvBytes]

theorem tlvBytes_cons_length :
    (tlvBytes ((type, leaves) :: rest)).length = TLV_HEADER_SIZE + (wire leaves).length + (tlvBytes rest).length := by
  simp [tlvBytes_cons, tlvHeader, TLV_HEADER_SIZE]
  omega

end

/-- The decoder of a message, in front of the fields of `T` that are left of those of `S`. -/
theorem decodeTlvs_decides {S : Schema} (T : Schema) (hlen : len < 2 ^ 32) (hso : T.Sound) (htag : T.Tagged)
    (hfind : ∀ type ∈ T.types, S.find type = T.find type) {s : Dec} {taken : List ℕ}
    (hrounds : len ≤ s.decodedBytes + rounds) (hfail : ∀ p ∈ T.tlvs src 0, fail ∉ p.2)
    (hsrc : s.bufSrc = tlvBytes (T.tlvs src 0)) (hdec : s.decodedBytes + (tlvBytes (T.tlvs src 0)).length = len) :
    (decodeTlvs S.toEiArray len rounds ⟨s, taken⟩).Decides (T.Decodes src 0 s.dataLenValue)
      fun r => r.dec.decodedBytes = len ∧ r.dec.out.cells = puts s.out.cells (T.stores src 0) := by
  induction T generalizing rounds s taken with
  | nil eoti =>
    have hend : s.decodedBytes = len := hdec
    have hr : decodeTlvs S.toEiArray len rounds ⟨s, taken⟩ = .ok ⟨s, taken⟩ := by
      cases rounds with
      | zero => rw [decodeTlvs, if_neg (by dsimp only; omega)]
      | succ rounds => rw [decodeTlvs, if_pos hend.ge]
    rw [hr]
    exact ⟨trivial, hend, rfl⟩
  | cons f nested next _ ihNext =>
    obtain ⟨hok, -, -, hnst, hnext⟩ := hso
    obtain ⟨htype, hsize, htag⟩ := htag
    have hfind' : ∀ type ∈ next.types, S.find type = next.find type := by
      intro type hmem
      have hne : f.tlvType ≠ type := fun heq => htype (heq ▸ hmem)
      rw [hfind type (mem_cons_of_mem _ hmem), find, if_neg hne]
    rw [tlvs] at hfail hsrc hdec
    rw [Schema.Decodes, Schema.stores]
    by_cases hpres : f.present src 0
    · rw [if_pos hpres] at hfail hsrc hdec
      rw [if_pos hpres, if_pos hpres]
      rw [forall_mem_cons] at hfail
      rw [tlvBytes_cons_length] at hdec
      have hpos := instance_pos hok hnst hfail.1
      have hdcd (hkind : f.kind = .struct) (i : ℕ) (hi : i < f.instances src 0) :=
        (nestedDecides nested (hnst hkind).2 (hnst hkind).1.mandatory _
          (fail_notMem_inner hok hkind hfail.1 hi)).instanceDecides one_pos
      have hvl := wire_le hok hfail.1 fun hkind i hi =>
        nested.wire_le (hnst hkind).2 (fail_notMem_inner hok hkind hfail.1 hi)
      have hhdr : TLV_HEADER_SIZE = 3 := rfl
      have hfst : S.find f.tlvType = some (f, nested, next) := by
        rw [hfind f.tlvType mem_cons_self, find, if_pos rfl]
      obtain ⟨rounds, rfl⟩ : ∃ n, rounds = n + 1 := exists_eq_succ_of_ne_zero (by omega)
      rw [tlvBytes_cons] at hsrc
      rw [decodeTlvs_header (by omega) (by omega) hsrc, findEi_toEiArray, hfst]
      dsimp only [Option.map_some]
      rw [decodeLoop_message]
      have hrun := @field_decides src f 1 0 len
        { s with
          bufSrc := wire (f.leaves src 0 1 (nested.leaves src)) ++ tlvBytes (next.tlvs src 0)
          decodedBytes := s.decodedBytes + TLV_HEADER_SIZE
          tlvLen := (wire (f.leaves src 0 1 (nested.leaves src))).length }
        (tlvBytes (next.tlvs src 0)) (nested.leaves src) (fun a => nested.Decodes src a 0)
        (nested.stores src) nested.toEiArray hok one_pos hlen hfail.1 hdcd hpos rfl
        (by dsimp only; omega) (by dsimp only; omega) (fun _ => rfl)
      apply hrun.bind
      intro s' hs'
      have hdec' := hs'.decodedBytes
      rw [← hs'.dataLenValue, puts_append]
      have hce := hs'.cells
      dsimp only at hdec' hce
      rw [← hce]
      exact ihNext hnext htag hfind' (by omega) hfail.2 hs'.bufSrc (by omega)
    · rw [if_neg hpres] at hfail hsrc hdec
      rw [if_neg hpres, if_neg hpres]
      exact ihNext hnext htag hfind' hrounds hfail hsrc hdec

end

end VendorKernel.Qmi
