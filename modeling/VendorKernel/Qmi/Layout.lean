import VendorKernel.Qmi.DecodeWire

/-! Where the decoder stores what: each store lies in the part of the structure that is meant for
it, so that no store overwrites another. -/
namespace VendorKernel.Qmi

open LittleEndian Overlay RingBuffer List Qmi.Field Nat

/-- The structure has room for the field: for as many instances, and for the end of a string. -/
def Field.Contained (f : Field) (src : ℕ → UInt8) (base : ℕ) (inner : ℕ → Prop) : Prop :=
  f.instances src base ≤ f.count.capacity ∧ f.DecodesElem src base inner

def Schema.Contained (src : ℕ → UInt8) : Schema → (base : ℕ) → Prop
  | nil _, _ => True
  | cons f nested next, base =>
    (f.present src base → f.Contained src base (nested.Contained src)) ∧ next.Contained src base

def Within (base : ℕ) (parts : List (ℕ × ℕ)) (store : ℕ × List UInt8) : Prop :=
  ∃ p ∈ parts, base + p.1 ≤ store.1 ∧ store.1 + store.2.length ≤ base + p.1 + p.2

section
variable {base j : ℕ} {parts parts' : List (ℕ × ℕ)} {store store' : ℕ × List UInt8}

section
variable (h : Within base parts store)
include h

theorem Within.mono (hsub : parts ⊆ parts') : Within base parts' store := by
  obtain ⟨p, hp, hin⟩ := h
  exact ⟨p, hsub hp, hin⟩

theorem Within.noOverlap (h' : Within base parts' store') (hap : ∀ p ∈ parts, ∀ q ∈ parts', Apart p q) :
    NoOverlap store store' := by
  obtain ⟨p, hp, hlow, hhigh⟩ := h
  obtain ⟨q, hq, hlow', hhigh'⟩ := h'
  have hpq := hap p hp q hq
  unfold Apart at hpq
  unfold NoOverlap
  omega

theorem Within.outside {q : ℕ × ℕ} (hap : ∀ p ∈ parts, Apart p q) (hj : j < q.2) :
    base + q.1 + j < store.1 ∨ store.1 + store.2.length ≤ base + q.1 + j := by
  obtain ⟨p, hp, hlow, hhigh⟩ := h
  have hpq := hap p hp
  unfold Apart at hpq
  omega

end

end

namespace Field

variable {f : Field} {src : ℕ → UInt8} {base : ℕ} {inner : ℕ → List (ℕ × List UInt8)} {accepts : ℕ → Prop}

def flagParts (f : Field) : List (ℕ × ℕ) := f.flag.toList.map (·, 1)

def lenParts (f : Field) : List (ℕ × ℕ) :=
  match f.count with
  | .var lenOffset _ _ => [(lenOffset, 4)]
  | _ => []

def elemParts (f : Field) : List (ℕ × ℕ) := [(f.offset, f.elemLen * f.elemSize)]

theorem parts_eq (f : Field) : f.parts = f.flagParts ++ f.lenParts ++ f.elemParts := rfl

theorem flagStores_within : ∀ st ∈ f.flagStores base, Within base f.flagParts st := by
  unfold flagStores flagParts
  cases f.flag with
  | none => simp
  | some flagOffset => simp [Within]

theorem lenStores_within : ∀ st ∈ f.lenStores src base, Within base f.lenParts st := by
  unfold lenStores lenParts
  cases f.count with
  | one => simp
  | static n => simp
  | var lenOffset size max => simp [Within]

def InnerWithin (f : Field) (src : ℕ → UInt8) (base : ℕ) (inner : ℕ → List (ℕ × List UInt8)) :
    Prop :=
  ∀ i < f.instances src base, ∀ st ∈ inner (base + f.offset + i * f.elemSize),
    base + f.offset + i * f.elemSize ≤ st.1 ∧ st.1 + st.2.length ≤ base + f.offset + i * f.elemSize + f.elemSize

theorem innerWithin {parts : List (ℕ × ℕ)} (hsize : ∀ p ∈ parts, p.1 + p.2 ≤ f.elemSize)
    (h : ∀ i < f.instances src base, ∀ st ∈ inner (base + f.offset + i * f.elemSize),
      Within (base + f.offset + i * f.elemSize) parts st) : f.InnerWithin src base inner := by
  intro i hi st hst
  obtain ⟨p, hp, hlow, hhigh⟩ := h i hi st hst
  have hend := hsize p hp
  omega

section
variable (hok : f.Ok) (h : f.Contained src base accepts) (hinn : f.kind = .struct → f.InnerWithin src base inner)
include hok h hinn

theorem elemStores_within : ∀ st ∈ f.elemStores src base inner, Within base f.elemParts st := by
  obtain ⟨hroom, hterm, -⟩ := h
  intro st hst
  refine ⟨(f.offset, f.elemLen * f.elemSize), mem_singleton_self _, ?_⟩
  cases hkind : f.kind with rw [elemStores, hkind] at hst
  | basic type =>
    obtain rfl := mem_singleton.mp hst
    have hlen : f.elemLen = f.count.capacity := by rw [elemLen, hkind]
    have hle := mul_le_mul_right f.elemSize hroom
    rw [slice_length, hlen]
    omega
  | string max =>
    obtain rfl := mem_singleton.mp hst
    have hlen : f.elemLen = max := by rw [elemLen, hkind]
    have hsize := (hok.string_single (by rw [hkind]; rfl)).2.1
    rw [hkind] at hterm
    change strlen src (base + f.offset) (max + 1) < max at hterm
    rw [length_append, slice_length, length_singleton, hsize]
    omega
  | struct =>
    obtain ⟨i, hi, hmem⟩ := mem_instancesAt.mp hst
    obtain ⟨hlow, hhigh⟩ := hinn hkind i hi st hmem
    have hlen : f.elemLen = f.count.capacity := by rw [elemLen, hkind]
    have hle : (i + 1) * f.elemSize ≤ f.elemLen * f.elemSize :=
      mul_le_mul_right _ (by omega)
    rw [succ_mul] at hle
    omega

theorem stores_within : ∀ st ∈ f.stores src base inner, Within base f.parts st := by
  intro st hst
  rw [parts_eq]
  rcases mem_append.mp hst with hst | hst
  · rcases mem_append.mp hst with hst | hst
    · exact (flagStores_within st hst).mono (by simp)
    · exact (lenStores_within st hst).mono (by simp)
  · exact (elemStores_within hok h hinn st hst).mono (by simp)

end

end Field

variable {inner : ℕ → List (ℕ × List UInt8)}

theorem instancesAt_noOverlap {size n a : ℕ}
    (hwin : ∀ i < n, ∀ st ∈ inner (a + i * size), a + i * size ≤ st.1 ∧ st.1 + st.2.length ≤ a + i * size + size)
    (hinn : ∀ i < n, (inner (a + i * size)).Pairwise NoOverlap) :
    (instancesAt inner size n a).Pairwise NoOverlap := by
  induction n generalizing a with
  | zero => exact List.Pairwise.nil
  | succ n ih =>
    have hsh (i : ℕ) : a + size + i * size = a + (i + 1) * size := by
      rw [succ_mul]
      omega
    have hfst := hwin 0 (succ_pos n)
    have hfst' := hinn 0 (succ_pos n)
    rw [zero_mul] at hfst hfst'
    rw [instancesAt, pairwise_append]
    refine ⟨hfst', ih ?_ ?_, ?_⟩
    · intro i hi
      rw [hsh]
      exact hwin (i + 1) (succ_lt_succ hi)
    · intro i hi
      rw [hsh]
      exact hinn (i + 1) (succ_lt_succ hi)
    · intro st hst st' hst'
      obtain ⟨i, hi, hmem⟩ := mem_instancesAt.mp hst'
      rw [hsh] at hmem
      have hnext := (hwin (i + 1) (succ_lt_succ hi) st' hmem).1
      have hend := (hfst st hst).2
      rw [succ_mul] at hnext
      exact .inl (by omega)

theorem Field.stores_noOverlap {f : Field} {src : ℕ → UInt8} {base : ℕ} {accepts : ℕ → Prop} (hok : f.Ok)
    (hps : f.parts.Pairwise Apart) (h : f.Contained src base accepts)
    (hwin : f.kind = .struct → f.InnerWithin src base inner)
    (hinn : f.kind = .struct → ∀ i < f.instances src base,
      (inner (base + f.offset + i * f.elemSize)).Pairwise NoOverlap) :
    (f.stores src base inner).Pairwise NoOverlap := by
  rw [parts_eq, pairwise_append, pairwise_append] at hps
  obtain ⟨⟨-, -, hflagLen⟩, -, helem⟩ := hps
  rw [stores, pairwise_append, pairwise_append]
  refine ⟨⟨?_, ?_, ?_⟩, ?_, ?_⟩
  · unfold flagStores
    split <;> simp
  · unfold lenStores
    split <;> simp
  · intro st hst st' hst'
    exact (flagStores_within st hst).noOverlap (lenStores_within st' hst') hflagLen
  · unfold elemStores
    cases hkind : f.kind with
    | basic type => simp
    | string max => simp
    | struct => exact instancesAt_noOverlap (hwin hkind) (hinn hkind)
  · intro st hst st' hst'
    have hst' := elemStores_within hok h hwin st' hst'
    rcases mem_append.mp hst with hst | hst
    · exact ((flagStores_within st hst).mono (by simp)).noOverlap hst' helem
    · exact ((lenStores_within st hst).mono (by simp)).noOverlap hst' helem

section
variable {src : ℕ → UInt8} {base : ℕ}

theorem Schema.stores_within (S : Schema) (hso : S.Sound) (h : S.Contained src base) :
    ∀ st ∈ S.stores src base, Within base S.parts st := by
  induction S generalizing base with
  | nil eoti => exact fun st hst => absurd hst not_mem_nil
  | cons f nested next ihNested ihNext =>
    obtain ⟨hok, -, -, hnst, hnext⟩ := hso
    intro st hst
    rcases mem_append.mp hst with hst | hst
    · by_cases hpres : f.present src base
      · have hcont := h.1 hpres
        rw [if_pos hpres] at hst
        refine (stores_within hok hcont ?_ st hst).mono (subset_append_left _ _)
        intro hkind
        apply innerWithin (hnst hkind).1.within
        exact fun i hi => ihNested (hnst hkind).2 (hcont.2.2 hkind i hi)
      · rw [if_neg hpres] at hst
        cases hst
    · exact (ihNext hnext h.2 st hst).mono (subset_append_right _ _)

theorem Schema.innerWithin {f : Field} {nested : Schema}
    (hnst : f.kind = .struct → nested.Nestable f.elemSize ∧ nested.Sound)
    (h : f.Contained src base (nested.Contained src)) (hkind : f.kind = .struct) :
    f.InnerWithin src base (nested.stores src) :=
  Field.innerWithin (hnst hkind).1.within fun i hi =>
    nested.stores_within (hnst hkind).2 (h.2.2 hkind i hi)

theorem Schema.head_within {f : Field} {nested next : Schema} (hso : (cons f nested next).Sound)
    (h : (cons f nested next).Contained src base) :
    ∀ st ∈ if f.present src base then f.stores src base (nested.stores src) else [], Within base f.parts st := by
  obtain ⟨hok, -, -, hnst, -⟩ := hso
  intro st hst
  by_cases hpres : f.present src base
  · rw [if_pos hpres] at hst
    exact Field.stores_within hok (h.1 hpres) (innerWithin hnst (h.1 hpres)) st hst
  · rw [if_neg hpres] at hst
    cases hst

/-- No store undoes another. -/
theorem Schema.stores_noOverlap (S : Schema) (hso : S.Sound) (h : S.Contained src base) :
    (S.stores src base).Pairwise NoOverlap := by
  induction S generalizing base with
  | nil eoti => exact List.Pairwise.nil
  | cons f nested next ihNested ihNext =>
    have hhead := head_within hso h
    obtain ⟨hok, hps, hap, hnst, hnext⟩ := hso
    rw [stores, pairwise_append]
    refine ⟨?_, ihNext hnext h.2, ?_⟩
    · by_cases hpres : f.present src base
      · have hcont := h.1 hpres
        rw [if_pos hpres]
        apply stores_noOverlap hok hps hcont (innerWithin hnst hcont)
        intro hkind i hi
        exact ihNested (hnst hkind).2 (hcont.2.2 hkind i hi)
      · rw [if_neg hpres]
        exact List.Pairwise.nil
    · intro st hst st' hst'
      exact (hhead st hst).noOverlap (next.stores_within hnext h.2 st' hst') hap

end

end VendorKernel.Qmi
