import VendorKernel.Iommu.LpaeMapped
import VendorKernel.Iommu.LpaeSizes
import VendorKernel.Lib.Interval

/-! What `qcom_arm_lpae_map_sg` maps: the choice of a page size, the fast path over the last table
and the runs of segments. -/
namespace VendorKernel.Iommu.Lpae

open List Config Option Nat Function

/-! ### The page size of a round -/

def Fits (iova paddr size s : ℕ) : Prop := s ≤ size ∧ s ∣ iova ∧ s ∣ paddr

section
variable {d : Config} {iova paddr size : ℕ}

def better (iova paddr size best s : ℕ) : ℕ :=
  if s ≤ size ∧ s ∣ iova ∧ s ∣ paddr ∧ best < s then s else best

theorem better_cases (iova paddr size best s : ℕ) : better iova paddr size best s = best ∨
    better iova paddr size best s = s ∧ Fits iova paddr size s := by
  unfold better
  split_ifs with h
  · exact .inr ⟨rfl, h.1, h.2.1, h.2.2.1⟩
  · exact .inl rfl

theorem le_better (iova paddr size best s : ℕ) : best ≤ better iova paddr size best s ∧
    (Fits iova paddr size s → s ≤ better iova paddr size best s) := by
  unfold better
  split_ifs with h
  · exact ⟨le_of_lt h.2.2.2, fun _ => le_refl s⟩
  · refine ⟨le_refl best, fun ⟨hle, hiova, hpa⟩ => ?_⟩
    by_contra hlt
    exact h ⟨hle, hiova, hpa, not_le.mp hlt⟩

theorem foldl_better_cases (l : List ℕ) : ∀ b, l.foldl (better iova paddr size) b = b ∨
    l.foldl (better iova paddr size) b ∈ l ∧ Fits iova paddr size (l.foldl (better iova paddr size) b) := by
  induction l with
  | nil => exact fun _ => .inl rfl
  | cons a l ih =>
    intro b
    rw [foldl_cons]
    rcases ih (better iova paddr size b a) with h | ⟨hmem, hfits⟩
    · rw [h]
      rcases better_cases iova paddr size b a with hb | ⟨ha, hfits⟩
      · exact .inl hb
      · rw [ha]
        exact .inr ⟨mem_cons_self, hfits⟩
    · exact .inr ⟨mem_cons_of_mem a hmem, hfits⟩

theorem le_foldl_better (l : List ℕ) : ∀ b, b ≤ l.foldl (better iova paddr size) b ∧
    ∀ s ∈ l, Fits iova paddr size s → s ≤ l.foldl (better iova paddr size) b := by
  induction l with
  | nil => exact fun b => ⟨le_refl b, nofun⟩
  | cons a l ih =>
    intro b
    obtain ⟨hle, hmem⟩ := ih (better iova paddr size b a)
    obtain ⟨hb, ha⟩ := le_better iova paddr size b a
    refine ⟨le_trans hb hle, fun s hs hfits => ?_⟩
    rcases mem_cons.mp hs with rfl | hs
    · exact le_trans (ha hfits) hle
    · exact hmem s hs hfits

theorem blockSize_zero_mem (d : Config) : d.blockSize 0 ∈ d.pageSizes := by
  have hmem : d.blockSize 0 ∈ d.granule.pageSizes := by
    unfold blockSize bitsPerLevel
    rcases d.granule_cases with hg | hg | hg <;> simp [hg, Granule.pgShift, Granule.pageSizes]
  unfold pageSizes
  split_ifs
  · exact mem_append_left _ hmem
  · exact hmem

theorem armLpaePgsize_spec (hsize : d.blockSize 0 ≤ size) (hiova : d.blockSize 0 ∣ iova)
    (hpa : d.blockSize 0 ∣ paddr) : armLpaePgsize d iova paddr size ∈ d.pageSizes ∧
      Fits iova paddr size (armLpaePgsize d iova paddr size) := by
  have hge := (le_foldl_better d.pageSizes 0).2 _ (blockSize_zero_mem d) ⟨hsize, hiova, hpa⟩
  refine (foldl_better_cases d.pageSizes 0).resolve_left fun h0 => ?_
  rw [h0] at hge
  exact absurd (d.blockSize_pos 0) (not_lt.mpr hge)

end

/-! ### The fast path -/

def Reaches (d : Config) (iova : ℕ) : (h bits : ℕ) → Table h → Prop
  | 0, _, _ => True
  | h + 1, bits, t => ∃ cnt entries, t (d.lvlIdx bits (h + 1) iova) = .table cnt entries ∧
      Reaches d iova h d.bitsPerLevel entries

section
variable {d : Config} {iova paddr prot n pgtable h bits size pgcount : ℕ}

section
variable (hsame : pgtable / d.blockSize 1 = iova / d.blockSize 1)
include hsame

theorem lvlIdx_congr : d.lvlIdx bits (h + 1) pgtable = d.lvlIdx bits (h + 1) iova := by
  obtain ⟨c, hc⟩ := blockSize_dvd (Nat.succ_le_succ (Nat.zero_le h))
  rw [lvlIdx, lvlIdx, Radix.index, Radix.index, hc, ← Nat.div_div_eq_div_mul, ← Nat.div_div_eq_div_mul, hsame]

theorem reaches_congr : ∀ {h bits : ℕ} {t : Table h}, Reaches d pgtable h bits t ↔ Reaches d iova h bits t := by
  intro h
  induction h with
  | zero => exact Iff.rfl
  | succ h ih =>
    intro bits t
    simp only [Reaches, lvlIdx_congr hsame, ih]

theorem armLpaeMapState_congr :
    ∀ (h bits : ℕ) (t : Table h), armLpaeMapState d pgtable iova paddr prot n h bits t =
      armLpaeMapState d iova iova paddr prot n h bits t := by
  intro h
  induction h with
  | zero => exact fun _ _ => rfl
  | succ h ih =>
    intro bits t
    simp only [armLpaeMapState, lvlIdx_congr hsame, ih]

end

theorem MapGoes.reaches {ms cont : Bool} {t : Table h} {r : MapResult h}
    (hr : MapGoes d ms iova paddr prot bits size pgcount cont t r) (hret : r.ret = 0) (hlvl : r.lvl = 0) :
    Reaches d iova h bits r.table := by
  induction hr with
  | failed hne => exact absurd hret hne
  | leaves =>
    subst hlvl
    trivial
  | down _ _ _ ih => exact ⟨_, _, update_self .., ih hret hlvl⟩

theorem MapGoes.mapped_eq {cont : Bool} {t : Table h} {r : MapResult h}
    (hr : MapGoes d true iova paddr prot bits size pgcount cont t r) (hret : r.ret = 0) :
    r.mapped = size * pgcount := by
  induction hr with
  | failed hne => exact absurd hret hne
  | leaves hn =>
    subst hn
    rfl
  | down _ _ _ ih =>
    rw [← mapNext_mul]
    exact ih hret

theorem table_end_le_block (h : ℕ) : (iova / d.blockSize 1 + 1) * d.blockSize 1 ≤
    (iova / d.blockSize (h + 1) + 1) * d.blockSize (h + 1) := by
  have hdvd : d.blockSize 1 ∣ d.blockSize (h + 1) :=
    blockSize_dvd (succ_le_succ (zero_le h))
  have hstep := add_le_span (dvd_mul_left _ (iova / d.blockSize 1)) hdvd (d.blockSize_pos (h + 1))
  have hle : iova / d.blockSize 1 * d.blockSize 1 / d.blockSize (h + 1) ≤
      iova / d.blockSize (h + 1) := Nat.div_le_div_right (Nat.div_mul_le_self ..)
  rw [Nat.succ_mul]
  exact Nat.le_trans hstep (Nat.mul_le_mul_right _ (Nat.succ_le_succ hle))

theorem armLpaeMapState_spec (prot : ℕ) (hiova : d.blockSize 0 ∣ iova) (hpa : d.blockSize 0 ∣ paddr)
    (hle : paddr + n * d.blockSize 0 ≤ 2 ^ d.granule.maxAddrBits)
    (hfit : iova + n * d.blockSize 0 ≤ (iova / d.blockSize 1 + 1) * d.blockSize 1) :
    ∀ (h bits : ℕ) (t : Table h), (h = 0 → bits = d.bitsPerLevel) → Reaches d iova h bits t →
    GoodTable d t → ∃ r, armLpaeMapState d iova iova paddr prot n h bits t = some r ∧
      Reaches d iova h bits r.table ∧ GoodTable d r.table ∧
      (h = 0 → live d r.table = live d t + r.added) ∧
      ∀ x, x / d.span bits h = iova / d.span bits h → walk d bits r.table x =
        if iova ≤ x ∧ x < iova + (if r.ret = 0 then n * d.blockSize 0 else 0) then
          some (paddr + (x - iova))
        else walk d bits t x := by
  intro h
  induction h with
  | zero =>
    intro bits t hbits _ hg
    obtain rfl := hbits rfl
    rw [armLpaeMapState]
    rcases initPte_cases d t (d.lvlIdx d.bitsPerLevel 0 iova) n paddr prot false with hnone | ⟨hzero, hsome⟩
    · rw [hnone]
      refine ⟨_, rfl, trivial, hg, fun _ => rfl, fun x _ => ?_⟩
      rw [if_neg (by simp [eexist])]
    · rw [hsome]
      refine ⟨_, rfl, trivial, good_initPtes hg hpa hle, fun _ => ?_, fun x hx => ?_⟩
      · refine live_initPtes hzero ((run_le_span_iff hiova).mp ?_)
        rwa [span_bitsPerLevel]
      · exact walk_initPtes hiova hpa hle hx
  | succ h ih =>
    rintro bits t - ⟨cnt, entries, he, hrch⟩ hg
    obtain ⟨hcnt, hgood⟩ := good_table_iff.mp (he ▸ hg (d.lvlIdx bits (h + 1) iova))
    obtain ⟨r, heq, hrch', hgood', hlive, hwalk⟩ :=
      ih d.bitsPerLevel entries (fun _ => rfl) hrch hgood
    rw [span_bitsPerLevel] at hwalk
    simp only [armLpaeMapState, he, heq, map_some]
    refine ⟨_, rfl, ⟨_, _, update_self .., hrch'⟩,
      hg.update (good_table_iff.mpr ⟨fun h0 => ?_, hgood'⟩) _, nofun, fun x hx => ?_⟩
    · rw [hcnt h0, hlive h0, mod_add_mod]
    · refine walk_update_block (v := fun x => some (paddr + (x - iova))) ?_ (fun y hy => ?_) hx
      · refine Nat.le_trans (Nat.add_le_add_left ?_ iova) (Nat.le_trans hfit (table_end_le_block h))
        split_ifs
        · exact Nat.le_refl _
        · exact Nat.zero_le _
      · rw [walk_table, hwalk y hy, he, walk_table]

end

/-! ### The loops -/

/-- The new root translates the interval by `v` and everything else as before. -/
structure Maps (d : Config) (lo hi : ℕ) (v : ℕ → Option ℕ) (t t' : Table d.height) : Prop where
  walk : ∀ x < 2 ^ d.ias, walk d d.pgdBits t' x = replaceOn lo hi v (walk d d.pgdBits t) x
  good : GoodTable d t'

def linear (iova paddr x : ℕ) : Option ℕ := some (paddr + (x - iova))

namespace Maps
variable {d : Config} {lo mid hi : ℕ} {v w : ℕ → Option ℕ} {t t' t'' : Table d.height}

theorem none (hg : GoodTable d t) (h : hi ≤ lo) : Maps d lo hi v t t where
  walk x _ := by rw [replaceOn_empty h]
  good := hg

theorem congr (hm : Maps d lo hi v t t') (hv : ∀ x, lo ≤ x → x < hi → v x = w x) : Maps d lo hi w t t' where
  walk x hx := by rw [← replaceOn_congr hv, hm.walk x hx]
  good := hm.good

theorem append (h₁ : Maps d lo mid v t t') (h₂ : Maps d mid hi v t' t'') (hlo : lo ≤ mid)
    (hhi : mid ≤ hi) : Maps d lo hi v t t'' where
  walk x hx := by
    rw [h₂.walk x hx, ← replaceOn_append hlo hhi]
    by_cases hx' : mid ≤ x ∧ x < hi
    · rw [replaceOn_in hx'.1 hx'.2, replaceOn_in hx'.1 hx'.2]
    · rw [replaceOn_out hx', replaceOn_out hx', h₁.walk x hx]
  good := h₂.good

end Maps

/-- The map state, if there is one, is about the last-level table of an address before `iova`. -/
def MsOk (d : Config) (root : Table d.height) (ms : Option MapState) (iova : ℕ) : Prop :=
  ∀ m ∈ ms, m.iovaEnd = (m.pgtable / d.blockSize 1 + 1) * d.blockSize 1 ∧ m.pgtable < iova ∧
    Reaches d m.pgtable d.height d.pgdBits root

section
variable {d : Config} {alloc : ℕ → Bool} {prot iova paddr pgsize size x y ret a n k : ℕ} {s s' : SgState d.height}

theorem span_congr_root (hx : x < 2 ^ d.ias) (hy : y < 2 ^ d.ias) :
    x / d.span d.pgdBits d.height = y / d.span d.pgdBits d.height := by
  rw [d.span_root, div_eq_of_lt hx, div_eq_of_lt hy]

structure RoundOk (d : Config) (iova paddr pgsize : ℕ) : Prop where
  supported : pgsize ∈ d.pageSizes
  iova_dvd : pgsize ∣ iova
  paddr_dvd : pgsize ∣ paddr
  iova_le : iova + pgsize ≤ 2 ^ d.ias
  paddr_le : paddr + pgsize ≤ 2 ^ d.granule.maxAddrBits

section
variable (hr : RoundOk d iova paddr pgsize)
include hr

theorem mapState_round (prot : ℕ) (hg : GoodTable d s.root) {m : MapState}
    (hm : m.iovaEnd = (m.pgtable / d.blockSize 1 + 1) * d.blockSize 1) (hlt : m.pgtable < iova)
    (hrch : Reaches d m.pgtable d.height d.pgdBits s.root) (hend : iova < m.iovaEnd) :
    ∃ r, armLpaeMapState d m.pgtable iova paddr prot (d.checkAndSetNumCont pgsize 0) d.height
        d.pgdBits s.root = some r ∧
      Maps d iova (iova + if r.ret = 0 then pgsize else 0) (linear iova paddr) s.root r.table ∧
      Reaches d m.pgtable d.height d.pgdBits r.table := by
  have hsame : m.pgtable / d.blockSize 1 = iova / d.blockSize 1 :=
    (Radix.div_eq_of_lt_end (le_of_lt hlt) (hm ▸ hend)).symm
  -- `iova` is inside the block of the table, so the size is that of a page or of a group of pages
  have hins : ¬d.blockSize 1 ∣ iova := by
    intro hdvd
    have hini := Nat.div_mul_le_self m.pgtable (d.blockSize 1)
    rw [hsame, Nat.div_mul_cancel hdvd] at hini
    omega
  obtain ⟨k, -, hk⟩ := supported_matches hr.supported
  have hk0 : k = 0 := by
    by_contra hne
    exact hins (Nat.dvd_trans (blockSize_dvd (Nat.pos_of_ne_zero hne)) (blockSize_dvd_of_matches hk hr.iova_dvd))
  subst hk0
  have hsize := matchesLevel_eq hk
  have hdvd : pgsize ∣ d.blockSize 1 := by
    rw [hsize, blockSize_succ]
    exact mul_dvd_mul_right (checkAndSetNumCont_dvd ..) _
  have hfit := add_le_span hr.iova_dvd hdvd (d.blockSize_pos 1)
  have hle := hr.paddr_le
  rw [hsize] at hfit hle
  obtain ⟨r, heq, hrch', hgood, -, hwalk⟩ := armLpaeMapState_spec prot
    (blockSize_dvd_of_matches hk hr.iova_dvd) (blockSize_dvd_of_matches hk hr.paddr_dvd) hle hfit
    d.height d.pgdBits s.root (fun h0 => absurd (one_le_height d) (by omega))
    ((reaches_congr hsame).mp hrch) hg
  rw [← hsize] at hwalk
  have hpos := supported_pos hr.supported
  have hiova := hr.iova_le
  refine ⟨r, by rw [armLpaeMapState_congr hsame, heq], ⟨fun x hx => ?_, hgood⟩,
    (reaches_congr hsame).mpr hrch'⟩
  exact hwalk x (span_congr_root hx (by omega))

theorem map_round {r : MapResult d.height} (hg : GoodTable d s.root)
    (hgoes : MapGoes d true iova paddr prot d.pgdBits pgsize 1 false s.root r) :
    Maps d iova (iova + if r.ret = 0 then pgsize else 0) (linear iova paddr) s.root r.table := by
  have hfit : FitsTable d true iova d.height d.pgdBits pgsize 1 :=
    ⟨by rw [mul_one]; exact hr.iova_dvd, .inl rfl⟩
  have hle : paddr + pgsize * 1 ≤ 2 ^ d.granule.maxAddrBits := by
    rw [mul_one]
    exact hr.paddr_le
  have hpos := supported_pos hr.supported
  have hiova := hr.iova_le
  refine ⟨fun x hx => ?_, (hgoes.good hr.iova_dvd hr.paddr_dvd hle hfit hg).1⟩
  split_ifs with hret
  · have hwalk := (hgoes.walks hr.iova_dvd hr.paddr_dvd hle hfit hret).2 x (span_congr_root hx (by omega))
    rw [hgoes.mapped_eq hret, mul_one] at hwalk
    exact hwalk
  · rw [add_zero, replaceOn_empty (le_refl _)]
    exact hgoes.unchanged hret x

/-- A round maps its page, with the map state or without. -/
theorem mapRound_maps (alloc : ℕ → Bool) (prot : ℕ) (hg : GoodTable d s.root) (hms : MsOk d s.root s.ms iova) :
    ∃ ret s', mapRound d alloc prot iova paddr pgsize s = some (ret, s') ∧
      s'.mapped = s.mapped + pgsize ∧
      Maps d iova (iova + if ret = 0 then pgsize else 0) (linear iova paddr) s.root s'.root ∧
      (ret = 0 → MsOk d s'.root s'.ms (iova + pgsize)) := by
  have hpos := supported_pos hr.supported
  unfold mapRound
  cases hfilter : s.ms.filter (fun ms => decide (iova < ms.iovaEnd)) with
  | some m =>
    obtain ⟨hsome, hend⟩ := filter_eq_some_iff.mp hfilter
    obtain ⟨hm, hlt, hrch⟩ := hms m hsome
    obtain ⟨r, heq, hmaps, hrch'⟩ :=
      mapState_round hr prot hg hm hlt hrch (of_decide_eq_true hend)
    simp only [heq, map_some]
    refine ⟨_, _, rfl, rfl, hmaps, fun _ m' hm' => ?_⟩
    obtain rfl : m = m' := some.inj (hsome.symm.trans hm')
    exact ⟨hm, by omega, hrch'⟩
  | none =>
    refine ⟨_, _, rfl, rfl, map_round hr hg (armLpaeMap_goes ..), fun hret m hm => ?_⟩
    split_ifs at hm with hlvl
    · obtain rfl := mem_some_iff.mp hm
      exact ⟨rfl, Nat.lt_add_of_pos_right hpos, (armLpaeMap_goes ..).reaches hret hlvl⟩
    · cases hm

end

structure RunMapped (d : Config) (iova paddr size len : ℕ) (s : SgState d.height) (ret : ℕ)
    (s' : SgState d.height) : Prop where
  len_le : len ≤ size
  len_eq : ret = 0 → len = size
  mapped : s'.mapped = s.mapped + len
  maps : Maps d iova (iova + len) (linear iova paddr) s.root s'.root
  ms : ret = 0 → MsOk d s'.root s'.ms (iova + len)

theorem RunMapped.nothing (hret : ret = 0 → size = 0) (hmap : s'.mapped = s.mapped)
    (hmaps : Maps d iova iova (linear iova paddr) s.root s'.root) (hms : ret = 0 → MsOk d s'.root s'.ms iova) :
    RunMapped d iova paddr size 0 s ret s' where
  len_le := zero_le size
  len_eq h := (hret h).symm
  mapped := hmap
  maps := hmaps
  ms := hms

/-- By induction on the rounds, with what is mapped so far. -/
theorem mapLoop_maps (rounds : ℕ) : ∀ (iova paddr size : ℕ) (s : SgState d.height),
    size ≤ rounds * d.blockSize 0 → d.blockSize 0 ∣ iova → d.blockSize 0 ∣ paddr →
    d.blockSize 0 ∣ size → iova + size ≤ 2 ^ d.ias →
    paddr + size ≤ 2 ^ d.granule.maxAddrBits → GoodTable d s.root → MsOk d s.root s.ms iova →
    ∃ ret s' len, mapLoop d alloc prot rounds iova paddr size s = some (ret, s') ∧
      RunMapped d iova paddr size len s ret s' := by
  induction rounds with
  | zero =>
    intro iova paddr size s hsize _ _ _ _ _ hg hms
    exact ⟨0, s, 0, rfl, .nothing (fun _ => by omega) rfl (.none hg (le_refl _)) fun _ => hms⟩
  | succ rounds ih =>
    intro iova paddr size s hsize hiova hpa hdvd hile hple hg hms
    rw [mapLoop]
    by_cases h0 : size = 0
    · rw [if_pos h0]
      exact ⟨0, s, 0, rfl, .nothing (fun _ => h0) rfl (.none hg (le_refl _)) fun _ => hms⟩
    rw [if_neg h0]
    obtain ⟨hmem, hle, hi, hp⟩ :=
      armLpaePgsize_spec (Nat.le_of_dvd (Nat.pos_of_ne_zero h0) hdvd) hiova hpa
    dsimp only
    generalize armLpaePgsize d iova paddr size = pgsize at hmem hle hi hp
    obtain ⟨ret, s', heq, hmap, hmaps, hms'⟩ :=
      mapRound_maps ⟨hmem, hi, hp, by omega, by omega⟩ alloc prot hg hms
    rw [heq]
    dsimp only
    by_cases hret : ret = 0
    · -- the round has mapped its size, and the others go on behind it
      rw [if_neg (not_not.mpr hret)]
      rw [if_pos hret] at hmaps
      have hpage := blockSize_zero_dvd hmem
      have hge := le_of_dvd (supported_pos hmem) hpage
      rw [succ_mul] at hsize
      obtain ⟨ret', s'', len, heq', hrun⟩ :=
        ih (iova + pgsize) (paddr + pgsize) (size - pgsize) s' (by omega)
          (Nat.dvd_add hiova hpage) (Nat.dvd_add hpa hpage) (Nat.dvd_sub hdvd hpage)
          (by omega) (by omega) hmaps.good (hms' hret)
      have hlen := hrun.len_le
      have hmap' := hrun.mapped
      refine ⟨ret', s'', pgsize + len, heq', by omega, fun h => ?_, by omega, ?_, fun h => ?_⟩
      · have := hrun.len_eq h
        omega
      · rw [← add_assoc]
        refine hmaps.append (hrun.maps.congr fun x hx _ => ?_) (by omega) (by omega)
        rw [linear]
        congr 1
        omega
      · rw [← add_assoc]
        exact hrun.ms h
    · rw [if_pos hret]
      rw [if_neg hret] at hmaps
      exact ⟨ret, _, 0, rfl, .nothing (fun h => absurd h hret) rfl hmaps fun h => absurd h hret⟩

theorem add_le_of_shiftRight (hn : 0 < n) (h : (a + n - 1) >>> k = 0) : a + n ≤ 2 ^ k := by
  rw [Nat.shiftRight_eq_div_pow, Nat.div_eq_zero_iff] at h
  have := Nat.two_pow_pos k
  omega

theorem mapByPgsize_maps (alloc : ℕ → Bool) (paddr : ℕ) (hacc : hasAccess prot = true) (hsize : 0 < size)
    (hg : GoodTable d s.root) (hms : MsOk d s.root s.ms iova) :
    ∃ ret s' len, mapByPgsize d alloc iova paddr size prot s = some (ret, s') ∧
      RunMapped d iova paddr size len s ret s' := by
  have hfail : ∀ ret, ret ≠ 0 → RunMapped d iova paddr size 0 s ret s := fun ret hret =>
    .nothing (fun h => absurd h hret) rfl (.none hg (le_refl _)) fun h => absurd h hret
  unfold mapByPgsize
  by_cases hali : d.blockSize 0 ∣ iova ∧ d.blockSize 0 ∣ paddr ∧ d.blockSize 0 ∣ size
  swap
  · rw [if_pos hali]
    exact ⟨einval, s, 0, rfl, hfail einval (by decide)⟩
  rw [if_neg (not_not.mpr hali)]
  obtain ⟨hiova, hpa, hdvd⟩ := hali
  by_cases hrg : (iova + size - 1) >>> d.ias ≠ 0 ∨ (paddr + size - 1) >>> d.oas ≠ 0
  · rw [if_pos hrg]
    exact ⟨erange, s, 0, rfl, hfail erange (by decide)⟩
  rw [if_neg hrg, if_neg (by simp [hacc])]
  rw [not_or, not_not, not_not] at hrg
  refine mapLoop_maps _ iova paddr size s ?_ hiova hpa hdvd (add_le_of_shiftRight hsize hrg.1) ?_ hg hms
  · rw [Nat.div_mul_cancel hdvd]
  · exact Nat.le_trans (add_le_of_shiftRight hsize hrg.2) (Nat.pow_le_pow_right (by decide) d.oas_le)

end

/-! ### The scatter list -/

def sgPhys : List (ℕ × ℕ) → ℕ → Option ℕ
  | [], _ => none
  | (phys, length) :: rest, k => if k < length then some (phys + k) else sgPhys rest (k - length)

section
variable {d : Config} {prot iova start len phys length k : ℕ} {v : ℕ → Option ℕ} {s : SgState d.height}

variable (alloc : ℕ → Bool)

theorem sgPhys_head {rest : List (ℕ × ℕ)} (hk : k < length) :
    sgPhys ((phys, length) :: rest) k = some (phys + k) := if_pos hk

theorem sgPhys_tail (phys length k : ℕ) (rest : List (ℕ × ℕ)) :
    sgPhys ((phys, length) :: rest) (length + k) = sgPhys rest k := by
  rw [sgPhys, if_neg (by omega), Nat.add_sub_cancel_left]

section
variable (hacc : hasAccess prot = true)
include hacc

theorem pending_maps (hlen : len ≠ 0) (hpend : ∀ k < len, v (s.mapped + k) = some (start + k))
    (hg : GoodTable d s.root) (hms : MsOk d s.root s.ms (iova + s.mapped)) :
    ∃ ret s', mapByPgsize d alloc (iova + s.mapped) start len prot s = some (ret, s') ∧
      s.mapped ≤ s'.mapped ∧
      Maps d (iova + s.mapped) (iova + s'.mapped) (fun x => v (x - iova)) s.root s'.root ∧
      (ret = 0 → s'.mapped = s.mapped + len ∧ MsOk d s'.root s'.ms (iova + s'.mapped)) := by
  obtain ⟨ret, s', n, heq, hrun⟩ :=
    mapByPgsize_maps alloc start hacc (Nat.pos_of_ne_zero hlen) hg hms
  have hmap := hrun.mapped
  have hle := hrun.len_le
  have hend : iova + s'.mapped = iova + s.mapped + n := by omega
  refine ⟨ret, s', heq, by omega, ?_, fun hret => ⟨?_, ?_⟩⟩
  · rw [hend]
    refine hrun.maps.congr fun x hlo hhi => ?_
    have := hpend (x - (iova + s.mapped)) (by omega)
    rw [show s.mapped + (x - (iova + s.mapped)) = x - iova by omega] at this
    exact this.symm
  · have := hrun.len_eq hret
    omega
  · rw [hend]
    exact hrun.ms hret

/-- The loop over the segments maps the bytes of `v`: the run so far and the segments that are left
are its next bytes. -/
theorem sgLoop_maps (iova : ℕ) (last : ℕ × ℕ) (rest : List (ℕ × ℕ)) :
    ∀ (start len : ℕ) (s : SgState d.height),
    (∀ k < len, v (s.mapped + k) = some (start + k)) →
    (∀ k, v (s.mapped + len + k) = sgPhys rest k) → GoodTable d s.root →
    MsOk d s.root s.ms (iova + s.mapped) →
    ∃ ret s', sgLoop d alloc iova prot (rest ++ [last]) start len s = some (ret, s') ∧
      s.mapped ≤ s'.mapped ∧
      Maps d (iova + s.mapped) (iova + s'.mapped) (fun x => v (x - iova)) s.root s'.root := by
  have hdone : ∀ {s : SgState d.height}, GoodTable d s.root → ∃ ret s',
      some (0, s) = some (ret, s') ∧ s.mapped ≤ s'.mapped ∧
      Maps d (iova + s.mapped) (iova + s'.mapped) (fun x => v (x - iova)) s.root s'.root :=
    fun {s} hg => ⟨0, s, rfl, le_refl _, .none hg (le_refl _)⟩
  induction rest with
  | nil =>
    intro start len s hpend _ hg hms
    rw [nil_append, sgLoop]
    split_ifs with h0 hcont
    · exact hdone hg
    · exact hdone hg
    · obtain ⟨ret, s', heq, hle, hmaps, -⟩ := pending_maps alloc hacc h0 hpend hg hms
      rw [heq]
      dsimp only
      split_ifs with hret
      · exact ⟨ret, s', rfl, hle, hmaps⟩
      · exact ⟨0, s', rfl, hle, hmaps⟩
  | cons seg rest ih =>
    intro start len s hpend hrest hg hms
    obtain ⟨phys, length⟩ := seg
    rw [cons_append, sgLoop]
    -- the segment as the next run
    have hnext : ∀ {s' : SgState d.height}, s'.mapped = s.mapped + len → GoodTable d s'.root →
        MsOk d s'.root s'.ms (iova + s'.mapped) → ∃ ret s'',
        sgLoop d alloc iova prot (rest ++ [last]) phys length s' = some (ret, s'') ∧
        s'.mapped ≤ s''.mapped ∧
        Maps d (iova + s'.mapped) (iova + s''.mapped) (fun x => v (x - iova)) s'.root s''.root := by
      intro s' hmap hg' hms'
      refine ih phys length s' (fun k hk => ?_) (fun k => ?_) hg' hms'
      · rw [hmap, hrest, sgPhys_head hk]
      · rw [hmap, add_assoc, hrest, sgPhys_tail]
    split_ifs with h0 hcont
    · exact hnext (by omega) hg hms
    · refine ih start (len + length) s (fun k hk => ?_) (fun k => ?_) hg hms
      · rcases lt_or_ge k len with hlt | hge
        · exact hpend k hlt
        · have := hrest (k - len)
          rw [sgPhys_head (by omega)] at this
          rw [show s.mapped + k = s.mapped + len + (k - len) by omega, this]
          congr 1
          omega
      · rw [show s.mapped + (len + length) + k = s.mapped + len + (length + k) by omega, hrest,
          sgPhys_tail]
    · obtain ⟨ret, s', heq, hle, hmaps, hok⟩ := pending_maps alloc hacc h0 hpend hg hms
      rw [heq]
      dsimp only
      by_cases hret : ret = 0
      · rw [if_neg (not_not.mpr hret)]
        obtain ⟨hmap, hms'⟩ := hok hret
        obtain ⟨ret', s'', heq', hle', hmaps'⟩ := hnext hmap hmaps.good hms'
        exact ⟨ret', s'', heq', le_trans hle hle', hmaps.append hmaps' (by omega) (by omega)⟩
      · rw [if_pos hret]
        exact ⟨ret, s', rfl, hle, hmaps⟩

theorem mapSg_maps {root : Table d.height} (hg : GoodTable d root) (iova : ℕ) (sg : List (ℕ × ℕ)) :
    ∃ ret s', mapSg d alloc root iova sg prot = some (ret, s') ∧
      Maps d iova (iova + s'.mapped) (fun x => sgPhys sg (x - iova)) root s'.root := by
  unfold mapSg
  cases hlast : sg.getLast? with
  | none =>
    obtain rfl := getLast?_eq_none_iff.mp hlast
    exact ⟨0, _, rfl, .none hg (le_refl _)⟩
  | some last =>
    obtain ⟨ret, s', heq, -, hmaps⟩ := sgLoop_maps alloc hacc iova last sg 0 0
      ⟨root, 0, none⟩ nofun (fun k => by rw [Nat.zero_add]) hg nofun
    exact ⟨ret, s', heq, hmaps⟩

end

theorem sgLoop_noAccess (hacc : hasAccess prot = false) (iova : ℕ) (segs : List (ℕ × ℕ)) :
    ∀ (start len : ℕ) (s : SgState d.height),
    ∃ ret s', sgLoop d alloc iova prot segs start len s = some (ret, s') ∧ s'.root = s.root := by
  have hpend : ∀ (iova paddr size : ℕ) (s : SgState d.height),
      ∃ ret s', mapByPgsize d alloc iova paddr size prot s = some (ret, s') ∧ s'.root = s.root := by
    intro iova paddr size s
    unfold mapByPgsize
    simp only [hacc, Bool.not_false, if_true]
    split_ifs <;> exact ⟨_, _, rfl, rfl⟩
  induction segs with
  | nil => exact fun _ _ s => ⟨0, s, rfl, rfl⟩
  | cons seg rest ih =>
    intro start len s
    obtain ⟨phys, length⟩ := seg
    rw [sgLoop]
    split_ifs with h0 hcont
    · exact ih ..
    · exact ih ..
    · obtain ⟨ret, s', heq, hroot⟩ := hpend (iova + s.mapped) start len s
      rw [heq]
      dsimp only
      split_ifs
      · exact ⟨ret, s', rfl, hroot⟩
      · obtain ⟨ret', s'', heq', hroot'⟩ := ih phys length s'
        exact ⟨ret', s'', heq', hroot'.trans hroot⟩

theorem mapSg_noAccess (hacc : hasAccess prot = false) (root : Table d.height) (iova : ℕ)
    (sg : List (ℕ × ℕ)) : ∃ ret s', mapSg d alloc root iova sg prot = some (ret, s') ∧ s'.root = root :=
  sgLoop_noAccess alloc hacc iova _ 0 0 ⟨root, 0, none⟩

end

end VendorKernel.Iommu.Lpae
