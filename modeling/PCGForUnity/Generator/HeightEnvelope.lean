/-
PCGForUnity/Generator/HeightEnvelope.lean

The heights of the world map, in exact arithmetic (`heights_in_envelope`).  If the corners
are between `lo` and `hi`, as parts of the greatest height, every cell of the map ends
between

    lo * (1 - r₀)² * (1 - r₁)² * …   and   hi * (1 + r₀)² * (1 + r₁)² * …

with one factor for each turn of the loop and `rₖ` the roughness of the `k`-th, which is
halved from turn to turn; for any random numbers, and whatever noise smoothing uses.

Design.  A turn changes the mean of some heights by at most the roughness of the turn, as a
part of it, first for the squares and then for the diamonds, which is where the squares in
the bounds come from.  `DiamondSquareRun` proves what a turn keeps for any property of
heights; here the property is membership in an interval, and a mean of members is one.
Smoothing takes a mean, too, whatever was smoothed before.
-/
import PCGForUnity.Generator.DiamondSquareFill
import PCGForUnity.Generator.MapGenerator
import Mathlib.Algebra.Order.BigOperators.Ring.Finset
import Mathlib.Data.Rat.Floor

namespace PCGForUnity

namespace DiamondSquare

/-! ### Numbers -/

/-- The fraction is cut off. -/
theorem toInt_of_nonneg {q : ℚ} (hq : 0 ≤ q) : FloatOps.toInt q = ⌊q⌋ := by
  rw [Rat.floor_def']
  exact Int.tdiv_eq_ediv_of_nonneg (Rat.num_nonneg.mpr hq)

theorem toInt_neg (q : ℚ) : FloatOps.toInt (-q) = -FloatOps.toInt q := Int.neg_tdiv _ _

theorem irandom_neg_mem (r : Rand) {n : ℤ} (hn : 0 ≤ n) :
    -n ≤ (r.irandom (-n) n).1 ∧ (r.irandom (-n) n).1 ≤ n := by
  rcases hn.eq_or_lt with rfl | hpos
  · exact ⟨le_refl 0, le_refl 0⟩
  · have h := r.irandom_mem (show -n < n by omega)
    exact ⟨h.1, h.2.le⟩

/-- A number that is drawn lies between the bounds. -/
theorem abs_le_of_drawn {H h : ℚ} (hH : 0 ≤ H) (hh : Drawn H h) : |h| ≤ H := by
  obtain ⟨r, rfl⟩ := hh
  rw [Rand.frandomF]
  split
  · exact (abs_neg H).trans_le (abs_of_nonneg hH).le
  · have hpos : 0 ≤ H * 10000 := by positivity
    have hint : FloatOps.toInt (H * FloatOps.ofRat 10000) = ⌊H * 10000⌋ := toInt_of_nonneg hpos
    have hneg : FloatOps.toInt (-H * FloatOps.ofRat 10000) = -⌊H * 10000⌋ := by
      rw [neg_mul, toInt_neg, hint]
    rw [hneg, hint]
    show |((r.irandom (-⌊H * 10000⌋) ⌊H * 10000⌋).1 : ℚ) / 10000| ≤ H
    have hmem := irandom_neg_mem r (Int.floor_nonneg.mpr hpos)
    have hle : |((r.irandom (-⌊H * 10000⌋) ⌊H * 10000⌋).1 : ℚ)| ≤ ⌊H * 10000⌋ := by
      rw [← Int.cast_abs]
      exact Int.cast_le.mpr (abs_le.mpr hmem)
    rw [abs_div, abs_of_pos (show (0 : ℚ) < 10000 by norm_num), div_le_iff₀ (by norm_num)]
    exact hle.trans (Int.floor_le _)

/-- A mean of four heights, raised or lowered by at most `H`. -/
theorem raises_Icc {H a b : ℚ} (ha : 0 ≤ a) (hH : 0 ≤ H) (hH' : H ≤ 1) :
    Raises H (· ∈ Set.Icc a b) (· ∈ Set.Icc (a * (1 - H)) (b * (1 + H))) := by
  intro p₀ p₁ p₂ p₃ h h₀ h₁ h₂ h₃ hh
  obtain ⟨hlo, hhi⟩ := abs_le.mp (abs_le_of_drawn hH hh)
  have hmean : (p₀ + p₁ + p₂ + p₃) / 4 ∈ Set.Icc a b := by
    obtain ⟨h₀, h₀'⟩ := h₀
    obtain ⟨h₁, h₁'⟩ := h₁
    obtain ⟨h₂, h₂'⟩ := h₂
    obtain ⟨h₃, h₃'⟩ := h₃
    constructor <;> linarith
  have heq : raised p₀ p₁ p₂ p₃ h = (p₀ + p₁ + p₂ + p₃) / 4 * (1 + h) := by
    show (p₀ + p₁ + p₂ + p₃) / 4 + h * ((p₀ + p₁ + p₂ + p₃) / 4) = _
    ring
  have hmean_nonneg : 0 ≤ (p₀ + p₁ + p₂ + p₃) / 4 := ha.trans hmean.1
  rw [heq]
  constructor
  · exact mul_le_mul hmean.1 (by linarith) (by linarith) hmean_nonneg
  · exact mul_le_mul hmean.2 (by linarith) (by linarith) (hmean_nonneg.trans hmean.2)

/-- The weights of the smoothing add up to one. -/
theorem smooths_Icc (a b : ℚ) : Smooths (· ∈ Set.Icc a b) := by
  rintro h₀ h₁ h₂ h₃ h₄ h₅ h₆ h₇ h₈ ⟨l₀, u₀⟩ ⟨l₁, u₁⟩ ⟨l₂, u₂⟩ ⟨l₃, u₃⟩ ⟨l₄, u₄⟩ ⟨l₅, u₅⟩ ⟨l₆, u₆⟩
    ⟨l₇, u₇⟩ ⟨l₈, u₈⟩
  have heq : smoothed h₀ h₁ h₂ h₃ h₄ h₅ h₆ h₇ h₈
      = (0 + h₀ + h₁ + h₂ + h₃ * (3 / 4) + h₄ * (3 / 4) + h₅ * (3 / 4) + h₆ * (3 / 4) + h₇ + h₈) / 8 :=
    rfl
  rw [heq]
  constructor <;> linarith

/-! ### The envelope -/

/-- How much a turn may change a mean, by the part of it. -/
def roughness (H : ℚ) (k : ℕ) : ℚ := H / 100 / 2 ^ k

/-- The heights that there may be after `n` turns. -/
def envelope (H lo hi : ℚ) (n : ℕ) : Set ℚ :=
  Set.Icc (lo * ∏ k ∈ Finset.range n, (1 - roughness H k) ^ 2)
    (hi * ∏ k ∈ Finset.range n, (1 + roughness H k) ^ 2)

theorem envelope_zero (H lo hi : ℚ) : envelope H lo hi 0 = Set.Icc lo hi := by
  rw [envelope, Finset.prod_range_zero, Finset.prod_range_zero, mul_one, mul_one]

theorem roughness_nonneg {H : ℚ} (hH : 0 ≤ H) (k : ℕ) : 0 ≤ roughness H k := by
  rw [roughness]
  positivity

theorem roughness_le_one {H : ℚ} (hH : H ≤ 100) (k : ℕ) : roughness H k ≤ 1 := by
  have hpow : (1 : ℚ) ≤ 2 ^ k := one_le_pow₀ (by norm_num)
  rw [roughness, div_le_one (by positivity)]
  linarith

theorem sizes_H (N : ℕ) (H : ℚ) (k : ℕ) : (sizes N (H / 100) k).H = roughness H k := by
  induction k with
  | zero =>
      show H / 100 = H / 100 / 2 ^ 0
      rw [pow_zero, div_one]
  | succ k ih =>
      rw [sizes_succ]
      show (sizes N (H / 100) k).H / 2 = _
      rw [ih, roughness, roughness, pow_succ, div_div]

/-- A turn of the loop, by its squares and then its diamonds. -/
theorem turn_envelope {H lo hi : ℚ} (hlo : 0 ≤ lo) (hH : 0 ≤ H) (hH' : H ≤ 100) (hhi : 0 ≤ hi)
    (k : ℕ) : ∃ C : ℚ → Prop,
      Turn (roughness H k) (· ∈ envelope H lo hi k) C (· ∈ envelope H lo hi (k + 1)) := by
  have hr := roughness_nonneg hH k
  have hr' := roughness_le_one hH' k
  obtain ⟨a, ha⟩ : ∃ a, a = lo * ∏ k ∈ Finset.range k, (1 - roughness H k) ^ 2 := ⟨_, rfl⟩
  obtain ⟨b, hb⟩ : ∃ b, b = hi * ∏ k ∈ Finset.range k, (1 + roughness H k) ^ 2 := ⟨_, rfl⟩
  have ha_nonneg : 0 ≤ a := by
    rw [ha]
    exact mul_nonneg hlo (Finset.prod_nonneg fun j _ => sq_nonneg _)
  have hb_nonneg : 0 ≤ b := by
    rw [hb]
    exact mul_nonneg hhi (Finset.prod_nonneg fun j _ => sq_nonneg _)
  have henv : envelope H lo hi k = Set.Icc a b := by rw [envelope, ha, hb]
  have henv' : envelope H lo hi (k + 1) =
      Set.Icc (a * (1 - roughness H k) * (1 - roughness H k))
        (b * (1 + roughness H k) * (1 + roughness H k)) := by
    rw [envelope, Finset.prod_range_succ, Finset.prod_range_succ, ha, hb, sq, sq]
    simp only [mul_assoc]
  have hwiden {a b : ℚ} (ha : 0 ≤ a) (hb : 0 ≤ b) :
      Set.Icc a b ⊆ Set.Icc (a * (1 - roughness H k)) (b * (1 + roughness H k)) :=
    Set.Icc_subset_Icc (mul_le_of_le_one_right ha (by linarith))
      (le_mul_of_one_le_right hb (by linarith))
  have ha_step : 0 ≤ a * (1 - roughness H k) := mul_nonneg ha_nonneg (by linarith)
  have hb_step : 0 ≤ b * (1 + roughness H k) := mul_nonneg hb_nonneg (by linarith)
  refine ⟨(· ∈ Set.Icc (a * (1 - roughness H k)) (b * (1 + roughness H k))), ?_⟩
  rw [henv, henv']
  exact {
    square := raises_Icc ha_nonneg hr hr'
    diamond := raises_Icc ha_step hr hr'
    imp := fun v hv => hwiden ha_nonneg hb_nonneg hv
    imp' := fun v hv => hwiden ha_step hb_step hv }

/-! ### The corners -/

/-- What `Start` knows when it has set the corners of `K`. -/
structure CornersSet (max : ℤ) (P : ℚ → Prop) (H deltaSize : ℚ) (K : Set (ℤ × ℤ)) (m : Work ℚ) :
    Prop extends Held max K K P P K m where
  log_eq : m.log = []
  H_eq : m.H = H
  deltaSize_eq : m.deltaSize = deltaSize

theorem setCorner_spec {max : ℤ} {P : ℚ → Prop} {H deltaSize : ℚ} {K : Set (ℤ × ℤ)} {x y : ℤ}
    {height : ℚ} (hinside : Inside max (x, y)) (hheight : P (height / maxMapHeight)) :
    Triple (CornersSet max P H deltaSize K) (setCorner x y height) fun _ =>
      CornersSet max P H deltaSize (K ∪ {(x, y)}) := by
  refine Triple.get_bind fun m hm => ?_
  rw [hm.weightMap]
  refine Triple.modify _ fun m hm => ?_
  have hall (c : ℤ × ℤ) (hc : c ∈ K ∪ {(x, y)}) : ∃ v,
      (if getHeightMapIndex c.1 c.2 (max + 1) = getHeightMapIndex x y m.size then
          some (height / maxMapHeight)
        else m.heightMap (getHeightMapIndex c.1 c.2 (max + 1))) = some v ∧ P v := by
    split
    · exact ⟨_, rfl, hheight⟩
    · rename_i hne
      rcases hc with hc | hc
      · exact hm.all c hc
      · rw [Set.mem_singleton_iff.mp hc, hm.size_eq] at hne
        exact absurd rfl hne
  exact { hm with
    inside := fun c hc => hc.elim (hm.inside c) fun e => by
      rw [Set.mem_singleton_iff.mp e]
      exact hinside
    isSome := fun c hc => by
      obtain ⟨v, hv, -⟩ := hall c hc
      exact Option.isSome_iff_exists.mpr ⟨v, hv⟩
    fills := by
      show Fills _ _ m.log
      rw [hm.log_eq]
      exact Fills.nil _
    subset := Set.Subset.rfl
    old := hall
    all := hall }

theorem corners_eq {max : ℤ} :
    ((((∅ ∪ {((0 : ℤ), (0 : ℤ))}) ∪ {(max, 0)}) ∪ {(0, max)}) ∪ {(max, max)} : Set (ℤ × ℤ))
      = lattice max 1 := by
  ext c
  rw [isCorner_iff, IsCorner]
  simp only [Set.empty_union, Set.mem_union, Set.mem_singleton_iff, Prod.ext_iff]
  tauto

theorem setCorners_spec {max : ℤ} {P : ℚ → Prop} {H deltaSize : ℚ} {corner : ℕ → ℚ}
    (hmax : 0 ≤ max) (hcorner : ∀ i < 4, P (corner i / maxMapHeight)) :
    Triple (CornersSet max P H deltaSize ∅) (setCorners corner) fun _ =>
      CornersSet max P H deltaSize (lattice max 1) := by
  refine Triple.get_bind fun m hm => ?_
  rw [hm.max_eq, ← corners_eq]
  have hinside {x y : ℤ} (hx : x = 0 ∨ x = max) (hy : y = 0 ∨ y = max) : Inside max (x, y) := by
    rw [Inside]
    omega
  refine Triple.bind (setCorner_spec (hinside (Or.inl rfl) (Or.inl rfl))
    (hcorner 0 (by decide))) fun _ => ?_
  refine Triple.bind (setCorner_spec (hinside (Or.inr rfl) (Or.inl rfl))
    (hcorner 1 (by decide))) fun _ => ?_
  refine Triple.bind (setCorner_spec (hinside (Or.inl rfl) (Or.inr rfl))
    (hcorner 2 (by decide))) fun _ => ?_
  exact setCorner_spec (hinside (Or.inr rfl) (Or.inr rfl)) (hcorner 3 (by decide))

/-! ### The world map -/

/-- `MapGenerator::GetHeightOnNeighbor`, which asks the current map of the instance, if
there are both. -/
def getHeightOnNeighbor (currentMap : Option Terrain)
    (getNeighborHeight : Terrain → ℤ → ℤ → NeighborType → Option ℚ) (x y : ℤ)
    (neighbor : NeighborType) (owner : UInt32) : Option ℚ :=
  match currentMap with
  | none => none
  | some map => if map.instanceId ≠ owner then none else getNeighborHeight map x y neighbor

/-- The edge step of the world map is a negative number, so that no noise is added. -/
theorem deltaSizeOf_zero (size : ℤ) : (deltaSizeOf 0 size : ℚ) = -1 / 100 := by
  have hzero : (FloatOps.ofRat ((0 : ℤ) : ℚ) / FloatOps.ofRat (size : ℚ) : ℚ) = 0 := by
    show ((0 : ℤ) : ℚ) / (size : ℚ) = 0
    rw [Int.cast_zero, zero_div]
  rw [deltaSizeOf, hzero]
  exact if_pos (decide_eq_true (show (0 : ℚ) < 1 / 1000 by norm_num))

/-- From corners between two heights on. -/
theorem workThread_in_envelope (noise : ℚ → ℚ → ℚ → ℚ) (I : ℕ) {H lo hi : ℚ} (hH : 0 ≤ H)
    (hH' : H ≤ 100) (hlo : 0 ≤ lo) (hhi : 0 ≤ hi) :
    Triple (CornersSet (2 ^ (2 * I)) (· ∈ Set.Icc lo hi) (H / 100) (-1 / 100)
        (lattice (2 ^ (2 * I)) 1)) (workThread noise) fun _ =>
      Held (2 ^ (2 * I)) (lattice (2 ^ (2 * I)) 1) ∅ (· ∈ envelope H lo hi (2 * I))
        (· ∈ envelope H lo hi (2 * I)) (lattice 1 (2 ^ (2 * I))) := by
  choose C hC using turn_envelope hlo hH hH' hhi
  have hturn (k : ℕ) (_ : k < 2 * I) : Turn (sizes (2 * I) (H / 100) k).H
      (· ∈ envelope H lo hi k) (C k) (· ∈ envelope H lo hi (k + 1)) := by
    rw [sizes_H]
    exact hC k
  have hnoise : FloatOps.lt (FloatOps.ofRat 0) (-1 / 100 : ℚ) = true →
      Roughens (· ∈ envelope H lo hi (2 * I)) := fun h =>
    absurd (of_decide_eq_true h) (show ¬ (0 : ℚ) < -1 / 100 by norm_num)
  refine Triple.mono (workThread_spec noise (2 * I) (fun k v => v ∈ envelope H lo hi k) C
    hturn (smooths_Icc _ _) hnoise) (fun m hm => ?_) fun _ _ hm => hm
  rw [envelope_zero]
  exact ⟨hm.toHeld, hm.H_eq, hm.deltaSize_eq⟩

/-- A generator that is about to set the corners of the world map. -/
theorem cornersSet_empty (m : DiamondSquare ℚ) (P : ℚ → Prop) (I : ℕ) (H : ℚ)
    (heightMap : ℤ → Option ℚ) (rand : Rand) (hweight : ∀ i, m.weightMap i = none)
    (hneighbor : m.edgeExtended = true → ∀ x y n, m.cbGetNeighborHeight x y n 0xffffffff = none) :
    CornersSet (2 ^ (2 * I)) P (H / 100) (-1 / 100) ∅
      { (m.initilize 0xffffffff I H heightMap).start rand with
        isFinished := false
        deltaSize := deltaSizeOf 0 (2 ^ (2 * I) + 1) } where
  max_eq := Int.add_sub_cancel _ 1
  size_eq := rfl
  weightMap := hweight
  inside := fun c hc => absurd hc (Set.notMem_empty c)
  isSome := fun c hc => absurd hc (Set.notMem_empty c)
  fills := Fills.nil _
  subset := Set.Subset.rfl
  old := fun c hc => absurd hc (Set.notMem_empty c)
  all := fun c hc => absurd hc (Set.notMem_empty c)
  neighbor := fun hext x y n v hv => by
    have h : none = some v := (hneighbor hext x y n).symm.trans hv
    cases h
  log_eq := rfl
  H_eq := rfl
  deltaSize_eq := deltaSizeOf_zero _

/-- **Heights stay in the roughness envelope.**  Let the heights of the corners, as
parts of the greatest height, be between `lo` and `hi`, and let nothing be known of
other maps: the weight map is empty, and the callback, should it be asked, knows no
neighbour of the world map.  Then for all values of `std::rand()` the map is
generated, and every cell has a height in the envelope of `2 * I` turns. -/
theorem heights_in_envelope (noise : ℚ → ℚ → ℚ → ℚ) (m : DiamondSquare ℚ) (I : ℕ) (H lo hi : ℚ)
    (heightMap : ℤ → Option ℚ) (corner : ℕ → ℚ) (rand : Rand) (hH : 0 ≤ H) (hH' : H ≤ 100)
    (hweight : ∀ i, m.weightMap i = none)
    (hneighbor : m.edgeExtended = true → ∀ x y n, m.cbGetNeighborHeight x y n 0xffffffff = none)
    (hlo : 0 ≤ lo) (hcorner : ∀ i < 4, corner i / maxMapHeight ∈ Set.Icc lo hi) :
    ∃ s, (startGenerate noise (some corner) 4 0).run
        ((m.initilize 0xffffffff I H heightMap).start rand) = some ((), s) ∧
      ∀ c, Inside (2 ^ (2 * I)) c →
        HasHeight (2 ^ (2 * I)) (· ∈ envelope H lo hi (2 * I)) c s := by
  have hpos : (0 : ℤ) < 2 ^ (2 * I) := pow_pos (by decide) _
  have hhi : 0 ≤ hi := hlo.trans ((hcorner 0 (by decide)).1.trans (hcorner 0 (by decide)).2)
  have hstart : Triple (fun s => s = (m.initilize 0xffffffff I H heightMap).start rand)
      (startGenerate noise (some corner) 4 0) fun _ =>
      Held (2 ^ (2 * I)) (lattice (2 ^ (2 * I)) 1) ∅ (· ∈ envelope H lo hi (2 * I))
        (· ∈ envelope H lo hi (2 * I)) (lattice 1 (2 ^ (2 * I))) := by
    refine Triple.bind (Q := fun _ s => s = { (m.initilize 0xffffffff I H heightMap).start rand with
      isFinished := false }) (Triple.modify _ fun s hs => by rw [hs]) fun _ => ?_
    refine Triple.ite (fun _ => ?_) fun h => absurd rfl h
    refine Triple.bind (Q := fun _ s => CornersSet (2 ^ (2 * I)) (· ∈ Set.Icc lo hi) (H / 100)
      (-1 / 100) ∅ s ∧ s.owner = 0xffffffff) (Triple.modify _ fun s hs => ?_) fun _ => ?_
    · subst hs
      exact ⟨cornersSet_empty m _ I H heightMap rand hweight hneighbor, rfl⟩
    · refine Triple.get_bind fun s hs => Triple.ite (fun _ => ?_) fun h => absurd hs.2 h
      exact Triple.bind (Triple.mono (setCorners_spec hpos.le hcorner) (fun _ hs => hs.1)
        fun _ _ hs => hs) fun _ => workThread_in_envelope noise I hH hH' hlo hhi
  obtain ⟨_, s, hrun, hs⟩ := hstart _ rfl
  refine ⟨s, hrun, fun c hc => hs.all c ?_⟩
  rw [mem_lattice_one, Nat.cast_pow, Nat.cast_two]
  exact hc

theorem heights_in_envelope_of_one :
    ∃ s, (startGenerate (fun _ _ height => height) (some fun i => (100 * (i + 1) : ℚ)) 4 0).run
        (({ unused with
            cbGetNeighborHeight := getHeightOnNeighbor (some (.new 1 5)) fun _ _ _ _ => some 7
            edgeExtended := true }.initilize 0xffffffff 1 50 fun _ => none).start ⟨fun i => i, 0⟩)
          = some ((), s) ∧
      ∀ c, Inside (2 ^ (2 * 1)) c →
        HasHeight (2 ^ (2 * 1)) (· ∈ envelope 50 (1 / 20) (1 / 5) (2 * 1)) c s := by
  refine heights_in_envelope _ _ 1 50 (1 / 20) (1 / 5) _ _ _ (by norm_num) (by norm_num)
    (fun _ => rfl) (fun _ _ _ _ => rfl) (by norm_num) fun i hi => ?_
  have hi : (i : ℚ) ≤ 3 := by exact_mod_cast Nat.le_of_lt_succ hi
  have hi' : (0 : ℚ) ≤ i := Nat.cast_nonneg i
  show 1 / 20 ≤ 100 * ((i : ℚ) + 1) / 2000 ∧ 100 * ((i : ℚ) + 1) / 2000 ≤ 1 / 5
  constructor <;> linarith

end DiamondSquare

end PCGForUnity
