/-
PCGForUnity/Generator/DiamondSquareRun.lean

What a run of the diamond-square generator keeps, for any property of heights that
its turns, its noise and its smoothing keep (`workThread_spec`).

Between two calls the cells that have a height are those `Known`.  At the start
they are the corners, a lattice whose spacing is the whole map; each turn of the
loop adds the centres and then the midpoints, which halves the spacing.

The centres are computed from the lattice, and the midpoints from the lattice and
the centres.  So what is known of the heights changes in two steps a turn: while
some cells are added, those that were there at the beginning satisfy `P`, and all
of them satisfy `Q` (`Held`).
-/
import PCGForUnity.Generator.DiamondSquare
import PCGForUnity.Lib.Lattice
import Mathlib.Tactic.Linarith

namespace PCGForUnity

namespace DiamondSquare

variable {F : Type}

/-- A cell of the map. -/
def Inside (max : ℤ) (c : ℤ × ℤ) : Prop := (0 ≤ c.1 ∧ c.1 ≤ max) ∧ 0 ≤ c.2 ∧ c.2 ≤ max

/-- The four cells that have a height from the start. -/
def IsCorner (max : ℤ) (c : ℤ × ℤ) : Prop := (c.1 = 0 ∨ c.1 = max) ∧ (c.2 = 0 ∨ c.2 = max)

theorem IsCorner.inside {max : ℤ} {c : ℤ × ℤ} (hmax : 0 ≤ max) (h : IsCorner max c) :
    Inside max c := by
  rw [IsCorner] at h
  rw [Inside]
  omega

/-- No two cells of the map have the same place in memory. -/
theorem getHeightMapIndex_inj {max : ℤ} {c c' : ℤ × ℤ} (hc : Inside max c) (hc' : Inside max c')
    (h : getHeightMapIndex c.1 c.2 (max + 1) = getHeightMapIndex c'.1 c'.2 (max + 1)) : c = c' := by
  obtain ⟨hx, hy⟩ := hc
  obtain ⟨hx', hy'⟩ := hc'
  have hpos : 0 < max + 1 := by omega
  -- the row is the quotient and the column the rest
  have hrow : c.2 = c'.2 := by
    have hdiv (x y : ℤ) (hx : 0 ≤ x) (hx' : x ≤ max) : (x + y * (max + 1)) / (max + 1) = y := by
      rw [Int.add_mul_ediv_right x y hpos.ne', Int.ediv_eq_zero_of_lt hx (by omega), zero_add]
    rw [← hdiv c.1 c.2 hx.1 hx.2, ← hdiv c'.1 c'.2 hx'.1 hx'.2]
    exact congrArg (· / (max + 1)) h
  rw [getHeightMapIndex, getHeightMapIndex, hrow] at h
  exact Prod.ext (add_right_cancel h) hrow

/-- What holds when the cells of `K` have a height: the log tells how they got it. -/
structure Known (max : ℤ) (start K : Set (ℤ × ℤ)) (m : Work F) : Prop where
  max_eq : m.max = max
  size_eq : m.size = max + 1
  weightMap : ∀ i, m.weightMap i = none
  inside : ∀ c ∈ K, Inside max c
  isSome : ∀ c ∈ K, (m.heightMap (getHeightMapIndex c.1 c.2 (max + 1))).isSome
  fills : Fills start K m.log

/-- A cell has a height, of which `A` holds. -/
def HasHeight (max : ℤ) (A : F → Prop) (c : ℤ × ℤ) (m : Work F) : Prop :=
  ∃ v, m.heightMap (getHeightMapIndex c.1 c.2 (max + 1)) = some v ∧ A v

theorem HasHeight.imp {max : ℤ} {A A' : F → Prop} {c : ℤ × ℤ} {m : Work F}
    (h : HasHeight max A c m) (hA : ∀ v, A v → A' v) : HasHeight max A' c m := by
  obtain ⟨v, hv, hAv⟩ := h
  exact ⟨v, hv, hA v hAv⟩

theorem HasHeight.isSome {max : ℤ} {A : F → Prop} {c : ℤ × ℤ} {m : Work F}
    (h : HasHeight max A c m) : (m.heightMap (getHeightMapIndex c.1 c.2 (max + 1))).isSome := by
  obtain ⟨v, hv, -⟩ := h
  rw [hv]
  rfl

/-- The heights while cells are added to those of `K₀`: what they are computed from
satisfies `P`, and what there is satisfies `Q`. -/
structure Held (max : ℤ) (start K₀ : Set (ℤ × ℤ)) (P Q : F → Prop) (K : Set (ℤ × ℤ))
    (m : Work F) : Prop extends Known max start K m where
  subset : K₀ ⊆ K
  old : ∀ c ∈ K₀, HasHeight max P c m
  all : ∀ c ∈ K, HasHeight max Q c m
  neighbor : m.edgeExtended = true →
    ∀ x y n v, m.cbGetNeighborHeight x y n m.owner = some v → P v

variable {max : ℤ} {start K₀ K : Set (ℤ × ℤ)} {P Q : F → Prop} {x y size : ℤ}

/-- The first cells are added. -/
theorem Held.widen {m : Work F} (h : Held max start K P P K m) (hPQ : ∀ v, P v → Q v) :
    Held max start K P Q K m :=
  { h with all := fun c hc => (h.all c hc).imp hPQ }

/-- The last cells were added. -/
theorem Held.done {m : Work F} (h : Held max start K₀ P Q K m) (hPQ : ∀ v, P v → Q v) :
    Held max start K Q Q K m :=
  { h with
    subset := Set.Subset.rfl
    old := h.all
    neighbor := fun hext x y n v hv => hPQ v (h.neighbor hext x y n v hv) }

/-! ### Heights -/

/-- A cell that is known is read. -/
theorem getHeight_spec {A : F → Prop} (h : (x, y) ∈ K)
    (hA : ∀ m, Held max start K₀ P Q K m → HasHeight max A (x, y) m) :
    Triple (Held max start K₀ P Q K) (getHeight x y : M F F) fun v m =>
      Held max start K₀ P Q K m ∧ A v := by
  refine Triple.get_bind fun m hm => ?_
  refine Triple.bind (Q := fun _ => Held max start K₀ P Q K)
    (Triple.modify _ fun s hs => ?_) fun _ => ?_
  · exact { hs with fills := hs.fills.read h }
  · obtain ⟨hx, hy⟩ := hm.inside _ h
    obtain ⟨v, hv, hAv⟩ := hA m hm
    rw [hm.max_eq, hm.size_eq, generatorClamp_of_mem hx.1 hx.2, generatorClamp_of_mem hy.1 hy.2, hv]
    exact Triple.pure v fun s hs => ⟨hs, hAv⟩

/-- A cell that was there at the beginning is read. -/
theorem getOld_spec (hK : K₀ ⊆ K) (h : (x, y) ∈ K₀) :
    Triple (Held max start K₀ P Q K) (getHeight x y : M F F) fun v m =>
      Held max start K₀ P Q K m ∧ P v :=
  getHeight_spec (hK h) fun _ hm => hm.old _ h

theorem getKnown_spec (h : (x, y) ∈ K) :
    Triple (Held max start K₀ P Q K) (getHeight x y : M F F) fun v m =>
      Held max start K₀ P Q K m ∧ Q v :=
  getHeight_spec h fun _ hm => hm.all _ h

/-- A cell gets a height, unless it was there at the beginning. -/
theorem setHeight_spec {val : F} (hinside : Inside max (x, y)) (hold : (x, y) ∉ K₀) (hval : Q val) :
    Triple (Held max start K₀ P Q K) (setHeight x y val : M F Unit) fun _ m =>
      Held max start K₀ P Q K m ∧ HasHeight max Q (x, y) m := by
  refine Triple.modify _ fun m hm => ?_
  have hself : (if getHeightMapIndex x y (max + 1) = getHeightMapIndex x y m.size then some val
      else m.heightMap (getHeightMapIndex x y (max + 1))) = some val := by
    rw [hm.size_eq, if_pos rfl]
  have hother (c : ℤ × ℤ) (hc : Inside max c) (hne : c ≠ (x, y)) :
      (if getHeightMapIndex c.1 c.2 (max + 1) = getHeightMapIndex x y m.size then some val
        else m.heightMap (getHeightMapIndex c.1 c.2 (max + 1)))
        = m.heightMap (getHeightMapIndex c.1 c.2 (max + 1)) := by
    rw [hm.size_eq, if_neg fun h => hne (getHeightMapIndex_inj hc hinside h)]
  have hall (c : ℤ × ℤ) (hc : c ∈ K) : ∃ v,
      (if getHeightMapIndex c.1 c.2 (max + 1) = getHeightMapIndex x y m.size then some val
        else m.heightMap (getHeightMapIndex c.1 c.2 (max + 1))) = some v ∧ Q v := by
    by_cases hne : c = (x, y)
    · rw [hne]
      exact ⟨val, hself, hval⟩
    · rw [hother c (hm.inside c hc) hne]
      exact hm.all c hc
  refine ⟨{ hm with
    isSome := fun c hc => ?_
    old := fun c hc => ?_
    all := hall }, ⟨val, hself, hval⟩⟩
  · obtain ⟨v, hv, -⟩ := hall c hc
    exact Option.isSome_iff_exists.mpr ⟨v, hv⟩
  · obtain ⟨v, hv, hPv⟩ := hm.old c hc
    refine ⟨v, ?_, hPv⟩
    rw [← hv]
    exact hother c (hm.inside c (hm.subset hc)) fun h => hold (h ▸ hc)

theorem irandom_spec {lo hi : ℤ} (h : lo < hi) :
    Triple (Held max start K₀ P Q K) (irandom lo hi : M F ℤ) fun i m =>
      Held max start K₀ P Q K m ∧ lo ≤ i ∧ i < hi :=
  fun m hm => ⟨_, _, rfl, { hm with }, m.rand.irandom_mem h⟩

theorem extendedHeight_spec :
    Triple (Held max start K₀ P Q K) (extendedHeight x y : M F (Option F)) fun height m =>
      Held max start K₀ P Q K m ∧ height = none := by
  refine Triple.get_bind fun m _ => Triple.ite (fun _ => ?_) fun _ => ?_
  · exact Triple.get_bind fun m hm => Triple.pure _ fun s hs => ⟨hs, hm.weightMap _⟩
  · exact Triple.pure _ fun s hs => ⟨hs, rfl⟩

theorem getHeightOnWorldMap_spec (neighbor : NeighborType) :
    Triple (Held max start K₀ P Q K) (getHeightOnWorldMap x y neighbor : M F (Option F))
      fun height m => Held max start K₀ P Q K m ∧ ∀ v, height = some v → P v := by
  refine Triple.get_bind fun m hm => Triple.ite (fun hext => ?_) fun _ => ?_
  · exact Triple.pure _ fun s hs => ⟨hs, hm.neighbor hext x y neighbor⟩
  · exact Triple.pure _ fun s hs => ⟨hs, fun v hv => by cases hv⟩

theorem warnHeight_spec (h : (x, y) ∈ K) :
    Triple (Held max start K₀ P Q K) (warnHeight x y : M F Unit) fun _ =>
      Held max start K₀ P Q K := by
  refine Triple.ite (fun _ => ?_) fun _ => Triple.pure _ fun s hs => hs
  exact Triple.bind (getKnown_spec h) fun _ => Triple.pure _ fun s hs => hs.1

/-- A call for a new cell, which `f` gives a height. -/
theorem call_spec {f : M F Unit} (hinside : Inside max (x, y))
    (hnew : (x, y) ∉ K)
    (hf : Triple (Held max start K₀ P Q K) f fun _ m =>
      Held max start K₀ P Q K m ∧ HasHeight max Q (x, y) m) :
    Triple (Held max start K₀ P Q K) (call x y f) fun _ =>
      Held max start K₀ P Q (K ∪ {(x, y)}) := by
  refine Triple.bind hf fun _ => Triple.modify _ ?_
  rintro m ⟨hm, hset⟩
  have hall (c : ℤ × ℤ) (hc : c ∈ K ∪ {(x, y)}) : HasHeight max Q c m := by
    rcases hc with hc | hc
    · exact hm.all c hc
    · rw [Set.mem_singleton_iff.mp hc]
      exact hset
  exact { hm with
    inside := fun c hc => hc.elim (hm.inside c) fun e => by
      rw [Set.mem_singleton_iff.mp e]
      exact hinside
    isSome := fun c hc => (hall c hc).isSome
    fills := hm.fills.visit hnew
    subset := fun c hc => Or.inl (hm.subset hc)
    all := hall }

/-! ### What is computed -/

section

variable [FloatOps F]

/-- A number that `Randomize` may return. -/
def Drawn (H h : F) : Prop := ∃ r : Rand, (r.frandomF (-H) H).1 = h

/-- The height that is computed from four points. -/
def raised (p₀ p₁ p₂ p₃ h : F) : F :=
  (p₀ + p₁ + p₂ + p₃) / FloatOps.ofRat 4 + h * ((p₀ + p₁ + p₂ + p₃) / FloatOps.ofRat 4)

/-- Points that satisfy `P` give heights that satisfy `Q`. -/
def Raises (H : F) (P Q : F → Prop) : Prop :=
  ∀ p₀ p₁ p₂ p₃ h, P p₀ → P p₁ → P p₂ → P p₃ → Drawn H h → Q (raised p₀ p₁ p₂ p₃ h)

/-- What a turn of the loop makes of the heights, with `Q` after its squares. -/
structure Turn (H : F) (P Q P' : F → Prop) : Prop where
  square : Raises H P Q
  diamond : Raises H Q P'
  imp : ∀ v, P v → Q v
  imp' : ∀ v, Q v → P' v

/-- The height that `Smooth` computes from the heights it reads, in their order. -/
def smoothed (h₀ h₁ h₂ h₃ h₄ h₅ h₆ h₇ h₈ : F) : F :=
  (FloatOps.ofRat 0 + h₀ + h₁ + h₂ + h₃ * FloatOps.ofRat (3 / 4) + h₄ * FloatOps.ofRat (3 / 4)
    + h₅ * FloatOps.ofRat (3 / 4) + h₆ * FloatOps.ofRat (3 / 4) + h₇ + h₈) / FloatOps.ofRat 8

/-- Smoothing keeps `P`. -/
def Smooths (P : F → Prop) : Prop :=
  ∀ h₀ h₁ h₂ h₃ h₄ h₅ h₆ h₇ h₈, P h₀ → P h₁ → P h₂ → P h₃ → P h₄ → P h₅ → P h₆ → P h₇ → P h₈ →
    P (smoothed h₀ h₁ h₂ h₃ h₄ h₅ h₆ h₇ h₈)

/-- The noise that `Blur` may add keeps `P`. -/
def Roughens (P : F → Prop) : Prop :=
  ∀ height noise, P height → P (height * (FloatOps.ofRat 1 +
    generatorClamp FloatOps.lt noise (FloatOps.ofRat (-1 / 2)) (FloatOps.ofRat (1 / 2))))

theorem randomize_spec (H : F) :
    Triple (Held max start K₀ P Q K) (randomize H : M F F) fun h m =>
      Held max start K₀ P Q K m ∧ Drawn H h :=
  fun m hm => ⟨_, _, rfl, { hm with }, m.rand, rfl⟩

/-! ### `Square` and `Diamond` -/

theorem square_spec {H h : F} (hraise : Raises H P Q) (hh : Drawn H h) (hK : K₀ ⊆ K)
    (hinside : Inside max (x, y)) (hold : (x, y) ∉ K₀)
    (h₀ : (x - size, y - size) ∈ K₀) (h₁ : (x + size, y - size) ∈ K₀)
    (h₂ : (x - size, y + size) ∈ K₀) (h₃ : (x + size, y + size) ∈ K₀) :
    Triple (Held max start K₀ P Q K) (square x y size h) fun _ m =>
      Held max start K₀ P Q K m ∧ HasHeight max Q (x, y) m := by
  refine Triple.bind extendedHeight_spec fun _ => Triple.of_imp ?_
  rintro rfl
  refine Triple.bind (getOld_spec hK h₀) fun p₀ => Triple.of_imp fun hp₀ => ?_
  refine Triple.bind (getOld_spec hK h₁) fun p₁ => Triple.of_imp fun hp₁ => ?_
  refine Triple.bind (getOld_spec hK h₂) fun p₂ => Triple.of_imp fun hp₂ => ?_
  refine Triple.bind (getOld_spec hK h₃) fun p₃ => Triple.of_imp fun hp₃ => ?_
  refine Triple.bind extendedHeight_spec fun _ => Triple.of_imp ?_
  rintro rfl
  exact setHeight_spec hinside hold (hraise p₀ p₁ p₂ p₃ h hp₀ hp₁ hp₂ hp₃ hh)

end

/-- The cells around one, where they are inside, are known; and a cell on a side
edge is not on another edge. -/
structure Around (max : ℤ) (K : Set (ℤ × ℤ)) (x y size : ℤ) : Prop where
  left : 0 ≤ x - size → (x - size, y) ∈ K
  right : x + size ≤ max → (x + size, y) ∈ K
  bottom : 0 ≤ y - size → (x, y - size) ∈ K
  top : y + size ≤ max → (x, y + size) ∈ K
  leftEdge : x - size < 0 → x = 0 ∧ size ≤ max ∧ 0 ≤ y - size ∧ y + size ≤ max
  rightEdge : max < x + size → 0 ≤ y - size ∧ y + size ≤ max
  bottomEdge : y - size < 0 → y = 0 ∧ size ≤ max
  topEdge : max < y + size → 0 ≤ y - size

/-- A point of the buffer is set, and `P` holds of it. -/
def PointBuffer.Has (p : PointBuffer F) (P : F → Prop) (i : ℤ) : Prop := ∃ v, p i = some v ∧ P v

theorem PointBuffer.has_set {p : PointBuffer F} {i j : ℤ} {height : F} (h : P height) :
    (p.set j height).Has P i ↔ i = j ∨ p.Has P i := by
  rw [Has, set]
  by_cases hij : i = j
  · rw [if_pos hij]
    exact iff_of_true ⟨height, rfl, h⟩ (Or.inl hij)
  · rw [if_neg hij]
    exact (or_iff_right hij).symm

theorem PointBuffer.read_spec {A : Work F → Prop} {p : PointBuffer F} {i : ℤ} (h : p.Has P i) :
    Triple A (p.read i) fun v m => A m ∧ P v := by
  obtain ⟨v, hv, hPv⟩ := h
  rw [read, hv]
  exact Triple.pure v fun s hs => ⟨hs, hPv⟩

/-- The end of a branch for an edge: whatever the neighbour or `std::rand()` say,
the buffer is set, and `lo` up to `hi` tell points that are set before. -/
theorem edgePoint_spec {p : PointBuffer F} {neighbor : NeighborType} {j lo hi : ℤ} {f : ℤ → ℤ}
    (hlohi : lo < hi) (hread : ∀ i, lo ≤ i → i < hi → p.Has P (f i))
    (hset : ∀ i, 0 ≤ i → i ≤ 3 → i = j ∨ p.Has P i) :
    Triple (Held max start K₀ P Q K) (do
      match ← (getHeightOnWorldMap x y neighbor : M F (Option F)) with
      | some height => pure ((p.set 4 height).set j height)
      | none =>
          let i ← irandom lo hi
          pure (p.set j (← p.read (f i)))) fun p m =>
      Held max start K₀ P Q K m ∧ ∀ i, 0 ≤ i → i ≤ 3 → p.Has P i := by
  refine Triple.bind (getHeightOnWorldMap_spec _) fun o => Triple.of_imp fun ho => ?_
  cases o with
  | some height =>
      have hheight : P height := ho height rfl
      refine Triple.pure _ fun m hm => ⟨hm, fun i hi₀ hi₃ => ?_⟩
      rw [PointBuffer.has_set hheight, PointBuffer.has_set hheight]
      exact (hset i hi₀ hi₃).imp_right Or.inr
  | none =>
      refine Triple.bind (irandom_spec hlohi) fun i => Triple.of_imp fun hi => ?_
      refine Triple.bind (PointBuffer.read_spec (hread i hi.1 hi.2)) fun height =>
        Triple.of_imp fun hheight => ?_
      refine Triple.pure _ fun m hm => ⟨hm, fun i hi₀ hi₃ => ?_⟩
      rw [PointBuffer.has_set hheight]
      exact hset i hi₀ hi₃

/-- The buffer is set wherever it is read. -/
theorem diamondPoints_spec (hK : K₀ ⊆ K) (h : Around max K₀ x y size) :
    Triple (Held max start K₀ P Q K) (diamondPoints x y size : M F (PointBuffer F)) fun p m =>
      Held max start K₀ P Q K m ∧ ∀ i, 0 ≤ i → i ≤ 3 → p.Has P i := by
  refine Triple.get_bind fun m hm => ?_
  rw [hm.max_eq]
  refine Triple.ite (fun hx => ?_) fun hx => Triple.ite (fun hx' => ?_) fun hx' =>
    Triple.ite (fun hy => ?_) fun hy => Triple.ite (fun hy' => ?_) fun hy' => ?_
  · -- the left edge
    obtain ⟨rfl, hsize, hbottom, htop⟩ := h.leftEdge hx
    have hright : (size, y) ∈ K₀ := by
      rw [← zero_add size]
      exact h.right (by omega)
    refine Triple.bind (getOld_spec hK (h.bottom hbottom)) fun p₁ => Triple.of_imp fun hp₁ => ?_
    refine Triple.bind (getOld_spec hK hright) fun p₂ => Triple.of_imp fun hp₂ => ?_
    refine Triple.bind (getOld_spec hK (h.top htop)) fun p₃ => Triple.of_imp fun hp₃ => ?_
    refine edgePoint_spec (f := id) (by decide) (fun i hi hi' => ?_) fun i hi hi' => ?_
    · simp only [id, PointBuffer.has_set hp₁, PointBuffer.has_set hp₂, PointBuffer.has_set hp₃]
      omega
    · simp only [PointBuffer.has_set hp₁, PointBuffer.has_set hp₂, PointBuffer.has_set hp₃]
      omega
  · -- the right edge
    obtain ⟨hbottom, htop⟩ := h.rightEdge (by omega)
    refine Triple.bind (getOld_spec hK (h.left (by omega))) fun p₀ => Triple.of_imp fun hp₀ => ?_
    refine Triple.bind (getOld_spec hK (h.bottom hbottom)) fun p₁ => Triple.of_imp fun hp₁ => ?_
    refine Triple.bind (getOld_spec hK (h.top htop)) fun p₃ => Triple.of_imp fun hp₃ => ?_
    refine edgePoint_spec (f := fun i => if i = 2 then i + 1 else i) (by decide)
      (fun i hi hi' => ?_) fun i hi hi' => ?_
    · simp only [PointBuffer.has_set hp₀, PointBuffer.has_set hp₁, PointBuffer.has_set hp₃]
      omega
    · simp only [PointBuffer.has_set hp₀, PointBuffer.has_set hp₁, PointBuffer.has_set hp₃]
      omega
  · -- the bottom edge
    obtain ⟨rfl, hsize⟩ := h.bottomEdge hy
    have htop : (x, size) ∈ K₀ := by
      rw [← zero_add size]
      exact h.top (by omega)
    refine Triple.bind (getOld_spec hK (h.left (by omega))) fun p₀ => Triple.of_imp fun hp₀ => ?_
    refine Triple.bind (getOld_spec hK (h.right (by omega))) fun p₂ => Triple.of_imp fun hp₂ => ?_
    refine Triple.bind (getOld_spec hK htop) fun p₃ => Triple.of_imp fun hp₃ => ?_
    refine edgePoint_spec (f := fun i => if i = 1 then i - 1 else i) (by decide)
      (fun i hi hi' => ?_) fun i hi hi' => ?_
    · simp only [PointBuffer.has_set hp₀, PointBuffer.has_set hp₂, PointBuffer.has_set hp₃]
      split <;> omega
    · simp only [PointBuffer.has_set hp₀, PointBuffer.has_set hp₂, PointBuffer.has_set hp₃]
      omega
  · -- the top edge
    refine Triple.bind (getOld_spec hK (h.left (by omega))) fun p₀ => Triple.of_imp fun hp₀ => ?_
    refine Triple.bind (getOld_spec hK (h.bottom (h.topEdge (by omega)))) fun p₁ =>
      Triple.of_imp fun hp₁ => ?_
    refine Triple.bind (getOld_spec hK (h.right (by omega))) fun p₂ => Triple.of_imp fun hp₂ => ?_
    refine edgePoint_spec (f := id) (by decide) (fun i hi hi' => ?_) fun i hi hi' => ?_
    · simp only [id, PointBuffer.has_set hp₀, PointBuffer.has_set hp₁, PointBuffer.has_set hp₂]
      omega
    · simp only [PointBuffer.has_set hp₀, PointBuffer.has_set hp₁, PointBuffer.has_set hp₂]
      omega
  · -- no edge
    refine Triple.bind (getOld_spec hK (h.left (by omega))) fun p₀ => Triple.of_imp fun hp₀ => ?_
    refine Triple.bind (getOld_spec hK (h.bottom (by omega))) fun p₁ => Triple.of_imp fun hp₁ => ?_
    refine Triple.bind (getOld_spec hK (h.right (by omega))) fun p₂ => Triple.of_imp fun hp₂ => ?_
    refine Triple.bind (getOld_spec hK (h.top (by omega))) fun p₃ => Triple.of_imp fun hp₃ => ?_
    refine Triple.pure _ fun m hm => ⟨hm, fun i hi hi' => ?_⟩
    simp only [PointBuffer.has_set hp₀, PointBuffer.has_set hp₁, PointBuffer.has_set hp₂,
      PointBuffer.has_set hp₃]
    omega

section

variable [FloatOps F]

theorem diamond_spec {H h : F} (hraise : Raises H P Q) (hh : Drawn H h) (hK : K₀ ⊆ K)
    (hinside : Inside max (x, y)) (hold : (x, y) ∉ K₀) (haround : Around max K₀ x y size) :
    Triple (Held max start K₀ P Q K) (diamond x y size h) fun _ m =>
      Held max start K₀ P Q K m ∧ HasHeight max Q (x, y) m := by
  refine Triple.bind extendedHeight_spec fun _ => Triple.of_imp ?_
  rintro rfl
  refine Triple.bind (diamondPoints_spec hK haround) fun p => Triple.of_imp fun hp => ?_
  have hread (i : ℤ) (hi : 0 ≤ i) (hi' : i ≤ 3) :
      Triple (Held max start K₀ P Q K) (p.read i) fun v m => Held max start K₀ P Q K m ∧ P v :=
    PointBuffer.read_spec (hp i hi hi')
  refine Triple.bind (hread 0 (by decide) (by decide)) fun p₀ => Triple.of_imp fun hp₀ => ?_
  refine Triple.bind (hread 1 (by decide) (by decide)) fun p₁ => Triple.of_imp fun hp₁ => ?_
  refine Triple.bind (hread 2 (by decide) (by decide)) fun p₂ => Triple.of_imp fun hp₂ => ?_
  refine Triple.bind (hread 3 (by decide) (by decide)) fun p₃ => Triple.of_imp fun hp₃ => ?_
  refine Triple.bind extendedHeight_spec fun _ => Triple.of_imp ?_
  rintro rfl
  exact setHeight_spec hinside hold (hraise p₀ p₁ p₂ p₃ h hp₀ hp₁ hp₂ hp₃ hh)

/-! ### A turn of the loop -/

/-- The body of a turn's loops, for a new cell that `f` gives a height. -/
theorem turn_spec {f : F → M F Unit} {H : F} (hinside : Inside max (x, y)) (hnew : (x, y) ∉ K)
    (hf : ∀ h, Drawn H h → Triple (Held max start K₀ P Q K) (f h) fun _ m =>
      Held max start K₀ P Q K m ∧ HasHeight max Q (x, y) m) :
    Triple (Held max start K₀ P Q K) (do
      call x y (do f (← randomize H))
      warnHeight x y) fun _ => Held max start K₀ P Q (K ∪ {(x, y)}) := by
  refine Triple.bind (call_spec hinside hnew ?_) fun _ => warnHeight_spec (Or.inr rfl)
  exact Triple.bind (randomize_spec H) fun h => Triple.of_imp (hf h)

variable {g : ℤ} {n a b : ℕ}

theorem inside_cell (hg : 0 < g) {m : ℕ} (ha : a ≤ m) (hb : b ≤ m) :
    (0 ≤ g * (a : ℤ) ∧ g * (a : ℤ) ≤ g * m) ∧ 0 ≤ g * (b : ℤ) ∧ g * (b : ℤ) ≤ g * m :=
  ⟨⟨mul_nonneg hg.le (Int.natCast_nonneg a), (step_le hg).mpr ha⟩,
    mul_nonneg hg.le (Int.natCast_nonneg b), (step_le hg).mpr hb⟩

/-- The squares around the centres of a turn have their corners. -/
theorem square_cell_spec {H h : F} (hraise : Raises H P Q) (hh : Drawn H h) (hg : 0 < g)
    (hK : lattice (2 * g) n ⊆ K) {i j : ℕ} (hi : i < n) (hj : j < n)
    (hinside : Inside max (cell g (2 * i + 1) (2 * j + 1))) :
    Triple (Held max start (lattice (2 * g) n) P Q K)
      (square (g * (2 * i + 1 : ℕ)) (g * (2 * j + 1 : ℕ)) g h) fun _ m =>
      Held max start (lattice (2 * g) n) P Q K m ∧
        HasHeight max Q (g * (2 * i + 1 : ℕ), g * (2 * j + 1 : ℕ)) m := by
  have hmem {a b : ℕ} (ha : a ≤ 2 * n ∧ a % 2 = 0) (hb : b ≤ 2 * n ∧ b % 2 = 0) :
      (g * (a : ℤ), g * (b : ℤ)) ∈ lattice (2 * g) n :=
    (mem_lattice_double hg.ne').mpr ⟨ha.1, hb.1, ha.2, hb.2⟩
  have hold : cell g (2 * i + 1) (2 * j + 1) ∉ lattice (2 * g) n := by
    rw [mem_lattice_double hg.ne']
    omega
  have hsub (k : ℕ) : g * ((2 * k + 1 : ℕ) : ℤ) - g = g * (2 * k : ℕ) := step_pred g (by omega)
  have hadd (k : ℕ) : g * ((2 * k + 1 : ℕ) : ℤ) + g = g * (2 * k + 2 : ℕ) := step_succ g _
  apply square_spec hraise hh hK hinside hold
  · rw [hsub, hsub]
    exact hmem (by omega) (by omega)
  · rw [hadd, hsub]
    exact hmem (by omega) (by omega)
  · rw [hsub, hadd]
    exact hmem (by omega) (by omega)
  · rw [hadd, hadd]
    exact hmem (by omega) (by omega)

theorem generateSquares_spec {H : F} (hraise : Raises H P Q) (hg : 0 < g) :
    Triple (Held (g * (2 * n : ℕ)) start (lattice (2 * g) n) P Q (lattice (2 * g) n))
      (generateSquares g (2 * g) H) fun _ =>
      Held (g * (2 * n : ℕ)) start (lattice (2 * g) n) P Q
        (lattice (2 * g) n ∪ ⋃ j < n, centreRow g n j) := by
  refine Triple.get_bind fun m hm => ?_
  rw [hm.max_eq]
  have hfirst : g * ((2 * 0 + 1 : ℕ) : ℤ) = g := by simp
  have hcond (k : ℕ) (hk : k < n) : decide (g * ((2 * k + 1 : ℕ) : ℤ) < g * (2 * n : ℕ)) = true :=
    decide_eq_true ((step_lt hg).mpr (by omega))
  have hnext (k : ℕ) (_ : k < n) :
      g * ((2 * k + 1 : ℕ) : ℤ) + 2 * g = g * (2 * (k + 1) + 1 : ℕ) := by
    push_cast
    ring
  have hstop : decide (g * ((2 * n + 1 : ℕ) : ℤ) < g * (2 * n : ℕ)) = false :=
    decide_eq_false (mt (step_lt hg).mp (by omega))
  refine Triple.forLoop_union (fun j => g * ((2 * j + 1 : ℕ) : ℤ)) hfirst hcond hnext hstop
    (Held _ start _ P Q) _ (centreRow g n) fun j hj => ?_
  refine Triple.forLoop_union (fun i => g * ((2 * i + 1 : ℕ) : ℤ)) hfirst hcond hnext hstop
    (Held _ start _ P Q) _ (fun i => {cell g (2 * i + 1) (2 * j + 1)}) fun i hi => ?_
  have hinside : Inside (g * (2 * n : ℕ)) (cell g (2 * i + 1) (2 * j + 1)) :=
    inside_cell hg (by omega) (by omega)
  refine turn_spec hinside ?_ fun h hh => square_cell_spec hraise hh hg ?_ hi hj hinside
  · show cell g (2 * i + 1) (2 * j + 1) ∉ _
    simp only [Set.mem_union, mem_lattice_double hg.ne', mem_centreRows hg.ne', Set.mem_iUnion,
      Set.mem_singleton_iff, cell_inj hg.ne', exists_prop]
    omega
  · exact fun c hc => Or.inl (Or.inl hc)

/-- The midpoints of a turn have the corners and the centres beside them. -/
theorem around_midpoint (hg : 0 < g) (hn : 1 ≤ n)
    (hK : ∀ a b : ℕ, a ≤ 2 * n → b ≤ 2 * n → (a + b) % 2 = 0 → (g * (a : ℤ), g * (b : ℤ)) ∈ K)
    (ha : a ≤ 2 * n) (hb : b ≤ 2 * n) (hab : (a + b) % 2 = 1) :
    Around (g * (2 * n : ℕ)) K (g * a) (g * b) g := by
  have hpred {k : ℕ} : 0 ≤ g * (k : ℤ) - g ↔ 1 ≤ k := step_pred_nonneg hg
  have hsucc {k : ℕ} : g * (k : ℤ) + g ≤ g * (2 * n : ℕ) ↔ k + 1 ≤ 2 * n := by
    rw [step_succ, step_le hg]
  have hzero {k : ℕ} (h : ¬ 1 ≤ k) : g * (k : ℤ) = 0 := by
    obtain rfl : k = 0 := by omega
    exact mul_zero g
  have hsize : g ≤ g * ((2 * n : ℕ) : ℤ) := (le_step hg).mpr (by omega)
  refine ⟨fun h => ?_, fun h => ?_, fun h => ?_, fun h => ?_, fun h => ?_, fun h => ?_,
    fun h => ?_, fun h => ?_⟩
  · have h := hpred.mp h
    rw [step_pred g h]
    exact hK _ _ (by omega) hb (by omega)
  · have h := hsucc.mp h
    rw [step_succ]
    exact hK _ _ h hb (by omega)
  · have h := hpred.mp h
    rw [step_pred g h]
    exact hK _ _ ha (by omega) (by omega)
  · have h := hsucc.mp h
    rw [step_succ]
    exact hK _ _ ha h (by omega)
  · -- in the first column, where the row is odd
    have h := mt hpred.mpr (not_le.mpr h)
    exact ⟨hzero h, hsize, hpred.mpr (by omega), hsucc.mpr (by omega)⟩
  · -- in the last column
    have h := mt hsucc.mpr (not_le.mpr h)
    exact ⟨hpred.mpr (by omega), hsucc.mpr (by omega)⟩
  · have h := mt hpred.mpr (not_le.mpr h)
    exact ⟨hzero h, hsize⟩
  · have h := mt hsucc.mpr (not_le.mpr h)
    exact hpred.mpr (by omega)

theorem generateDiamonds_spec {H : F} (hraise : Raises H P Q) (hg : 0 < g) (hn : 1 ≤ n) :
    Triple (Held (g * (2 * n : ℕ)) start (lattice (2 * g) n ∪ ⋃ j < n, centreRow g n j) P Q
        (lattice (2 * g) n ∪ ⋃ j < n, centreRow g n j))
      (generateDiamonds g (2 * g) H) fun _ =>
      Held (g * (2 * n : ℕ)) start (lattice (2 * g) n ∪ ⋃ j < n, centreRow g n j) P Q
        (lattice g (2 * n)) := by
  rw [← lattice_halve hg.ne' n]
  refine Triple.get_bind fun m hm => ?_
  rw [hm.max_eq]
  refine Triple.forLoop_union (fun j => g * (j : ℤ)) (mul_zero g)
    (fun j hj => decide_eq_true ((step_le hg).mpr (Nat.le_of_lt_succ hj)))
    (fun j _ => step_succ g j)
    (decide_eq_false (mt (step_le hg).mp (by omega)))
    (Held _ start _ P Q) _ (midpointRow g n) fun j hj => ?_
  refine Triple.forLoop_union (fun i => g * ((2 * i + (j + 1) % 2 : ℕ) : ℤ)) ?_
    (fun i hi => decide_eq_true ((step_le hg).mpr (by omega))) (fun i _ => ?_)
    (decide_eq_false (mt (step_le hg).mp (by omega)))
    (Held _ start _ P Q) _ (fun i => {cell g (2 * i + (j + 1) % 2) j}) fun i hi => ?_
  · rw [midpointRow_start hg, mul_zero, zero_add]
  · push_cast
    ring
  · have hinside : Inside (g * (2 * n : ℕ)) (cell g (2 * i + (j + 1) % 2) j) :=
      inside_cell hg (by omega) (by omega)
    -- not among the corners, the centres and the midpoints before it
    have hnew : cell g (2 * i + (j + 1) % 2) j ∉
        (lattice (2 * g) n ∪ ⋃ j < n, centreRow g n j) ∪ (⋃ j' < j, midpointRow g n j') ∪
          ⋃ i' < i, {cell g (2 * i' + (j + 1) % 2) j} := by
      simp only [Set.mem_union, mem_lattice_double hg.ne', mem_centreRows hg.ne',
        mem_midpointRows hg.ne', Set.mem_iUnion, Set.mem_singleton_iff, cell_inj hg.ne',
        exists_prop]
      omega
    have hold : cell g (2 * i + (j + 1) % 2) j ∉
        lattice (2 * g) n ∪ ⋃ j < n, centreRow g n j := fun h => hnew (Or.inl (Or.inl h))
    refine turn_spec hinside hnew fun h hh => diamond_spec hraise hh
      (fun c hc => Or.inl (Or.inl hc)) hinside hold ?_
    refine around_midpoint hg hn (fun a b ha hb hab => ?_) (by omega) (by omega) (by omega)
    show cell g a b ∈ _
    rw [Set.mem_union, mem_lattice_double hg.ne', mem_centreRows hg.ne']
    omega

/-! ### The run -/

theorem smooth_spec {m : ℕ} (hsmooth : Smooths P) (hx : 1 ≤ x ∧ x < m) (hy : 1 ≤ y ∧ y < m) :
    Triple (Held m start ∅ P P (lattice 1 m)) (smooth x y : M F Unit) fun _ =>
      Held m start ∅ P P (lattice 1 m) := by
  have hread (x' y' : ℤ) (hx' : x - 1 ≤ x' ∧ x' ≤ x + 1) (hy' : y - 1 ≤ y' ∧ y' ≤ y + 1) :
      Triple (Held m start ∅ P P (lattice 1 m)) (getHeight x' y' : M F F) fun v s =>
        Held m start ∅ P P (lattice 1 m) s ∧ P v :=
    getKnown_spec (mem_lattice_one.mpr (by omega))
  refine Triple.bind (hread x y (by omega) (by omega)) fun _ => Triple.of_imp fun h₀ => ?_
  refine Triple.bind (hread (x + 1) y (by omega) (by omega)) fun _ => Triple.of_imp fun h₁ => ?_
  refine Triple.bind (hread (x - 1) y (by omega) (by omega)) fun _ => Triple.of_imp fun h₂ => ?_
  refine Triple.bind (hread (x + 1) (y + 1) (by omega) (by omega)) fun _ =>
    Triple.of_imp fun h₃ => ?_
  refine Triple.bind (hread (x - 1) (y + 1) (by omega) (by omega)) fun _ =>
    Triple.of_imp fun h₄ => ?_
  refine Triple.bind (hread (x + 1) (y - 1) (by omega) (by omega)) fun _ =>
    Triple.of_imp fun h₅ => ?_
  refine Triple.bind (hread (x - 1) (y - 1) (by omega) (by omega)) fun _ =>
    Triple.of_imp fun h₆ => ?_
  refine Triple.bind (hread x (y + 1) (by omega) (by omega)) fun _ => Triple.of_imp fun h₇ => ?_
  refine Triple.bind (hread x (y - 1) (by omega) (by omega)) fun _ => Triple.of_imp fun h₈ => ?_
  refine Triple.mono (setHeight_spec ?_ (Set.notMem_empty _)
    (hsmooth _ _ _ _ _ _ _ _ _ h₀ h₁ h₂ h₃ h₄ h₅ h₆ h₇ h₈)) (fun _ hm => hm) fun _ _ hm => hm.1
  rw [Inside]
  omega

theorem blurCell_spec (noise : F → F → F → F) {perlin : Bool} {m : ℕ} (hsmooth : Smooths P)
    (hperlin : perlin = true → Roughens P) (hx : 1 ≤ x ∧ x < m) (hy : 1 ≤ y ∧ y < m) :
    Triple (Held m start ∅ P P (lattice 1 m)) (blurCell noise perlin x y) fun _ =>
      Held m start ∅ P P (lattice 1 m) := by
  cases perlin with
  | false => exact smooth_spec hsmooth hx hy
  | true =>
      have hmem : (x, y) ∈ lattice 1 m := mem_lattice_one.mpr (by omega)
      refine Triple.bind (getKnown_spec hmem) fun height => Triple.of_imp fun hheight => ?_
      refine Triple.get_bind fun s hs => ?_
      refine Triple.bind (setHeight_spec (hs.inside _ hmem) (Set.notMem_empty _)
        (hperlin rfl height _ hheight)) fun _ => ?_
      exact Triple.mono (smooth_spec hsmooth hx hy) (fun _ hm => hm.1) fun _ _ hm => hm

/-- The blur reads cells of the map, and all of them have a height. -/
theorem blur_spec (noise : F → F → F → F) {perlin : Bool} {m : ℕ} (hm : 1 ≤ m)
    (hsmooth : Smooths P) (hperlin : perlin = true → Roughens P) :
    Triple (Held m start ∅ P P (lattice 1 m)) (blur noise perlin) fun _ =>
      Held m start ∅ P P (lattice 1 m) := by
  refine Triple.get_bind fun s hs => ?_
  rw [hs.max_eq]
  have hloop (body : ℤ → M F Unit) (hbody : ∀ i : ℤ, 1 ≤ i ∧ i < m →
      Triple (Held m start ∅ P P (lattice 1 m)) (body i) fun _ =>
        Held m start ∅ P P (lattice 1 m)) :
      Triple (Held m start ∅ P P (lattice 1 m))
        (forLoop (fun i : ℤ => decide (i < m)) (· + 1) body 1) fun _ =>
        Held m start ∅ P P (lattice 1 m) := by
    refine Triple.forLoop (fun j : ℕ => 1 + (j : ℤ)) (by simp) (k := m - 1)
      (fun j hj => decide_eq_true (by omega)) (fun j _ => by push_cast; ring)
      (decide_eq_false (by omega)) (fun _ => Held m start ∅ P P (lattice 1 m)) fun j hj => ?_
    exact hbody _ (by omega)
  exact hloop _ fun y hy => hloop _ fun x hx => blurCell_spec noise hsmooth hperlin hx hy

/-- The local variables at the start of a turn of the loop. -/
def sizes (N : ℕ) (H : F) (j : ℕ) : Sizes F :=
  Sizes.next^[j] { generateSize := 2 ^ N / 2, prevSize := 2 ^ N, H }

theorem sizes_succ (N : ℕ) (H : F) (j : ℕ) : sizes N H (j + 1) = (sizes N H j).next :=
  Function.iterate_succ_apply' _ _ _

theorem sizes_eq (N : ℕ) (H : F) {j : ℕ} (hj : j ≤ N) :
    (sizes N H j).prevSize = 2 ^ (N - j) ∧ (sizes N H j).generateSize = 2 ^ (N - j) / 2 := by
  induction j with
  | zero => exact ⟨rfl, rfl⟩
  | succ j ih =>
      obtain ⟨-, hgenerate⟩ := ih (Nat.le_of_succ_le hj)
      have hpow : (2 : ℤ) ^ (N - j) / 2 = 2 ^ (N - (j + 1)) := by
        rw [show N - j = N - (j + 1) + 1 by omega, pow_succ]
        exact Int.mul_ediv_cancel _ (by decide)
      rw [sizes_succ]
      refine ⟨?_, ?_⟩
      · rw [← hpow, ← hgenerate]
        rfl
      · rw [← hpow, ← hgenerate]
        rfl

/-- A turn halves the spacing. -/
theorem halve_spec {N j : ℕ} {P' : F → Prop} {H : F} (hj : j < N) (hturn : Turn H P Q P') :
    Triple (Held (2 ^ N) start (lattice (2 ^ (N - j)) (2 ^ j)) P P
        (lattice (2 ^ (N - j)) (2 ^ j))) (do
      generateSquares (2 ^ (N - j) / 2) (2 ^ (N - j)) H
      generateDiamonds (2 ^ (N - j) / 2) (2 ^ (N - j)) H) fun _ =>
      Held (2 ^ N) start (lattice (2 ^ (N - (j + 1))) (2 ^ (j + 1))) P' P'
        (lattice (2 ^ (N - (j + 1))) (2 ^ (j + 1))) := by
  obtain ⟨k, rfl⟩ : ∃ k, N = k + 1 + j := ⟨N - 1 - j, by omega⟩
  have hg : (0 : ℤ) < 2 ^ k := pow_pos (by decide) k
  have hprev : (2 : ℤ) ^ (k + 1 + j - j) = 2 * 2 ^ k := by
    rw [Nat.add_sub_cancel, pow_succ, mul_comm]
  have hhalf : 2 * (2 : ℤ) ^ k / 2 = 2 ^ k := Int.mul_ediv_cancel_left _ (by decide)
  have hmax : (2 : ℤ) ^ (k + 1 + j) = 2 ^ k * (2 * 2 ^ j : ℕ) := by
    push_cast
    ring
  have hsub : k + 1 + j - (j + 1) = k := by omega
  rw [hprev, hhalf, hmax, hsub, pow_succ 2 j, mul_comm (2 ^ j) 2]
  refine Triple.bind (Triple.mono (generateSquares_spec hturn.square hg)
    (fun m hm => hm.widen hturn.imp) fun _ m hm => (hm.done hturn.imp).widen hturn.imp') fun _ => ?_
  exact Triple.mono (generateDiamonds_spec hturn.diamond hg Nat.one_le_two_pow)
    (fun m hm => hm) fun _ m hm => hm.done hturn.imp'

/-- All the turns of the loop. -/
theorem turns_spec (N : ℕ) {H : F} (B C : ℕ → F → Prop)
    (hturn : ∀ j < N, Turn (sizes N H j).H (B j) (C j) (B (j + 1))) :
    Triple (Held (2 ^ N) start (lattice (2 ^ N) 1) (B 0) (B 0) (lattice (2 ^ N) 1))
      (forLoop (fun v => decide (0 < v.generateSize)) Sizes.next
        (fun v => do
          generateSquares v.generateSize v.prevSize v.H
          generateDiamonds v.generateSize v.prevSize v.H)
        { generateSize := 2 ^ N / 2, prevSize := 2 ^ N, H }) fun _ =>
      Held (2 ^ N) start (lattice 1 (2 ^ N)) (B N) (B N) (lattice 1 (2 ^ N)) := by
  refine Triple.mono (Triple.forLoop (k := N) (sizes N H) rfl (fun j hj => decide_eq_true ?_)
    (fun j _ => (sizes_succ N H j).symm) (decide_eq_false ?_)
    (fun j => Held (2 ^ N) start (lattice (2 ^ (N - j)) (2 ^ j)) (B j) (B j)
      (lattice (2 ^ (N - j)) (2 ^ j))) fun j hj => ?_)
    (fun m hm => hm) fun _ m hm => ?_
  · obtain ⟨k, hk⟩ : ∃ k, N - j = k + 1 := ⟨N - j - 1, by omega⟩
    rw [(sizes_eq N H hj.le).2, hk, pow_succ, Int.mul_ediv_cancel _ (by decide)]
    exact pow_pos (by decide) k
  · rw [(sizes_eq N H (Nat.le_refl N)).2, Nat.sub_self]
    decide
  · obtain ⟨hprev, hgenerate⟩ := sizes_eq N H hj.le
    show Triple _ (do
      generateSquares (sizes N H j).generateSize (sizes N H j).prevSize (sizes N H j).H
      generateDiamonds (sizes N H j).generateSize (sizes N H j).prevSize (sizes N H j).H) _
    rw [hprev, hgenerate]
    exact halve_spec hj (hturn j hj)
  · simpa using hm

/-- A run keeps `B` as its turns do, when neither the noise nor the smoothing of
the last heights breaks it. -/
theorem workThread_spec (noise : F → F → F → F) (N : ℕ) {H deltaSize : F} (B C : ℕ → F → Prop)
    (hturn : ∀ j < N, Turn (sizes N H j).H (B j) (C j) (B (j + 1))) (hsmooth : Smooths (B N))
    (hperlin : FloatOps.lt (FloatOps.ofRat 0) deltaSize = true → Roughens (B N)) :
    Triple (fun m => Held (2 ^ N) start (lattice (2 ^ N) 1) (B 0) (B 0) (lattice (2 ^ N) 1) m ∧
        m.H = H ∧ m.deltaSize = deltaSize) (workThread noise) fun _ =>
      Held (2 ^ N) start ∅ (B N) (B N) (lattice 1 (2 ^ N)) := by
  refine Triple.get_bind fun m hm => ?_
  obtain ⟨hheld, hH, hdelta⟩ := hm
  rw [hheld.max_eq, hH, hdelta]
  have hblur {perlin : Bool} (hperlin : perlin = true → Roughens (B N)) :
      Triple (Held (2 ^ N) start ∅ (B N) (B N) (lattice 1 (2 ^ N)))
        (blur noise perlin : M F Unit) fun _ =>
        Held (2 ^ N) start ∅ (B N) (B N) (lattice 1 (2 ^ N)) := by
    rw [← Nat.cast_two, ← Nat.cast_pow]
    exact blur_spec noise Nat.one_le_two_pow hsmooth hperlin
  -- the blur changes the heights, so that none is kept from here on
  have hforget (m : Work F)
      (hm : Held (2 ^ N) start (lattice 1 (2 ^ N)) (B N) (B N) (lattice 1 (2 ^ N)) m) :
      Held (2 ^ N) start ∅ (B N) (B N) (lattice 1 (2 ^ N)) m :=
    { hm with
      subset := Set.empty_subset _
      old := fun c hc => absurd hc (Set.notMem_empty c) }
  have hrest : Triple (fun m => Held (2 ^ N) start (lattice (2 ^ N) 1) (B 0) (B 0)
        (lattice (2 ^ N) 1) m ∧ m.H = H ∧ m.deltaSize = deltaSize) (do
      forLoop (fun v => decide (0 < v.generateSize)) Sizes.next
        (fun v => do
          generateSquares v.generateSize v.prevSize v.H
          generateDiamonds v.generateSize v.prevSize v.H)
        { generateSize := 2 ^ N / 2, prevSize := 2 ^ N, H }
      blur noise (FloatOps.lt (FloatOps.ofRat 0) deltaSize)
      blur noise false
      modify fun m => { m with isFinished := true } : M F Unit) fun _ =>
      Held (2 ^ N) start ∅ (B N) (B N) (lattice 1 (2 ^ N)) := by
    refine Triple.bind (Triple.mono (turns_spec N B C hturn) (fun _ hm => hm.1)
      fun _ => hforget) fun _ => ?_
    refine Triple.bind (hblur hperlin) fun _ => Triple.bind (hblur fun h => by cases h) fun _ => ?_
    exact Triple.modify _ fun s hs => { hs with }
  exact Triple.ite (fun _ => Triple.bind (Triple.pure _ fun _ h => h) fun _ => hrest)
    fun _ => hrest

end

end DiamondSquare

end PCGForUnity
