/-
PCGForUnity/Unity/TerrainPiece.lean

The links between the terrains that are shown (`TerrainPiece.cs`).  For every layout of pieces

    SetNeighbors of a piece comes to an end
      ↔  no cycle of pieces beside each other can be reached from it

(`setNeighbors_terminates_iff`).

`SetNeighbors` looks up its neighbours and calls itself for them, but not for the one in the
direction that it is told to ignore, which is where the call came from.  That keeps it from
going back at once; it does not keep it from going round.

Design.  The recursion is given some fuel; `none` says that it was not enough, and a run comes
to an end if some fuel is.  The calls are a search in the graph of pieces beside each other
(`Lib/Exploration`), whatever links they set on the way: which piece is called next depends on
the layout alone.
-/
import PCGForUnity.Lib.Exploration
import Mathlib.Algebra.Ring.Int.Defs
import Mathlib.Data.List.Nodup

namespace PCGForUnity

/-- `TerrainNeighbor` -/
inductive TerrainNeighbor
  | neighborPositionLeft
  | neighborPositionBottom
  | neighborPositionRight
  | neighborPositionTop
  | neighborTotal
deriving DecidableEq, Repr

namespace TerrainNeighbor

/-- The value of the enumerator. -/
def toInt : TerrainNeighbor → ℤ
  | neighborPositionLeft => 0
  | neighborPositionBottom => 1
  | neighborPositionRight => 2
  | neighborPositionTop => 3
  | neighborTotal => 4

/-- `(TerrainNeighbor)i`, for the values that it has names for. -/
def ofInt : ℤ → TerrainNeighbor
  | 0 => neighborPositionLeft
  | 1 => neighborPositionBottom
  | 2 => neighborPositionRight
  | 3 => neighborPositionTop
  | _ => neighborTotal

/-- The values of the loop over the neighbours. -/
def positions : List TerrainNeighbor :=
  [neighborPositionLeft, neighborPositionBottom, neighborPositionRight, neighborPositionTop]

/-- `(n + 2) % neighborTotal` -/
def opposite (n : TerrainNeighbor) : TerrainNeighbor :=
  ofInt ((n.toInt + 2).tmod neighborTotal.toInt)

/-- The place beside a place of the grid. -/
def beside : TerrainNeighbor → ℤ × ℤ → ℤ × ℤ
  | neighborPositionLeft, (x, y) => (x - 1, y)
  | neighborPositionBottom, (x, y) => (x, y - 1)
  | neighborPositionRight, (x, y) => (x + 1, y)
  | neighborPositionTop, (x, y) => (x, y + 1)
  | neighborTotal, place => place

theorem beside_opposite {n : TerrainNeighbor} (hn : n ∈ positions) (place : ℤ × ℤ) :
    beside (opposite n) (beside n place) = place := by
  obtain ⟨x, y⟩ := place
  cases n with
  | neighborPositionLeft => exact congrArg (·, y) (sub_add_cancel x 1)
  | neighborPositionBottom => exact congrArg (x, ·) (sub_add_cancel y 1)
  | neighborPositionRight => exact congrArg (·, y) (add_sub_cancel_right x 1)
  | neighborPositionTop => exact congrArg (x, ·) (add_sub_cancel_right y 1)
  | neighborTotal => simp [positions] at hn

theorem opposite_mem {n : TerrainNeighbor} (hn : n ∈ positions) : opposite n ∈ positions := by
  cases n with
  | neighborTotal => simp [positions] at hn
  | _ => decide

/-- In different directions there are different places. -/
theorem beside_inj {m n : TerrainNeighbor} {place : ℤ × ℤ} (h : beside m place = beside n place) :
    m = n := by
  obtain ⟨x, y⟩ := place
  cases m <;> cases n <;> simp [beside] at h ⊢ <;> omega

end TerrainNeighbor

/-- The links of a `TerrainPiece`, and those that its `terrain` was last given: left, top, right and
bottom.  A piece and its terrain are told by its `instaneId`. -/
structure TerrainPiece where
  neighborLeft : Option UInt32
  neighborRight : Option UInt32
  neighborBottom : Option UInt32
  neighborTop : Option UInt32
  terrainNeighbors : List (Option UInt32)
deriving DecidableEq, Repr

namespace TerrainPiece

open TerrainNeighbor

/-- A side gets a neighbour. -/
def setNeighbor (p : TerrainPiece) (neighbor : Option UInt32) : TerrainNeighbor → TerrainPiece
  | neighborPositionLeft => { p with neighborLeft := neighbor }
  | neighborPositionRight => { p with neighborRight := neighbor }
  | neighborPositionBottom => { p with neighborBottom := neighbor }
  | neighborPositionTop => { p with neighborTop := neighbor }
  | neighborTotal => p

/-- The neighbour on a side. -/
def getNeighbor (p : TerrainPiece) : TerrainNeighbor → Option UInt32
  | neighborPositionLeft => p.neighborLeft
  | neighborPositionRight => p.neighborRight
  | neighborPositionBottom => p.neighborBottom
  | neighborPositionTop => p.neighborTop
  | neighborTotal => none

/-- `terrain.SetNeighbors` at the end of `SetNeighbors`. -/
def showNeighbors (p : TerrainPiece) : TerrainPiece :=
  { p with
    terrainNeighbors :=
      [neighborPositionLeft, neighborPositionTop, neighborPositionRight, neighborPositionBottom].map
        p.getNeighbor }

end TerrainPiece

/-- The pieces that are loaded, the keys of `_terrainDic`, each in a place of its own. -/
structure Layout where
  pieces : List UInt32
  place : UInt32 → ℤ × ℤ
  zero_notMem : 0 ∉ pieces
  place_inj : ∀ p ∈ pieces, ∀ q ∈ pieces, place p = place q → p = q

namespace Layout

open TerrainNeighbor

/-- `WorldMapBindings_GetNeighbor`: the piece beside another one, or 0. -/
def getNeighbor (g : Layout) (who : UInt32) (dir : TerrainNeighbor) : UInt32 :=
  (g.pieces.find? fun p => g.place p = beside dir (g.place who)).getD 0

/-- `UnityCppBindings.GetTerrain` -/
def getTerrain (g : Layout) (instanceId : UInt32) : Option UInt32 :=
  if instanceId ∈ g.pieces then some instanceId else none

/-- `SetNeighbors` -/
def setNeighbors (g : Layout) :
    ℕ → (UInt32 → TerrainPiece) → UInt32 → TerrainNeighbor → Option (UInt32 → TerrainPiece)
  | 0, _, _, _ => none
  | fuel + 1, s, who, ignoreNeighbor => do
      let s ← positions.foldlM (fun s n =>
        let t := g.getTerrain (g.getNeighbor who n)
        let s := fun p => if p = who then (s p).setNeighbor t n else s p
        match t with
        | some t => if n ≠ ignoreNeighbor then setNeighbors g fuel s t (opposite n) else some s
        | none => some s) s
      some fun p => if p = who then (s p).showNeighbors else s p

/-- The calls come to an end. -/
def Terminates (g : Layout) (s : UInt32 → TerrainPiece) (who : UInt32) : Prop :=
  ∃ fuel, (g.setNeighbors fuel s who neighborTotal).isSome

/-- Pieces are joined to those beside them. -/
def graph (g : Layout) : SimpleGraph UInt32 where
  Adj p q := p ∈ g.pieces ∧ q ∈ g.pieces ∧ ∃ n ∈ positions, g.place q = beside n (g.place p)
  symm := ⟨by
    rintro p q ⟨hp, hq, n, hn, hplace⟩
    exact ⟨hq, hp, opposite n, opposite_mem hn, by rw [hplace, beside_opposite hn]⟩⟩
  loopless := ⟨by
    rintro p ⟨-, -, n, hn, hplace⟩
    have htotal : beside n (g.place p) = beside neighborTotal (g.place p) := hplace.symm
    rw [beside_inj htotal] at hn
    simp [positions] at hn⟩

instance (g : Layout) : DecidableRel g.graph.Adj := fun p q =>
  inferInstanceAs (Decidable (p ∈ g.pieces ∧ q ∈ g.pieces ∧ ∃ n ∈ positions, _ = _))

/-! ### The calls as a search -/

variable {g : Layout} {p t : UInt32} {m n : TerrainNeighbor} {s : UInt32 → TerrainPiece}

/-- The piece beside another one. -/
def neighbor (g : Layout) (who : UInt32) (n : TerrainNeighbor) : Option UInt32 :=
  g.getTerrain (g.getNeighbor who n)

theorem neighbor_eq_some_iff :
    g.neighbor p n = some t ↔ t ∈ g.pieces ∧ g.place t = beside n (g.place p) := by
  rw [neighbor, getNeighbor, getTerrain]
  cases hfind : g.pieces.find? fun q => g.place q = beside n (g.place p) with
  | none =>
      have hnone := List.find?_eq_none.mp hfind
      rw [Option.getD_none, if_neg g.zero_notMem]
      refine iff_of_false (fun h => by cases h) fun h => hnone t h.1 (decide_eq_true h.2)
  | some q =>
      have hq := List.mem_of_find?_eq_some hfind
      have hplace : g.place q = beside n (g.place p) := of_decide_eq_true (List.find?_some hfind :)
      rw [Option.getD_some, if_pos hq]
      constructor
      · intro h
        obtain rfl := Option.some.inj h
        exact ⟨hq, hplace⟩
      · exact fun ⟨ht, hplace'⟩ => congrArg some (g.place_inj q hq t ht (hplace.trans hplace'.symm))

/-- The piece that is ignored. -/
def ignored (g : Layout) (who : UInt32) (ignoreNeighbor : TerrainNeighbor) : Option UInt32 :=
  if ignoreNeighbor = neighborTotal then none else g.neighbor who ignoreNeighbor

/-- The neighbour of a neighbour, in the direction it is told to ignore. -/
theorem ignored_opposite (hp : p ∈ g.pieces) (hn : n ∈ positions) (ht : g.neighbor p n = some t) :
    g.ignored t (opposite n) = some p := by
  have hne : opposite n ≠ neighborTotal := by
    intro heq
    have hmem := opposite_mem hn
    rw [heq] at hmem
    simp [positions] at hmem
  rw [ignored, if_neg hne, neighbor_eq_some_iff, (neighbor_eq_some_iff.mp ht).2, beside_opposite hn]
  exact ⟨hp, rfl⟩

/-- The search goes where the code calls itself. -/
theorem next_iff (hp : p ∈ g.pieces) {b : UInt32 × Option UInt32} :
    Exploration.Next g.graph (p, g.ignored p m) b ↔
      ∃ n ∈ positions, n ≠ m ∧ g.neighbor p n = some b.1 ∧ b.2 = g.ignored b.1 (opposite n) := by
  obtain ⟨t, r⟩ := b
  constructor
  · rintro ⟨⟨-, ht, n, hn, hplace⟩, hback, hr⟩
    have hneighbor : g.neighbor p n = some t := neighbor_eq_some_iff.mpr ⟨ht, hplace⟩
    refine ⟨n, hn, ?_, hneighbor, hr.trans (ignored_opposite hp hn hneighbor).symm⟩
    rintro rfl
    have hne : n ≠ neighborTotal := by
      rintro rfl
      simp [positions] at hn
    rw [ignored, if_neg hne] at hback
    exact hback hneighbor
  · rintro ⟨n, hn, hne, hneighbor, hr⟩
    obtain ⟨ht, hplace⟩ := neighbor_eq_some_iff.mp hneighbor
    refine ⟨⟨hp, ht, n, hn, hplace⟩, fun hback => ?_, hr.trans (ignored_opposite hp hn hneighbor)⟩
    have hback : g.ignored p m = some t := hback
    rw [ignored] at hback
    split at hback
    · cases hback
    · obtain ⟨-, hplace'⟩ := neighbor_eq_some_iff.mp hback
      exact hne (beside_inj (hplace.symm.trans hplace'))

/-! ### The fuel -/

section Fold

variable {σ α : Type*} {f : σ → α → Option σ}

theorem isSome_foldlM {l : List α} (h : ∀ a ∈ l, ∀ s, (f s a).isSome) (s : σ) :
    (l.foldlM f s).isSome := by
  induction l generalizing s with
  | nil => rfl
  | cons a l ih =>
      obtain ⟨s', hs'⟩ := Option.isSome_iff_exists.mp (h a List.mem_cons_self s)
      rw [List.foldlM_cons, hs']
      exact ih (fun b hb => h b (List.mem_cons_of_mem _ hb)) s'

theorem exists_isSome_of_foldlM {l : List α} {s : σ} (h : (l.foldlM f s).isSome) {a : α}
    (ha : a ∈ l) : ∃ s, (f s a).isSome := by
  induction l generalizing s with
  | nil => cases ha
  | cons b l ih =>
      obtain ⟨s'', hs''⟩ := Option.isSome_iff_exists.mp h
      rw [List.foldlM_cons] at hs''
      obtain ⟨s', hs', hrest⟩ := Option.bind_eq_some_iff.mp hs''
      rcases List.mem_cons.mp ha with rfl | ha
      · exact ⟨s, Option.isSome_iff_exists.mpr ⟨s', hs'⟩⟩
      · exact ih (Option.isSome_iff_exists.mpr ⟨s'', hrest⟩) ha

/-- What holds of every element from some fuel on holds of all from some fuel on. -/
theorem exists_fuel {l : List α} {P : ℕ → α → Prop}
    (h : ∀ a ∈ l, ∃ fuel, ∀ fuel' ≥ fuel, P fuel' a) :
    ∃ fuel, ∀ fuel' ≥ fuel, ∀ a ∈ l, P fuel' a := by
  induction l with
  | nil => exact ⟨0, fun _ _ a ha => by cases ha⟩
  | cons b l ih =>
      obtain ⟨fuel, hfuel⟩ := ih fun a ha => h a (List.mem_cons_of_mem _ ha)
      obtain ⟨fuel₁, hfuel₁⟩ := h b List.mem_cons_self
      refine ⟨max fuel fuel₁, fun fuel' hle a ha => ?_⟩
      rcases List.mem_cons.mp ha with rfl | ha
      · exact hfuel₁ fuel' (le_trans (le_max_right _ _) hle)
      · exact hfuel fuel' (le_trans (le_max_left _ _) hle) a ha

end Fold

/-- The body of the loop. -/
def visit (g : Layout) (fuel : ℕ) (who : UInt32) (ignoreNeighbor : TerrainNeighbor)
    (s : UInt32 → TerrainPiece) (n : TerrainNeighbor) : Option (UInt32 → TerrainPiece) :=
  let s := fun p => if p = who then (s p).setNeighbor (g.neighbor who n) n else s p
  match g.neighbor who n with
  | some t => if n ≠ ignoreNeighbor then g.setNeighbors fuel s t (opposite n) else some s
  | none => some s

theorem isSome_setNeighbors {fuel : ℕ} : (g.setNeighbors (fuel + 1) s p m).isSome =
    (positions.foldlM (g.visit fuel p m) s).isSome := by
  show (Option.bind (positions.foldlM (g.visit fuel p m) s) _).isSome = _
  cases positions.foldlM (g.visit fuel p m) s <;> rfl

/-- A call that returns is a search that ends. -/
theorem ends_of_isSome {fuel : ℕ} (hp : p ∈ g.pieces)
    (h : (g.setNeighbors fuel s p m).isSome) :
    Exploration.Ends g.graph (p, g.ignored p m) := by
  induction fuel generalizing p m s with
  | zero => cases h
  | succ fuel ih =>
      rw [isSome_setNeighbors] at h
      refine Acc.intro _ fun b hb => ?_
      obtain ⟨n, hn, hne, hneighbor, hr⟩ := (next_iff hp).mp hb
      obtain ⟨s', hs'⟩ := exists_isSome_of_foldlM h hn
      rw [visit, hneighbor] at hs'
      dsimp only at hs'
      rw [if_pos hne] at hs'
      have hends := ih (neighbor_eq_some_iff.mp hneighbor).1 hs'
      rw [← hr] at hends
      exact hends

/-- A search that ends is a call that returns, whatever the links were. -/
theorem isSome_of_ends {a : UInt32 × Option UInt32} (h : Exploration.Ends g.graph a)
    (ha : a = (p, g.ignored p m)) (hp : p ∈ g.pieces) :
    ∃ fuel, ∀ fuel' ≥ fuel, ∀ s, (g.setNeighbors fuel' s p m).isSome := by
  induction h generalizing p m with
  | intro a _ ih =>
      subst ha
      -- the fuel of the calls in each direction
      have hcall (n : TerrainNeighbor) (hn : n ∈ positions) :
          ∃ fuel, ∀ fuel' ≥ fuel, ∀ s, (g.visit fuel' p m s n).isSome := by
        cases hneighbor : g.neighbor p n with
        | none =>
            refine ⟨0, fun fuel' _ s => ?_⟩
            rw [visit, hneighbor]
            rfl
        | some t =>
            by_cases hne : n = m
            · refine ⟨0, fun fuel' _ s => ?_⟩
              rw [visit, hneighbor]
              dsimp only
              rw [if_neg (not_not.mpr hne)]
              rfl
            · have hnext := (next_iff hp).mpr ⟨n, hn, hne, hneighbor,
                (rfl : (t, g.ignored t (opposite n)).2 = _)⟩
              obtain ⟨fuel, hfuel⟩ := ih _ hnext rfl (neighbor_eq_some_iff.mp hneighbor).1
              refine ⟨fuel, fun fuel' hle s => ?_⟩
              rw [visit, hneighbor]
              dsimp only
              rw [if_pos hne]
              exact hfuel fuel' hle _
      obtain ⟨fuel, hfuel⟩ := exists_fuel hcall
      refine ⟨fuel + 1, fun fuel' hle s => ?_⟩
      obtain ⟨k, rfl⟩ : ∃ k, fuel' = k + 1 := ⟨fuel' - 1, by omega⟩
      rw [isSome_setNeighbors]
      exact isSome_foldlM (hfuel k (by omega)) s

instance : Finite UInt32 :=
  Finite.of_injective (fun id : UInt32 => (⟨id.toNat, id.toNat_lt⟩ : Fin (2 ^ 32)))
    fun _ _ h => UInt32.toNat_inj.mp (Fin.mk.inj h)

/-- **Neighbour propagation terminates where there is no ring.**  `SetNeighbors` of a piece comes
to an end if no cycle of pieces beside each other can be reached from it, and only then. -/
theorem setNeighbors_terminates_iff (g : Layout) (s : UInt32 → TerrainPiece) (hp : p ∈ g.pieces) :
    g.Terminates s p ↔ ¬ Exploration.ReachesCycle g.graph p := by
  have hnone : g.ignored p neighborTotal = none := if_pos rfl
  rw [← Exploration.ends_iff, ← hnone]
  constructor
  · rintro ⟨fuel, hfuel⟩
    exact ends_of_isSome hp hfuel
  · intro hends
    obtain ⟨fuel, hfuel⟩ := isSome_of_ends hends rfl hp
    exact ⟨fuel, hfuel fuel (le_refl _) s⟩

/-- Pieces without any links yet. -/
def unlinked : UInt32 → TerrainPiece := fun _ => ⟨none, none, none, none, []⟩

/-- Pieces in a row. -/
def row : Layout where
  pieces := [1, 2, 3]
  place p := (p.toNat, 0)
  zero_notMem := by decide
  place_inj _ _ _ _ h := UInt32.toNat_inj.mp (Int.natCast_inj.mp (Prod.mk.inj h).1)

theorem setNeighbors_terminates_iff_row : ¬ Exploration.ReachesCycle row.graph 2 :=
  (setNeighbors_terminates_iff row unlinked (by decide)).mp ⟨3, by decide⟩

/-- Two rows of two pieces. -/
def block : Layout where
  pieces := [1, 2, 3, 4]
  place p := ((p.toNat - 1) % 2, (p.toNat - 1) / 2)
  zero_notMem := by decide
  place_inj _ hp _ hq := List.inj_on_of_nodup_map
    (f := fun p : UInt32 => (((p.toNat : ℤ) - 1) % 2, ((p.toNat : ℤ) - 1) / 2)) (by decide) hp hq

/-- From everywhere in the block there are two pieces to go on to. -/
theorem block_goes_round : ¬ block.Terminates unlinked 1 := by
  have htwo : ∀ p ∈ block.pieces, ∃ t ∈ block.pieces, ∃ t' ∈ block.pieces,
      t ≠ t' ∧ block.graph.Adj p t ∧ block.graph.Adj p t' := by
    intro p hp
    obtain rfl | rfl | rfl | rfl : p = 1 ∨ p = 2 ∨ p = 3 ∨ p = 4 := by simpa [block] using hp
    · exact ⟨2, by decide, 3, by decide, by decide, by decide, by decide⟩
    · exact ⟨1, by decide, 4, by decide, by decide, by decide, by decide⟩
    · exact ⟨1, by decide, 4, by decide, by decide, by decide, by decide⟩
    · exact ⟨2, by decide, 3, by decide, by decide, by decide, by decide⟩
  rintro ⟨fuel, hfuel⟩
  have hends := ends_of_isSome (by decide : (1 : UInt32) ∈ block.pieces) hfuel
  refine Exploration.not_ends_of_forall_exists
    (S := {a : UInt32 × Option UInt32 | a.1 ∈ block.pieces}) ?_
    (show (1 : UInt32) ∈ block.pieces by decide) hends
  rintro ⟨p, r⟩ hp
  obtain ⟨t, ht, t', ht', hne, hadj, hadj'⟩ := htwo p hp
  by_cases hr : r = some t
  · exact ⟨(t', some p), ht', hadj', fun h => hne (Option.some.inj (hr.symm.trans h)), rfl⟩
  · exact ⟨(t, some p), ht, hadj, hr, rfl⟩

end Layout

end PCGForUnity
