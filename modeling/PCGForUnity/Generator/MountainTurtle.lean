/-
PCGForUnity/Generator/MountainTurtle.lean

When the brackets restore the turtle, with real numbers.  For every list with balanced
brackets in which each direction is followed by a variable,

    every block that is finished leaves the turtle where it was, and as it looked
      ↔  the word is aligned

(`brackets_restore_iff`), that is, each outer block starts where the direction is the number
of the symbol after its `[`, and no variable stands in a block inside it.

`Start` takes the direction back from the wrong member of its record, the number of the
symbol, and `GenNextBlock` takes nothing back.  So a block inside another one is left where
its moves end, which is never where they began.

Design.  That moves never lead back is arithmetic: they are steps of one length whose
directions differ by multiples of 15 radians, and a sum of such directions is not zero
(`Lib/ExpSums`).
-/
import PCGForUnity.Generator.MountainWord
import PCGForUnity.Lib.ExpSums

namespace PCGForUnity

/-- Exact arithmetic with the real numbers. -/
noncomputable instance : FloatOps ℝ where
  ofRat := fun q => q
  toInt := fun x => if 0 ≤ x then ⌊x⌋ else ⌈x⌉
  le := fun a b => decide (a ≤ b)
  lt := fun a b => decide (a < b)

namespace MountainGen

/-! ### Directions in units of 15 -/

/-- What a direction adds to the angle, in units of 15. -/
def unitsOf (d : Char) : ℤ :=
  if d = '<' then -2 else if d = '>' then 2 else if d = '+' then 1 else if d = '-' then -1 else 0

/-- What an element adds to the angle. -/
def Elem.units (e : Elem) : ℤ := e.dir.elim 0 unitsOf

namespace Word

/-- What a word adds to the angle if no block restores it. -/
def units : Word → ℤ
  | nil => 0
  | move e rest => e.units + rest.units
  | block inner rest => inner.units + rest.units
  | other _ rest => rest.units

/-- The directions of its moves, from `n` on. -/
def path : Word → ℤ → List ℤ
  | nil, _ => []
  | move e rest, n => (n + e.units) :: rest.path (n + e.units)
  | block inner rest, n => inner.path n ++ rest.path (n + inner.units)
  | other _ rest, n => rest.path n

theorem path_ne_nil {w : Word} (h : ¬ w.Moveless) (n : ℤ) : w.path n ≠ [] := by
  induction w generalizing n with
  | nil => exact absurd trivial h
  | move e rest ih => exact List.cons_ne_nil _ _
  | block inner rest ihi ihr =>
      by_cases hinner : inner.Moveless
      · exact List.append_ne_nil_of_right_ne_nil _ (ihr (fun hrest => h ⟨hinner, hrest⟩) _)
      · exact List.append_ne_nil_of_left_ne_nil (ihi hinner n) _
  | other o rest ih => exact ih h n

end Word

theorem getDirection_eq (d : Char) (dir : ℝ) : getDirection d dir = dir + 15 * unitsOf d := by
  have hlit (q : ℚ) : (FloatOps.ofRat q : ℝ) = q := rfl
  rw [getDirection, unitsOf, hlit, hlit]
  split
  · push_cast
    ring
  split
  · push_cast
    ring
  split
  · push_cast
    ring
  split
  · push_cast
    ring
  · push_cast
    ring

theorem Elem.turn_eq (e : Elem) (dir : ℝ) : e.turn dir = dir + 15 * e.units := by
  rcases e with ⟨- | d, v, hd, hv⟩
  · show dir = dir + 15 * ((0 : ℤ) : ℝ)
    rw [Int.cast_zero, mul_zero, add_zero]
  · exact getDirection_eq d dir

/-- Where the moves lead. -/
theorem Word.walk_eq (w : Word) (step : ℤ) (θ : ℝ) {p : Pose ℝ} {n : ℤ}
    (hp : p.dir = θ + (15 : ℤ) * n) :
    w.walk Real.cos Real.sin step p =
      { x := p.x + step * ((w.path n).map fun k : ℤ => Real.cos (θ + (15 : ℤ) * k)).sum
        y := p.y + step * ((w.path n).map fun k : ℤ => Real.sin (θ + (15 : ℤ) * k)).sum
        dir := θ + (15 : ℤ) * ((n + w.units : ℤ) : ℝ) } := by
  induction w generalizing p n with
  | nil =>
      rw [Word.walk, Word.path, Word.units, List.map_nil, List.map_nil, List.sum_nil, mul_zero,
        add_zero, add_zero, add_zero, ← hp]
  | move e rest ih =>
      have hturn : e.turn p.dir = θ + (15 : ℤ) * ((n + e.units : ℤ) : ℝ) := by
        rw [Elem.turn_eq, hp]
        push_cast
        ring
      rw [Word.walk, ih hturn, Word.path, Word.units, List.map_cons, List.sum_cons, List.map_cons,
        List.sum_cons, ← add_assoc n, mul_add, mul_add, ← add_assoc, ← add_assoc, ← hturn]
      rfl
  | block inner rest ihi ihr =>
      rw [Word.walk, ihi hp, ihr rfl, Word.path, Word.units, List.map_append, List.sum_append,
        List.map_append, List.sum_append, ← add_assoc n, mul_add, mul_add, ← add_assoc, ← add_assoc]
  | other o rest ih => exact ih hp

/-- A block that is left with moves is not restored. -/
theorem not_restored_of_moved {step : ℤ} (hstep : 0 < step) {b : MountainBlock ℝ}
    (h : Moved Real.cos Real.sin step b) : ¬ b.Restored := by
  obtain ⟨inner, hmoves, hpose⟩ := h
  rintro ⟨hpoint, -⟩
  have hdir : b.dir = b.dir + (15 : ℤ) * ((0 : ℤ) : ℝ) := by
    rw [Int.cast_zero, mul_zero, add_zero]
  rw [inner.walk_eq step b.dir hdir, hpoint] at hpose
  have hpos : (step : ℝ) ≠ 0 := Int.cast_ne_zero.mpr hstep.ne'
  have hx := congrArg Pose.x hpose
  have hy := congrArg Pose.y hpose
  refine ExpSums.sum_cos_sin_ne_zero (show (15 : ℤ) ≠ 0 by decide) b.dir (inner.path_ne_nil hmoves 0) ⟨?_, ?_⟩
  · exact (mul_eq_zero.mp (left_eq_add.mp hx)).resolve_left hpos
  · exact (mul_eq_zero.mp (left_eq_add.mp hy)).resolve_left hpos

/-! ### All blocks -/

theorem restored_iff (noise : ℝ → ℝ → ℝ → ℝ) (w : Word) {m₀ : MountainGen ℝ}
    (htext : m₀.tmpList = w.text) (hrpos : m₀.rpos = 0) (hstep : 0 < m₀.step) :
    ∃ ended m' bs, (startLoop Real.cos Real.sin noise).run m₀ = some (ended, m') ∧
      m'.blocks = m₀.blocks ++ bs ∧
      ((∀ b ∈ bs, b.Restored) ↔ w.Aligned 0 m₀.currentDir) := by
  have hrest : rest m₀ = w.text := by
    rw [rest, hrpos, List.drop_zero, htext]
  obtain ⟨ended, m', hrun, hstarted⟩ := startLoop_spec Real.cos Real.sin noise w hrest
  obtain ⟨bs, hbs, houter⟩ := hstarted.blocks_eq
  rw [hrpos] at houter
  refine ⟨ended, m', bs, hrun, hbs, fun hall => ?_, houter.restored⟩
  by_contra hnot
  obtain ⟨b, hb, hdir | hmoved⟩ := houter.lost hnot
  · exact hdir (hall b hb).2
  · exact not_restored_of_moved hstep hmoved (hall b hb)

/-- The brackets of a list restore the turtle exactly if each outer one stands where the
direction is the number of the symbol after it, and no variable is in an inner one. -/
theorem brackets_restore_iff (noise : ℝ → ℝ → ℝ → ℝ) {m₀ : MountainGen ℝ}
    (hbalanced : balanced 0 m₀.tmpList = true) (hdirs : dirsFollowed m₀.tmpList = true)
    (hrpos : m₀.rpos = 0) (hstep : 0 < m₀.step) :
    ∃ (w : Word) (ended : Bool) (m' : MountainGen ℝ) (bs : List (MountainBlock ℝ)),
      w.text = m₀.tmpList ∧
      (startLoop Real.cos Real.sin noise).run m₀ = some (ended, m') ∧
      m'.blocks = m₀.blocks ++ bs ∧
      ((∀ b ∈ bs, b.Restored) ↔ w.Aligned 0 m₀.currentDir) := by
  obtain ⟨w, hw⟩ := exists_word hbalanced hdirs
  obtain ⟨ended, m', bs, h⟩ := restored_iff noise w hw.symm hrpos hstep
  exact ⟨w, ended, m', bs, hw, h⟩

/-- A mountain whose symbols are `S[-S]`, as `Gen` makes them with some luck. -/
noncomputable def branched : MountainGen ℝ :=
  { init ⟨0, 0, 0⟩ 1000 0 false ⟨fun _ => 0, 0⟩ with tmpList := ['S', '[', '-', 'S', ']'] }

theorem brackets_restore_iff_branched :
    ∃ (w : Word) (ended : Bool) (m' : MountainGen ℝ) (bs : List (MountainBlock ℝ)),
      w.text = branched.tmpList ∧
      (startLoop Real.cos Real.sin fun _ _ _ => 0).run branched = some (ended, m') ∧
      m'.blocks = branched.blocks ++ bs ∧
      ((∀ b ∈ bs, b.Restored) ↔ w.Aligned 0 branched.currentDir) :=
  brackets_restore_iff _ rfl rfl rfl (by decide)

/-- The direction is 2 after its block, and was 0 before. -/
theorem branched_turns :
    ∃ ended m', (startLoop Real.cos Real.sin fun _ _ _ => 0).run branched = some (ended, m') ∧
      ¬ ∀ b ∈ m'.blocks, b.Restored := by
  let S : Elem := ⟨none, 'S', by simp, rfl⟩
  let minusS : Elem := ⟨some '-', 'S', by simp [isDir], rfl⟩
  have htext : branched.tmpList = (Word.move S (.block (.move minusS .nil) .nil)).text := rfl
  obtain ⟨ended, m', bs, hrun, hbs, hiff⟩ :=
    restored_iff (fun _ _ _ => 0) _ htext rfl (by decide)
  have hbs : m'.blocks = bs := hbs
  rw [← hbs] at hiff
  refine ⟨ended, m', hrun, fun hall => ?_⟩
  obtain ⟨hdir, -⟩ := hiff.mp hall
  have h : ((0 : ℚ) : ℝ) = (((0 + 1 + 1 : ℕ) : ℚ) : ℝ) := hdir
  norm_num at h

end MountainGen

end PCGForUnity
