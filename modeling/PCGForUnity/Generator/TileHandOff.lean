/-
PCGForUnity/Generator/TileHandOff.lean

The generator thread and the main thread (`MapGenerator::WorkThread` and
`UpdateInMainThread`), step by step, in any order.  In every run, with `Stop` at any time
(`hands_off`)

* the callback is called for the first ids, in order, for no more than there are tiles;
* while it runs for a terrain, `m_pCurrentMap` is that terrain, the terrain is in the map, and
  the copies are as `Generate` left them, which no step of either thread changes;
* `InitTerrainInMainThread` hands over these copies.

Design.  What a thread does between two accesses to what both of them see is one step; the
position of the worker is a constructor of `Worker`, and a lock that is taken makes the step
of the other thread have no result.

One pair of copies and one `m_pCurrentMap` serve all tiles.  The worker changes
`m_pCurrentMap` without holding `m_generatorMtx`; that no callback sees this rests on the
queue being empty by then, and on the lock that `InitilizeNext` takes, which waits for a
callback that has taken its tile out of the queue.  `At` says for each position of the worker
what it may rely on.
-/
import PCGForUnity.Generator.CopyTile
import PCGForUnity.Lib.Run

namespace PCGForUnity

namespace TileHandOff

open MapGenerator

variable {α : Type}

/-- Where the worker is: before the statement named, or at the lock of the function named. -/
inductive Worker
  | begin
  | loop
  | initilizeNext
  | newMap (terr : UInt32)
  | locate (terr : UInt32)
  | load (terr : UInt32)
  | loaded (terr : UInt32)
  | lock (terr : UInt32)
  | copy (terr : UInt32)
  | unlock (terr : UInt32)
  | wait (terr : UInt32)
  | sleep (terr : UInt32)
  | waited (terr : UInt32)
  | last (terr : UInt32)
  | exit
  | exited
deriving DecidableEq, Repr

/-- Where the main thread is: outside `UpdateInMainThread`, at the test of its loop,
or in the callback for a terrain. -/
inductive Main
  | outside
  | update
  | callback (terr : UInt32)
deriving DecidableEq, Repr

/-- Who takes a step. -/
inductive Thread
  | worker
  | main
deriving DecidableEq, Repr

/-- The two threads and what they share.  `generated` are the copies as `Generate`
left them, `calls` the ids the callback was called for, and `inits` what the
callbacks were given by `InitTerrainInMainThread`. -/
structure State (α : Type) where
  gen : MapGenerator α
  worker : Worker
  main : Main
  mtx : Option Thread
  generated : UInt32 → Option (Buffer α × Buffer α)
  calls : List UInt32
  inits : List (UInt32 × Option (List α × List α))

/-- A step of a thread, or a call of `Stop`.  `genWorldMap` comes with the maps it
makes, and a call of `InitTerrainInMainThread` with the sizes the callback passes. -/
inductive Act (α : Type)
  | genWorldMap (heights splats : ℕ → α)
  | work
  | update
  | next
  | initTerrain (heightMapSize splatWidth splatCount : UInt32)
  | ret
  | stop

/-- A step of `WorkThread` and of what it calls. -/
def work (s : State α) : Option (State α) :=
  match s.worker with
  | .begin => if s.gen.run then none else some { s with worker := .loop }
  | .loop => some { s with worker := if s.gen.run then .initilizeNext else .exit }
  | .initilizeNext =>
      if s.mtx = none then
        let current := s.gen.initilizeNext
        some { s with worker := if current > 0 then .newMap current else .wait current }
      else none
  | .newMap terr =>
      let map := Terrain.new terr s.gen.data.singleMapSize
      some { s with
        gen := { s.gen with currentTerrain := terr, currentMap := some map }
        worker := .locate terr }
  | .locate terr => (s.gen.beginTerrain terr).map fun gen => { s with gen, worker := .load terr }
  | .load terr => some { s with worker := if s.gen.run then .loaded terr else .wait terr }
  | .loaded terr => some { s with worker := if s.gen.run then .lock terr else .wait terr }
  | .lock terr =>
      if s.mtx = none then some { s with mtx := some .worker, worker := .copy terr } else none
  | .copy terr => (s.gen.copyTerrain terr).map fun gen =>
      { s with
        gen
        worker := .unlock terr
        generated := fun t =>
          if t = terr then some (gen.heightMapCopy, gen.splatMapCopy) else s.generated t }
  | .unlock terr => some { s with mtx := none, worker := .wait terr }
  | .wait terr =>
      some { s with worker := if s.gen.finishQueue = [] then .waited terr else .sleep terr }
  | .sleep terr => some { s with worker := if s.gen.run then .wait terr else .waited terr }
  | .waited terr => some { s with worker := if s.gen.run then .last terr else .exit }
  | .last terr => some { s with worker := if terr ≥ s.gen.totalMapCount then .exit else .loop }
  | .exit => some { s with gen := { s.gen with run := false }, worker := .exited }
  | .exited => none

/-- A step, if the thread is where it can be taken. -/
def step (s : State α) : Act α → Option (State α)
  | .genWorldMap heights splats =>
      if s.worker = .begin ∧ s.gen.run then
        some { s with gen := s.gen.genWorldMap heights splats, worker := .loop }
      else none
  | .work => work s
  | .update =>
      if s.main = .outside ∧ s.mtx = none then
        some { s with main := .update, mtx := some .main }
      else none
  | .next =>
      match s.main, s.gen.finishQueue with
      | .update, [] => some { s with main := .outside, mtx := none }
      | .update, terr :: rest =>
          some { s with
            gen := { s.gen with finishQueue := rest }
            main := .callback terr
            calls := s.calls ++ [terr] }
      | _, _ => none
  | .initTerrain heightMapSize splatWidth splatCount =>
      match s.main with
      | .callback terr =>
          let init := s.gen.initTerrainInMainThread terr heightMapSize splatWidth splatCount
          some { s with inits := s.inits ++ [(terr, init)] }
      | _ => none
  | .ret =>
      match s.main with
      | .callback _ => some { s with main := .update }
      | _ => none
  | .stop => some { s with gen := { s.gen with run := false } }

/-- `StartRun` of a generator that was initialised. -/
def start (gen : MapGenerator α) : State α :=
  { gen := { gen with run := true }
    worker := .begin
    main := .outside
    mtx := none
    generated := fun _ => none
    calls := []
    inits := [] }

/-! ### The invariant -/

/-- The first ids. -/
def ids (k : ℕ) : List UInt32 := (List.range k).map fun i => UInt32.ofNat (i + 1)

theorem ids_succ (k : ℕ) : ids (k + 1) = ids k ++ [UInt32.ofNat (k + 1)] := by
  rw [ids, List.range_succ, List.map_append]
  rfl

theorem length_ids (k : ℕ) : (ids k).length = k := by
  rw [ids, List.length_map, List.length_range]

theorem notMem_ids {k : ℕ} (hk : k + 1 < 2 ^ 32) : UInt32.ofNat (k + 1) ∉ ids k := by
  intro hmem
  obtain ⟨i, hi, heq⟩ := List.mem_map.mp hmem
  rw [List.mem_range] at hi
  have h := congrArg UInt32.toNat heq
  rw [Triple.toNat_ofNat (by omega), Triple.toNat_ofNat hk] at h
  omega

/-- The main thread is in the callback of a generator. -/
def Main.InCallback (main : Main) : Prop := ∃ terr, main = .callback terr

section

variable (gen : MapGenerator α) (main : Main)

/-- The number of terrains. -/
def count : ℕ := gen.terrainData.length

/-- The next terrain is being made: no callback runs, and none is due. -/
structure Making (terr : UInt32) : Prop where
  terr_eq : terr = UInt32.ofNat (count gen + 1)
  queue : gen.finishQueue = []
  main : ¬ main.InCallback
  room : count gen = 0 ∨ count gen < gen.totalMapCount.toNat

/-- `m_pCurrentMap` is a terrain. -/
def Placed (terr : UInt32) : Prop :=
  ∃ map, gen.currentMap = some map ∧ map.instanceId = terr

/-- A terrain was made last. -/
def Made (terr : UInt32) : Prop := terr = UInt32.ofNat (count gen) ∧ 1 ≤ count gen

/-- What holds where the worker is. -/
def At : Worker → Prop
  | .begin => count gen = 0 ∧ gen.finishQueue = []
  | .loop | .initilizeNext =>
      gen.finishQueue = [] ∧ (count gen = 0 ∨ count gen < gen.totalMapCount.toNat)
  | .newMap terr => Making gen main terr
  | .locate terr => Making gen main terr ∧ Placed gen terr
  | .load terr | .loaded terr | .lock terr | .copy terr =>
      Making gen main terr ∧ Placed gen terr ∧ count gen < gen.totalMapCount.toNat
  | .unlock terr => Made gen terr
  | .wait terr | .sleep terr =>
      Made gen terr ∨ (gen.run = false ∧ gen.finishQueue = [] ∧ ¬ main.InCallback)
  | .waited terr => gen.run = true → gen.finishQueue = [] ∧ Made gen terr
  | .last terr => gen.finishQueue = [] ∧ Made gen terr
  | .exit | .exited => True

/-- The tile that is due, or whose callback runs, is the one made last, and the
copies are as they were left. -/
structure Held (generated : UInt32 → Option (Buffer α × Buffer α)) : Prop where
  made : 1 ≤ count gen
  placed : Placed gen (UInt32.ofNat (count gen))
  generated : generated (UInt32.ofNat (count gen)) = some (gen.heightMapCopy, gen.splatMapCopy)

end

/-- What a callback is given of the copies of a terrain. -/
def given (data : MapGeneratorData) (b : Buffer α × Buffer α) : List α × List α :=
  ((List.range (data.singleMapSize * data.singleMapSize).toNat).map b.1.content,
    (List.range (data.splatWidth * data.splatWidth * data.splatCount).toNat).map b.2.content)

/-- The worker holds the lock. -/
def Worker.Locked : Worker → Prop
  | .copy _ | .unlock _ => True
  | _ => False

/-- The invariant of runs, with what the generator was initialised with. -/
structure Inv (data : MapGeneratorData) (total : UInt32) (s : State α) : Prop where
  data_eq : s.gen.data = data
  total_eq : s.gen.totalMapCount = total
  world : ∀ map, s.gen.worldMap = some map → map.size = UInt32.ofNat (worldSize data.I)
  keys : s.gen.terrainData.map Prod.fst = ids (count s.gen)
  instances : ∀ entry ∈ s.gen.terrainData, entry.2.instanceId = entry.1
  order : s.calls ++ s.gen.finishQueue = ids (count s.gen)
  count_le : count s.gen ≤ total.toNat
  held : s.gen.finishQueue ≠ [] ∨ s.main.InCallback → Held s.gen s.generated
  callback : ∀ terr, s.main = .callback terr →
    s.gen.finishQueue = [] ∧ s.calls.getLast? = some terr
  queue : s.gen.finishQueue = [] ∨ s.gen.finishQueue = [UInt32.ofNat (count s.gen)]
  mtx_main : s.main ≠ .outside → s.mtx = some .main
  mtx_worker : s.worker.Locked → s.mtx = some .worker
  at_worker : At s.gen s.main s.worker
  inits : ∀ init ∈ s.inits, init.1 ∈ s.calls ∧ ∀ r, init.2 = some r →
    ∃ b, s.generated init.1 = some b ∧ r = given data b

variable {s s' : State α} {data : MapGeneratorData} {total : UInt32}

/-- A callback runs for the terrain made last. -/
theorem Inv.callback_eq (h : Inv data total s) {terr : UInt32} (hmain : s.main = .callback terr) :
    terr = UInt32.ofNat (count s.gen) := by
  obtain ⟨hqueue, hlast⟩ := h.callback terr hmain
  have horder := h.order
  rw [hqueue, List.append_nil] at horder
  obtain ⟨k, hk⟩ : ∃ k, count s.gen = k + 1 :=
    ⟨count s.gen - 1, by have := (h.held (Or.inr ⟨terr, hmain⟩)).made; omega⟩
  rw [horder, hk, ids_succ, List.getLast?_concat] at hlast
  rw [hk]
  exact (Option.some.inj hlast).symm

/-- `Held` is about the terrains and the copies only. -/
theorem Held.congr {gen gen' : MapGenerator α} {generated : UInt32 → Option (Buffer α × Buffer α)}
    (h : Held gen generated) (hterrains : gen'.terrainData = gen.terrainData)
    (hmap : gen'.currentMap = gen.currentMap) (hheight : gen'.heightMapCopy = gen.heightMapCopy)
    (hsplat : gen'.splatMapCopy = gen.splatMapCopy) : Held gen' generated := by
  have hcount : count gen' = count gen := congrArg List.length hterrains
  constructor
  · rw [hcount]
    exact h.made
  · rw [hcount, Placed, hmap]
    exact h.placed
  · rw [hcount, hheight, hsplat]
    exact h.generated

/-! ### The worker -/

/-- A step of the worker that only moves it. -/
theorem Inv.moved (h : Inv data total s) {w : Worker} (hat : At s.gen s.main w)
    (hlocked : w.Locked → s.mtx = some .worker) : Inv data total { s with worker := w } :=
  { h with
    at_worker := hat
    mtx_worker := hlocked }

/-- A step of the worker that is taken only if the generator was not stopped. -/
theorem Inv.stopped (h : Inv data total s) {w : Worker} {terr : UInt32}
    (hat : At s.gen s.main w) (hmaking : Making s.gen s.main terr)
    (hlocked : w.Locked → s.mtx = some .worker) :
    Inv data total { s with worker := if s.gen.run then w else .wait terr } := by
  by_cases hrun : s.gen.run = true
  · rw [if_pos hrun]
    exact h.moved hat hlocked
  · rw [if_neg hrun]
    exact h.moved (Or.inr ⟨Bool.not_eq_true _ ▸ hrun, hmaking.queue, hmaking.main⟩) False.elim

theorem Inv.not_inCallback (h : Inv data total s) (hmtx : s.mtx ≠ some .main) : ¬ s.main.InCallback := by
  rintro ⟨terr, hterr⟩
  exact hmtx (h.mtx_main (by rw [hterr]; exact Main.noConfusion))

theorem Inv.count_lt (h : Inv data total s) : count s.gen < 2 ^ 32 :=
  Nat.lt_of_le_of_lt h.count_le total.toNat_lt

/-- `InitilizeNext` gives the next id. -/
theorem initilizeNext_eq (s : State α) :
    s.gen.initilizeNext = UInt32.ofNat (count s.gen + 1) := (UInt32.ofNat_add _ _).symm

/-- The ids do not come back to `0` before the last terrain. -/
theorem initilizeNext_pos (s : State α)
    (hroom : count s.gen = 0 ∨ count s.gen < s.gen.totalMapCount.toNat) :
    s.gen.initilizeNext > 0 := by
  have hbound : count s.gen + 1 < 2 ^ 32 := by
    have := s.gen.totalMapCount.toNat_lt
    omega
  show 0 < s.gen.initilizeNext
  rw [initilizeNext_eq, UInt32.lt_iff_toNat_lt, Triple.toNat_ofNat hbound]
  exact Nat.succ_pos _

/-- A terrain has a place in the world only if the world has tiles. -/
theorem tileIndex_eq_some {gen : MapGenerator α} {terr : UInt32} {index : UInt32 × UInt32}
    (h : gen.tileIndex terr = some index) :
    ∃ world, gen.worldMap = some world ∧ gen.data.singleMapSize - 1 ≠ 0 ∧
      world.size / (gen.data.singleMapSize - 1) ≠ 0 := by
  obtain ⟨n, hcount, hindex⟩ := Option.bind_eq_some_iff.mp h
  obtain ⟨world, hworld, hn⟩ := Option.bind_eq_some_iff.mp hcount
  split at hn
  · cases hn
  · obtain rfl := Option.some.inj hn
    split at hindex
    · cases hindex
    · exact ⟨world, hworld, ‹_›, ‹_›⟩

/-- What `Generate` does before it takes the lock. -/
theorem beginTerrain_eq_some {gen gen' : MapGenerator α} {terr : UInt32}
    (h : gen.beginTerrain terr = some gen') :
    ∃ world map, gen.worldMap = some world ∧ gen.data.singleMapSize - 1 ≠ 0 ∧
      world.size / (gen.data.singleMapSize - 1) ≠ 0 ∧ map.instanceId = terr ∧
      gen' = { gen with currentTerrain := terr, currentMap := some map } := by
  obtain ⟨index, hindex, hgen⟩ := Option.bind_eq_some_iff.mp h
  obtain ⟨world, hworld, hsingle, hcount⟩ := tileIndex_eq_some hindex
  exact ⟨world, _, hworld, hsingle, hcount, rfl, (Option.some.inj hgen).symm⟩

/-- What `Generate` does under the lock. -/
theorem copyTerrain_eq_some {gen gen' : MapGenerator α} {terr : UInt32}
    (h : gen.copyTerrain terr = some gen') :
    ∃ map, gen.currentMap = some map ∧ ∃ heightMap splatMap heightMapCopy splatMapCopy,
      gen' = { gen with
        worldMapHeightMap := heightMap
        splatMap := splatMap
        heightMapCopy := heightMapCopy
        splatMapCopy := splatMapCopy
        terrainData := gen.insertTerrain terr map
        finishQueue := gen.finishQueue ++ [terr] } := by
  obtain ⟨index, -, hrest⟩ := Option.bind_eq_some_iff.mp h
  obtain ⟨world, -, hrest⟩ := Option.bind_eq_some_iff.mp hrest
  obtain ⟨map, hmap, hrest⟩ := Option.bind_eq_some_iff.mp hrest
  obtain ⟨copied, -, hgen⟩ := Option.bind_eq_some_iff.mp hrest
  exact ⟨map, hmap, _, _, _, _, (Option.some.inj hgen).symm⟩

/-- The number of tiles of an edge of the world. -/
def perEdge (data : MapGeneratorData) : UInt32 :=
  UInt32.ofNat (worldSize data.I) / (data.singleMapSize - 1)

/-- The product that `Init` computes does not overflow its `int`. -/
structure Counted (data : MapGeneratorData) (total : UInt32) : Prop where
  total_eq : total = perEdge data * perEdge data
  fits : (perEdge data).toNat * (perEdge data).toNat < 2 ^ 31

/-- If the world has tiles at all it has one. -/
theorem Counted.one_le (h : Counted data total) (hne : perEdge data ≠ 0) : 1 ≤ total.toNat := by
  have hpos : 0 < (perEdge data).toNat := by
    refine Nat.pos_of_ne_zero fun hzero => hne ?_
    exact UInt32.toNat_inj.mp hzero
  rw [h.total_eq, UInt32.toNat_mul, Nat.mod_eq_of_lt (Nat.lt_trans h.fits (by omega))]
  exact Nat.mul_pos hpos hpos

/-- A world that has tiles has room for the terrain being made. -/
theorem Inv.room (h : Inv data total s) (hcounted : Counted data total) {terr : UInt32}
    (hmaking : Making s.gen s.main terr) {world : Terrain} (hworld : s.gen.worldMap = some world)
    (htiles : world.size / (s.gen.data.singleMapSize - 1) ≠ 0) :
    count s.gen < s.gen.totalMapCount.toNat := by
  rcases hmaking.room with hzero | hlt
  · -- `room` does not bound the first terrain; that there are tiles at all does
    rw [hzero, h.total_eq]
    apply hcounted.one_le
    rwa [h.world world hworld, h.data_eq] at htiles
  · exact hlt

/-- The loop goes on if the next id is still one of the world's. -/
theorem Inv.room_of_made (h : Inv data total s) {terr : UInt32} (hmade : Made s.gen terr)
    (hlast : ¬ terr ≥ s.gen.totalMapCount) : count s.gen < s.gen.totalMapCount.toNat := by
  have hlt : terr < s.gen.totalMapCount := UInt32.not_le.mp hlast
  rw [UInt32.lt_iff_toNat_lt, hmade.1, Triple.toNat_ofNat h.count_lt] at hlt
  exact hlt

/-- The worker takes the lock, which is free only if the main thread is outside. -/
theorem Inv.locked (h : Inv data total s) {w : Worker} (hmtx : s.mtx = none)
    (hat : At s.gen s.main w) : Inv data total { s with mtx := some .worker, worker := w } :=
  { h with
    mtx_main := fun hmain => by
      rw [h.mtx_main hmain] at hmtx
      cases hmtx
    mtx_worker := fun _ => rfl
    at_worker := hat }

theorem Inv.unlocked (h : Inv data total s) {w : Worker} (hmtx : s.mtx = some .worker)
    (hat : At s.gen s.main w) (hw : ¬ w.Locked) :
    Inv data total { s with mtx := none, worker := w } :=
  { h with
    mtx_main := fun hmain => by
      rw [h.mtx_main hmain] at hmtx
      cases hmtx
    mtx_worker := fun hlocked => absurd hlocked hw
    at_worker := hat }

/-- The worker sets `m_pCurrentMap` while it makes a terrain. -/
theorem Inv.placed (h : Inv data total s) {terr : UInt32} (hmaking : Making s.gen s.main terr)
    (map : Terrain) {w : Worker}
    (hat : At { s.gen with currentTerrain := terr, currentMap := some map } s.main w)
    (hw : ¬ w.Locked) :
    Inv data total { s with
      gen := { s.gen with currentTerrain := terr, currentMap := some map }, worker := w } :=
  { h with
    held := fun hdue => absurd hdue (not_or.mpr ⟨not_not.mpr hmaking.queue, hmaking.main⟩)
    at_worker := hat
    mtx_worker := fun hlocked => absurd hlocked hw }

/-- A terrain that is being made is not there yet. -/
theorem Inv.insertTerrain_eq (h : Inv data total s) {terr : UInt32}
    (hterr : terr ∉ ids (count s.gen)) (map : Terrain) :
    s.gen.insertTerrain terr map = s.gen.terrainData ++ [(terr, map)] := by
  refine if_neg fun hany => hterr ?_
  obtain ⟨entry, hmem, heq⟩ := List.any_eq_true.mp hany
  rw [← h.keys, ← of_decide_eq_true heq]
  exact List.mem_map_of_mem hmem

/-- The copying of a terrain puts its id into the queue. -/
theorem Inv.copied (h : Inv data total s) {terr : UInt32} (hat : At s.gen s.main (.copy terr))
    {gen : MapGenerator α} (hgen : s.gen.copyTerrain terr = some gen)
    (hmtx : s.mtx = some .worker) :
    Inv data total { s with
      gen
      worker := .unlock terr
      generated := fun t =>
        if t = terr then some (gen.heightMapCopy, gen.splatMapCopy) else s.generated t } := by
  obtain ⟨hmaking, ⟨map', hmap', hinstance⟩, hlt⟩ := hat
  obtain ⟨map, hmap, _, _, _, _, rfl⟩ := copyTerrain_eq_some hgen
  obtain rfl : map' = map := Option.some.inj (hmap'.symm.trans hmap)
  have hbound : count s.gen + 1 < 2 ^ 32 := by
    have := h.total_eq ▸ total.toNat_lt
    omega
  have hnew : terr ∉ ids (count s.gen) := by
    rw [hmaking.terr_eq]
    exact notMem_ids hbound
  have hcalls : s.calls = ids (count s.gen) := by
    have horder := h.order
    rwa [hmaking.queue, List.append_nil] at horder
  have hinsert := h.insertTerrain_eq hnew map'
  have hcount : (s.gen.insertTerrain terr map').length = count s.gen + 1 := by
    rw [hinsert, List.length_append]
    rfl
  have hterr : terr = UInt32.ofNat (s.gen.insertTerrain terr map').length := by
    rw [hcount]
    exact hmaking.terr_eq
  exact
    { data_eq := h.data_eq
      total_eq := h.total_eq
      world := h.world
      keys := by
        show (s.gen.insertTerrain terr map').map Prod.fst = ids (s.gen.insertTerrain terr map').length
        rw [hcount, ids_succ, hinsert, List.map_append, h.keys, ← hmaking.terr_eq]
        rfl
      instances := by
        intro entry hentry
        rw [show _ = s.gen.terrainData ++ [(terr, map')] from hinsert] at hentry
        rcases List.mem_append.mp hentry with hold | hnew
        · exact h.instances entry hold
        · obtain rfl := List.mem_singleton.mp hnew
          exact hinstance
      order := by
        show s.calls ++ (s.gen.finishQueue ++ [terr]) = ids (s.gen.insertTerrain terr map').length
        rw [hcount, ids_succ, hmaking.queue, hcalls, ← hmaking.terr_eq]
        rfl
      count_le := by
        show (s.gen.insertTerrain terr map').length ≤ total.toNat
        rw [hcount, ← h.total_eq]
        exact hlt
      held := fun _ =>
        { made := by
            show 1 ≤ (s.gen.insertTerrain terr map').length
            rw [hcount]
            exact Nat.le_add_left _ _
          placed := ⟨map', hmap, hinstance.trans hterr⟩
          generated := if_pos hterr.symm }
      callback := fun t ht => absurd ⟨t, ht⟩ hmaking.main
      queue := by
        refine Or.inr ?_
        show s.gen.finishQueue ++ [terr] = [UInt32.ofNat (s.gen.insertTerrain terr map').length]
        rw [hmaking.queue, ← hterr]
        rfl
      mtx_main := h.mtx_main
      mtx_worker := fun _ => hmtx
      at_worker := by
        refine ⟨hterr, ?_⟩
        show 1 ≤ (s.gen.insertTerrain terr map').length
        rw [hcount]
        exact Nat.le_add_left _ _
      inits := by
        -- what was given to earlier callbacks is of other terrains
        intro init hinit
        obtain ⟨hmem, hgiven⟩ := h.inits init hinit
        refine ⟨hmem, ?_⟩
        have hne : init.1 ≠ terr := fun heq => hnew (hcalls ▸ heq ▸ hmem)
        simp only [if_neg hne]
        exact hgiven }

/-- `InitilizeNext` returns when the lock is free, so that the main thread is outside. -/
theorem Inv.initilizedNext (h : Inv data total s) (hat : At s.gen s.main .initilizeNext)
    (hmtx : s.mtx = none) :
    Inv data total { s with
      worker := if s.gen.initilizeNext > 0 then .newMap s.gen.initilizeNext
        else .wait s.gen.initilizeNext } := by
  have hmain : ¬ s.main.InCallback := by
    apply h.not_inCallback
    rw [hmtx]
    exact nofun
  rw [if_pos (initilizeNext_pos s hat.2)]
  exact h.moved ⟨initilizeNext_eq s, hat.1, hmain, hat.2⟩ False.elim

/-- `Generate` has found the place of the terrain. -/
theorem Inv.located (h : Inv data total s) (hcounted : Counted data total) {terr : UInt32}
    (hat : At s.gen s.main (.locate terr)) {gen : MapGenerator α}
    (hgen : s.gen.beginTerrain terr = some gen) :
    Inv data total { s with gen, worker := .load terr } := by
  obtain ⟨hmaking, -⟩ := hat
  obtain ⟨world, map, hworld, -, htiles, hinstance, rfl⟩ := beginTerrain_eq_some hgen
  have hroom := h.room hcounted hmaking hworld htiles
  have hmaking' : Making { s.gen with currentTerrain := terr, currentMap := some map } s.main terr :=
    ⟨hmaking.terr_eq, hmaking.queue, hmaking.main, hmaking.room⟩
  exact h.placed (w := .load terr) hmaking map ⟨hmaking', ⟨map, rfl, hinstance⟩, hroom⟩ id

/-- The worker goes on when nothing is due: the tile was handed over, or the generator was
stopped while it was made. -/
theorem Inv.seenQueue (h : Inv data total s) {terr : UInt32} (hat : At s.gen s.main (.wait terr)) :
    Inv data total { s with
      worker := if s.gen.finishQueue = [] then .waited terr else .sleep terr } := by
  split
  · rename_i hqueue
    refine h.moved (fun hrun => ⟨hqueue, ?_⟩) False.elim
    rcases hat with hmade | ⟨hstopped, -, -⟩
    · exact hmade
    · rw [hstopped] at hrun
      cases hrun
  · exact h.moved hat False.elim

/-- It looks at the queue again, or gives up if the generator was stopped. -/
theorem Inv.slept (h : Inv data total s) {terr : UInt32} (hat : At s.gen s.main (.sleep terr)) :
    Inv data total { s with worker := if s.gen.run then .wait terr else .waited terr } := by
  split
  · exact h.moved hat False.elim
  · rename_i hrun
    apply h.moved _ False.elim
    intro hrun'
    exact absurd hrun' hrun

/-- The loop ends behind the last terrain. -/
theorem Inv.looped (h : Inv data total s) {terr : UInt32} (hat : At s.gen s.main (.last terr)) :
    Inv data total { s with worker := if terr ≥ s.gen.totalMapCount then .exit else .loop } := by
  split
  · exact h.moved trivial False.elim
  · rename_i hlast
    obtain ⟨hqueue, hmade⟩ := hat
    exact h.moved ⟨hqueue, Or.inr (h.room_of_made hmade hlast)⟩ False.elim

/-- The end of `WorkThread`. -/
theorem Inv.exited (h : Inv data total s) :
    Inv data total { s with gen := { s.gen with run := false }, worker := .exited } :=
  { h with
    held := fun hdue => (h.held hdue).congr rfl rfl rfl rfl
    mtx_worker := False.elim
    at_worker := trivial }

/-- Every step of the worker keeps the invariant. -/
theorem Inv.work (hcounted : Counted data total) (h : Inv data total s)
    (hstep : TileHandOff.work s = some s') : Inv data total s' := by
  have hat := h.at_worker
  have hlocked := h.mtx_worker
  rw [TileHandOff.work] at hstep
  cases hw : s.worker <;> simp only [hw] at hstep hat hlocked
  case begin =>
    split at hstep
    · cases hstep
    · obtain rfl := Option.some.inj hstep
      exact h.moved ⟨hat.2, Or.inl hat.1⟩ False.elim
  case loop =>
    obtain rfl := Option.some.inj hstep
    split
    · exact h.moved hat False.elim
    · exact h.moved trivial False.elim
  case initilizeNext =>
    split at hstep
    · rename_i hmtx
      obtain rfl := Option.some.inj hstep
      exact h.initilizedNext hat hmtx
    · cases hstep
  case newMap terr =>
    obtain rfl := Option.some.inj hstep
    exact h.placed hat _ ⟨⟨hat.terr_eq, hat.queue, hat.main, hat.room⟩, _, rfl, rfl⟩ id
  case locate terr =>
    obtain ⟨gen, hgen, rfl⟩ := Option.map_eq_some_iff.mp hstep
    exact h.located hcounted hat hgen
  case load terr =>
    obtain rfl := Option.some.inj hstep
    exact h.stopped (w := .loaded terr) hat hat.1 False.elim
  case loaded terr =>
    obtain rfl := Option.some.inj hstep
    exact h.stopped (w := .lock terr) hat hat.1 False.elim
  case lock terr =>
    split at hstep
    · rename_i hmtx
      obtain rfl := Option.some.inj hstep
      exact h.locked hmtx hat
    · cases hstep
  case copy terr =>
    obtain ⟨gen, hgen, rfl⟩ := Option.map_eq_some_iff.mp hstep
    exact h.copied hat hgen (hlocked trivial)
  case unlock terr =>
    obtain rfl := Option.some.inj hstep
    exact h.unlocked (hlocked trivial) (Or.inl hat) id
  case wait terr =>
    obtain rfl := Option.some.inj hstep
    exact h.seenQueue hat
  case sleep terr =>
    obtain rfl := Option.some.inj hstep
    exact h.slept hat
  case waited terr =>
    obtain rfl := Option.some.inj hstep
    split
    · rename_i hrun
      exact h.moved (hat hrun) False.elim
    · exact h.moved trivial False.elim
  case last terr =>
    obtain rfl := Option.some.inj hstep
    exact h.looped hat
  case exit =>
    obtain rfl := Option.some.inj hstep
    exact h.exited
  case exited =>
    cases hstep

/-! ### The main thread, and `Stop` -/

/-- A worker that makes a terrain does not mind the main thread leaving a callback. -/
theorem Making.of_main {gen : MapGenerator α} {main main' : Main} {terr : UInt32}
    (hmain : main'.InCallback → main.InCallback) (h : Making gen main terr) :
    Making gen main' terr := { h with main := fun hin => h.main (hmain hin) }

theorem At.of_main {gen : MapGenerator α} {main main' : Main}
    (hmain : main'.InCallback → main.InCallback) {w : Worker} (h : At gen main w) :
    At gen main' w := by
  cases w with
  | newMap terr => exact Making.of_main hmain h
  | locate terr => exact ⟨h.1.of_main hmain, h.2⟩
  | load terr | loaded terr | lock terr | copy terr => exact ⟨h.1.of_main hmain, h.2⟩
  | wait terr | sleep terr =>
      exact h.imp_right fun ⟨hrun, hqueue, hnot⟩ => ⟨hrun, hqueue, fun hin => hnot (hmain hin)⟩
  | begin | loop | initilizeNext | unlock terr | waited terr | last terr | exit | exited => exact h

/-- The worker waits while a tile is due. -/
theorem At.next {gen : MapGenerator α} {main : Main} (hqueue : gen.finishQueue ≠ []) (main' : Main)
    (rest : List UInt32) {w : Worker} (h : At gen main w) :
    At { gen with finishQueue := rest } main' w := by
  cases w with
  | begin => exact absurd h.2 hqueue
  | loop | initilizeNext | last terr => exact absurd h.1 hqueue
  | newMap terr => exact absurd (Making.queue h) hqueue
  | locate terr | load terr | loaded terr | lock terr | copy terr => exact absurd h.1.queue hqueue
  | unlock terr => exact h
  | wait terr | sleep terr =>
      rcases h with hmade | ⟨-, hempty, -⟩
      · exact Or.inl hmade
      · exact absurd hempty hqueue
  | waited terr => exact fun hrun => absurd (h hrun).1 hqueue
  | exit | exited => exact trivial

theorem At.stop {gen : MapGenerator α} {main : Main} {w : Worker} (h : At gen main w) :
    At { gen with run := false } main w := by
  cases w with
  | newMap terr => exact { h with }
  | locate terr | load terr | loaded terr | lock terr | copy terr => exact ⟨{ h.1 with }, h.2⟩
  | wait terr | sleep terr => exact h.imp_right fun ⟨_, hrest⟩ => ⟨rfl, hrest⟩
  | waited terr => exact fun hrun => Bool.noConfusion hrun
  | begin | loop | initilizeNext | unlock terr | last terr | exit | exited => exact h

/-- `GenWorldMap` makes the world map, from which the terrains are cut. -/
theorem Inv.genWorldMap (h : Inv data total s) (heights splats : ℕ → α)
    (hw : s.worker = .begin) :
    Inv data total { s with gen := s.gen.genWorldMap heights splats, worker := .loop } := by
  have hat := h.at_worker
  rw [hw] at hat
  exact
    { h with
      world := by
        intro map hmap
        obtain rfl := Option.some.inj hmap
        rw [← h.data_eq]
        rfl
      held := fun hdue => (h.held hdue).congr rfl rfl rfl rfl
      mtx_worker := False.elim
      at_worker := ⟨hat.2, Or.inl hat.1⟩ }

theorem Inv.stop (h : Inv data total s) :
    Inv data total { s with gen := { s.gen with run := false } } :=
  { h with
    held := fun hdue => (h.held hdue).congr rfl rfl rfl rfl
    at_worker := h.at_worker.stop }

theorem not_inCallback_update : ¬ Main.update.InCallback := by
  rintro ⟨_, hterr⟩
  cases hterr

theorem not_inCallback_outside : ¬ Main.outside.InCallback := by
  rintro ⟨_, hterr⟩
  cases hterr

theorem Inv.update (h : Inv data total s) (hmtx : s.mtx = none) :
    Inv data total { s with main := .update, mtx := some .main } :=
  { h with
    held := fun hdue => h.held (hdue.imp_right fun hin => absurd hin not_inCallback_update)
    callback := fun _ hterr => Main.noConfusion hterr
    mtx_main := fun _ => rfl
    mtx_worker := fun hlocked => by
      rw [h.mtx_worker hlocked] at hmtx
      cases hmtx
    at_worker := h.at_worker.of_main fun hin => absurd hin not_inCallback_update }

/-- `UpdateInMainThread` returns once the queue is empty. -/
theorem Inv.leave (h : Inv data total s) (hmain : s.main = .update) :
    Inv data total { s with main := .outside, mtx := none } :=
  { h with
    held := fun hdue => h.held (hdue.imp_right fun hin => absurd hin not_inCallback_outside)
    callback := fun _ hterr => Main.noConfusion hterr
    mtx_main := fun hne => absurd rfl hne
    mtx_worker := fun hlocked => by
      have hmtx := h.mtx_worker hlocked
      rw [h.mtx_main (by rw [hmain]; exact Main.noConfusion)] at hmtx
      cases hmtx
    at_worker := h.at_worker.of_main fun hin => absurd hin not_inCallback_outside }

/-- The callback is called for the tile that is due. -/
theorem Inv.next (h : Inv data total s) (hmain : s.main = .update) {terr : UInt32}
    {rest : List UInt32} (hqueue : s.gen.finishQueue = terr :: rest) :
    Inv data total { s with
      gen := { s.gen with finishQueue := rest }
      main := .callback terr
      calls := s.calls ++ [terr] } := by
  have hne : s.gen.finishQueue ≠ [] := by rw [hqueue]; exact List.cons_ne_nil _ _
  -- the queue never holds more than the terrain made last
  obtain ⟨rfl, rfl⟩ : terr = UInt32.ofNat (count s.gen) ∧ rest = [] := by
    have hone := h.queue.resolve_left hne
    rw [hqueue] at hone
    exact List.cons.inj hone
  exact
    { h with
      order := by
        have horder := h.order
        rw [hqueue] at horder
        rw [List.append_nil]
        exact horder
      held := fun _ => (h.held (Or.inl hne)).congr rfl rfl rfl rfl
      callback := fun t hterr => by
        obtain rfl := Main.callback.inj hterr
        exact ⟨rfl, List.getLast?_concat⟩
      queue := Or.inl rfl
      mtx_main := fun _ => h.mtx_main (by rw [hmain]; exact Main.noConfusion)
      at_worker := h.at_worker.next hne _ _
      inits := fun init hinit =>
        (h.inits init hinit).imp_left fun hmem => List.mem_append_left _ hmem }

/-- What `InitTerrainInMainThread` copies, if it copies at all. -/
theorem initTerrainInMainThread_eq_some {gen : MapGenerator α}
    {terr heightMapSize splatWidth splatCount : UInt32} {r : List α × List α}
    (h : gen.initTerrainInMainThread terr heightMapSize splatWidth splatCount = some r) :
    r = given gen.data (gen.heightMapCopy, gen.splatMapCopy) := by
  rw [initTerrainInMainThread] at h
  split at h
  · cases h
  · split at h
    · split at h
      · cases h
      · exact (Option.some.inj h).symm
    · cases h

/-- With the right sizes it copies for every terrain that was made. -/
theorem Inv.initTerrainInMainThread_eq (h : Inv data total s) {terr : UInt32}
    (hterr : terr ∈ s.gen.terrainData.map Prod.fst) :
    s.gen.initTerrainInMainThread terr data.singleMapSize data.splatWidth data.splatCount
      = some (given data (s.gen.heightMapCopy, s.gen.splatMapCopy)) := by
  have hsizes : ¬ (data.singleMapSize ≠ s.gen.data.singleMapSize ∨
      data.splatWidth ≠ s.gen.data.splatWidth ∨ data.splatCount ≠ s.gen.data.splatCount) := by
    rw [h.data_eq]
    simp
  obtain ⟨entry, hmem, hkey⟩ := List.mem_map.mp hterr
  have hsome : (s.gen.terrainData.find? fun entry => entry.1 = terr).isSome :=
    List.find?_isSome.mpr ⟨entry, hmem, decide_eq_true hkey⟩
  obtain ⟨⟨key, map⟩, hfind⟩ := Option.isSome_iff_exists.mp hsome
  have hfound := List.find?_some hfind
  obtain rfl : key = terr := of_decide_eq_true hfound
  have hinstance : map.instanceId = key := h.instances _ (List.mem_of_find?_eq_some hfind)
  rw [initTerrainInMainThread, if_neg hsizes, hfind, ← h.data_eq]
  exact if_neg (not_not.mpr hinstance)

theorem Inv.initTerrain (h : Inv data total s) {terr : UInt32} (hmain : s.main = .callback terr)
    (heightMapSize splatWidth splatCount : UInt32) :
    Inv data total { s with
      inits := s.inits ++
        [(terr, s.gen.initTerrainInMainThread terr heightMapSize splatWidth splatCount)] } :=
  { h with
    inits := by
      intro init hinit
      rcases List.mem_append.mp hinit with hold | hnew
      · exact h.inits init hold
      · obtain rfl := List.mem_singleton.mp hnew
        refine ⟨List.mem_of_getLast? (h.callback terr hmain).2, fun r hr => ?_⟩
        refine ⟨(s.gen.heightMapCopy, s.gen.splatMapCopy), ?_, ?_⟩
        · rw [h.callback_eq hmain]
          exact (h.held (Or.inr ⟨terr, hmain⟩)).generated
        · rw [← h.data_eq]
          exact initTerrainInMainThread_eq_some hr }

theorem Inv.ret (h : Inv data total s) {terr : UInt32} (hmain : s.main = .callback terr) :
    Inv data total { s with main := .update } :=
  { h with
    held := fun hdue => h.held (hdue.imp_right fun hin => absurd hin not_inCallback_update)
    callback := fun _ hterr => Main.noConfusion hterr
    mtx_main := fun _ => h.mtx_main (by rw [hmain]; exact Main.noConfusion)
    at_worker := h.at_worker.of_main fun hin => absurd hin not_inCallback_update }

/-! ### Runs -/

theorem Inv.step (hcounted : Counted data total) (h : Inv data total s) {a : Act α}
    (hstep : TileHandOff.step s a = some s') : Inv data total s' := by
  -- an action that is not enabled has no result
  cases a with
  | genWorldMap heights splats =>
      simp only [TileHandOff.step] at hstep
      split at hstep
      · rename_i hbegin
        obtain rfl := Option.some.inj hstep
        exact h.genWorldMap heights splats hbegin.1
      · cases hstep
  | work => exact h.work hcounted hstep
  | update =>
      simp only [TileHandOff.step] at hstep
      split at hstep
      · rename_i hfree
        obtain rfl := Option.some.inj hstep
        exact h.update hfree.2
      · cases hstep
  | next =>
      simp only [TileHandOff.step] at hstep
      split at hstep
      · rename_i hmain hqueue
        obtain rfl := Option.some.inj hstep
        exact h.leave hmain
      · rename_i terr rest hmain hqueue
        obtain rfl := Option.some.inj hstep
        exact h.next hmain hqueue
      · cases hstep
  | initTerrain heightMapSize splatWidth splatCount =>
      simp only [TileHandOff.step] at hstep
      split at hstep
      · rename_i terr hmain
        obtain rfl := Option.some.inj hstep
        exact h.initTerrain hmain heightMapSize splatWidth splatCount
      · cases hstep
  | ret =>
      simp only [TileHandOff.step] at hstep
      split at hstep
      · rename_i terr hmain
        obtain rfl := Option.some.inj hstep
        exact h.ret hmain
      · cases hstep
  | stop =>
      obtain rfl := Option.some.inj hstep
      exact h.stop

/-- The worker does not touch the copies, or `m_pCurrentMap`, while a callback runs. -/
theorem Inv.kept (h : Inv data total s) {terr : UInt32} (hmain : s.main = .callback terr)
    {a : Act α} (hstep : TileHandOff.step s a = some s') :
    s'.gen.currentMap = s.gen.currentMap ∧ s'.gen.heightMapCopy = s.gen.heightMapCopy ∧
      s'.gen.splatMapCopy = s.gen.splatMapCopy := by
  have hat := h.at_worker
  have hin : s.main.InCallback := ⟨terr, hmain⟩
  cases a with
  | genWorldMap heights splats =>
      simp only [TileHandOff.step] at hstep
      split at hstep
      · obtain rfl := Option.some.inj hstep
        exact ⟨rfl, rfl, rfl⟩
      · cases hstep
  | work =>
      simp only [TileHandOff.step, TileHandOff.work] at hstep
      cases hw : s.worker with
      | newMap terr' =>
          rw [hw] at hat
          -- a terrain is made only while no callback runs
          exact absurd hin (Making.main hat)
      | locate terr' | copy terr' =>
          rw [hw] at hat
          exact absurd hin hat.1.main
      | begin =>
          simp only [hw] at hstep
          split at hstep
          · cases hstep
          · obtain rfl := Option.some.inj hstep
            exact ⟨rfl, rfl, rfl⟩
      | initilizeNext | lock terr' =>
          simp only [hw] at hstep
          split at hstep
          · obtain rfl := Option.some.inj hstep
            exact ⟨rfl, rfl, rfl⟩
          · cases hstep
      | loop | load terr' | loaded terr' | unlock terr' | wait terr' | sleep terr' | waited terr'
      | last terr' | exit =>
          simp only [hw] at hstep
          obtain rfl := Option.some.inj hstep
          exact ⟨rfl, rfl, rfl⟩
      | exited =>
          simp only [hw] at hstep
          cases hstep
  | update =>
      simp only [TileHandOff.step, hmain] at hstep
      cases hstep
  | next =>
      simp only [TileHandOff.step, hmain] at hstep
      cases hstep
  | initTerrain heightMapSize splatWidth splatCount =>
      simp only [TileHandOff.step, hmain] at hstep
      obtain rfl := Option.some.inj hstep
      exact ⟨rfl, rfl, rfl⟩
  | ret =>
      simp only [TileHandOff.step, hmain] at hstep
      obtain rfl := Option.some.inj hstep
      exact ⟨rfl, rfl, rfl⟩
  | stop =>
      obtain rfl := Option.some.inj hstep
      exact ⟨rfl, rfl, rfl⟩

/-- The invariant before the first step. -/
theorem Inv.start {worldMapHeightMap splatMap heightMapCopy splatMapCopy : Buffer α}
    {gen : MapGenerator α}
    (hinit : (create worldMapHeightMap splatMap heightMapCopy splatMapCopy).init data = some gen) :
    Counted data gen.totalMapCount ∧ Inv data gen.totalMapCount (TileHandOff.start gen) := by
  rw [init] at hinit
  split at hinit
  · cases hinit
  · obtain ⟨hfits, hinit⟩ := Option.ite_none_right_eq_some.mp hinit
    obtain rfl := Option.some.inj hinit
    refine ⟨⟨rfl, hfits⟩, ?_⟩
    exact
      { data_eq := rfl
        total_eq := rfl
        world := fun _ hmap => by cases hmap
        keys := rfl
        instances := fun _ hentry => by cases hentry
        order := rfl
        count_le := Nat.zero_le _
        held := by
          rintro (hdue | ⟨_, hterr⟩)
          · exact absurd rfl hdue
          · cases hterr
        callback := fun _ hterr => by cases hterr
        queue := Or.inl rfl
        mtx_main := fun hne => absurd rfl hne
        mtx_worker := False.elim
        at_worker := ⟨rfl, rfl⟩
        inits := fun _ hinit => by cases hinit }

/-- The callback is called for the first ids, in order. -/
theorem Inv.calls_eq (h : Inv data total s) :
    s.calls = ids s.calls.length ∧ s.calls.length ≤ total.toNat := by
  have horder := h.order
  rcases h.queue with hqueue | hqueue
  · rw [hqueue, List.append_nil] at horder
    have hlength := congrArg List.length horder
    rw [length_ids] at hlength
    exact ⟨by rw [hlength]; exact horder, by rw [hlength]; exact h.count_le⟩
  · obtain ⟨k, hk⟩ : ∃ k, count s.gen = k + 1 := by
      have hmade := (h.held (Or.inl (by rw [hqueue]; exact List.cons_ne_nil _ _))).made
      exact ⟨count s.gen - 1, by omega⟩
    rw [hqueue, hk, ids_succ] at horder
    have hcalls := (List.append_inj' horder rfl).1
    have hlength := congrArg List.length hcalls
    rw [length_ids] at hlength
    refine ⟨by rw [hlength]; exact hcalls, ?_⟩
    have := h.count_le
    omega

/-- A run of the two threads. -/
theorem Inv.of_run {worldMapHeightMap splatMap heightMapCopy splatMapCopy : Buffer α}
    {gen : MapGenerator α}
    (hinit : (create worldMapHeightMap splatMap heightMapCopy splatMapCopy).init data = some gen)
    {acts : List (Act α)} (hrun : acts.foldlM TileHandOff.step (TileHandOff.start gen) = some s) :
    Inv data gen.totalMapCount s := by
  obtain ⟨hcounted, hstart⟩ := Inv.start hinit
  exact Run.foldlM_invariant TileHandOff.step (Inv data gen.totalMapCount)
    (fun _ _ _ _ h hstep => h.step hcounted hstep) hstart hrun

/-- **Every tile is handed off once, whole.**  In every run of the two threads, with
`Stop` at any time, the callback is called for the first ids in order, for no more
than there are tiles.  While it runs for a terrain, `m_pCurrentMap` is that terrain,
the terrain is in the map, and the copies are as `Generate` left them, which no step
changes: `InitTerrainInMainThread`, called with the sizes of the tile, hands them over.  What
it gave to a callback are these copies. -/
theorem hands_off (worldMapHeightMap splatMap heightMapCopy splatMapCopy : Buffer α)
    (data : MapGeneratorData) (gen : MapGenerator α)
    (hinit : (create worldMapHeightMap splatMap heightMapCopy splatMapCopy).init data = some gen)
    (acts : List (Act α)) (s : State α) (hrun : acts.foldlM step (start gen) = some s) :
    s.calls = ids s.calls.length ∧ s.calls.length ≤ gen.totalMapCount.toNat ∧
      (∀ terr, s.main = .callback terr →
        s.calls.getLast? = some terr ∧ Placed s.gen terr ∧
          terr ∈ s.gen.terrainData.map Prod.fst ∧
          s.generated terr = some (s.gen.heightMapCopy, s.gen.splatMapCopy) ∧
          s.gen.initTerrainInMainThread terr data.singleMapSize data.splatWidth data.splatCount
            = some (given data (s.gen.heightMapCopy, s.gen.splatMapCopy)) ∧
          ∀ a s', step s a = some s' →
            s'.gen.currentMap = s.gen.currentMap ∧ s'.gen.heightMapCopy = s.gen.heightMapCopy ∧
              s'.gen.splatMapCopy = s.gen.splatMapCopy) ∧
      ∀ init ∈ s.inits, init.1 ∈ s.calls ∧ ∀ r, init.2 = some r →
        ∃ b, s.generated init.1 = some b ∧ r = given data b := by
  have h := Inv.of_run hinit hrun
  obtain ⟨hcalls, hle⟩ := h.calls_eq
  refine ⟨hcalls, hle, fun terr hmain => ?_, h.inits⟩
  have heq := h.callback_eq hmain
  have hheld := h.held (Or.inr ⟨terr, hmain⟩)
  have hlast := (h.callback terr hmain).2
  have hterr : terr ∈ s.gen.terrainData.map Prod.fst := by
    rw [h.keys, ← h.order]
    exact List.mem_append_left _ (List.mem_of_getLast? hlast)
  refine ⟨hlast, ?_, hterr, ?_, h.initTerrainInMainThread_eq hterr,
    fun a s' hstep => h.kept hmain hstep⟩
  · rw [heq]
    exact hheld.placed
  · rw [heq]
    exact hheld.generated

/-- A world of 5 × 5 cells for four tiles. -/
def fourTilesData : MapGeneratorData :=
  { I := 1, singleMapSize := 3, splatWidth := 3, splatCount := 2 }

/-- The generator for four tiles, before the run. -/
def fourTiles : MapGenerator ℕ :=
  let cells := { content := id, reads := [], writes := [] }
  { create cells cells cells cells with data := fourTilesData, totalMapCount := 4 }

/-- The steps up to the copying of the first tile, and from there into its callback. -/
def toCopy : List (Act ℕ) :=
  [.genWorldMap id id, .work, .work, .work, .work, .work, .work, .work]

/-- To the callback of the first piece. -/
def toCallback : List (Act ℕ) := [.work, .work, .update, .next, .initTerrain 3 3 2]

/-- The state before the copying of the first tile. -/
def copying : State ℕ := (toCopy.foldlM step (start fourTiles)).getD (start fourTiles)

/-- The first tile is copied, and its callback runs. -/
theorem main_toCallback :
    ((toCopy ++ toCallback).foldlM step (start fourTiles)).map (fun s => (s.main, s.inits.length))
      = some (.callback 1, 1) := by
  have hcopying : toCopy.foldlM step (start fourTiles) = some copying := rfl
  have hindex : copying.gen.tileIndex 1 = some (0, 0) := rfl
  have hfits : copying.gen.Fits 0 0 :=
    ⟨by decide, by decide, by decide, by decide, by decide⟩
  obtain ⟨st, hcopy, -⟩ := copyTerrain_spec 1 hindex rfl rfl hfits
  rw [List.foldlM_append, hcopying]
  show (toCallback.foldlM step copying).map _ = _
  rw [toCallback, List.foldlM_cons, show step copying .work = _ from congrArg (Option.map _) hcopy]
  rfl

theorem hands_off_of_four :
    ∃ s, (toCopy ++ toCallback).foldlM step (start fourTiles) = some s ∧
      s.main = .callback 1 ∧ s.inits.length = 1 ∧ s.calls.getLast? = some 1 ∧
      s.generated 1 = some (s.gen.heightMapCopy, s.gen.splatMapCopy) ∧
      s.gen.initTerrainInMainThread 1 3 3 2
        = some (given fourTilesData (s.gen.heightMapCopy, s.gen.splatMapCopy)) := by
  obtain ⟨s, hrun, hview⟩ := Option.map_eq_some_iff.mp main_toCallback
  obtain ⟨hmain, hinits⟩ := Prod.mk.inj hview
  obtain ⟨-, -, hcallback, -⟩ :=
    hands_off _ _ _ _ fourTilesData fourTiles rfl _ s hrun
  obtain ⟨hlast, -, -, hgenerated, hgiven, -⟩ := hcallback 1 hmain
  exact ⟨s, hrun, hmain, hinits, hlast, hgenerated, hgiven⟩

end TileHandOff

end PCGForUnity
