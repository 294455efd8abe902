/-
PCGForUnity/ECS/SystemContainer.lean

`SystemContainer`: the systems of a world, held in a `priorityList` and updated in its order
once per tick.  Over all runs

    the list visits its elements in order, each once   ↔   each operation is safe

and the same holds of the systems that a tick updates (`in_order_iff_stepSafe`).

Design.  A system is addressed by its position among the objects ever created, so the list
below holds positions.  `Spec` says what a container is for: the catalogs of the systems, and
the systems present in order.  `Holds` relates the two, and each operation has a lemma that
keeps it.

`AddSystem` and `SetPriority` come to at most one operation of the list each, which carries
the exact condition of the list (`Utinities/PriorityList`) over to the container.
-/
import PCGForUnity.ECS.IComponent
import PCGForUnity.Utinities.PriorityList

namespace PCGForUnity

/-- A catalog of systems is one of components. -/
abbrev SystemCatalog := ComponentCatalog

/-- The members of `ISystem`.  `catalog` is what `GetCatalog` of its class answers. -/
structure ISystem where
  catalog : SystemCatalog
  priority : Int
  enable : Bool
deriving DecidableEq, Repr

/-- The members of `SystemContainer` that its systems live in. -/
structure SystemContainer where
  systems : List ISystem
  lSystem : PriorityList Addr

namespace SystemContainer

/-! ### The container as coded -/

/-- No systems. -/
def empty : SystemContainer := { systems := [], lSystem := PriorityList.empty }

/-- `itr->GetCatalog() == catalog`, for the system at `d`. -/
def hasCatalog (c : SystemContainer) (catalog : SystemCatalog) (d : Addr) : Bool :=
  (c.systems[d]?).any fun s => decide (s.catalog = catalog)

/-- `AddSystem`. -/
def addSystem (c : SystemContainer) (catalog : SystemCatalog) (priority : Int) :
    Option (SystemContainer × Bool) := do
  match ← c.lSystem.findIter (c.hasCatalog catalog) with
  | some _ => some (c, false)
  | none =>
      match catalog with
      | .other _ => some (c, false)
      | .movement | .status | .intervalTimer => do
          let lSystem ← c.lSystem.add c.systems.length priority
          some ({ systems := c.systems ++ [⟨catalog, priority, true⟩], lSystem }, true)

/-- `SetPriority`. -/
def setPriority (c : SystemContainer) (catalog : SystemCatalog) (priority : Int) :
    Option SystemContainer := do
  match ← c.lSystem.findIter (c.hasCatalog catalog) with
  | none => some c
  | some itr => do
      let node ← c.lSystem.heap itr
      let (lSystem, ret) ← c.lSystem.resetPriority node.val.data priority
      let systems := if ret then
        c.systems.modify node.val.data fun s => { s with priority } else c.systems
      some { systems, lSystem }

/-- The body of the loop of `OnUpdate`: of the systems the loop passes, those
whose `OnUpdate` it calls. -/
def updated (systems : List ISystem) : List Addr → Option (List Addr)
  | [] => some []
  | d :: ds => do
      let s ← systems[d]?
      let rest ← updated systems ds
      some (if s.enable then d :: rest else rest)

/-- `OnUpdate`: the systems updated, in order. -/
def onUpdate (c : SystemContainer) : Option (List Addr) := c.lSystem.walk.bind (updated c.systems)

/-! ### Runs -/

/-- The calls on a container that change its list. -/
inductive Op
  | addSystem (catalog : SystemCatalog) (priority : Int)
  | setPriority (catalog : SystemCatalog) (priority : Int)
deriving DecidableEq, Repr

/-- An operation on the container. -/
def step (c : SystemContainer) : Op → Option SystemContainer
  | .addSystem catalog priority => (c.addSystem catalog priority).map Prod.fst
  | .setPriority catalog priority => c.setPriority catalog priority

/-! ### What the container is for -/

/-- The catalogs of the systems created so far, and the systems present. -/
structure Spec where
  catalogs : List SystemCatalog
  list : PriorityList.Spec Addr
deriving DecidableEq, Repr

namespace Spec

/-- No catalogs. -/
def empty : Spec := { catalogs := [], list := PriorityList.Spec.empty }

/-- A class of systems there is. -/
def Known : SystemCatalog → Prop
  | .other _ => False
  | _ => True

instance : (catalog : SystemCatalog) → Decidable (Known catalog)
  | .other _ => .isFalse id
  | .movement | .status | .intervalTimer => .isTrue trivial

/-- A new system of a known catalog is added; the system of a catalog is given
its priority. -/
def step (a : Spec) : Op → Spec
  | .addSystem catalog priority =>
      if catalog ∉ a.catalogs ∧ Known catalog then
        { catalogs := a.catalogs ++ [catalog]
          list := a.list.step (.add a.catalogs.length priority) }
      else a
  | .setPriority catalog priority =>
      match a.catalogs.findIdx? fun c => decide (c = catalog) with
      | none => a
      | some d => { a with list := a.list.step (.resetPriority d priority) }

/-- The call asks nothing of the list, or an operation that keeps its links in order. -/
def StepSafe (a : Spec) : Op → Prop
  | .addSystem catalog priority =>
      catalog ∉ a.catalogs ∧ Known catalog → a.list.StepSafe (.add a.catalogs.length priority)
  | .setPriority catalog priority =>
      ∀ d ∈ a.catalogs.findIdx? fun c => decide (c = catalog),
        a.list.StepSafe (.resetPriority d priority)

instance (a : Spec) : (op : Op) → Decidable (a.StepSafe op)
  | .addSystem _ _ => inferInstanceAs (Decidable (_ → _))
  | .setPriority _ _ => inferInstanceAs (Decidable (∀ d ∈ List.findIdx? _ _, _))

end Spec

/-- A tick updates every system added exactly once, in order of priority. -/
def UpdatesInOrder (c : SystemContainer) (a : Spec) : Prop :=
  c.onUpdate = some (a.list.order.map Entry.data)

instance (c : SystemContainer) (a : Spec) : Decidable (c.UpdatesInOrder a) :=
  inferInstanceAs (Decidable (_ = _))

/-! ### Containers that hold what was added -/

/-- The systems created are those of the catalogs, all of them enabled and in
the list, which shows them in order. -/
structure Holds (c : SystemContainer) (a : Spec) : Prop where
  inOrder : c.lSystem.InOrder a.list
  catalogs : c.systems.map ISystem.catalog = a.catalogs
  enabled : ∀ s ∈ c.systems, s.enable = true
  nodup : a.catalogs.Nodup
  mem_live : ∀ d, d ∈ a.list.live.map Entry.data ↔ d < a.catalogs.length

theorem holds_empty : Holds empty Spec.empty :=
  ⟨PriorityList.inOrder_empty, rfl, by simp [empty], List.nodup_nil, by
    simp [Spec.empty, PriorityList.Spec.empty]⟩

/-- With all systems enabled, a tick updates those the loop passes. -/
theorem updated_eq_some_iff {systems : List ISystem} (h : ∀ s ∈ systems, s.enable = true)
    {ds ws : List Addr} :
    updated systems ds = some ws ↔ ws = ds ∧ ∀ d ∈ ds, d < systems.length := by
  induction ds generalizing ws with
  | nil => simp [updated, eq_comm]
  | cons d ds ih =>
      rcases hs : systems[d]? with - | s
      · have : ¬ d < systems.length := by simpa using hs
        simp [updated, this]
      · have hlt : d < systems.length := (List.getElem?_eq_some_iff.mp hs).1
        have hen := h s (List.mem_of_getElem? hs)
        rw [updated, hs, Option.bind_eq_bind, Option.bind_some, Option.bind_eq_bind,
          Option.bind_eq_some_iff]
        constructor
        · rintro ⟨rest, hrest, hws⟩
          obtain ⟨rfl, hall⟩ := ih.mp hrest
          refine ⟨by simpa [hen, eq_comm] using hws, ?_⟩
          simpa [hlt] using hall
        · rintro ⟨rfl, hall⟩
          exact ⟨ds, ih.mpr ⟨rfl, fun x hx => hall x (List.mem_cons_of_mem d hx)⟩, by simp [hen]⟩

section

variable {c : SystemContainer} {a : Spec}

theorem Holds.length_systems (h : c.Holds a) : c.systems.length = a.catalogs.length := by
  rw [← h.catalogs, List.length_map]

theorem Holds.mem_order (h : c.Holds a) {e : Entry Addr} (he : e ∈ a.list.order) :
    e.data < a.catalogs.length :=
  (h.mem_live e.data).mp (List.mem_map_of_mem (Entry.mem_order.mp he))

theorem Holds.updatesInOrder (h : c.Holds a) : c.UpdatesInOrder a := by
  rw [UpdatesInOrder, onUpdate, h.inOrder.visitsOrder.1, Option.bind_some,
    updated_eq_some_iff h.enabled]
  refine ⟨rfl, fun d hd => ?_⟩
  obtain ⟨e, he, rfl⟩ := List.mem_map.mp hd
  rw [h.length_systems]
  exact h.mem_order he

theorem Holds.hasCatalog_iff (h : c.Holds a) {catalog : SystemCatalog} {d : Addr} :
    c.hasCatalog catalog d = true ↔ a.catalogs[d]? = some catalog := by
  rw [hasCatalog, ← h.catalogs, List.getElem?_map]
  cases c.systems[d]? <;> simp

/-- The search for a catalog finds the system of that catalog, if there is one. -/
theorem Holds.findIter (h : c.Holds a) (catalog : SystemCatalog) :
    (∃ pos e n, c.lSystem.findIter (c.hasCatalog catalog) = some (some pos) ∧
        c.lSystem.heap pos = some ⟨PriorityList.item e, n⟩ ∧
        a.catalogs.findIdx? (fun x => decide (x = catalog)) = some e.data ∧
        catalog ∈ a.catalogs) ∨
      (c.lSystem.findIter (c.hasCatalog catalog) = some none ∧
        a.catalogs.findIdx? (fun x => decide (x = catalog)) = none ∧ catalog ∉ a.catalogs) := by
  rcases h.inOrder.findIter (c.hasCatalog catalog) with ⟨pos, e, n, hf, hc, -, hcat⟩ | ⟨hf, hnone⟩
  · obtain ⟨hlt, hget⟩ := List.getElem?_eq_some_iff.mp (h.hasCatalog_iff.mp hcat)
    refine Or.inl ⟨pos, e, n, hf, hc, ?_, hget ▸ List.getElem_mem hlt⟩
    rw [List.findIdx?_eq_some_iff_getElem]
    refine ⟨hlt, by simpa using hget, fun j hj => ?_⟩
    have hne : a.catalogs[j] ≠ catalog := by
      rw [← hget]
      exact fun heq => absurd ((List.Nodup.getElem_inj_iff h.nodup).mp heq) (Nat.ne_of_lt hj)
    simpa using hne
  · have habsent : catalog ∉ a.catalogs := by
      intro hmem
      obtain ⟨d, hlt, hget⟩ := List.getElem_of_mem hmem
      obtain ⟨e, he, rfl⟩ := List.mem_map.mp ((h.mem_live d).mpr hlt)
      have htrue : c.hasCatalog catalog e.data = true :=
        h.hasCatalog_iff.mpr (List.getElem?_eq_some_iff.mpr ⟨hlt, hget⟩)
      rw [hnone e (Entry.mem_order.mpr he)] at htrue
      cases htrue
    refine Or.inr ⟨hf, ?_, habsent⟩
    rw [List.findIdx?_eq_none_iff]
    rintro x hx
    have : x ≠ catalog := by
      rintro rfl
      exact habsent hx
    simpa using this

/-- A field that a change of one system keeps is kept in all of them. -/
theorem map_modify_of_eq {β : Type} {f : ISystem → β} {g : ISystem → ISystem}
    (h : ∀ s, f (g s) = f s) (d : Addr) (systems : List ISystem) :
    (systems.modify d g).map f = systems.map f := by
  refine List.ext_getElem? fun i => ?_
  rw [List.getElem?_map, List.getElem?_map, List.getElem?_modify]
  cases systems[i]? <;> simp
  split <;> simp [h]

theorem Holds.enabled_concat (h : c.Holds a) (catalog : SystemCatalog) (p : Int) :
    ∀ s ∈ c.systems ++ [⟨catalog, p, true⟩], s.enable = true := by
  intro s hs
  rcases List.mem_append.mp hs with hs | hs
  · exact h.enabled s hs
  · rw [List.mem_singleton.mp hs]

theorem Holds.enabled_modify (h : c.Holds a) (d : Addr) (p : Int) :
    ∀ s ∈ c.systems.modify d fun s => { s with priority := p }, s.enable = true := by
  intro s hs
  have hmap := map_modify_of_eq (f := ISystem.enable) (g := fun s => { s with priority := p })
    (fun _ => rfl) d c.systems
  have hmem := List.mem_map_of_mem (f := ISystem.enable) hs
  rw [hmap] at hmem
  obtain ⟨s', hs', heq⟩ := List.mem_map.mp hmem
  rw [← heq]
  exact h.enabled s' hs'

/-- A tick shows what the list's loop passes. -/
theorem walk_of_onUpdate (h : ∀ s ∈ c.systems, s.enable = true) {ws : List Addr}
    (hws : c.onUpdate = some ws) : c.lSystem.walk = some ws := by
  obtain ⟨ds, hds, hup⟩ := Option.bind_eq_some_iff.mp hws
  rw [hds, ((updated_eq_some_iff h).mp hup).1]

/-! ### Step lemmas -/

/-- `AddSystem` of a known catalog that has no system yet. -/
theorem Holds.step_addSystem (h : c.Holds a) {catalog : SystemCatalog} (p : Int)
    (hnot : catalog ∉ a.catalogs) (hknown : Spec.Known catalog) :
    c.step (.addSystem catalog p) = (c.lSystem.add a.catalogs.length p).map fun lSystem =>
      { systems := c.systems ++ [⟨catalog, p, true⟩], lSystem } := by
  rcases h.findIter catalog with ⟨-, -, -, -, -, -, hmem⟩ | ⟨hf, -, -⟩
  · exact absurd hmem hnot
  · rw [← h.length_systems]
    cases catalog with
    | other _ => exact hknown.elim
    | _ =>
        simp only [step, SystemContainer.addSystem, hf, Option.bind_eq_bind, Option.bind_some]
        cases c.lSystem.add c.systems.length p <;> rfl

/-- `AddSystem` of any other catalog changes nothing. -/
theorem Holds.step_addSystem_of_not (h : c.Holds a) {catalog : SystemCatalog} (p : Int)
    (hnot : ¬ (catalog ∉ a.catalogs ∧ Spec.Known catalog)) :
    c.step (.addSystem catalog p) = some c := by
  rcases h.findIter catalog with ⟨pos, -, -, hf, -, -, -⟩ | ⟨hf, -, habsent⟩
  · simp [step, SystemContainer.addSystem, hf]
  · cases catalog with
    | other _ => simp [step, SystemContainer.addSystem, hf]
    | _ => exact absurd ⟨habsent, trivial⟩ hnot

/-- `SetPriority` of the catalog of the system at `d`. -/
theorem Holds.step_setPriority (h : c.Holds a) {catalog : SystemCatalog} {d : Addr} (p : Int)
    (hd : a.catalogs.findIdx? (fun x => decide (x = catalog)) = some d) :
    c.step (.setPriority catalog p) = (c.lSystem.resetPriority d p).map fun r =>
      { systems := if r.2 then c.systems.modify d fun s => { s with priority := p } else c.systems
        lSystem := r.1 } := by
  rcases h.findIter catalog with ⟨pos, e, n, hf, hc, hidx, -⟩ | ⟨-, hidx, -⟩
  · obtain rfl : e.data = d := Option.some.inj (hidx.symm.trans hd)
    simp only [step, SystemContainer.setPriority, hf, hc, PriorityList.item, Option.bind_eq_bind,
      Option.bind_some]
    cases c.lSystem.resetPriority e.data p <;> rfl
  · rw [hidx] at hd
    cases hd

/-- `SetPriority` of a catalog without a system changes nothing. -/
theorem Holds.step_setPriority_of_none (h : c.Holds a) {catalog : SystemCatalog} (p : Int)
    (hd : a.catalogs.findIdx? (fun x => decide (x = catalog)) = none) :
    c.step (.setPriority catalog p) = some c := by
  rcases h.findIter catalog with ⟨_, _, _, _, _, hidx, _⟩ | ⟨hf, -, -⟩
  · rw [hidx] at hd
    cases hd
  · simp [step, SystemContainer.setPriority, hf]

theorem Holds.addSystem (h : c.Holds a) (catalog : SystemCatalog) (p : Int)
    (hsafe : a.StepSafe (.addSystem catalog p)) :
    ∃ c', c.step (.addSystem catalog p) = some c' ∧ c'.Holds (a.step (.addSystem catalog p)) := by
  by_cases hnew : catalog ∉ a.catalogs ∧ Spec.Known catalog
  · obtain ⟨hnot, hknown⟩ := hnew
    have hfresh : a.catalogs.length ∉ a.list.live.map Entry.data := fun hmem =>
      Nat.lt_irrefl _ ((h.mem_live _).mp hmem)
    obtain ⟨l', hadd, hl'⟩ := h.inOrder.add hfresh (hsafe ⟨hnot, hknown⟩)
    rw [h.step_addSystem p hnot hknown, hadd, Spec.step, if_pos ⟨hnot, hknown⟩]
    refine ⟨_, rfl, hl', ?_, ?_, ?_, ?_⟩
    · rw [List.map_append, h.catalogs]
      rfl
    · exact h.enabled_concat catalog p
    · rw [← List.concat_eq_append]
      exact h.nodup.concat hnot
    · intro d
      show d ∈ (a.list.live ++ [_]).map Entry.data ↔ _
      rw [List.map_append, List.mem_append, h.mem_live, List.length_append]
      simpa using Nat.lt_succ_iff_lt_or_eq.symm
  · rw [Spec.step, if_neg hnew]
    exact ⟨c, h.step_addSystem_of_not p hnew, h⟩

theorem Holds.setPriority (h : c.Holds a) (catalog : SystemCatalog) (p : Int)
    (hsafe : a.StepSafe (.setPriority catalog p)) :
    ∃ c', c.step (.setPriority catalog p) = some c' ∧
      c'.Holds (a.step (.setPriority catalog p)) := by
  rcases hidx : a.catalogs.findIdx? (fun x => decide (x = catalog)) with - | d
  · simp only [Spec.step, hidx]
    exact ⟨c, h.step_setPriority_of_none p hidx, h⟩
  · obtain ⟨l', hreset, hl'⟩ := h.inOrder.resetPriority (hsafe d hidx)
    obtain ⟨⟨l', ret⟩, heq, rfl⟩ := Option.map_eq_some_iff.mp hreset
    rw [h.step_setPriority p hidx, heq]
    simp only [Spec.step, hidx]
    refine ⟨_, rfl, hl', ?_, ?_, h.nodup, fun x => ?_⟩
    · cases ret
      · exact h.catalogs
      · exact (map_modify_of_eq (g := fun s => { s with priority := p }) (fun _ => rfl) d
          c.systems).trans h.catalogs
    · cases ret
      · exact h.enabled
      · exact h.enabled_modify d p
    · rw [PriorityList.Spec.mem_data_resetPriority, h.mem_live]

/-- Where a call leaves the links of the list in disorder, the next tick does
not update the systems in order. -/
theorem Holds.not_updatesInOrder (h : c.Holds a) {op : Op} (hbad : ¬ a.StepSafe op) :
    ¬ ∃ c', c.step op = some c' ∧ c'.UpdatesInOrder (a.step op) := by
  rintro ⟨c', e, hv⟩
  cases op with
  | addSystem catalog p =>
      obtain ⟨hnew, hlist⟩ : (catalog ∉ a.catalogs ∧ Spec.Known catalog) ∧
          ¬ a.list.StepSafe (.add a.catalogs.length p) := Classical.not_imp.mp hbad
      rw [h.step_addSystem p hnew.1 hnew.2] at e
      obtain ⟨l', hadd, rfl⟩ := Option.map_eq_some_iff.mp e
      have hwalk := walk_of_onUpdate (h.enabled_concat catalog p) hv
      rw [Spec.step, if_pos hnew] at hwalk
      exact h.inOrder.add_not_walk hlist ⟨l', hadd, hwalk⟩
  | setPriority catalog p =>
      obtain ⟨d, hidx, hlist⟩ : ∃ d, a.catalogs.findIdx? (fun x => decide (x = catalog)) = some d ∧
          ¬ a.list.StepSafe (.resetPriority d p) := by
        simpa [Spec.StepSafe] using hbad
      rw [h.step_setPriority p hidx] at e
      obtain ⟨r, hreset, rfl⟩ := Option.map_eq_some_iff.mp e
      have hwalk := walk_of_onUpdate (by
        show ∀ s ∈ if r.2 then _ else _, _
        split
        · exact h.enabled_modify d p
        · exact h.enabled) hv
      simp only [Spec.step, hidx] at hwalk
      exact h.inOrder.resetPriority_not_walk hlist
        ⟨r.1, by rw [PriorityList.step, hreset]; rfl, hwalk⟩

theorem Holds.step (h : c.Holds a) {op : Op} (hsafe : a.StepSafe op) :
    ∃ c', c.step op = some c' ∧ c'.Holds (a.step op) := by
  cases op with
  | addSystem catalog p => exact h.addSystem catalog p hsafe
  | setPriority catalog p => exact h.setPriority catalog p hsafe

end

/-! ### Runs of a list and of a container -/

/-- A container updates its systems in order after every prefix of the calls
exactly where each call is safe. -/
theorem updatesInOrder_iff (ops : List Op) :
    (∀ pre, pre <+: ops → ∃ c, pre.foldlM SystemContainer.step empty = some c ∧
        c.UpdatesInOrder (pre.foldl Spec.step Spec.empty))
      ↔ Run.EachStep Spec.step Spec.StepSafe Spec.empty ops :=
  Run.forall_prefix_good_iff SystemContainer.step Spec.step Holds (fun _ _ => True) Spec.StepSafe
    (fun o a => ∃ c, o = some c ∧ c.UpdatesInOrder a)
    (fun c _ h => ⟨c, rfl, h.updatesInOrder⟩)
    (fun _ _ _ h _ hsafe => h.step hsafe)
    (fun _ _ _ h _ hbad => h.not_updatesInOrder hbad)
    holds_empty (Run.eachStep_true _ _)

/-- **Lists and containers are in order exactly on the safe runs.**  A priority
list visits its elements in order, each once, after every prefix of a run of
distinct elements if and only if each operation is safe; and so does a tick of a
container after every prefix of a run of calls. -/
theorem in_order_iff_stepSafe {T : Type} [DecidableEq T] (ops : List (PriorityList.Op T))
    (hfresh : Run.EachStep PriorityList.Spec.step PriorityList.Spec.AddsFresh
      PriorityList.Spec.empty ops) (calls : List Op) :
    ((∀ pre, pre <+: ops → ∃ l, pre.foldlM PriorityList.step PriorityList.empty = some l ∧
        l.VisitsOrder (pre.foldl PriorityList.Spec.step PriorityList.Spec.empty))
      ↔ Run.EachStep PriorityList.Spec.step PriorityList.Spec.StepSafe
          PriorityList.Spec.empty ops) ∧
    ((∀ pre, pre <+: calls → ∃ c, pre.foldlM SystemContainer.step empty = some c ∧
        c.UpdatesInOrder (pre.foldl Spec.step Spec.empty))
      ↔ Run.EachStep Spec.step Spec.StepSafe Spec.empty calls) :=
  ⟨PriorityList.visitsOrder_iff ops hfresh, updatesInOrder_iff calls⟩

/-- Two elements, the second given a greater priority than the first. -/
theorem in_order_iff_stepSafe_two :
    ((∀ pre, pre <+: [.add 0 5, .add 1 3, .resetPriority 1 8] →
        ∃ l : PriorityList Nat, pre.foldlM PriorityList.step PriorityList.empty = some l ∧
          l.VisitsOrder (pre.foldl PriorityList.Spec.step PriorityList.Spec.empty))
      ↔ Run.EachStep PriorityList.Spec.step PriorityList.Spec.StepSafe
          PriorityList.Spec.empty [.add 0 5, .add 1 3, .resetPriority 1 8]) ∧
    ((∀ pre, pre <+: [Op.addSystem .movement 0, .addSystem .status 0, .setPriority .status 1] →
        ∃ c, pre.foldlM SystemContainer.step empty = some c ∧
          c.UpdatesInOrder (pre.foldl Spec.step Spec.empty))
      ↔ Run.EachStep Spec.step Spec.StepSafe Spec.empty
          [Op.addSystem .movement 0, .addSystem .status 0, .setPriority .status 1]) :=
  in_order_iff_stepSafe _ (by decide) _

/-- A third system added in front of two: the last of them is no longer visited,
in the list as in the container. -/
theorem front_add_loses_system :
    (¬ ∃ l, [PriorityList.Op.add 0 5, .add 1 3, .add 2 10].foldlM PriorityList.step
          (PriorityList.empty : PriorityList Nat) = some l ∧
        l.VisitsOrder ([PriorityList.Op.add 0 5, .add 1 3, .add 2 10].foldl
          PriorityList.Spec.step PriorityList.Spec.empty)) ∧
    ¬ ∃ c, [Op.addSystem .movement 5, .addSystem .status 3, .addSystem .intervalTimer 10].foldlM
          SystemContainer.step empty = some c ∧
        c.UpdatesInOrder ([Op.addSystem .movement 5, .addSystem .status 3,
          .addSystem .intervalTimer 10].foldl Spec.step Spec.empty) := by
  constructor
  · rintro ⟨l, e, hv, -⟩
    obtain rfl := Option.some.inj e
    revert hv
    decide
  · rintro ⟨c, e, hv⟩
    obtain rfl := Option.some.inj e
    revert hv
    decide

end SystemContainer

end PCGForUnity
