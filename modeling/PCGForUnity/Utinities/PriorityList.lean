/-
PCGForUnity/Utinities/PriorityList.lean

`priorityList<T>` of `PriorityList.h`: a singly linked list of nodes kept in
order of priority, with the link surgery of `insertAfter` as the code does it.

Inserting in front of the first node calls `element->insertAfter(node)`, which
stores the *old* `next` of the new node into the node that follows it.  For a
fresh node that is null, for a node re-inserted by `ResetPriority` whatever it
led to before.  So an insertion in front keeps the list together only where that
pointer happens to be right; `StepSafe` says where, and
`visitsOrder_iff` that this is the exact condition.

Loops run on fuel, one more than the number of nodes ever allocated, which a
walk without a cycle cannot exceed; running out of it is a loop that never ends.
-/
import PCGForUnity.Lib.LinkedList
import PCGForUnity.Lib.PriorityOrder
import PCGForUnity.Lib.Run
import Mathlib.Data.List.TakeWhile

namespace PCGForUnity

/-- The members of `priorityList::Node` other than `next`. -/
structure Item (T : Type) where
  data : T
  priority : Int
deriving DecidableEq, Repr

/-- The members of `priorityList<T>`, with the memory its nodes live in.  `brk`
is the address the next `new` returns. -/
structure PriorityList (T : Type) where
  heap : Heap (Item T)
  brk : Addr
  head : Option Addr
  wpos : Int

namespace PriorityList

variable {T : Type}

/-! ### The list as coded -/

/-- `priorityList()`. -/
def empty : PriorityList T := { heap := fun _ => none, brk := 0, head := none, wpos := 0 }

/-- `self->insertAfter(node)`. -/
def insertAfter (h : Heap (Item T)) (self : Addr) (node : Option Addr) :
    Option (Heap (Item T)) :=
  match node with
  | none => some h
  | some n => do
      let this ← h self
      let h ← h.setNext n this.next
      h.setNext self node

/-- `add(Node*)`. -/
def addNode (l : PriorityList T) (element : Addr) : Option (PriorityList T) :=
  match l.head with
  | none => some { l with head := some element, wpos := l.wpos + 1 }
  | some _ => do
      let e ← l.heap element
      let (node, prev) ← l.heap.scan (fun _ i => decide (i.priority < e.val.priority))
        (l.brk + 1) l.head none
      match prev with
      | some prev => do
          let heap ← insertAfter l.heap prev (some element)
          some { l with heap, wpos := l.wpos + 1 }
      | none => do
          let heap ← insertAfter l.heap element node
          some { l with heap, head := some element, wpos := l.wpos + 1 }

/-- `add(T*, int32_t)`. -/
def add (l : PriorityList T) (data : T) (priority : Int) : Option (PriorityList T) :=
  addNode { l with
    heap := l.heap.set l.brk (some ⟨⟨data, priority⟩, none⟩)
    brk := l.brk + 1 } l.brk

/-- `erase`: the list and the iterator returned. -/
def erase (l : PriorityList T) (position : Addr) :
    Option (PriorityList T × Option Addr) := do
  let p ← l.heap position
  let _ ← l.head
  let (node, prev) ← l.heap.scan (fun a _ => a == position) (l.brk + 1) l.head none
  let (heap, head) ← match prev, node with
    | none, none => some (l.heap, l.head)
    | _, _ => l.heap.bypass prev l.head p.next
  some ({ l with heap := heap.set position none, head, wpos := l.wpos - 1 }, p.next)

/-- `ResetPriority`. -/
def resetPriority [DecidableEq T] (l : PriorityList T) (data : T) (priority : Int) :
    Option (PriorityList T × Bool) :=
  if l.wpos ≤ 0 then some (l, false)
  else do
    let (node, prev) ← l.heap.scan (fun _ i => decide (i.data = data)) (l.brk + 1) l.head none
    match node with
    | none => some (l, false)
    | some element => do
        let e ← l.heap element
        if e.val.priority = priority then some (l, true)
        else do
          let heap := l.heap.set element (some ⟨⟨data, priority⟩, e.next⟩)
          -- remove the element from the list; it keeps its `next`
          let (heap, head) ← heap.bypass prev l.head e.next
          let l ← addNode { l with heap, head, wpos := l.wpos - 1 } element
          some (l, true)

/-- `for (itr = begin(); itr != end(); itr++)`: the data pointers visited. -/
def walk (l : PriorityList T) : Option (List T) :=
  (l.heap.walk (l.brk + 1) l.head).map fun items => items.map Item.data

/-- The iterator such a loop has reached when `stop` first holds of its element. -/
def findIter (l : PriorityList T) (stop : T → Bool) : Option (Option Addr) :=
  (l.heap.scan (fun _ i => stop i.data) (l.brk + 1) l.head none).map Prod.fst

/-- `size` -/
def size (l : PriorityList T) : Int := l.wpos

/-! ### Runs -/

/-- The operations on a list.  `erase d` stands for `erase` of an iterator at
the element `d`, found by walking the list. -/
inductive Op (T : Type)
  | add (data : T) (priority : Int)
  | erase (data : T)
  | resetPriority (data : T) (priority : Int)
deriving DecidableEq, Repr

/-- One operation. -/
def step [DecidableEq T] (l : PriorityList T) : Op T → Option (PriorityList T)
  | .add d p => l.add d p
  | .erase d => do
      match ← l.findIter (fun x => decide (x = d)) with
      | none => some l
      | some position => (l.erase position).map Prod.fst
  | .resetPriority d p => (l.resetPriority d p).map Prod.fst

/-! ### What the list is for -/

/-- The elements present, with the time each was last inserted. -/
structure Spec (T : Type) where
  live : List (Entry T)
  clock : Nat
deriving DecidableEq, Repr

namespace Spec

/-- No elements. -/
def empty : Spec T := { live := [], clock := 0 }

/-- The order in which a walk should visit the elements. -/
def order (a : Spec T) : List (Entry T) := Entry.order a.live

variable [DecidableEq T]

/-- Elements other than `d`. -/
def without (a : Spec T) (d : T) : List (Entry T) := a.live.filter fun e => decide (e.data ≠ d)

/-- An element is put behind those of `live`, as the last to come. -/
def insert (a : Spec T) (live : List (Entry T)) (d : T) (p : Int) : Spec T :=
  { live := live ++ [⟨d, p, a.clock⟩], clock := a.clock + 1 }

/-- What an operation does to the elements. -/
def step (a : Spec T) : Op T → Spec T
  | .add d p => a.insert a.live d p
  | .erase d => { a with live := a.without d }
  | .resetPriority d p =>
      match a.live.find? fun e => decide (e.data = d) with
      | none => a
      | some e => if e.priority = p then a else a.insert (a.without d) d p

/-- Added elements are not in the list already. -/
def AddsFresh (a : Spec T) : Op T → Prop
  | .add d _ => d ∉ a.live.map Entry.data
  | _ => True

instance (a : Spec T) : (op : Op T) → Decidable (a.AddsFresh op)
  | .add _ _ => inferInstanceAs (Decidable (¬ _))
  | .erase _ => inferInstanceAs (Decidable True)
  | .resetPriority _ _ => inferInstanceAs (Decidable True)

/-- An element of priority `p` does not go in front of the first of `l`. -/
def BehindFirst (l : List (Entry T)) (p : Int) : Prop := ∀ e ∈ l.head?, p ≤ e.priority

instance (l : List (Entry T)) (p : Int) : Decidable (BehindFirst l p) :=
  inferInstanceAs (Decidable (∀ e ∈ l.head?, p ≤ e.priority))

/-- The operations after which the links are in order: nothing is put in front
of a list of two or more elements, and `ResetPriority` puts an element in front
of others only if it was the second. -/
def StepSafe (a : Spec T) : Op T → Prop
  | .add _ p => BehindFirst a.order p ∨ a.order.length ≤ 1
  | .erase _ => True
  | .resetPriority d p =>
      ∀ e ∈ a.order, e.data = d → e.priority = p
        ∨ BehindFirst (a.order.filter fun x => decide (x.data ≠ d)) p ∨ a.order[1]? = some e

instance (a : Spec T) : (op : Op T) → Decidable (a.StepSafe op)
  | .add _ _ => inferInstanceAs (Decidable (_ ∨ _))
  | .erase _ => inferInstanceAs (Decidable True)
  | .resetPriority _ _ => inferInstanceAs (Decidable (∀ e ∈ _, _))

end Spec

/-- A walk visits exactly the elements present, each once, in order, and `size`
is their number. -/
def VisitsOrder (l : PriorityList T) (a : Spec T) : Prop :=
  l.walk = some (a.order.map Entry.data) ∧ l.size = a.order.length

/-! ### Lists in order -/

/-- The nodes `cells` make up the list, linked in order and ending in null. -/
structure Linked (l : PriorityList T) (cells : List (Addr × Item T)) : Prop where
  chain : l.heap.Chain cells none
  head : l.head = Heap.start cells none
  nodup : (cells.map Prod.fst).Nodup
  lt_brk : ∀ c ∈ cells, c.1 < l.brk
  wpos : l.wpos = cells.length

section Linked

variable {l : PriorityList T} {cells : List (Addr × Item T)}

/-- The nodes of a list are not more than those ever allocated, so the fuel of
the loops is enough. -/
theorem Linked.length_le (hl : l.Linked cells) : cells.length ≤ l.brk := by
  have hsub : cells.map Prod.fst ⊆ List.range l.brk := by
    intro a ha
    obtain ⟨c, hc, rfl⟩ := List.mem_map.mp ha
    exact List.mem_range.mpr (hl.lt_brk c hc)
  have := (List.subperm_of_subset hl.nodup hsub).length_le
  simpa using this

theorem Linked.walk (hl : l.Linked cells) :
    l.walk = some (cells.map fun c => c.2.data) := by
  have := hl.chain.walk (Nat.lt_succ_of_le hl.length_le)
  simp [PriorityList.walk, hl.head, this]

/-- Searching a list splits it at the first node that stops the search. -/
theorem Linked.scan (hl : l.Linked cells) (stop : Addr → Item T → Bool) :
    l.heap.scan stop (l.brk + 1) l.head none
      = some (Heap.start (cells.dropWhile fun c => !stop c.1 c.2) none,
          Heap.lastAddr none (cells.takeWhile fun c => !stop c.1 c.2)) := by
  have hsplit : cells.takeWhile (fun c => !stop c.1 c.2) ++ cells.dropWhile (fun c => !stop c.1 c.2)
      = cells := List.takeWhile_append_dropWhile
  have hlen : (cells.takeWhile fun c => !stop c.1 c.2).length < l.brk + 1 :=
    Nat.lt_succ_of_le ((List.takeWhile_sublist _).length_le.trans hl.length_le)
  have hc := hl.chain
  rw [← hsplit] at hc
  have := hc.scan stop (fun c hc => by
      simpa using List.all_eq_true.mp List.all_takeWhile c hc)
    (fun c hc => by
      have := List.head?_dropWhile_not (fun c => !stop c.1 c.2) cells
      rw [Option.mem_def.mp hc] at this
      simpa using this) hlen none
  rw [hsplit] at this
  rw [hl.head, this]

/-! ### Inserting a node -/

variable {e : Addr} {i : Item T} {n : Option Addr}

/-- The nodes an insertion leaves in front of the new one. -/
def ahead (i : Item T) (cells : List (Addr × Item T)) : List (Addr × Item T) :=
  cells.takeWhile fun c => decide (i.priority ≤ c.2.priority)

/-- The nodes an insertion leaves behind the new one. -/
def behind (i : Item T) (cells : List (Addr × Item T)) : List (Addr × Item T) :=
  cells.dropWhile fun c => decide (i.priority ≤ c.2.priority)

theorem ahead_append_behind (i : Item T) (cells : List (Addr × Item T)) :
    ahead i cells ++ behind i cells = cells := List.takeWhile_append_dropWhile

theorem ahead_cons_eq_nil_iff {c : Addr × Item T} :
    ahead i (c :: cells) = [] ↔ c.2.priority < i.priority := by
  rw [ahead, List.takeWhile_cons]
  split <;> simp_all

/-- The search of `add` for the place of a new node. -/
theorem Linked.scan_add (hl : l.Linked cells) (i : Item T) :
    l.heap.scan (fun _ j => decide (j.priority < i.priority)) (l.brk + 1) l.head none
      = some (Heap.start (behind i cells) none, Heap.lastAddr none (ahead i cells)) := by
  have hstop : (fun c : Addr × Item T => !decide (c.2.priority < i.priority))
      = fun c => decide (i.priority ≤ c.2.priority) := by
    funext c
    rw [← decide_not]
    simp
  rw [hl.scan, hstop]
  rfl

/-- Inserting in front of the first node `a`: `a` is given the pointer the new
node had. -/
theorem Linked.addNode_front {a : Addr} {j : Item T} {t : List (Addr × Item T)}
    (hl : l.Linked ((a, j) :: t)) (he : l.heap e = some ⟨i, n⟩)
    (hlt : j.priority < i.priority) (hea : e ≠ a) :
    l.addNode e = some { l with
      heap := (l.heap.set a (some ⟨j, n⟩)).set e (some ⟨i, some a⟩)
      head := some e
      wpos := l.wpos + 1 } := by
  have hscan := hl.scan_add i
  have hahead : ahead i ((a, j) :: t) = [] := ahead_cons_eq_nil_iff.mpr hlt
  have hbehind : behind i ((a, j) :: t) = (a, j) :: t := by
    have := ahead_append_behind i ((a, j) :: t)
    rwa [hahead, List.nil_append] at this
  have hhead : l.head = some a := hl.head
  rw [hahead, hbehind, hhead, Heap.start_cons, Heap.lastAddr_nil] at hscan
  have hset := Heap.setNext_eq hl.chain.1 n
  have hset' := Heap.setNext_eq
    (show (l.heap.set a (some ⟨j, n⟩)) e = some ⟨i, n⟩ by rw [Heap.set_of_ne _ hea, he]) (some a)
  simp [addNode, hhead, he, hscan, insertAfter, hset, hset']

/-- A node linked in between `l₁` and `l₂` makes up the list with the others. -/
theorem Linked.insert {l₁ l₂ : List (Addr × Item T)} {heap : Heap (Item T)}
    {head : Option Addr} (hl : l.Linked (l₁ ++ l₂)) (hnot : e ∉ (l₁ ++ l₂).map Prod.fst)
    (hbrk : e < l.brk) (hc : heap.Chain (l₁ ++ (e, i) :: l₂) none)
    (hh : head = Heap.start (l₁ ++ (e, i) :: l₂) none) :
    Linked { l with heap, head, wpos := l.wpos + 1 } (l₁ ++ (e, i) :: l₂) := by
  have hperm : (l₁ ++ (e, i) :: l₂).Perm ((e, i) :: (l₁ ++ l₂)) := List.perm_middle
  refine ⟨hc, hh, ?_, ?_, ?_⟩
  · rw [(hperm.map Prod.fst).nodup_iff]
    exact List.nodup_cons.mpr ⟨hnot, hl.nodup⟩
  · intro c hmem
    rcases List.mem_cons.mp (hperm.mem_iff.mp hmem) with rfl | h
    · exact hbrk
    · exact hl.lt_brk c h
  · show l.wpos + 1 = _
    rw [hl.wpos, hperm.length_eq, List.length_cons]
    push_cast
    rfl

/-- Inserting a node keeps the list together if the node goes behind another, or
had the pointer the first node has to keep. -/
theorem Linked.addNode (hl : l.Linked cells) (he : l.heap e = some ⟨i, n⟩)
    (hnot : e ∉ cells.map Prod.fst) (hbrk : e < l.brk)
    (hn : ahead i cells = [] → n = Heap.start cells.tail none) :
    ∃ l', l.addNode e = some l' ∧ l'.Linked (ahead i cells ++ (e, i) :: behind i cells) ∧
      l'.brk = l.brk := by
  have hsplit := ahead_append_behind i cells
  rcases List.eq_nil_or_concat' (ahead i cells) with hahead | ⟨l₁, ⟨b, k⟩, hahead⟩
  · rw [hahead, List.nil_append] at hsplit ⊢
    rw [hsplit]
    have hn := hn hahead
    cases cells with
    | nil =>
        have hhead : l.head = none := hl.head
        refine ⟨{ l with head := some e, wpos := l.wpos + 1 }, by simp [PriorityList.addNode, hhead],
          Linked.insert (show l.Linked ([] ++ _) from hl) hnot hbrk ?_ rfl, rfl⟩
        exact ⟨by rw [he, hn]; rfl, trivial⟩
    | cons c t =>
        obtain ⟨a, j⟩ := c
        obtain ⟨hea, het⟩ : e ≠ a ∧ e ∉ t.map Prod.fst := by simpa using hnot
        have hlt : j.priority < i.priority := ahead_cons_eq_nil_iff.mp hahead
        have hat : a ∉ t.map Prod.fst := (List.nodup_cons.mp hl.nodup).1
        refine ⟨_, hl.addNode_front he hlt hea, Linked.insert (show l.Linked ([] ++ _) from hl) hnot hbrk ?_ rfl, rfl⟩
        refine ⟨by simp, ?_, ?_⟩
        · rw [Heap.set_of_ne _ (Ne.symm hea), Heap.set_same, hn]
          rfl
        · exact (Heap.chain_set _ het).mpr ((Heap.chain_set _ hat).mpr hl.chain.2)
  · have hscan := hl.scan_add i
    rw [hahead] at hsplit hscan ⊢
    rw [← hsplit] at hl hnot
    have hb : l.heap b = some ⟨k, Heap.start (behind i cells) none⟩ :=
      ((Heap.chain_append.mp (Heap.chain_append.mp hl.chain).1).2).1
    have heb : b ≠ e := by
      rintro rfl
      exact hnot (by simp)
    -- the two assignments of `insertAfter`
    have hset := Heap.setNext_eq he (Heap.start (behind i cells) none)
    have hset' := Heap.setNext_eq
      (show (l.heap.set e (some ⟨i, Heap.start (behind i cells) none⟩)) b
        = some ⟨k, Heap.start (behind i cells) none⟩ by rw [Heap.set_of_ne _ heb, hb]) (some e)
    obtain ⟨a, ha⟩ : ∃ a, l.head = some a := by
      rw [hl.head]
      cases l₁ <;> simp
    have hstart : l.head = Heap.start (l₁ ++ [(b, k)] ++ (e, i) :: behind i cells) none := by
      rw [hl.head]
      cases l₁ <;> rfl
    rw [ha] at hscan
    refine ⟨_, ?_, hl.insert hnot hbrk (hl.chain.insert hl.nodup hnot) hstart, rfl⟩
    simp [PriorityList.addNode, ha, he, hscan, insertAfter, hb, hset, hset']

theorem Linked.brk_notMem (hl : l.Linked cells) : l.brk ∉ cells.map Prod.fst := by
  intro h
  obtain ⟨c, hc, e⟩ := List.mem_map.mp h
  exact absurd (hl.lt_brk c hc) (by rw [e]; exact Nat.lt_irrefl _)

/-- A node fresh from `new`, not linked yet. -/
theorem Linked.allocate (hl : l.Linked cells) (i : Item T) :
    Linked { l with heap := l.heap.set l.brk (some ⟨i, none⟩), brk := l.brk + 1 } cells :=
  ⟨(Heap.chain_set _ hl.brk_notMem).mpr hl.chain, hl.head, hl.nodup,
    fun c hc => Nat.lt_succ_of_lt (hl.lt_brk c hc), hl.wpos⟩

/-- A cell of no list may be changed. -/
theorem Linked.set_frame (hl : l.Linked cells) {a : Addr} (ha : a ∉ cells.map Prod.fst)
    (c : Option (Cell (Item T))) : Linked { l with heap := l.heap.set a c } cells :=
  ⟨(Heap.chain_set c ha).mpr hl.chain, hl.head, hl.nodup, hl.lt_brk, hl.wpos⟩

/-- Adding an element: safe behind another one, or where at most one is there. -/
theorem Linked.add (hl : l.Linked cells) (d : T) (p : Int)
    (hsafe : ahead ⟨d, p⟩ cells = [] → cells.tail = []) :
    ∃ l', l.add d p = some l' ∧
      l'.Linked (ahead ⟨d, p⟩ cells ++ (l.brk, ⟨d, p⟩) :: behind ⟨d, p⟩ cells) := by
  obtain ⟨l', e, hl', -⟩ := (hl.allocate ⟨d, p⟩).addNode (Heap.set_same ..) hl.brk_notMem
    (Nat.lt_succ_self _) fun h => by rw [hsafe h]; rfl
  exact ⟨l', e, hl'⟩

/-- Inserting in front of the first of several nodes: the walk then visits the
new node, the old first one and what the new node's pointer led to. -/
theorem Linked.walk_addNode_front {a : Addr} {j : Item T} {t b : List (Addr × Item T)}
    (hl : l.Linked ((a, j) :: t)) (he : l.heap e = some ⟨i, Heap.start b none⟩)
    (hlt : j.priority < i.priority) (hea : e ≠ a) (hb : l.heap.Chain b none)
    (hab : a ∉ b.map Prod.fst) (heb : e ∉ b.map Prod.fst) (hlen : b.length + 1 < l.brk) :
    (l.addNode e).bind PriorityList.walk = some (i.data :: j.data :: b.map fun c => c.2.data) := by
  rw [hl.addNode_front he hlt hea, Option.bind_some, PriorityList.walk]
  have hchain : Heap.Chain ((l.heap.set a (some ⟨j, Heap.start b none⟩)).set e (some ⟨i, some a⟩))
      ((e, i) :: (a, j) :: b) none := by
    refine ⟨by simp, ?_, ?_⟩
    · rw [Heap.set_of_ne _ (Ne.symm hea), Heap.set_same]
    · exact (Heap.chain_set _ heb).mpr ((Heap.chain_set _ hab).mpr hb)
  have := hchain.walk (show _ < l.brk + 1 by simpa using hlen)
  simp at this
  simp [this]

/-! ### Taking a node out -/

section Middle

variable {l₁ l₂ : List (Addr × Item T)}

theorem Linked.notMem_middle (hl : l.Linked (l₁ ++ (e, i) :: l₂)) :
    e ∉ (l₁ ++ l₂).map Prod.fst := by
  have := hl.nodup
  rw [List.map_append, List.map_cons, List.nodup_middle] at this
  rw [List.map_append]
  exact (List.nodup_cons.mp this).1

/-- The search for an element ends at it, with the node before it. -/
theorem Linked.scan_middle (hl : l.Linked (l₁ ++ (e, i) :: l₂)) (stop : Addr → Item T → Bool)
    (h₁ : ∀ c ∈ l₁, stop c.1 c.2 = false) (h₂ : stop e i = true) :
    l.heap.scan stop (l.brk + 1) l.head none = some (some e, Heap.lastAddr none l₁) := by
  have hlen : l₁.length < l.brk + 1 := by
    have := hl.length_le
    simp at this
    omega
  rw [hl.head, hl.chain.scan stop h₁ (by simpa using h₂) hlen none]
  rfl

/-- Taking a node out, whatever else is stored in it. -/
theorem Linked.bypass (hl : l.Linked (l₁ ++ (e, i) :: l₂)) (heap : Heap (Item T))
    (hh : ∀ a, a ≠ e → heap a = l.heap a) :
    ∃ heap' head, heap.bypass (Heap.lastAddr none l₁) l.head (Heap.start l₂ none)
        = some (heap', head) ∧
      Linked { l with heap := heap', head, wpos := l.wpos - 1 } (l₁ ++ l₂) ∧
      heap' e = heap e := by
  obtain ⟨heap', hb, hc, hsame⟩ := hl.chain.bypass hl.nodup hh
  have hnodup := hl.nodup
  rw [List.map_append, List.map_cons, List.nodup_middle] at hnodup
  refine ⟨heap', Heap.start (l₁ ++ l₂) none, by rw [hl.head, hb], ⟨hc, rfl, ?_, ?_, ?_⟩, hsame⟩
  · rw [List.map_append]
    exact (List.nodup_cons.mp hnodup).2
  · intro c hc
    refine hl.lt_brk c ?_
    rcases List.mem_append.mp hc with h | h
    · exact List.mem_append_left _ h
    · exact List.mem_append_right _ (List.mem_cons_of_mem _ h)
  · show l.wpos - 1 = _
    rw [hl.wpos]
    simp
    omega

theorem Linked.head_isSome (hl : l.Linked (l₁ ++ (e, i) :: l₂)) : ∃ a, l.head = some a := by
  rw [hl.head]
  cases l₁ <;> simp

theorem Linked.heap_middle (hl : l.Linked (l₁ ++ (e, i) :: l₂)) :
    l.heap e = some ⟨i, Heap.start l₂ none⟩ :=
  ((Heap.chain_append.mp hl.chain).2).1

theorem Linked.erase (hl : l.Linked (l₁ ++ (e, i) :: l₂)) :
    ∃ l', l.erase e = some (l', Heap.start l₂ none) ∧ l'.Linked (l₁ ++ l₂) := by
  obtain ⟨heap, head, hb, hl', -⟩ := hl.bypass l.heap fun _ _ => rfl
  have hnot := hl.notMem_middle
  have hscan := hl.scan_middle (fun a _ => a == e) (fun c hc => by
    have : c.1 ≠ e := by
      rintro rfl
      exact hnot (by simp [List.mem_map_of_mem hc])
    simpa using this) (by simp)
  obtain ⟨a, ha⟩ := hl.head_isSome
  rw [ha] at hscan hb
  refine ⟨_, ?_, hl'.set_frame hnot none⟩
  simp [PriorityList.erase, hl.heap_middle, ha, hscan, hb]

/-- `ResetPriority` of an element with another priority: take it out, then
insert it with the `next` it had. -/
theorem Linked.resetPriority [DecidableEq T] (hl : l.Linked (l₁ ++ (e, i) :: l₂))
    (hd : ∀ c ∈ l₁, c.2.data ≠ i.data) {p : Int} (hp : i.priority ≠ p) :
    ∃ l' : PriorityList T, l.resetPriority i.data p = (l'.addNode e).map (·, true) ∧ l'.Linked (l₁ ++ l₂) ∧
      l'.heap e = some ⟨⟨i.data, p⟩, Heap.start l₂ none⟩ ∧ e < l'.brk := by
  obtain ⟨heap, head, hb, hl', hsame⟩ := hl.bypass
    (l.heap.set e (some ⟨⟨i.data, p⟩, Heap.start l₂ none⟩)) fun a ha => Heap.set_of_ne _ ha
  have hscan := hl.scan_middle (fun _ j => decide (j.data = i.data))
    (fun c hc => by simpa using hd c hc) (by simp)
  have hpos : ¬ l.wpos ≤ 0 := by
    rw [hl.wpos]
    simp
    omega
  refine ⟨_, ?_, hl', hsame.trans (Heap.set_same ..), hl.lt_brk (e, i) (by simp)⟩
  simp [PriorityList.resetPriority, hpos, hscan, hl.heap_middle, hp, hb, Option.map_eq_bind]

end Middle

end Linked

/-! ### What the elements present tell of the order -/

namespace Spec

variable {a : Spec T} {d : T} {p : Int}

/-- Stamps tell insertions apart and lie in the past; no element is there twice. -/
structure WF (a : Spec T) : Prop where
  stamp_nodup : (a.live.map Entry.stamp).Nodup
  stamp_lt : ∀ e ∈ a.live, e.stamp < a.clock
  data_nodup : (a.live.map Entry.data).Nodup

theorem wf_empty : (empty : Spec T).WF := ⟨List.nodup_nil, by simp [empty], List.nodup_nil⟩

theorem WF.sublist (ha : a.WF) {live : List (Entry T)} (hs : live.Sublist a.live) :
    WF { a with live } :=
  ⟨ha.stamp_nodup.sublist (hs.map _), fun e he => ha.stamp_lt e (hs.subset he),
    ha.data_nodup.sublist (hs.map _)⟩

theorem WF.insert (ha : a.WF) (hd : d ∉ a.live.map Entry.data) (p : Int) :
    (a.insert a.live d p).WF := by
  refine ⟨?_, ?_, ?_⟩
  · rw [Spec.insert, List.map_append, List.nodup_append]
    refine ⟨ha.stamp_nodup, by simp, ?_⟩
    intro s hs t ht
    obtain ⟨e, he, rfl⟩ := List.mem_map.mp hs
    obtain rfl : t = a.clock := by simpa using ht
    exact Nat.ne_of_lt (ha.stamp_lt e he)
  · intro e he
    rcases List.mem_append.mp he with h | h
    · exact Nat.lt_succ_of_lt (ha.stamp_lt e h)
    · obtain rfl := List.mem_singleton.mp h
      exact Nat.lt_succ_self _
  · rw [Spec.insert, List.map_append]
    rw [List.map_singleton, ← List.concat_eq_append]
    exact ha.data_nodup.concat hd

/-- An inserted element goes behind all of at least its priority. -/
theorem WF.order_insert (ha : a.WF) (d : T) (p : Int) :
    (a.insert a.live d p).order
      = a.order.takeWhile (fun x => decide (p ≤ x.priority))
        ++ ⟨d, p, a.clock⟩ :: a.order.dropWhile (fun x => decide (p ≤ x.priority)) :=
  Entry.order_concat ha.stamp_nodup ha.stamp_lt

theorem WF.nodup_order (ha : a.WF) : a.order.Nodup :=
  (Entry.perm_order a.live).nodup_iff.mpr ha.stamp_nodup.of_map

variable [DecidableEq T]

theorem WF.without (ha : a.WF) (d : T) : WF { a with live := a.without d } :=
  ha.sublist List.filter_sublist

theorem WF.order_without (ha : a.WF) (d : T) :
    order { a with live := a.without d } = a.order.filter fun e => decide (e.data ≠ d) :=
  Entry.order_filter ha.stamp_nodup _

theorem notMem_without (a : Spec T) (d : T) : d ∉ (a.without d).map Entry.data := by
  simp [Spec.without]

theorem WF.find?_eq (ha : a.WF) {e : Entry T} (he : e ∈ a.live) :
    (a.live.find? fun x => decide (x.data = e.data)) = some e := by
  rcases hf : a.live.find? (fun x => decide (x.data = e.data)) with - | e'
  · have := List.find?_eq_none.mp hf e he
    simp at this
  · have hdata : e'.data = e.data := by simpa using List.find?_some hf
    exact hf.trans (congrArg some
      (List.inj_on_of_nodup_map ha.data_nodup (List.mem_of_find?_eq_some hf) he hdata))

/-- A re-inserted element leaves its place and goes behind all others of at
least its new priority. -/
theorem WF.reinsert (ha : a.WF) (d : T) (p : Int) : (a.insert (a.without d) d p).WF :=
  (ha.without d).insert (notMem_without a d) p

theorem WF.order_reinsert (ha : a.WF) (d : T) (p : Int) :
    (a.insert (a.without d) d p).order
      = (a.order.filter fun e => decide (e.data ≠ d)).takeWhile
          (fun x => decide (p ≤ x.priority))
        ++ ⟨d, p, a.clock⟩ :: (a.order.filter fun e => decide (e.data ≠ d)).dropWhile
          (fun x => decide (p ≤ x.priority)) := by
  rw [← ha.order_without]
  exact (ha.without d).order_insert d p

theorem WF.step_reset (ha : a.WF) {e : Entry T} (he : e ∈ a.live) (p : Int) :
    a.step (.resetPriority e.data p)
      = if e.priority = p then a else a.insert (a.without e.data) e.data p := by
  simp only [Spec.step, ha.find?_eq he]

theorem mem_data_resetPriority (a : Spec T) (d x : T) (p : Int) :
    x ∈ (a.step (.resetPriority d p)).live.map Entry.data ↔ x ∈ a.live.map Entry.data := by
  simp only [Spec.step]
  split
  next => rfl
  next e he =>
    have hd : ∃ e ∈ a.live, e.data = d :=
      ⟨e, List.mem_of_find?_eq_some he, by simpa using List.find?_some he⟩
    split
    · rfl
    · by_cases hx : x = d
      · simp [Spec.insert, Spec.without, hx, hd]
      · simp [Spec.insert, Spec.without, hx]
        grind

/-- The run of the abstract list keeps its well-formedness. -/
theorem WF.step {op : Op T} (ha : a.WF) (hop : a.AddsFresh op) : (a.step op).WF := by
  cases op with
  | add d p => exact ha.insert hop p
  | erase d => exact ha.without d
  | resetPriority d p =>
      simp only [Spec.step]
      split
      · exact ha
      · split
        · exact ha
        · exact ha.reinsert d p

end Spec

/-! ### Lists that show the elements present in order -/

/-- What a node stores of an element. -/
def item (e : Entry T) : Item T := ⟨e.data, e.priority⟩

/-- The nodes are linked, and they are the elements present in order. -/
structure InOrder (l : PriorityList T) (a : Spec T) : Prop where
  wf : a.WF
  linked : ∃ cells, l.Linked cells ∧ cells.map Prod.snd = a.order.map item

theorem inOrder_empty : InOrder (empty : PriorityList T) Spec.empty :=
  ⟨Spec.wf_empty, [], ⟨trivial, rfl, List.nodup_nil, by simp, rfl⟩, rfl⟩

theorem map_data_eq {cells : List (Addr × Item T)} {o : List (Entry T)}
    (h : cells.map Prod.snd = o.map item) : (cells.map fun c => c.2.data) = o.map Entry.data := by
  have := congrArg (List.map Item.data) h
  rwa [List.map_map, List.map_map] at this

theorem InOrder.visitsOrder {l : PriorityList T} {a : Spec T} (h : l.InOrder a) :
    l.VisitsOrder a := by
  obtain ⟨cells, hl, hcells⟩ := h.linked
  refine ⟨by rw [hl.walk, map_data_eq hcells], ?_⟩
  have := congrArg List.length hcells
  rw [List.length_map, List.length_map] at this
  rw [size, hl.wpos, this]

theorem map_ahead {cells : List (Addr × Item T)} {o : List (Entry T)}
    (h : cells.map Prod.snd = o.map item) (i : Item T) :
    (ahead i cells).map Prod.snd
      = (o.takeWhile fun x => decide (i.priority ≤ x.priority)).map item := by
  have := congrArg (List.takeWhile fun j => decide (i.priority ≤ j.priority)) h
  rwa [List.takeWhile_map, List.takeWhile_map] at this

theorem map_behind {cells : List (Addr × Item T)} {o : List (Entry T)}
    (h : cells.map Prod.snd = o.map item) (i : Item T) :
    (behind i cells).map Prod.snd
      = (o.dropWhile fun x => decide (i.priority ≤ x.priority)).map item := by
  have := congrArg (List.dropWhile fun j => decide (i.priority ≤ j.priority)) h
  rwa [List.dropWhile_map, List.dropWhile_map] at this

/-- Nodes in order, with a new one inserted behind all of at least its priority,
are the elements in order with the new one inserted. -/
theorem map_snd_insert {cells : List (Addr × Item T)} {o : List (Entry T)}
    (h : cells.map Prod.snd = o.map item) (e : Addr) (n : Entry T) :
    (ahead (item n) cells ++ (e, item n) :: behind (item n) cells).map Prod.snd
      = (o.takeWhile (fun x => decide (n.priority ≤ x.priority))
        ++ n :: o.dropWhile (fun x => decide (n.priority ≤ x.priority))).map item := by
  rw [List.map_append, List.map_append, List.map_cons, List.map_cons, map_ahead h, map_behind h]
  rfl

/-- An element that stays behind the first is inserted behind a node. -/
theorem eq_nil_of_behindFirst {cells : List (Addr × Item T)} {o : List (Entry T)}
    (h : cells.map Prod.snd = o.map item) {i : Item T} (hb : Spec.BehindFirst o i.priority)
    (hnil : ahead i cells = []) : cells = [] ∧ o = [] := by
  rcases o with - | ⟨x, o⟩
  · exact ⟨by simpa using h, rfl⟩
  · have hle : i.priority ≤ x.priority := hb x rfl
    have := map_ahead h i
    rw [hnil, List.takeWhile_cons_of_pos (by simpa using hle)] at this
    cases this

/-- An element that does not is inserted in front of the first node. -/
theorem exists_first_of_not_behindFirst {cells : List (Addr × Item T)} {o : List (Entry T)}
    (h : cells.map Prod.snd = o.map item) {p : Int} (hb : ¬ Spec.BehindFirst o p) :
    ∃ a j t, cells = (a, j) :: t ∧ j.priority < p := by
  rcases o with - | ⟨x, o⟩
  · exact absurd (by simp [Spec.BehindFirst]) hb
  · rcases cells with - | ⟨⟨a, j⟩, t⟩
    · simp at h
    · obtain ⟨hj, -⟩ : j = item x ∧ t.map Prod.snd = o.map item := by simpa using h
      refine ⟨a, j, t, rfl, ?_⟩
      rw [hj]
      refine not_le.mp fun hle => hb fun y hy => ?_
      obtain rfl : x = y := by simpa using hy
      exact hle

section Step

variable {l : PriorityList T} {a : Spec T} {d : T} {p : Int} {e : Entry T}

theorem InOrder.add [DecidableEq T] (h : l.InOrder a) (hd : d ∉ a.live.map Entry.data)
    (hsafe : a.StepSafe (.add d p)) :
    ∃ l', l.add d p = some l' ∧ l'.InOrder (a.step (.add d p)) := by
  obtain ⟨cells, hl, hcells⟩ := h.linked
  obtain ⟨l', e, hl'⟩ := hl.add d p fun hnil => by
    rcases hsafe with hb | hlen
    · rw [(eq_nil_of_behindFirst hcells (i := ⟨d, p⟩) hb hnil).1]
      rfl
    · have := congrArg List.length hcells
      rw [List.length_map, List.length_map] at this
      exact List.length_eq_zero_iff.mp (by rw [List.length_tail]; omega)
  refine ⟨l', e, h.wf.insert hd p, _, hl', ?_⟩
  show _ = (a.insert a.live d p).order.map item
  rw [h.wf.order_insert]
  exact map_snd_insert hcells l.brk ⟨d, p, a.clock⟩

/-- The nodes and the entries around an element that is in the list. -/
theorem exists_split [DecidableEq T] {cells : List (Addr × Item T)} (ha : a.WF)
    (hcells : cells.map Prod.snd = a.order.map item) (he : e ∈ a.order) :
    ∃ o₁ o₂ l₁ l₂ at_e, a.order = o₁ ++ e :: o₂ ∧ cells = l₁ ++ (at_e, item e) :: l₂ ∧
      l₁.map Prod.snd = o₁.map item ∧ l₂.map Prod.snd = o₂.map item ∧
      (∀ c ∈ l₁, c.2.data ≠ e.data) ∧
      (a.order.filter fun x => decide (x.data ≠ e.data)) = o₁ ++ o₂ := by
  obtain ⟨o₁, o₂, ho⟩ := List.append_of_mem he
  rw [ho, List.map_append, List.map_cons] at hcells
  obtain ⟨l₁, rest, rfl, h₁, hrest⟩ := List.map_eq_append_iff.mp hcells
  obtain ⟨⟨at_e, i⟩, l₂, rfl, hi, h₂⟩ := List.map_eq_cons_iff.mp hrest
  obtain rfl : i = item e := hi
  have hnodup : (a.order.map Entry.data).Nodup :=
    ((Entry.perm_order a.live).map Entry.data).nodup_iff.mpr ha.data_nodup
  rw [ho, List.map_append, List.map_cons, List.nodup_middle] at hnodup
  have hnot := (List.nodup_cons.mp hnodup).1
  rw [← List.map_append] at hnot
  have hother : ∀ x ∈ o₁ ++ o₂, x.data ≠ e.data := fun x hx heq =>
    hnot (heq ▸ List.mem_map_of_mem hx)
  refine ⟨o₁, o₂, l₁, l₂, at_e, ho, rfl, h₁, h₂, ?_, ?_⟩
  · intro c hc
    have : c.2 ∈ o₁.map item := h₁ ▸ List.mem_map_of_mem hc
    obtain ⟨x, hx, hxc⟩ := List.mem_map.mp this
    rw [← hxc]
    exact hother x (List.mem_append_left _ hx)
  · have hfilter : (o₁ ++ o₂).filter (fun x => decide (x.data ≠ e.data)) = o₁ ++ o₂ :=
      List.filter_eq_self.mpr fun x hx => by simpa using hother x hx
    rw [ho, List.filter_append, List.filter_cons_of_neg (by simp), ← List.filter_append, hfilter]

/-- Searching for an element that is not in the list runs to the end. -/
theorem Linked.scan_absent [DecidableEq T] {cells : List (Addr × Item T)} (hl : l.Linked cells)
    (hcells : cells.map Prod.snd = a.order.map item) (hd : d ∉ a.live.map Entry.data) :
    ∃ prev, l.heap.scan (fun _ i => decide (i.data = d)) (l.brk + 1) l.head none
      = some (none, prev) := by
  have habsent : ∀ c ∈ cells, decide (c.2.data = d) = false := by
    intro c hc
    have hmem : c.2.data ∈ a.order.map Entry.data := map_data_eq hcells ▸ List.mem_map_of_mem hc
    have : c.2.data ≠ d := by
      rintro rfl
      exact hd (((Entry.perm_order a.live).map Entry.data).mem_iff.mp hmem)
    simpa using this
  have hscan := hl.scan fun _ i => decide (i.data = d)
  rw [List.dropWhile_eq_nil_iff.mpr fun c hc => by simpa using habsent c hc] at hscan
  exact ⟨_, hscan⟩

theorem mem_order_of_mem_data [DecidableEq T] (hd : d ∈ a.live.map Entry.data) :
    ∃ e, e ∈ a.order ∧ e.data = d := by
  obtain ⟨e, he, rfl⟩ := List.mem_map.mp hd
  exact ⟨e, Entry.mem_order.mpr he, rfl⟩

theorem InOrder.erase [DecidableEq T] (h : l.InOrder a) (d : T) :
    ∃ l', l.step (.erase d) = some l' ∧ l'.InOrder (a.step (.erase d)) := by
  obtain ⟨cells, hl, hcells⟩ := h.linked
  by_cases hd : d ∈ a.live.map Entry.data
  · obtain ⟨e, he, rfl⟩ := mem_order_of_mem_data hd
    obtain ⟨o₁, o₂, l₁, l₂, at_e, ho, rfl, h₁, h₂, hne, hfilter⟩ := exists_split h.wf hcells he
    obtain ⟨l', herase, hl'⟩ := hl.erase
    have hscan := hl.scan_middle (fun _ i => decide (i.data = e.data))
      (fun c hc => by simpa using hne c hc) (by simp [item])
    refine ⟨l', by simp [step, findIter, hscan, herase], h.wf.without e.data, l₁ ++ l₂, hl', ?_⟩
    show _ = (Spec.order { a with live := a.without e.data }).map item
    rw [h.wf.order_without, hfilter, List.map_append, List.map_append, h₁, h₂]
  · obtain ⟨prev, hscan⟩ := hl.scan_absent hcells hd
    refine ⟨l, by simp [step, findIter, hscan], ?_⟩
    have hsame : a.without d = a.live := List.filter_eq_self.mpr fun e he => by
      have : e.data ≠ d := by
        rintro rfl
        exact hd (List.mem_map_of_mem he)
      simpa using this
    rw [Spec.step, hsame]
    exact h

/-- The second element is the one behind exactly one other. -/
theorem getElem?_one_eq_iff {o₁ o₂ : List (Entry T)} (hnodup : (o₁ ++ e :: o₂).Nodup) :
    (o₁ ++ e :: o₂)[1]? = some e ↔ o₁.length = 1 := by
  constructor
  · intro h
    have hlt : 1 < (o₁ ++ e :: o₂).length := (List.getElem?_eq_some_iff.mp h).1
    have hat : (o₁ ++ e :: o₂)[o₁.length]? = some e := by simp
    exact ((List.getElem?_inj hlt hnodup).mp (h.trans hat.symm)).symm
  · intro h
    rw [← h]
    simp

theorem InOrder.resetPriority [DecidableEq T] (h : l.InOrder a)
    (hsafe : a.StepSafe (.resetPriority d p)) :
    ∃ l', l.step (.resetPriority d p) = some l' ∧ l'.InOrder (a.step (.resetPriority d p)) := by
  obtain ⟨cells, hl, hcells⟩ := h.linked
  by_cases hd : d ∈ a.live.map Entry.data
  · obtain ⟨e, he, rfl⟩ := mem_order_of_mem_data hd
    rw [h.wf.step_reset (Entry.mem_order.mp he)]
    obtain ⟨o₁, o₂, l₁, l₂, at_e, ho, rfl, h₁, h₂, hne, hfilter⟩ := exists_split h.wf hcells he
    by_cases hp : e.priority = p
    -- an element that has the priority already is not moved
    · have hpos : ¬ l.wpos ≤ 0 := by
        rw [hl.wpos]
        simp
        omega
      have hscan := hl.scan_middle (fun _ i => decide (i.data = e.data))
        (fun c hc => by simpa using hne c hc) (by simp [item])
      refine ⟨l, by simp [step, PriorityList.resetPriority, hpos, hscan, hl.heap_middle, item, hp],
        ?_⟩
      rw [if_pos hp]
      exact h
    · obtain ⟨l₀, hreset, hl₀, hcell, hbrk⟩ := hl.resetPriority (p := p) hne hp
      have hrest : (l₁ ++ l₂).map Prod.snd = (o₁ ++ o₂).map item := by
        rw [List.map_append, List.map_append, h₁, h₂]
      obtain ⟨l', hadd, hl', -⟩ := hl₀.addNode hcell hl.notMem_middle hbrk fun hnil => by
        rcases hsafe e he rfl with hp' | hb | htwo
        · exact absurd hp' hp
        · rw [hfilter] at hb
          obtain ⟨rfl, rfl⟩ :=
            List.append_eq_nil_iff.mp (eq_nil_of_behindFirst hrest (i := ⟨e.data, p⟩) hb hnil).1
          rfl
        · -- the second element: its `next` is what the first one has to keep
          rw [ho] at htwo
          have hone := (getElem?_one_eq_iff (ho ▸ h.wf.nodup_order)).mp htwo
          have hlen := congrArg List.length h₁
          rw [List.length_map, List.length_map, hone] at hlen
          obtain ⟨c, rfl⟩ := List.length_eq_one_iff.mp hlen
          rfl
      rw [if_neg hp]
      refine ⟨l', ?_, h.wf.reinsert e.data p, _, hl', ?_⟩
      · show (l.resetPriority e.data p).map Prod.fst = _
        rw [show l.resetPriority e.data p = _ from hreset, hadd]
        rfl
      · rw [h.wf.order_reinsert, hfilter]
        exact map_snd_insert hrest at_e ⟨e.data, p, a.clock⟩
  · obtain ⟨prev, hscan⟩ := hl.scan_absent hcells hd
    have hfind : (a.live.find? fun e => decide (e.data = d)) = none := by
      refine List.find?_eq_none.mpr fun e he => ?_
      have : e.data ≠ d := by
        rintro rfl
        exact hd (List.mem_map_of_mem he)
      simpa using this
    refine ⟨l, ?_, by simpa only [Spec.step, hfind] using h⟩
    by_cases hpos : l.wpos ≤ 0 <;> simp [step, PriorityList.resetPriority, hpos, hscan]

/-! ### The operations after which the links are not in order -/

/-- A walk that ends elsewhere than the elements in order do. -/
theorem not_walk_order {o : Option (PriorityList T)} {r : Option (List T)}
    (h : o.bind walk = r) (hr : ∀ ws, r = some ws → ws.length ≠ a.order.length) :
    ¬ ∃ l, o = some l ∧ l.walk = some (a.order.map Entry.data) := by
  rintro ⟨l, rfl, hv⟩
  exact hr _ (h.symm.trans hv) (by simp)

/-- Adding in front of two or more elements: the walk ends at the second node. -/
theorem InOrder.add_not_walk [DecidableEq T] (h : l.InOrder a)
    (hbad : ¬ a.StepSafe (.add d p)) :
    ¬ ∃ l', l.add d p = some l' ∧
      l'.walk = some ((a.step (.add d p)).order.map Entry.data) := by
  obtain ⟨cells, hl, hcells⟩ := h.linked
  obtain ⟨hb, hlen⟩ : ¬ Spec.BehindFirst a.order p ∧ 1 < a.order.length := by
    rwa [Spec.StepSafe, not_or, not_le] at hbad
  obtain ⟨b, j, t, rfl, hlt⟩ := exists_first_of_not_behindFirst hcells hb
  have hsize := congrArg List.length hcells
  rw [List.length_map, List.length_map] at hsize
  have hbrk := hl.length_le
  have hwalk := (hl.allocate ⟨d, p⟩).walk_addNode_front
    (e := l.brk) (i := ⟨d, p⟩) (b := []) (Heap.set_same ..) hlt
    (fun heq => hl.brk_notMem (by simp [heq])) trivial (by simp) (by simp)
    (Nat.succ_lt_succ (lt_of_lt_of_le (Nat.succ_pos _) hbrk))
  refine not_walk_order hwalk fun ws hws => ?_
  obtain rfl := Option.some.inj hws
  have : (a.step (.add d p)).order.length = a.order.length + 1 := by
    rw [show a.step (.add d p) = a.insert a.live d p from rfl, Spec.insert, Spec.order, Spec.order]
    simp
  rw [this]
  simp
  omega

/-- Re-inserting an element in front of others, when it was not the second: the
walk goes round in a circle, or loses the elements between the first and it. -/
theorem InOrder.resetPriority_not_walk [DecidableEq T] (h : l.InOrder a)
    (hbad : ¬ a.StepSafe (.resetPriority d p)) :
    ¬ ∃ l', l.step (.resetPriority d p) = some l' ∧
      l'.walk = some ((a.step (.resetPriority d p)).order.map Entry.data) := by
  obtain ⟨cells, hl, hcells⟩ := h.linked
  obtain ⟨e, he, rfl, hp, hb, htwo⟩ : ∃ e ∈ a.order, e.data = d ∧ e.priority ≠ p ∧
      ¬ Spec.BehindFirst (a.order.filter fun x => decide (x.data ≠ d)) p ∧
      a.order[1]? ≠ some e := by
    simpa only [Spec.StepSafe, not_forall, not_or, exists_prop] using hbad
  obtain ⟨o₁, o₂, l₁, l₂, at_e, ho, rfl, h₁, h₂, hne, hfilter⟩ := exists_split h.wf hcells he
  obtain ⟨l₀, hreset, hl₀, hcell, hbrk⟩ := hl.resetPriority (p := p) hne hp
  have hrest : (l₁ ++ l₂).map Prod.snd = (o₁ ++ o₂).map item := by
    rw [List.map_append, List.map_append, h₁, h₂]
  rw [hfilter] at hb
  obtain ⟨b, j, t, hbt, hlt⟩ := exists_first_of_not_behindFirst hrest hb
  have hnot := hl.notMem_middle
  rw [hbt] at hl₀ hnot
  have hea : at_e ≠ b := fun heq => hnot (by simp [heq])
  have hstep : l.step (.resetPriority e.data p) = l₀.addNode at_e := by
    rw [step, show l.resetPriority e.data p = _ from hreset, Option.map_map]
    exact Option.map_id' ..
  have hlen : (a.step (.resetPriority e.data p)).order.length = l₁.length + l₂.length + 1 := by
    have hl₁ := congrArg List.length h₁
    have hl₂ := congrArg List.length h₂
    rw [List.length_map, List.length_map] at hl₁ hl₂
    rw [h.wf.step_reset (Entry.mem_order.mp he), if_neg hp, h.wf.order_reinsert, hfilter,
      (List.perm_middle.length_eq), List.length_cons, List.takeWhile_append_dropWhile,
      List.length_append, hl₁, hl₂]
  rw [hstep]
  rcases l₁ with - | ⟨c, l₁⟩
  · -- the head itself: the node behind it is made to point to itself
    obtain rfl : l₂ = (b, j) :: t := hbt
    refine not_walk_order (r := none) ?_ (by simp)
    have hbat : b ∉ t.map Prod.fst := (List.nodup_cons.mp hl₀.nodup).1
    rw [hl₀.addNode_front hcell hlt hea, Option.bind_some, PriorityList.walk,
      Heap.walk_cons (Heap.set_same ..), Heap.walk_self_loop (v := j)]
    · rfl
    · rw [Heap.set_of_ne _ (Ne.symm hea), Heap.set_same]
      rfl
  · -- what stood between the first node and the one re-inserted is lost
    obtain ⟨rfl, rfl⟩ : c = (b, j) ∧ l₁ ++ l₂ = t := by simpa using hbt
    have hlost : l₁ ≠ [] := by
      rintro rfl
      refine htwo ?_
      rw [ho]
      have hone := congrArg List.length h₁
      rw [List.length_map, List.length_map] at hone
      exact (getElem?_one_eq_iff (ho ▸ h.wf.nodup_order)).mpr hone.symm
    have hwalk := hl₀.walk_addNode_front hcell hlt hea (Heap.chain_append.mp hl₀.chain.2).2
      (fun hmem => (List.nodup_cons.mp hl₀.nodup).1 (by
        rw [List.map_append]
        exact List.mem_append_right _ hmem))
      (fun hmem => hnot (by
        rw [List.map_cons, List.map_append]
        exact List.mem_cons_of_mem _ (List.mem_append_right _ hmem))) ?_
    · refine not_walk_order hwalk fun ws hws => ?_
      obtain rfl := Option.some.inj hws
      have := List.length_pos_iff.mpr hlost
      rw [hlen]
      simp
      omega
    · have := hl₀.length_le
      have hpos := List.length_pos_iff.mpr hlost
      rw [List.length_cons, List.length_append] at this
      exact lt_of_lt_of_le (by omega) this

/-- A search by element, on a list in order: the node found holds an element the
search stops at, and where none is found there is none. -/
theorem InOrder.findIter (h : l.InOrder a) (stop : T → Bool) :
    (∃ pos e n, l.findIter stop = some (some pos) ∧ l.heap pos = some ⟨item e, n⟩ ∧
        e ∈ a.order ∧ stop e.data = true) ∨
      (l.findIter stop = some none ∧ ∀ e ∈ a.order, stop e.data = false) := by
  obtain ⟨cells, hl, hcells⟩ := h.linked
  have hscan := hl.scan fun _ i => stop i.data
  have hsplit := List.takeWhile_append_dropWhile (p := fun c : Addr × Item T => !stop c.2.data)
    (l := cells)
  rcases hd : cells.dropWhile (fun c => !stop c.2.data) with - | ⟨⟨pos, i⟩, t⟩
  · refine Or.inr ⟨by rw [PriorityList.findIter, hscan, hd]; rfl, fun e he => ?_⟩
    have : item e ∈ cells.map Prod.snd := hcells ▸ List.mem_map_of_mem he
    obtain ⟨c, hc, hce⟩ := List.mem_map.mp this
    simpa [hce, item] using List.dropWhile_eq_nil_iff.mp hd c hc
  · rw [hd] at hsplit
    have hmem : i ∈ cells.map Prod.snd := by
      rw [← hsplit]
      simp
    rw [hcells] at hmem
    obtain ⟨e, he, rfl⟩ := List.mem_map.mp hmem
    have hchain := hl.chain
    rw [← hsplit] at hchain
    refine Or.inl ⟨pos, e, Heap.start t none, by rw [PriorityList.findIter, hscan, hd]; rfl,
      ((Heap.chain_append.mp hchain).2).1, he, ?_⟩
    have := List.head?_dropWhile_not (fun c : Addr × Item T => !stop c.2.data) cells
    rw [hd] at this
    simpa [item] using this

/-! ### Step and run lemmas -/

variable [DecidableEq T] {op : Op T}

theorem InOrder.step (h : l.InOrder a) (hop : a.AddsFresh op) (hsafe : a.StepSafe op) :
    ∃ l', l.step op = some l' ∧ l'.InOrder (a.step op) := by
  cases op with
  | add d p => exact h.add hop hsafe
  | erase d => exact h.erase d
  | resetPriority d p => exact h.resetPriority hsafe

theorem InOrder.step_not_walk (h : l.InOrder a) (hbad : ¬ a.StepSafe op) :
    ¬ ∃ l', l.step op = some l' ∧ l'.walk = some ((a.step op).order.map Entry.data) := by
  cases op with
  | add d p => exact h.add_not_walk hbad
  | erase d => exact absurd trivial hbad
  | resetPriority d p => exact h.resetPriority_not_walk hbad

/-- **The list is in order exactly on the runs whose steps are safe.** -/
theorem visitsOrder_iff (ops : List (Op T))
    (hfresh : Run.EachStep Spec.step Spec.AddsFresh Spec.empty ops) :
    (∀ pre, pre <+: ops → ∃ l, pre.foldlM PriorityList.step empty = some l ∧
        l.VisitsOrder (pre.foldl Spec.step Spec.empty))
      ↔ Run.EachStep Spec.step Spec.StepSafe Spec.empty ops :=
  Run.forall_prefix_good_iff PriorityList.step Spec.step InOrder Spec.AddsFresh Spec.StepSafe
    (fun o a => ∃ l, o = some l ∧ l.VisitsOrder a)
    (fun l _ h => ⟨l, rfl, h.visitsOrder⟩)
    (fun _ _ _ h hop hsafe => h.step hop hsafe)
    (fun _ _ _ h _ hbad ⟨l, e, hv⟩ => h.step_not_walk hbad ⟨l, e, hv.1⟩)
    inOrder_empty hfresh

end Step

end PriorityList

end PCGForUnity
