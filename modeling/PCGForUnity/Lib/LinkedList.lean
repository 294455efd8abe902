/-
PCGForUnity/Lib/LinkedList.lean

Singly linked lists in a heap of cells.

    Chain h l q

says that the cells `l` (addresses and contents, in order) stand in the heap `h`, each one's
`next` leading to the one after it and the last one's to `q`.

Design.  A pointer is an address or null (`none`); an address that holds no cell is unallocated,
and following it has no defined result.  A chain may end anywhere, so it can be cut in two and
put together again at any cell, which is how an insertion or a removal in the middle is proved.

Loops over a list are instances of two functions with fuel, `walk` (visit every cell) and
`scan` (find the first cell that satisfies a test, and the cell before it); on a chain that
ends in null, fuel beyond its length is enough, and on a ring no fuel is.
-/
import Mathlib.Data.List.Nodup
import Mathlib.Logic.Function.Basic

namespace PCGForUnity

/-- The address of a cell. -/
abbrev Addr := Nat

/-- A cell of a singly linked list. -/
structure Cell (V : Type*) where
  val : V
  next : Option Addr
deriving DecidableEq, Repr

/-- A partial map from addresses to cells. -/
abbrev Heap (V : Type*) := Addr → Option (Cell V)

namespace Heap

variable {V : Type*}

/-- Allocate, overwrite or (with `none`) free the cell at `a`. -/
def set (h : Heap V) (a : Addr) (c : Option (Cell V)) : Heap V := Function.update h a c

@[simp] theorem set_same (h : Heap V) (a : Addr) (c : Option (Cell V)) : h.set a c a = c :=
  Function.update_self ..

@[simp] theorem set_of_ne {h : Heap V} {a b : Addr} (c : Option (Cell V)) (hne : b ≠ a) :
    h.set a c b = h b :=
  Function.update_of_ne hne ..

/-- Assign to the `next` field of the cell at `a`. -/
def setNext (h : Heap V) (a : Addr) (n : Option Addr) : Option (Heap V) :=
  (h a).map fun c => h.set a (some { c with next := n })

theorem setNext_eq {h : Heap V} {a : Addr} {c : Cell V} (hc : h a = some c) (n : Option Addr) :
    h.setNext a n = some (h.set a (some { c with next := n })) := by
  rw [setNext, hc, Option.map_some]

/-! ### Chains -/

/-- The pointer to the first cell of `l`, or `q` where there is none. -/
def start : List (Addr × V) → Option Addr → Option Addr
  | [], q => q
  | (a, _) :: _, _ => some a

@[simp] theorem start_nil (q : Option Addr) : start ([] : List (Addr × V)) q = q := rfl

@[simp] theorem start_cons (c : Addr × V) (l : List (Addr × V)) (q : Option Addr) :
    start (c :: l) q = some c.1 := rfl

theorem start_append (l₁ l₂ : List (Addr × V)) (q : Option Addr) :
    start (l₁ ++ l₂) q = start l₁ (start l₂ q) := by
  cases l₁ <;> rfl

/-- The cells `l` stand in the heap, linked in order and leading to `q`. -/
def Chain (h : Heap V) : List (Addr × V) → Option Addr → Prop
  | [], _ => True
  | (a, v) :: l, q => h a = some ⟨v, start l q⟩ ∧ Chain h l q

@[simp] theorem chain_nil (h : Heap V) (q : Option Addr) : Chain h [] q := trivial

@[simp] theorem chain_cons {h : Heap V} {c : Addr × V} {l : List (Addr × V)} {q : Option Addr} :
    Chain h (c :: l) q ↔ h c.1 = some ⟨c.2, start l q⟩ ∧ Chain h l q := Iff.rfl

theorem chain_append {h : Heap V} {l₁ l₂ : List (Addr × V)} {q : Option Addr} :
    Chain h (l₁ ++ l₂) q ↔ Chain h l₁ (start l₂ q) ∧ Chain h l₂ q := by
  induction l₁ with
  | nil => simp
  | cons c l ih => simp [start_append, ih, and_assoc]

/-- Frame: a change at an address outside a chain does not touch it. -/
theorem chain_set {h : Heap V} {l : List (Addr × V)} {q : Option Addr} {a : Addr}
    (c : Option (Cell V)) (ha : a ∉ l.map Prod.fst) :
    Chain (h.set a c) l q ↔ Chain h l q := by
  induction l with
  | nil => simp
  | cons b l ih =>
      simp only [List.map_cons, List.mem_cons, not_or] at ha
      rw [chain_cons, chain_cons, set_of_ne c (Ne.symm ha.1), ih ha.2]

/-- Relinking: storing a new `next` in the last cell of a chain moves its end. -/
theorem Chain.relink {h : Heap V} {l : List (Addr × V)} {a : Addr} {v : V} {q : Option Addr}
    (hc : Chain h (l ++ [(a, v)]) q) (ha : a ∉ l.map Prod.fst) (q' : Option Addr) :
    Chain (h.set a (some ⟨v, q'⟩)) (l ++ [(a, v)]) q' := by
  obtain ⟨h₁, -⟩ := chain_append.mp hc
  exact chain_append.mpr ⟨(chain_set _ ha).mpr h₁, by simp⟩

/-- Linking a cell in behind the cell `b` of a chain: the new cell takes over
the pointer of `b`, then `b` points to it. -/
theorem Chain.insert {h : Heap V} {l₁ l₂ : List (Addr × V)} {b e : Addr} {w v : V}
    {q : Option Addr} (hc : Chain h (l₁ ++ [(b, w)] ++ l₂) q)
    (hd : ((l₁ ++ [(b, w)] ++ l₂).map Prod.fst).Nodup)
    (he : e ∉ (l₁ ++ [(b, w)] ++ l₂).map Prod.fst) :
    Chain ((h.set e (some ⟨v, start l₂ q⟩)).set b (some ⟨w, some e⟩))
      (l₁ ++ [(b, w)] ++ (e, v) :: l₂) q := by
  obtain ⟨hc₁, hc₂⟩ := chain_append.mp hc
  rw [List.map_append, List.mem_append, not_or] at he
  rw [List.map_append, List.nodup_append] at hd
  obtain ⟨hd₁, -, hdis⟩ := hd
  have hb₁ : b ∉ l₁.map Prod.fst := by
    intro hmem
    rw [List.map_append, List.nodup_append] at hd₁
    exact hd₁.2.2 b hmem b (by simp) rfl
  have hb₂ : b ∉ l₂.map Prod.fst := fun hmem => hdis b (by simp) b hmem rfl
  have heb : e ≠ b := by
    rintro rfl
    exact he.1 (by simp)
  refine chain_append.mpr ⟨?_, ?_, ?_⟩
  · exact Chain.relink ((chain_set _ he.1).mpr hc₁) hb₁ (some e)
  · rw [set_of_ne _ heb, set_same]
  · exact (chain_set _ hb₂).mpr ((chain_set _ he.2).mpr hc₂)

/-- The address of the last cell of `l`, or `prev` where there is none. -/
def lastAddr : Option Addr → List (Addr × V) → Option Addr
  | prev, [] => prev
  | _, (a, _) :: l => lastAddr (some a) l

@[simp] theorem lastAddr_nil (prev : Option Addr) :
    lastAddr prev ([] : List (Addr × V)) = prev := rfl

@[simp] theorem lastAddr_concat (prev : Option Addr) (l : List (Addr × V)) (c : Addr × V) :
    lastAddr prev (l ++ [c]) = some c.1 := by
  induction l generalizing prev with
  | nil => rfl
  | cons b l ih => exact ih (some b.1)

/-- `if (prev) prev->next = n; else head = n;`: the heap and the head. -/
def bypass (h : Heap V) (prev head n : Option Addr) : Option (Heap V × Option Addr) :=
  match prev with
  | none => some (h, n)
  | some p => (h.setNext p n).map fun h => (h, head)

/-- Bypassing a cell of a chain leaves the chain of the others.  The bypassed
cell may have been changed before, and is not touched. -/
theorem Chain.bypass {h h' : Heap V} {l₁ l₂ : List (Addr × V)} {a : Addr} {v : V}
    (hc : Chain h (l₁ ++ (a, v) :: l₂) none) (hd : ((l₁ ++ (a, v) :: l₂).map Prod.fst).Nodup)
    (hh : ∀ b, b ≠ a → h' b = h b) :
    ∃ h'', h'.bypass (lastAddr none l₁) (start (l₁ ++ (a, v) :: l₂) none) (start l₂ none)
        = some (h'', start (l₁ ++ l₂) none) ∧
      Chain h'' (l₁ ++ l₂) none ∧ h'' a = h' a := by
  -- the two heaps differ at `a` at most, and `a` is in no other cell's place
  have hset : h' = h.set a (h' a) := by
    funext b
    by_cases hb : b = a
    · rw [hb, set_same]
    · rw [set_of_ne _ hb, hh b hb]
  obtain ⟨hc₁, -, hc₂⟩ := chain_append.mp hc
  rw [List.map_append, List.map_cons, List.nodup_append, List.nodup_cons] at hd
  obtain ⟨hd₁, ⟨ha₂, -⟩, hdis⟩ := hd
  have ha₁ : a ∉ l₁.map Prod.fst := fun ha => hdis a ha a (by simp) rfl
  have hc₁' : Chain h' l₁ (some a) := by
    rw [hset]
    exact (chain_set _ ha₁).mpr hc₁
  have hc₂' : Chain h' l₂ none := by
    rw [hset]
    exact (chain_set _ ha₂).mpr hc₂
  -- no cell in front: the head moves; else the cell in front is linked past `a`
  rcases List.eq_nil_or_concat' l₁ with rfl | ⟨l, ⟨b, w⟩, rfl⟩
  · exact ⟨h', rfl, hc₂', rfl⟩
  · have hb : h' b = some ⟨w, some a⟩ := ((chain_append.mp hc₁').2).1
    have hbl : b ∉ l.map Prod.fst := by
      intro hmem
      rw [List.map_append, List.nodup_append] at hd₁
      exact hd₁.2.2 b hmem b (by simp) rfl
    have hb₂ : b ∉ l₂.map Prod.fst := fun hmem =>
      hdis b (by simp) b (List.mem_cons_of_mem _ hmem) rfl
    have hba : a ≠ b := by
      rintro rfl
      exact ha₁ (by simp)
    refine ⟨h'.set b (some ⟨w, start l₂ none⟩), ?_, ?_, set_of_ne _ hba⟩
    · rw [lastAddr_concat, Heap.bypass, setNext_eq hb, Option.map_some]
      simp [start_append]
    · exact chain_append.mpr ⟨hc₁'.relink hbl _, (chain_set _ hb₂).mpr hc₂'⟩

/-! ### Walking a list -/

/-- `for (p = first; p; p = p->next)`: the contents visited, in order. -/
def walk (h : Heap V) : Nat → Option Addr → Option (List V)
  | 0, _ => none
  | _ + 1, none => some []
  | fuel + 1, some a =>
      match h a with
      | none => none
      | some c => (walk h fuel c.next).map (c.val :: ·)

theorem walk_cons {h : Heap V} {a : Addr} {c : Cell V} (hc : h a = some c) (fuel : Nat) :
    h.walk (fuel + 1) (some a) = (h.walk fuel c.next).map (c.val :: ·) := by
  simp [walk, hc]

/-- A walk along a chain that ends in null visits its cells. -/
theorem Chain.walk {h : Heap V} {l : List (Addr × V)} (hc : Chain h l none) {fuel : Nat}
    (hf : l.length < fuel) : h.walk fuel (start l none) = some (l.map Prod.snd) := by
  induction l generalizing fuel with
  | nil =>
      obtain ⟨n, rfl⟩ : ∃ n, fuel = n + 1 := ⟨fuel - 1, by simp at hf; omega⟩
      rfl
  | cons c l ih =>
      obtain ⟨n, rfl⟩ : ∃ n, fuel = n + 1 := ⟨fuel - 1, by simp at hf; omega⟩
      rw [start_cons, walk_cons hc.1, ih hc.2 (by simpa using hf)]
      rfl

/-- A walk from a cell whose `next` is the cell itself never ends. -/
theorem walk_self_loop {h : Heap V} {a : Addr} {v : V} (hc : h a = some ⟨v, some a⟩) :
    ∀ fuel, h.walk fuel (some a) = none
  | 0 => rfl
  | fuel + 1 => by rw [walk_cons hc, walk_self_loop hc fuel]; rfl

/-! ### Searching a list -/

/-- `prev = null; node = first; while (node && !stop(node)) { prev = node; node = node->next; }`:
the node the loop stops at and the one before it. -/
def scan (h : Heap V) (stop : Addr → V → Bool) :
    Nat → (node prev : Option Addr) → Option (Option Addr × Option Addr)
  | 0, _, _ => none
  | _ + 1, none, prev => some (none, prev)
  | fuel + 1, some a, prev =>
      match h a with
      | none => none
      | some c => if stop a c.val then some (some a, prev) else scan h stop fuel c.next (some a)

/-- The node that a search stops at stops it, whatever the links are. -/
theorem stop_of_scan {h : Heap V} {stop : Addr → V → Bool} {fuel : Nat} {node prev : Option Addr}
    {a : Addr} {p : Option Addr} (hs : h.scan stop fuel node prev = some (some a, p)) :
    ∃ c, h a = some c ∧ stop a c.val = true := by
  induction fuel generalizing node prev with
  | zero => exact nomatch hs
  | succ fuel ih =>
      rcases node with - | b
      · exact nomatch (Prod.mk.inj (Option.some.inj hs)).1
      · rw [scan] at hs
        rcases hb : h b with - | c
        · rw [hb] at hs
          exact nomatch hs
        · rw [hb] at hs
          dsimp only at hs
          split at hs
          · rename_i hstop
            obtain rfl := Option.some.inj (Prod.mk.inj (Option.some.inj hs)).1
            exact ⟨c, hb, hstop⟩
          · exact ih hs

/-- On a chain `l₁ ++ l₂` that ends in null, no cell of `l₁` stopping the search
and the first of `l₂` stopping it, the search ends between the two. -/
theorem Chain.scan {h : Heap V} {l₁ l₂ : List (Addr × V)}
    (hc : Chain h (l₁ ++ l₂) none) (stop : Addr → V → Bool) (h₁ : ∀ c ∈ l₁, stop c.1 c.2 = false)
    (h₂ : ∀ c ∈ l₂.head?, stop c.1 c.2 = true) {fuel : Nat} (hf : l₁.length < fuel)
    (prev : Option Addr) :
    h.scan stop fuel (start (l₁ ++ l₂) none) prev
      = some (start l₂ none, lastAddr prev l₁) := by
  induction l₁ generalizing fuel prev with
  | nil =>
      obtain ⟨n, rfl⟩ : ∃ n, fuel = n + 1 := ⟨fuel - 1, by simp at hf; omega⟩
      cases l₂ with
      | nil => rfl
      | cons c l =>
          have hstop := h₂ c (by simp)
          simp [Heap.scan, hc.1, hstop]
  | cons c l ih =>
      obtain ⟨n, rfl⟩ : ∃ n, fuel = n + 1 := ⟨fuel - 1, by simp at hf; omega⟩
      have hgo := h₁ c (by simp)
      rw [List.cons_append, start_cons, Heap.scan, hc.1]
      simp only [hgo]
      exact ih hc.2 (fun d hd => h₁ d (List.mem_cons_of_mem _ hd)) (by simpa using hf) _

end Heap

end PCGForUnity
