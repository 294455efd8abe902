/-
PCGForUnity/Lib/Fragments.lean

Messages cut into fragments that are numbered down to zero, and put together again.

* `whole_split`: what is cut comes back;
* `whole_prefix`: a part of the stream gives a part of the messages;
* `first_eq`, `whole_eq_nil`: in a stream in which the fragments of each message are numbered
  down (`Numbered`) the number of the first one tells whether its message has come whole.

Design.  A fragment with the number zero ends a message, so a stream of fragments tells where
each message ends, and `whole` reads the messages off it by recursion, with what has been read
of the current one in hand.  Nothing is said of how the fragments travel: a stream is a list,
and a receiver that has lost some has a first part of it.
-/
import Mathlib.Data.List.Chain
import Mathlib.Data.List.TakeDrop
import Mathlib.Data.List.Infix
import Mathlib.Algebra.Order.Ring.Nat

namespace PCGForUnity

variable {α : Type*}

/-- A fragment of a message, with the number of those behind it. -/
structure Fragment (α : Type*) where
  frg : ℕ
  data : List α
deriving DecidableEq, Repr

namespace Fragment

/-! ### Cutting -/

/-- `count` fragments of at most `size` elements. -/
def pieces (size : ℕ) : ℕ → List α → List (Fragment α)
  | 0, _ => []
  | count + 1, l => ⟨count, l.take size⟩ :: pieces size count (l.drop size)

/-- How many fragments a message has: an empty one has one. -/
def count (size length : ℕ) : ℕ := if length ≤ size then 1 else (length + size - 1) / size

/-- A message in fragments of at most `size`, the last one maybe shorter. -/
def split (size : ℕ) (msg : List α) : List (Fragment α) := pieces size (count size msg.length) msg

@[simp] theorem length_pieces (size count : ℕ) (l : List α) :
    (pieces size count l).length = count := by
  induction count generalizing l with
  | zero => rfl
  | succ count ih => simp [pieces, ih]

@[simp] theorem length_split (size : ℕ) (msg : List α) :
    (split size msg).length = count size msg.length := length_pieces _ _ _

theorem count_pos {size : ℕ} (hsize : 0 < size) (length : ℕ) : 0 < count size length := by
  rw [count]
  split
  · exact Nat.one_pos
  · exact Nat.div_pos (by omega) hsize

theorem le_count_mul {size : ℕ} (hsize : 0 < size) (length : ℕ) :
    length ≤ count size length * size := by
  rw [count]
  split
  · omega
  · have := Nat.lt_div_mul_add (a := length + size - 1) hsize
    omega

theorem length_data_of_mem_pieces {size count : ℕ} {l : List α} {f : Fragment α}
    (hf : f ∈ pieces size count l) : f.data.length ≤ size ∧ f.frg < count := by
  induction count generalizing l with
  | zero => exact absurd hf List.not_mem_nil
  | succ count ih =>
      rcases List.mem_cons.mp hf with rfl | hf
      · exact ⟨List.length_take_le _ _, Nat.lt_succ_self _⟩
      · exact ⟨(ih hf).1, Nat.lt_succ_of_lt (ih hf).2⟩

/-! ### Putting together -/

/-- The whole messages of a stream, the first of which has begun with `acc`. -/
def wholeFrom (acc : List α) : List (Fragment α) → List (List α)
  | [] => []
  | f :: fs => if f.frg = 0 then (acc ++ f.data) :: wholeFrom [] fs else wholeFrom (acc ++ f.data) fs

/-- The whole messages of a stream. -/
def whole (fs : List (Fragment α)) : List (List α) := wholeFrom [] fs

/-- The fragments up to the end of the first message. -/
def first : List (Fragment α) → List α × List (Fragment α)
  | [] => ([], [])
  | f :: fs => if f.frg = 0 then (f.data, fs) else (f.data ++ (first fs).1, (first fs).2)

/-- The fragments of each message are numbered down to zero. -/
def Numbered (fs : List (Fragment α)) : Prop :=
  fs.IsChain fun f g => f.frg = 0 ∨ f.frg = g.frg + 1

/-- The stream ends where a message does. -/
def Complete (fs : List (Fragment α)) : Prop := ∀ f ∈ fs.getLast?, f.frg = 0

theorem numbered_nil : Numbered ([] : List (Fragment α)) := List.isChain_nil

theorem complete_nil : Complete ([] : List (Fragment α)) := fun f hf => by simp at hf

theorem Numbered.of_cons {f : Fragment α} {fs : List (Fragment α)} (h : Numbered (f :: fs)) :
    Numbered fs := (List.isChain_cons.mp h).2

theorem Complete.of_cons_cons {f g : Fragment α} {fs : List (Fragment α)}
    (h : Complete (f :: g :: fs)) : Complete (g :: fs) := by
  intro e he
  apply h e
  rw [List.getLast?_cons_cons]
  exact he

/-- Messages put one behind the other. -/
theorem Numbered.append {fs gs : List (Fragment α)} (h : Numbered fs) (hend : Complete fs)
    (h' : Numbered gs) : Numbered (fs ++ gs) :=
  List.IsChain.append h h' fun f hf _ _ => Or.inl (hend f hf)

theorem Complete.append {fs gs : List (Fragment α)} (h : Complete fs) (h' : Complete gs) :
    Complete (fs ++ gs) := by
  intro f hf
  rw [List.getLast?_append] at hf
  rcases hg : gs.getLast? with - | g
  · rw [hg] at hf
    exact h f hf
  · rw [hg] at hf
    exact h' f (hg ▸ hf)

/-! ### What cutting gives -/

theorem numbered_pieces (size count : ℕ) (l : List α) : Numbered (pieces size count l) := by
  induction count generalizing l with
  | zero => exact numbered_nil
  | succ count ih =>
      refine List.isChain_cons.mpr ⟨fun g hg => ?_, ih _⟩
      rcases count with - | count
      · exact Or.inl rfl
      · right
        rw [pieces, List.head?_cons, Option.mem_some_iff] at hg
        rw [← hg]

theorem complete_pieces (size count : ℕ) (l : List α) : Complete (pieces size count l) := by
  induction count generalizing l with
  | zero => exact complete_nil
  | succ count ih =>
      rcases count with - | count
      · intro f hf
        rw [pieces, pieces, List.getLast?_singleton, Option.mem_some_iff] at hf
        rw [← hf]
      · intro f hf
        apply ih (l.drop size) f
        rw [pieces, pieces, List.getLast?_cons_cons] at hf
        exact hf

theorem wholeFrom_pieces (size count : ℕ) (acc l : List α) (hl : l.length ≤ (count + 1) * size) :
    wholeFrom acc (pieces size (count + 1) l) = [acc ++ l] := by
  induction count generalizing acc l with
  | zero =>
      have htake : l.take size = l := List.take_of_length_le (by omega)
      simp [pieces, wholeFrom, htake]
  | succ count ih =>
      have hdrop : (l.drop size).length ≤ (count + 1) * size := by
        rw [List.length_drop, Nat.sub_le_iff_le_add, ← Nat.succ_mul]
        exact hl
      rw [pieces, wholeFrom, if_neg (Nat.succ_ne_zero count), ih _ _ hdrop, List.append_assoc,
        List.take_append_drop]

/-- **What is cut comes back.** -/
theorem whole_split {size : ℕ} (hsize : 0 < size) (msg : List α) :
    whole (split size msg) = [msg] := by
  obtain ⟨n, hn⟩ := Nat.exists_eq_succ_of_ne_zero (count_pos hsize msg.length).ne'
  have hlen := le_count_mul hsize msg.length
  rw [hn] at hlen
  rw [whole, split, hn]
  exact wholeFrom_pieces size n [] msg hlen

/-! ### Parts of a stream -/

theorem wholeFrom_append_prefix (acc : List α) (fs more : List (Fragment α)) :
    wholeFrom acc fs <+: wholeFrom acc (fs ++ more) := by
  induction fs generalizing acc with
  | nil => exact List.nil_prefix
  | cons f fs ih =>
      rw [List.cons_append, wholeFrom, wholeFrom]
      split
      · exact (List.prefix_cons_inj _).mpr (ih [])
      · exact ih _

/-- A part of the stream has a part of the messages. -/
theorem whole_prefix {fs gs : List (Fragment α)} (h : fs <+: gs) : whole fs <+: whole gs := by
  obtain ⟨more, rfl⟩ := h
  exact wholeFrom_append_prefix [] fs more

theorem wholeFrom_append {f : Fragment α} {fs : List (Fragment α)} (h : Complete (f :: fs))
    (acc : List α) (more : List (Fragment α)) :
    wholeFrom acc (f :: fs ++ more) = wholeFrom acc (f :: fs) ++ whole more := by
  induction fs generalizing f acc with
  | nil =>
      have hf : f.frg = 0 := h f rfl
      simp [wholeFrom, hf, whole]
  | cons g fs ih =>
      rw [List.cons_append, wholeFrom, wholeFrom]
      split
      · exact congrArg ((acc ++ f.data) :: ·) (ih h.of_cons_cons [])
      · exact ih h.of_cons_cons _

/-- The messages of two streams, the first of which ends where a message does. -/
theorem whole_append {fs : List (Fragment α)} (h : Complete fs) (more : List (Fragment α)) :
    whole (fs ++ more) = whole fs ++ whole more := by
  rcases fs with - | ⟨f, fs⟩
  · rfl
  · exact wholeFrom_append h [] more

theorem first_of_ne {f : Fragment α} (hf : f.frg ≠ 0) (fs : List (Fragment α)) :
    first (f :: fs) = (f.data ++ (first fs).1, (first fs).2) := if_neg hf

theorem wholeFrom_first {f : Fragment α} {fs : List (Fragment α)} (h : Numbered (f :: fs))
    (hlen : f.frg < (f :: fs).length) (acc : List α) :
    ∃ msg, f :: fs = msg ++ (first (f :: fs)).2 ∧ msg.length = f.frg + 1 ∧ Complete msg ∧
      wholeFrom acc msg = [acc ++ (first (f :: fs)).1] := by
  induction fs generalizing f acc with
  | nil =>
      have hf : f.frg = 0 := Nat.lt_one_iff.mp hlen
      refine ⟨[f], ?_, ?_, ?_, ?_⟩
      · simp [first, hf]
      · simp [hf]
      · intro g hg
        rw [List.getLast?_singleton, Option.mem_some_iff] at hg
        rw [← hg]
        exact hf
      · simp [wholeFrom, first, hf]
  | cons g fs ih =>
      by_cases hf : f.frg = 0
      · refine ⟨[f], ?_, ?_, ?_, ?_⟩
        · simp [first, hf]
        · simp [hf]
        · intro e he
          rw [List.getLast?_singleton, Option.mem_some_iff] at he
          rw [← he]
          exact hf
        · simp [wholeFrom, first, hf]
      · -- the next one begins a message with one fragment less
        have hg : f.frg = g.frg + 1 := ((List.isChain_cons_cons.mp h).1).resolve_left hf
        have hlen' : g.frg < (g :: fs).length := by
          rw [hg] at hlen
          exact Nat.lt_of_succ_lt_succ hlen
        obtain ⟨msg, hmsg, hcount, hend, hwhole⟩ := ih h.of_cons hlen' (acc ++ f.data)
        refine ⟨f :: msg, ?_, ?_, ?_, ?_⟩
        · rw [first_of_ne hf, List.cons_append, ← hmsg]
        · rw [List.length_cons, hcount, hg]
        · rcases msg with - | ⟨e, msg⟩
          · exact absurd hcount (Nat.succ_ne_zero _).symm
          · intro e' he'
            rw [List.getLast?_cons_cons] at he'
            exact hend e' he'
        · rw [wholeFrom, if_neg hf, hwhole, first_of_ne hf, List.append_assoc]

/-- **A stream with as many fragments as the first one tells begins with a whole message.** -/
theorem first_eq {f : Fragment α} {fs : List (Fragment α)} (h : Numbered (f :: fs))
    (hlen : f.frg < (f :: fs).length) :
    ∃ msg, f :: fs = msg ++ (first (f :: fs)).2 ∧ msg.length = f.frg + 1 ∧ Complete msg ∧
      whole msg = [(first (f :: fs)).1] := wholeFrom_first h hlen []

theorem wholeFrom_eq_nil {f : Fragment α} {fs : List (Fragment α)} (h : Numbered (f :: fs))
    (hlen : (f :: fs).length ≤ f.frg) (acc : List α) : wholeFrom acc (f :: fs) = [] := by
  induction fs generalizing f acc with
  | nil =>
      have hf : f.frg ≠ 0 := Nat.one_le_iff_ne_zero.mp hlen
      simp [wholeFrom, hf]
  | cons g fs ih =>
      have hf : f.frg ≠ 0 := fun hf => by rw [hf] at hlen; exact absurd hlen (by simp)
      have hg : f.frg = g.frg + 1 := ((List.isChain_cons_cons.mp h).1).resolve_left hf
      rw [hg] at hlen
      rw [wholeFrom, if_neg hf]
      exact ih h.of_cons (Nat.le_of_succ_le_succ hlen) _

/-- No message is whole in fewer fragments. -/
theorem whole_eq_nil {f : Fragment α} {fs : List (Fragment α)} (h : Numbered (f :: fs))
    (hlen : (f :: fs).length ≤ f.frg) : whole (f :: fs) = [] := wholeFrom_eq_nil h hlen []

/-- A stream that ends where a message does has its first message whole. -/
theorem Complete.frg_lt {f : Fragment α} {fs : List (Fragment α)} (hend : Complete (f :: fs))
    (h : Numbered (f :: fs)) : f.frg < (f :: fs).length := by
  induction fs generalizing f with
  | nil =>
      have hf : f.frg = 0 := hend f rfl
      simp [hf]
  | cons g fs ih =>
      rcases (List.isChain_cons_cons.mp h).1 with hf | hf
      · rw [hf]
        exact Nat.succ_pos _
      · rw [hf]
        exact Nat.succ_lt_succ (ih hend.of_cons_cons h.of_cons)

end Fragment

end PCGForUnity
