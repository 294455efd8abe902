/-
PCGForUnity/Lib/StdMap.lean

`std::map` and `std::unordered_map` as the lists of their entries, in the order of iteration.

* A map keeps its entries sorted by a comparator, and `insert` leaves an entry whose key the
  comparator does not tell from the new one where it is: keys may be different and yet
  collide.
* An unordered map has one entry a key; where `operator[]` puts a new entry is left open by
  the standard, and here it is the end.

Design.  A list of entries shows what iterating over a map gives, which a function from keys
would not.  The comparator is a parameter and need not tell all keys apart, since a program
may bring one that does not; that it is a strict weak order is a hypothesis where the
position of an entry matters.  The lemmas say what an operation does to the search for any
property of entries, so they need not say what a key is.
-/
import Mathlib.Data.List.Nodup
import Mathlib.Data.List.Perm.Subperm
import Mathlib.Data.List.Pairwise
import Mathlib.Order.Basic
import Mathlib.Algebra.Order.Ring.Nat

namespace PCGForUnity

/-- The entries of a map. -/
abbrev StdMap (κ β : Type*) := List (κ × β)

namespace StdMap

variable {κ β : Type*}

/-! ### Ordered maps -/

section Ordered

variable (lt : κ → κ → Bool)

/-- Keys that the comparator does not tell apart. -/
def Equiv (a b : κ) : Prop := lt a b = false ∧ lt b a = false

/-- `std::map::insert` -/
def insert (k : κ) (v : β) : StdMap κ β → StdMap κ β
  | [] => [(k, v)]
  | e :: m =>
      if lt k e.1 then (k, v) :: e :: m
      else if lt e.1 k then e :: insert k v m
      else e :: m

/-- The order of the entries. -/
def Sorted (m : StdMap κ β) : Prop := m.Pairwise fun a b => lt a.1 b.1 = true

/-- What the standard asks of a comparator. -/
structure StrictWeak : Prop where
  asymm : ∀ {a b}, lt a b = true → lt b a = false
  trans : ∀ {a b c}, lt a b = true → lt b c = true → lt a c = true
  lt_of_equiv : ∀ {a b c}, lt a b = true → Equiv lt b c → lt a c = true

end Ordered

/-- A comparator that compares one value of each key. -/
theorem strictWeak_rank {γ : Type*} [LinearOrder γ] (rank : κ → γ) :
    StrictWeak fun a b => decide (rank a < rank b) where
  asymm h := decide_eq_false (not_lt_of_gt (of_decide_eq_true h))
  trans h₁ h₂ := decide_eq_true (lt_trans (of_decide_eq_true h₁) (of_decide_eq_true h₂))
  lt_of_equiv h he :=
    decide_eq_true (lt_of_lt_of_le (of_decide_eq_true h) (not_lt.mp (of_decide_eq_false he.2)))

variable {lt : κ → κ → Bool} {k : κ} {v : β} {m : StdMap κ β} {e e' : κ × β}

theorem Equiv.symm {a b : κ} (h : Equiv lt a b) : Equiv lt b a := ⟨h.2, h.1⟩

theorem mem_of_mem_insert (h : e ∈ insert lt k v m) : e = (k, v) ∨ e ∈ m := by
  induction m with
  | nil => exact Or.inl (List.mem_singleton.mp h)
  | cons hd m ih =>
      rw [insert] at h
      split at h
      · exact List.mem_cons.mp h
      · split at h
        · rcases List.mem_cons.mp h with rfl | h
          · exact Or.inr List.mem_cons_self
          · exact (ih h).imp_right fun hm => List.mem_cons_of_mem _ hm
        · exact Or.inr h

theorem mem_insert_of_mem (h : e ∈ m) : e ∈ insert lt k v m := by
  induction m with
  | nil => cases h
  | cons hd m ih =>
      rw [insert]
      split
      · exact List.mem_cons_of_mem _ h
      · split
        · rcases List.mem_cons.mp h with rfl | h
          · exact List.mem_cons_self
          · exact List.mem_cons_of_mem _ (ih h)
        · exact h

/-- Changing values and entering one commute. -/
theorem map_insert (f : β → β) :
    (insert lt k v m).map (Prod.map id f) = insert lt k (f v) (m.map (Prod.map id f)) := by
  induction m with
  | nil => rfl
  | cons hd m ih =>
      rw [List.map_cons, insert, insert, ← ih]
      show _ = if lt k hd.1 then _ else if lt hd.1 k then _ else _
      split
      · rfl
      · split <;> rfl

theorem Sorted.map_val (h : Sorted lt m) (f : κ × β → κ × β) (hf : ∀ e, (f e).1 = e.1) :
    Sorted lt (m.map f) := by
  refine List.pairwise_map.mpr (List.Pairwise.imp (fun {a b} hab => ?_) h)
  rwa [hf, hf]

theorem Sorted.insert (hlt : StrictWeak lt) (h : Sorted lt m) (k : κ) (v : β) :
    Sorted lt (insert lt k v m) := by
  induction m with
  | nil => exact List.pairwise_singleton _ _
  | cons hd m ih =>
      obtain ⟨hhd, hm⟩ := List.pairwise_cons.mp h
      rw [StdMap.insert]
      split
      · rename_i hk
        refine List.pairwise_cons.mpr ⟨fun e he => ?_, h⟩
        rcases List.mem_cons.mp he with rfl | he
        · exact hk
        · exact hlt.trans hk (hhd e he)
      · split
        · rename_i hk
          refine List.pairwise_cons.mpr ⟨fun e he => ?_, ih hm⟩
          rcases mem_of_mem_insert he with rfl | he
          · exact hk
          · exact hhd e he
        · exact h

/-- A key that is not there yet is entered. -/
theorem insert_perm (h : ∀ e ∈ m, ¬ Equiv lt k e.1) : (insert lt k v m).Perm ((k, v) :: m) := by
  induction m with
  | nil => exact List.Perm.refl _
  | cons hd m ih =>
      rw [insert]
      split
      · exact List.Perm.refl _
      · split
        · have hrest := ih fun e he => h e (List.mem_cons_of_mem _ he)
          exact (hrest.cons hd).trans (List.Perm.swap _ _ _)
        · rename_i h₁ h₂
          exact absurd ⟨Bool.not_eq_true _ ▸ h₁, Bool.not_eq_true _ ▸ h₂⟩ (h hd List.mem_cons_self)

theorem mem_insert_self (h : ∀ e ∈ m, ¬ Equiv lt k e.1) : (k, v) ∈ insert lt k v m :=
  (insert_perm h).symm.subset List.mem_cons_self

/-- An entry whose key is equivalent stays, and nothing is entered. -/
theorem Sorted.insert_of_equiv (hlt : StrictWeak lt) (h : Sorted lt m) (he : e ∈ m)
    (hk : Equiv lt e.1 k) : StdMap.insert lt k v m = m := by
  induction m with
  | nil => cases he
  | cons hd m ih =>
      obtain ⟨hhd, hm⟩ := List.pairwise_cons.mp h
      rw [StdMap.insert]
      rcases List.mem_cons.mp he with rfl | hmem
      · rw [hk.1, hk.2]
        rfl
      · have hlt' : lt hd.1 k = true := hlt.lt_of_equiv (hhd e hmem) hk
        rw [hlt', hlt.asymm hlt', ih hm hmem]
        rfl

/-- Keys in a map are told apart. -/
theorem Sorted.eq_of_equiv (h : Sorted lt m) (he : e ∈ m) (he' : e' ∈ m)
    (hk : Equiv lt e.1 e'.1) : e = e' := by
  induction m with
  | nil => cases he
  | cons hd m ih =>
      obtain ⟨hhd, hm⟩ := List.pairwise_cons.mp h
      rcases List.mem_cons.mp he with rfl | hmem
      · rcases List.mem_cons.mp he' with rfl | hmem'
        · rfl
        · have hlt := hhd e' hmem'
          rw [hk.1] at hlt
          cases hlt
      · rcases List.mem_cons.mp he' with rfl | hmem'
        · have hlt := hhd e hmem
          rw [hk.2] at hlt
          cases hlt
        · exact ih hm hmem hmem'

theorem Sorted.sublist {m' : StdMap κ β} (h : Sorted lt m) (hsub : m'.Sublist m) : Sorted lt m' :=
  List.Pairwise.sublist hsub h

/-- The only entry with a property is the one found. -/
theorem find_of_unique {p : κ × β → Bool} (he : e ∈ m) (hp : p e = true)
    (hunique : ∀ e' ∈ m, p e' = true → e' = e) : m.find? p = some e := by
  cases hfind : m.find? p with
  | none => exact absurd hp (List.find?_eq_none.mp hfind e he)
  | some e' => rw [hunique e' (List.mem_of_find?_eq_some hfind) (List.find?_some hfind)]

/-- Entering something without a property does not change what is found. -/
theorem find_insert_of_not {p : κ × β → Bool} (h : p (k, v) = false) :
    (insert lt k v m).find? p = m.find? p := by
  have hskip (m : StdMap κ β) : ((k, v) :: m).find? p = m.find? p := by
    rw [List.find?_cons, h]
  induction m with
  | nil => exact hskip []
  | cons hd m ih =>
      rw [insert]
      split
      · exact hskip _
      · split
        · rw [List.find?_cons, List.find?_cons, ih]
        · rfl

/-- Erasing an entry without a property does not change what is found. -/
theorem find_eraseP_of_not {p q : κ × β → Bool} (h : ∀ e, q e = true → p e = false) :
    (m.eraseP q).find? p = m.find? p := by
  induction m with
  | nil => rfl
  | cons hd m ih =>
      rw [List.eraseP_cons]
      cases hq : q hd with
      | true => rw [cond_true, List.find?_cons, h hd hq]
      | false => rw [cond_false, List.find?_cons, List.find?_cons, ih]

/-- With the first entry that has a property erased there is none, if keys that have
it are equivalent. -/
theorem Sorted.find_eraseP_self {p : κ × β → Bool} (h : Sorted lt m)
    (hp : ∀ e ∈ m, ∀ e' ∈ m, p e = true → p e' = true → Equiv lt e.1 e'.1) :
    (m.eraseP p).find? p = none := by
  induction m with
  | nil => rfl
  | cons hd m ih =>
      obtain ⟨hhd, hm⟩ := List.pairwise_cons.mp h
      have hrest := ih hm fun e he e' he' =>
        hp e (List.mem_cons_of_mem _ he) e' (List.mem_cons_of_mem _ he')
      rw [List.eraseP_cons]
      cases hq : p hd with
      | false => rw [cond_false, List.find?_cons, hq, hrest]
      | true =>
          rw [cond_true]
          refine List.find?_eq_none.mpr fun e he hpe => ?_
          have hequiv := hp hd List.mem_cons_self e (List.mem_cons_of_mem _ he) hq hpe
          have hlt := hhd e he
          rw [hequiv.1] at hlt
          cases hlt

/-! ### Unordered maps -/

section Unordered

/-- The keys, in order. -/
def keys (m : StdMap κ β) : List κ := m.map Prod.fst

theorem mem_keys : k ∈ keys m ↔ ∃ v, (k, v) ∈ m := by
  constructor
  · intro h
    obtain ⟨e, he, rfl⟩ := List.mem_map.mp h
    exact ⟨e.2, he⟩
  · rintro ⟨v, h⟩
    exact List.mem_map_of_mem h

theorem eq_of_key (h : (keys m).Nodup) (he : e ∈ m) (he' : e' ∈ m) (hk : e.1 = e'.1) : e = e' :=
  List.inj_on_of_nodup_map h he he' hk

variable [DecidableEq κ]

/-- `m[k] = v` -/
def assign (k : κ) (v : β) : StdMap κ β → StdMap κ β
  | [] => [(k, v)]
  | e :: m => if e.1 = k then (k, v) :: m else e :: assign k v m

/-- `std::unordered_map::erase` -/
def erase (k : κ) (m : StdMap κ β) : StdMap κ β := m.filter fun e => e.1 ≠ k

theorem keys_assign (k : κ) (v : β) (m : StdMap κ β) :
    keys (assign k v m) = if k ∈ keys m then keys m else keys m ++ [k] := by
  induction m with
  | nil => rfl
  | cons e m ih =>
      rw [assign]
      by_cases he : e.1 = k
      · rw [if_pos he, if_pos (show k ∈ keys (e :: m) from he ▸ List.mem_cons_self)]
        exact congrArg (· :: keys m) he.symm
      · rw [if_neg he]
        show e.1 :: keys (assign k v m) = _
        rw [ih]
        by_cases hk : k ∈ keys m
        · rw [if_pos hk, if_pos (show k ∈ keys (e :: m) from List.mem_cons_of_mem _ hk)]
          rfl
        · have hnot : k ∉ keys (e :: m) := by
            intro h
            rcases List.mem_cons.mp h with h | h
            · exact he h.symm
            · exact hk h
          rw [if_neg hk, if_neg hnot]
          rfl

theorem nodup_keys_assign (h : (keys m).Nodup) (k : κ) (v : β) : (keys (assign k v m)).Nodup := by
  rw [keys_assign]
  split
  · exact h
  · rename_i hk
    rw [← List.concat_eq_append]
    exact h.concat hk

theorem mem_assign (h : (keys m).Nodup) : e ∈ assign k v m ↔ e = (k, v) ∨ e ∈ m ∧ e.1 ≠ k := by
  induction m with
  | nil => simp [assign]
  | cons hd m ih =>
      obtain ⟨hhd, hm⟩ := List.nodup_cons.mp h
      rw [assign]
      by_cases hk : hd.1 = k
      · have hne : ∀ e ∈ m, e.1 ≠ k := by
          rintro e he rfl
          exact hhd (hk ▸ List.mem_map_of_mem he)
        rw [if_pos hk, List.mem_cons, List.mem_cons]
        constructor
        · exact Or.imp_right fun he => ⟨Or.inr he, hne e he⟩
        · rintro (he | ⟨rfl | he, hne'⟩)
          · exact Or.inl he
          · exact absurd hk hne'
          · exact Or.inr he
      · rw [if_neg hk, List.mem_cons, ih hm, List.mem_cons]
        constructor
        · rintro (rfl | he | ⟨he, hne⟩)
          · exact Or.inr ⟨Or.inl rfl, hk⟩
          · exact Or.inl he
          · exact Or.inr ⟨Or.inr he, hne⟩
        · rintro (he | ⟨he | he, hne⟩)
          · exact Or.inr (Or.inl he)
          · exact Or.inl he
          · exact Or.inr (Or.inr ⟨he, hne⟩)

theorem mem_erase : e ∈ erase k m ↔ e ∈ m ∧ e.1 ≠ k := by
  rw [erase, List.mem_filter, decide_eq_true_iff]

/-- Erasing what was just entered, or not. -/
theorem erase_insert (h : ∀ e ∈ m, e.1 ≠ k) : erase k (insert lt k v m) = m := by
  have hcons (m : StdMap κ β) : erase k ((k, v) :: m) = erase k m :=
    List.filter_cons_of_neg (by rw [decide_eq_true_iff]; exact not_not.mpr rfl)
  induction m with
  | nil => exact hcons []
  | cons hd m ih =>
      have hrest : ∀ e ∈ m, e.1 ≠ k := fun e he => h e (List.mem_cons_of_mem _ he)
      have hm : erase k (hd :: m) = hd :: m := List.filter_eq_self.mpr fun e he =>
        decide_eq_true (h e he)
      rw [insert]
      split
      · rw [hcons, hm]
      · split
        · have hkeep (m : StdMap κ β) : erase k (hd :: m) = hd :: erase k m :=
            List.filter_cons_of_pos (decide_eq_true (h hd List.mem_cons_self))
          rw [hkeep, ih hrest]
        · exact hm

theorem nodup_keys_erase (h : (keys m).Nodup) (k : κ) : (keys (erase k m)).Nodup :=
  h.sublist (List.filter_sublist.map _)

theorem erase_of_notMem (hk : k ∉ keys m) : erase k m = m := by
  refine List.filter_eq_self.mpr fun e he => decide_eq_true ?_
  rintro rfl
  exact hk (List.mem_map_of_mem he)

theorem length_erase (h : (keys m).Nodup) (hk : k ∈ keys m) : (erase k m).length + 1 = m.length := by
  induction m with
  | nil => cases hk
  | cons e m ih =>
      obtain ⟨he, hm⟩ := List.nodup_cons.mp h
      by_cases hek : e.1 = k
      · have hrest : erase k m = m := erase_of_notMem (hek ▸ he)
        have hcons : erase k (e :: m) = erase k m :=
          List.filter_cons_of_neg (by rw [decide_eq_true_iff]; exact not_not.mpr hek)
        rw [hcons, hrest, List.length_cons]
      · have hcons : erase k (e :: m) = e :: erase k m :=
          List.filter_cons_of_pos (decide_eq_true hek)
        have hmem : k ∈ keys m := by
          rcases List.mem_cons.mp hk with h' | h'
          · exact absurd h'.symm hek
          · exact h'
        rw [hcons, List.length_cons, ih hm hmem, List.length_cons]

/-- There is the entry assigned, and those of the other keys. -/
theorem length_assign (h : (keys m).Nodup) (k : κ) (v : β) :
    (assign k v m).length = (erase k m).length + 1 := by
  have hlength : (assign k v m).length = (keys (assign k v m)).length := (List.length_map _).symm
  rw [hlength, keys_assign]
  by_cases hk : k ∈ keys m
  · rw [if_pos hk, length_erase h hk, keys, List.length_map]
  · rw [if_neg hk, erase_of_notMem hk, List.length_append, keys, List.length_map]
    rfl

end Unordered

end StdMap

end PCGForUnity
