/-
PCGForUnity/Generator/MountainGrammar.lean

The built-in rules can always be expanded, and what `Gen` makes of them can be read
(`grammar_interpretable`).  For every depth and any random numbers, `Gen` logs no error and
leaves a list that

* has no `^` and starts with an `S`;
* has balanced brackets, none inside another, and behind each direction a variable;
* is read to its end by `Start`, which logs no error either.

Design.  A rule is a sequence of items: a variable that stays, or a `^` and what is kept or
dropped by chance, a move or a block of moves (`Item`).  `FlushGen` makes of each item
nothing or a piece, so that `Gen` has a sequence of pieces after every generation; `Piece`
and `Item` are syntax, and what the code scans is their text.

The scanning functions are run on a text of the form `front ++ c :: tail`, with the iterator
at `c` (`Last`): each has a lemma for each form of what comes next, and the loops follow by
induction on the items.
-/
import PCGForUnity.Generator.MountainWord

namespace PCGForUnity

namespace MountainGen

/-- What `FlushGen` puts into its result: a move, or a block of moves. -/
inductive Piece
  | move (e : Elem)
  | block (first : Elem) (rest : List Elem)

/-- A piece as it is written. -/
def Piece.text : Piece → List Char
  | move e => e.text
  | block first rest => '[' :: first.text ++ rest.flatMap Elem.text ++ [']']

/-- The items of a rule; a move in a block may have its own `^`. -/
inductive Item
  | plain (v : Char) (h : isVariables v = true)
  | caret (e : Elem)
  | caretBlock (first : Elem) (rest : List (Bool × Elem))

/-- A move in a block of a rule, with the `^` before it. -/
def innerText (e : Bool × Elem) : List Char := (if e.1 then ['^'] else []) ++ e.2.text

/-- An item as it is written. -/
def Item.text : Item → List Char
  | plain v _ => [v]
  | caret e => '^' :: e.text
  | caretBlock first rest => '^' :: '[' :: first.text ++ rest.flatMap innerText ++ [']']

/-- The symbols of a move. -/
def var (v : Char) (h : isVariables v = true := by decide) : Elem := ⟨none, v, nofun, h⟩

/-- A variable with a direction. -/
def dirVar (d v : Char) (hd : isDir d = true := by decide) (h : isVariables v = true := by decide) :
    Elem :=
  ⟨some d, v, by simpa using hd, h⟩

/-! ### The rules -/

/-- What follows the variable in the rule of `C`. -/
def itemsC : List Item :=
  [.caret (var 'S'), .caret (var 'T'), .caret (var 'C'), .caret (var 'R')]

/-- What follows the variable in the rule of `T`. -/
def itemsT : List Item :=
  [.caretBlock (var 'C') [], .caret (var 'S'),
    .caretBlock (dirVar '>' 'S') [(true, dirVar '<' 'S'), (true, var 'T'), (true, dirVar '+' 'T'),
      (true, dirVar '-' 'T')],
    .caret (dirVar '<' 'T'), .caret (dirVar '>' 'T'), .caret (dirVar '+' 'S'),
    .caret (dirVar '-' 'S')]

/-- The items after the `S` that stays. -/
def itemsS : List Item :=
  [.caret (var 'T'), .caretBlock (dirVar '+' 'S') [(false, var 'S'), (true, dirVar '-' 'T')],
    .caretBlock (dirVar '-' 'S') [], .caretBlock (dirVar '>' 'S') [],
    .caretBlock (dirVar '<' 'S') [],
    .caretBlock (dirVar '+' 'T') [(false, dirVar '>' 'S'), (true, dirVar '-' 'S')],
    .caretBlock (dirVar '-' 'T') [], .caretBlock (dirVar '>' 'T') [],
    .caretBlock (dirVar '<' 'T') [(true, dirVar '+' 'S')], .caret (var 'C'),
    .caretBlock (dirVar '>' 'C') [(false, var 'T'), (true, var 'S')],
    .caretBlock (dirVar '<' 'C') []]

theorem rules_eq (c : Char) : rules c = none ∨
    (∃ items, (items = itemsC ∨ items = itemsT) ∧
      (rules c).map String.toList = some (items.flatMap Item.text)) ∨
    (rules c).map String.toList = some ('S' :: itemsS.flatMap Item.text) := by
  rw [rules]
  split
  · exact Or.inr (Or.inl ⟨itemsC, Or.inl rfl, rfl⟩)
  · split
    · exact Or.inr (Or.inl ⟨itemsT, Or.inr rfl, rfl⟩)
    · split
      · exact Or.inr (Or.inr rfl)
      · exact Or.inl rfl

/-! ### Scanning -/

/-- The iterator stands behind `front`, or at its last symbol. -/
def At (front g : List Char) (m : Scan) : Prop := m.headItr = front.length ∧ m.genList = g

/-- The iterator is at the last symbol of `front`, and `g` has been made. -/
def Last (front g : List Char) (m : Scan) : Prop := m.headItr + 1 = front.length ∧ m.genList = g

variable {α : Type} {s front tail g : List Char} {c : Char} {Q : α → Scan → Prop}

theorem advance_spec (c : Char) :
    Triple (At front g) advance fun _ => At (front ++ [c]) g :=
  Triple.modify _ fun m hm => ⟨by rw [List.length_append, ← hm.1]; rfl, hm.2⟩

theorem advance_last : Triple (Last front g) advance fun _ => At front g :=
  Triple.modify _ fun _ hm => ⟨hm.1, hm.2⟩

theorem pushBack_spec (c : Char) {P : List Char → Scan → Prop} (hP : P = At front ∨ P = Last front) :
    Triple (P g) (pushBack c) fun _ => P (g ++ [c]) := by
  refine Triple.modify _ fun m hm => ?_
  rcases hP with rfl | rfl
  · exact ⟨hm.1, by rw [← hm.2]⟩
  · exact ⟨hm.1, by rw [← hm.2]⟩

theorem getElem_of_split (h : s = front ++ c :: tail) : s[front.length]? = some c := by
  rw [h, List.getElem?_append_right (Nat.le_refl _), Nat.sub_self]
  rfl

/-- The iterator is not at the end. -/
theorem atEnd_bind {k : Bool → ScanM α} (h : s = front ++ c :: tail)
    (hk : Triple (At front g) (k false) Q) : Triple (At front g) (atEnd s >>= k) Q := by
  intro m hm
  have hlt : m.headItr < s.length := by
    rw [hm.1, h, List.length_append, List.length_cons]
    omega
  have hend : (atEnd s).run m = some (false, m) := by
    show some (decide (m.headItr = s.length), m) = _
    rw [decide_eq_false (Nat.ne_of_lt hlt)]
  rw [run_bind_of_run hend]
  exact hk m hm

theorem atEnd_last_bind {k : Bool → ScanM α} (h : s = front ++ tail)
    (hk : Triple (Last front g) (k false) Q) : Triple (Last front g) (atEnd s >>= k) Q := by
  intro m hm
  have hlt : m.headItr < s.length := by
    rw [h, List.length_append, ← hm.1]
    omega
  have hend : (atEnd s).run m = some (false, m) := by
    show some (decide (m.headItr = s.length), m) = _
    rw [decide_eq_false (Nat.ne_of_lt hlt)]
  rw [run_bind_of_run hend]
  exact hk m hm

theorem deref_bind {k : Char → ScanM α} (h : s = front ++ c :: tail)
    (hk : Triple (At front g) (k c) Q) : Triple (At front g) (deref s >>= k) Q := by
  intro m hm
  have hderef : (deref s).run m = some (c, m) := by
    show (liftM s[m.headItr]? : ScanM Char).run m = _
    rw [hm.1, getElem_of_split h]
    rfl
  rw [run_bind_of_run hderef]
  exact hk m hm

section

variable {F : Type} [FloatOps F]

theorem getChance_bind {k : Bool → ScanM α} (source target : Char)
    (hk : ∀ b, Triple (At front g) (k b) Q) :
    Triple (At front g) (getChance F source target >>= k) Q :=
  Triple.bind (fun _ hm => ⟨_, _, rfl, hm⟩) hk

/-! ### `IFlushGen` -/

/-- It stops at the last symbol of what it read, and has pushed some of it. -/
def Flushed (front g : List Char) (outs : List Char → Prop) (ok : Bool) (m : Scan) : Prop :=
  ok = true ∧ ∃ out, outs out ∧ Last front (g ++ out) m

theorem iFlushGen_move (prevGenV : Char) (e : Elem) (h : s = front ++ e.text ++ tail) :
    Triple (At front g) (iFlushGen F prevGenV s)
      (Flushed (front ++ e.text) g fun out => out = [] ∨ out = e.text) := by
  obtain ⟨d, v, hd, hv⟩ := e
  rcases d with - | d
  · -- a variable alone
    have h₁ : s = front ++ v :: tail := by
      rw [h, List.append_assoc]
      rfl
    rw [iFlushGen]
    refine atEnd_bind h₁ ?_
    rw [if_neg Bool.false_ne_true]
    refine Triple.get_bind fun _ _ => deref_bind h₁ ?_
    rw [isDir_of_isVariables hv, if_neg Bool.false_ne_true, if_pos hv]
    refine getChance_bind _ _ fun b => ?_
    dsimp only
    refine Triple.ite (fun _ => ?_) fun _ => Triple.pure _ fun m hm => ?_
    · refine Triple.bind (pushBack_spec v (Or.inl rfl)) fun _ => Triple.pure _ fun m hm => ?_
      exact ⟨rfl, [v], Or.inr rfl, by rw [hm.1, Elem.text]; simp, hm.2⟩
    · exact ⟨rfl, [], Or.inl rfl, by rw [hm.1, Elem.text]; simp, by rw [hm.2, List.append_nil]⟩
  · -- a direction and its variable, which stay or go together
    have hd : isDir d = true := hd d rfl
    have h₁ : s = front ++ d :: v :: tail := by
      rw [h, List.append_assoc]
      rfl
    have h₂ : s = (front ++ [d]) ++ v :: tail := by
      rw [h₁, List.append_assoc]
      rfl
    rw [iFlushGen]
    refine atEnd_bind h₁ ?_
    rw [if_neg Bool.false_ne_true]
    refine Triple.get_bind fun _ _ => deref_bind h₁ ?_
    rw [if_pos hd]
    refine Triple.bind (advance_spec d) fun _ => atEnd_bind h₂ ?_
    rw [if_neg Bool.false_ne_true]
    refine deref_bind h₂ ?_
    rw [hv]
    rw [if_neg (by decide)]
    refine getChance_bind _ _ fun b => ?_
    dsimp only
    refine Triple.ite (fun _ => ?_) fun _ => Triple.pure _ fun m hm => ?_
    · refine Triple.bind (pushBack_spec d (Or.inl rfl)) fun _ =>
        Triple.bind (pushBack_spec v (Or.inl rfl)) fun _ => Triple.pure _ fun m hm => ?_
      exact ⟨rfl, [d, v], Or.inr rfl, by rw [hm.1, Elem.text]; simp, by rw [hm.2]; simp⟩
    · exact ⟨rfl, [], Or.inl rfl, by rw [hm.1, Elem.text]; simp, by rw [hm.2, List.append_nil]⟩

theorem At.last {m : Scan} (h : At front g m) (c : Char) : Last (front ++ [c]) g m :=
  ⟨by rw [h.1, List.length_append]; rfl, h.2⟩

/-- No bracket stands before the `]`. -/
theorem iIgnoreBlock_spec {mid : List Char} (hmid : ∀ c ∈ mid, c ≠ '[' ∧ c ≠ ']')
    (h : s = front ++ mid ++ ']' :: tail) :
    Triple (Last front g) (iIgnoreBlock s) fun ok m =>
      ok = true ∧ Last (front ++ mid ++ [']']) g m := by
  induction mid generalizing front with
  | nil =>
      rw [List.append_nil] at h ⊢
      rw [iIgnoreBlock]
      refine Triple.bind advance_last fun _ => atEnd_bind h ?_
      rw [if_neg Bool.false_ne_true]
      refine deref_bind h (Triple.pure true fun m hm => ⟨rfl, hm.last ']'⟩)
  | cons c mid ih =>
      have hc := hmid c List.mem_cons_self
      have h₁ : s = front ++ c :: (mid ++ ']' :: tail) := by
        rw [h, List.append_assoc]
        rfl
      have h₂ : s = (front ++ [c]) ++ mid ++ ']' :: tail := by
        rw [h₁, List.append_assoc, List.append_assoc]
        rfl
      rw [iIgnoreBlock]
      refine Triple.bind advance_last fun _ => atEnd_bind h₁ ?_
      rw [if_neg Bool.false_ne_true]
      refine deref_bind h₁ ?_
      rw [if_neg hc.2, if_neg hc.1]
      have hrest := ih (fun c hc => hmid c (List.mem_cons_of_mem _ hc)) h₂
      rw [List.append_assoc front [c] mid] at hrest
      exact Triple.mono hrest (fun m hm => hm.last c) fun _ _ hm => hm

/-- The variable that a `^` is after. -/
theorem getMstate_of_var {start i : ℕ} {v : Char} (h : s[i]? = some v) (hv : isVariables v = true) :
    getMstate s start i = some v := by
  rw [getMstate]
  split
  · rename_i heq
    rw [← heq, h]
  · have hne : v ≠ ']' := (plain_of_isVariables hv).2.2
    rw [h]
    show (if v = ']' then _ else if isVariables v then some v else _) = _
    rw [if_neg hne, if_pos hv]

theorem findBracket_push {start : ℕ} {Q : Bool → Scan → Prop} (h : s = front ++ c :: tail)
    (hc : c ≠ ']' ∧ c ≠ '^')
    (hrest : Triple (Last (front ++ [c]) (g ++ [c])) (findBracket F start s) Q) :
    Triple (Last front g) (findBracket F start s) Q := by
  rw [findBracket]
  refine Triple.bind advance_last fun _ => atEnd_bind h ?_
  rw [if_neg Bool.false_ne_true]
  refine deref_bind h ?_
  rw [if_neg hc.1, if_neg hc.2]
  exact Triple.bind (pushBack_spec c (Or.inl rfl)) fun _ =>
    Triple.mono hrest (fun m hm => hm.last c) fun _ _ hm => hm

theorem findBracket_caret {start : ℕ} {Q : Bool → Scan → Prop} {v : Char}
    (hv : isVariables v = true) (e : Elem) (h : s = (front ++ [v]) ++ '^' :: (e.text ++ tail))
    (hrest : ∀ out, out = [] ∨ out = e.text →
      Triple (Last (front ++ [v] ++ '^' :: e.text) (g ++ out)) (findBracket F start s) Q) :
    Triple (Last (front ++ [v]) g) (findBracket F start s) Q := by
  rw [findBracket]
  refine Triple.bind advance_last fun _ => atEnd_bind h ?_
  rw [if_neg Bool.false_ne_true]
  refine deref_bind h ?_
  rw [if_neg (by decide), if_pos rfl]
  refine Triple.get_bind fun m hm => ?_
  have hpos : m.headItr = front.length + 1 := by
    rw [hm.1, List.length_append]
    rfl
  have hsplit : s = front ++ v :: '^' :: (e.text ++ tail) := by
    rw [h, List.append_assoc]
    rfl
  -- the variable before the caret is what the chance is for
  have hvar : getMstate s start front.length = some v :=
    getMstate_of_var (getElem_of_split hsplit) hv
  have hdec : decrement m.headItr = some front.length := by
    rw [decrement, if_neg (by omega), hpos]
    rfl
  refine Triple.lift_bind hdec (Triple.lift_bind hvar ?_)
  rw [hv, if_neg (by decide)]
  have h₁ : s = (front ++ [v] ++ ['^']) ++ e.text ++ tail := by
    rw [h, List.append_assoc, List.append_assoc, List.append_assoc, List.append_assoc]
    rfl
  refine Triple.bind (advance_spec '^') fun _ => Triple.bind (iFlushGen_move v e h₁) fun ok => ?_
  rintro m ⟨rfl, out, hout, hm⟩
  have h₂ : s = (front ++ [v] ++ ['^'] ++ e.text) ++ tail := h₁
  refine atEnd_last_bind h₂ ?_ m hm
  rw [if_neg Bool.false_ne_true]
  have hfront : front ++ [v] ++ '^' :: e.text = front ++ [v] ++ ['^'] ++ e.text := by
    rw [List.append_assoc _ ['^']]
    rfl
  rw [← hfront]
  exact hrest out hout

theorem findBracket_text {start : ℕ} {Q : Bool → Scan → Prop} (e : Elem)
    (h : s = front ++ e.text ++ tail)
    (hrest : Triple (Last (front ++ e.text) (g ++ e.text)) (findBracket F start s) Q) :
    Triple (Last front g) (findBracket F start s) Q := by
  obtain ⟨d, v, hd, hv⟩ := e
  have hv' := plain_of_isVariables hv
  rcases d with - | d
  · refine findBracket_push (h.trans (List.append_assoc _ _ _)) ⟨hv'.2.2, hv'.1⟩ hrest
  · have hd' := plain_of_isDir (hd d rfl)
    have h₁ : s = front ++ d :: v :: tail := h.trans (List.append_assoc _ _ _)
    have h₂ : s = (front ++ [d]) ++ v :: tail := by
      rw [h₁, List.append_assoc]
      rfl
    refine findBracket_push h₁ ⟨hd'.2.2, hd'.1⟩ (findBracket_push h₂ ⟨hv'.2.2, hv'.1⟩ ?_)
    rw [List.append_assoc, List.append_assoc]
    exact hrest

theorem Elem.text_eq (e : Elem) : e.text = e.dir.toList ++ [e.v] := rfl

theorem Flushed.mono {outs outs' : List Char → Prop} {out : List Char} {ok : Bool} {m : Scan}
    (h : Flushed front (g ++ out) outs ok m) (houts : ∀ o, outs o → outs' (out ++ o)) :
    Flushed front g outs' ok m := by
  obtain ⟨hok, o, ho, hm⟩ := h
  refine ⟨hok, out ++ o, houts o ho, ?_⟩
  rw [← List.append_assoc]
  exact hm

/-- The loop pushes moves up to the `]`, after a variable. -/
theorem findBracket_spec {start : ℕ} (rest : List (Bool × Elem)) {v : Char}
    (hv : isVariables v = true)
    (h : s = front ++ [v] ++ rest.flatMap innerText ++ ']' :: tail) :
    Triple (Last (front ++ [v]) g) (findBracket F start s)
      (Flushed (front ++ [v] ++ rest.flatMap innerText ++ [']']) g fun out =>
        ∃ es : List Elem, out = es.flatMap Elem.text ++ [']']) := by
  induction rest generalizing front v g with
  | nil =>
      rw [List.flatMap_nil, List.append_nil] at h ⊢
      rw [findBracket]
      refine Triple.bind advance_last fun _ => atEnd_bind h ?_
      rw [if_neg Bool.false_ne_true]
      refine deref_bind h ?_
      rw [if_pos rfl]
      exact Triple.bind (pushBack_spec ']' (Or.inl rfl)) fun _ => Triple.pure true fun m hm =>
        ⟨rfl, [']'], ⟨[], rfl⟩, hm.last ']'⟩
  | cons e rest ih =>
      obtain ⟨b, e⟩ := e
      rw [List.flatMap_cons] at h ⊢
      -- the move ends with a variable again
      have hgo (front' out : List Char) (hout : ∃ es : List Elem, out = es.flatMap Elem.text)
          (hfront : front' ++ [e.v] = front ++ [v] ++ innerText (b, e)) :
          Triple (Last (front' ++ [e.v]) (g ++ out)) (findBracket F start s)
            (Flushed (front ++ [v] ++ (innerText (b, e) ++ rest.flatMap innerText) ++ [']']) g
              fun out => ∃ es : List Elem, out = es.flatMap Elem.text ++ [']']) := by
        have h₁ : s = front' ++ [e.v] ++ rest.flatMap innerText ++ ']' :: tail := by
          rw [h, hfront]
          simp only [List.append_assoc]
        refine Triple.mono (ih e.v_mem h₁) (fun _ hm => hm) fun ok m hm => ?_
        rw [← List.append_assoc (front ++ [v]), ← hfront]
        refine hm.mono ?_
        rintro o ⟨es, rfl⟩
        obtain ⟨es', rfl⟩ := hout
        exact ⟨es' ++ es, by rw [List.flatMap_append, List.append_assoc]⟩
      cases b with
      | false =>
          have h₁ : s = front ++ [v] ++ e.text ++ (rest.flatMap innerText ++ ']' :: tail) := by
            rw [h]
            simp [innerText]
          refine findBracket_text e h₁ ?_
          have hrest := hgo (front ++ [v] ++ e.dir.toList) e.text ⟨[e], by simp⟩ (by
            simp [innerText, Elem.text])
          rw [List.append_assoc, ← e.text_eq] at hrest
          exact hrest
      | true =>
          have h₁ : s = (front ++ [v]) ++ '^' :: (e.text ++ (rest.flatMap innerText ++ ']' :: tail)) := by
            rw [h]
            simp [innerText]
          refine findBracket_caret hv e h₁ fun out hout => ?_
          have hes : ∃ es : List Elem, out = es.flatMap Elem.text := by
            rcases hout with rfl | rfl
            · exact ⟨[], rfl⟩
            · exact ⟨[e], by simp⟩
          have hrest := hgo (front ++ [v] ++ '^' :: e.dir.toList) out hes (by
            simp [innerText, Elem.text])
          rw [List.append_assoc, List.cons_append, ← e.text_eq] at hrest
          exact hrest

theorem innerText_plain {rest : List (Bool × Elem)} :
    ∀ c ∈ rest.flatMap innerText, c ≠ '[' ∧ c ≠ ']' := by
  intro c hc
  obtain ⟨⟨b, e⟩, -, hc⟩ := List.mem_flatMap.mp hc
  rcases List.mem_append.mp hc with hc | hc
  · cases b with
    | false => exact absurd hc List.not_mem_nil
    | true =>
        rw [List.mem_singleton.mp hc]
        decide
  · rcases List.mem_append.mp hc with hc | hc
    · exact (plain_of_isDir (e.dir_mem c (Option.mem_toList.mp hc))).2
    · rw [List.mem_singleton.mp hc]
      exact (plain_of_isVariables e.v_mem).2

/-- The rest of a block that is kept, behind its first variable. -/
theorem findBracket_block (start : ℕ) (first : Elem) (rest : List (Bool × Elem))
    (h : s = front ++ '[' :: first.text ++ rest.flatMap innerText ++ ']' :: tail) :
    Triple (Last (front ++ '[' :: first.text) (g ++ '[' :: first.text)) (findBracket F start s)
      (Flushed (front ++ '[' :: first.text ++ rest.flatMap innerText ++ [']']) g fun out =>
        out = [] ∨ ∃ es, out = (Piece.block first es).text) := by
  have hfront : front ++ '[' :: first.text = front ++ '[' :: first.dir.toList ++ [first.v] := by
    rw [first.text_eq, List.append_assoc, List.cons_append]
  rw [hfront] at h ⊢
  refine Triple.mono (findBracket_spec rest first.v_mem h) (fun _ hm => hm) fun ok m hm => ?_
  refine hm.mono ?_
  rintro o ⟨es, rfl⟩
  exact Or.inr ⟨es, by rw [Piece.text]; simp⟩

/-- The rest of a block that is skipped. -/
theorem iIgnoreBlock_block (first : Elem) (rest : List (Bool × Elem))
    (h : s = front ++ '[' :: first.text ++ rest.flatMap innerText ++ ']' :: tail) :
    Triple (Last (front ++ '[' :: first.text) g) (iIgnoreBlock s)
      (Flushed (front ++ '[' :: first.text ++ rest.flatMap innerText ++ [']']) g fun out =>
        out = [] ∨ ∃ es, out = (Piece.block first es).text) := by
  refine Triple.mono (iIgnoreBlock_spec innerText_plain h) (fun _ hm => hm) fun ok m hm => ?_
  exact ⟨hm.1, [], Or.inl rfl, by rw [List.append_nil]; exact hm.2⟩

/-- A block that is kept, and one that is skipped. -/
theorem iFlushGen_block (prevGenV : Char) (first : Elem) (rest : List (Bool × Elem))
    (h : s = front ++ '[' :: first.text ++ rest.flatMap innerText ++ ']' :: tail) :
    Triple (At front g) (iFlushGen F prevGenV s)
      (Flushed (front ++ '[' :: first.text ++ rest.flatMap innerText ++ [']']) g fun out =>
        out = [] ∨ ∃ es, out = (Piece.block first es).text) := by
  have hkeep := fun start => findBracket_block (F := F) (g := g) start first rest h
  have hskip := iIgnoreBlock_block (g := g) first rest h
  have h₀ : s = front ++ '[' :: (first.text ++ (rest.flatMap innerText ++ ']' :: tail)) := by
    rw [h]
    simp
  rw [iFlushGen]
  refine atEnd_bind h₀ ?_
  rw [if_neg Bool.false_ne_true]
  refine Triple.get_bind fun _ _ => deref_bind h₀ ?_
  rw [if_neg (by decide), if_neg (by decide), if_pos rfl]
  clear h
  -- the first element decides by chance whether the block is kept
  obtain ⟨d, v, hd, hv⟩ := first
  have hv' := plain_of_isVariables hv
  rcases d with - | d
  · have h₁ : s = (front ++ ['[']) ++ v :: (rest.flatMap innerText ++ ']' :: tail) := by
      rw [h₀, Elem.text]
      simp
    refine Triple.bind (advance_spec '[') fun _ => atEnd_bind h₁ ?_
    rw [if_neg Bool.false_ne_true]
    refine deref_bind h₁ ?_
    rw [if_neg hv'.2.2, if_pos hv]
    -- kept with all that is in it, or skipped up to its bracket
    refine getChance_bind _ _ fun b => Triple.ite (fun _ => ?_) fun _ => ?_
    · refine Triple.bind (pushBack_spec '[' (Or.inl rfl)) fun _ =>
        Triple.bind (pushBack_spec v (Or.inl rfl)) fun _ => ?_
      refine Triple.mono (hkeep _) (fun m hm => ?_) fun _ _ hm => hm
      simpa [Elem.text] using hm.last v
    · refine Triple.mono hskip (fun m hm => ?_) fun _ _ hm => hm
      simpa [Elem.text] using hm.last v
  · have hd : isDir d = true := hd d rfl
    have hd' := plain_of_isDir hd
    have h₁ : s = (front ++ ['[']) ++ d :: v :: (rest.flatMap innerText ++ ']' :: tail) := by
      rw [h₀, Elem.text]
      simp
    have h₂ : s = (front ++ ['['] ++ [d]) ++ v :: (rest.flatMap innerText ++ ']' :: tail) := by
      rw [h₁]
      simp
    refine Triple.bind (advance_spec '[') fun _ => atEnd_bind h₁ ?_
    rw [if_neg Bool.false_ne_true]
    refine deref_bind h₁ ?_
    rw [if_neg hd'.2.2, isVariables_of_isDir hd, if_neg Bool.false_ne_true, if_pos hd]
    refine Triple.bind (advance_spec d) fun _ => atEnd_bind h₂ ?_
    rw [if_neg Bool.false_ne_true]
    refine deref_bind h₂ ?_
    rw [if_pos hv]
    refine getChance_bind _ _ fun b => Triple.ite (fun _ => ?_) fun _ => ?_
    · refine Triple.bind (pushBack_spec '[' (Or.inl rfl)) fun _ =>
        Triple.bind (pushBack_spec d (Or.inl rfl)) fun _ =>
          Triple.bind (pushBack_spec v (Or.inl rfl)) fun _ => ?_
      refine Triple.mono (hkeep _) (fun m hm => ?_) fun _ _ hm => hm
      simpa [Elem.text] using hm.last v
    · refine Triple.mono hskip (fun m hm => ?_) fun _ _ hm => hm
      simpa [Elem.text] using hm.last v

/-! ### `FlushGen` -/

theorem flushGenLoop_nil (prevGenV prevV : Char) :
    Triple (At s g) (flushGenLoop F prevGenV prevV s) fun r m => r = .ok () ∧ m.genList = g := by
  intro m hm
  rw [flushGenLoop]
  have hend : (atEnd s).run m = some (true, m) := by
    show some (decide (m.headItr = s.length), m) = _
    rw [decide_eq_true hm.1]
  rw [run_bind_of_run hend]
  exact ⟨_, _, rfl, rfl, hm.2⟩

theorem ne_nul_of_isVariables {c : Char} (h : isVariables c = true) : c ≠ nul := by
  rintro rfl
  exact absurd h (by decide)

theorem flushGenLoop_plain (prevGenV : Char) {prevV v : Char} (hv : isVariables v = true)
    (h : s = front ++ v :: tail) {Q : Except String Unit → Scan → Prop}
    (hrest : Triple (At (front ++ [v]) (g ++ [v])) (flushGenLoop F prevGenV v s) Q) :
    Triple (At front g) (flushGenLoop F prevGenV prevV s) Q := by
  rw [flushGenLoop]
  refine atEnd_bind h ?_
  rw [if_neg Bool.false_ne_true]
  refine deref_bind h ?_
  rw [if_neg (plain_of_isVariables hv).1, if_pos hv]
  exact Triple.bind (pushBack_spec v (Or.inl rfl)) fun _ =>
    Triple.bind (advance_spec v) fun _ => hrest

/-- A `^` and what follows it, of which nothing is pushed or a piece. -/
theorem flushGenLoop_caret (prevGenV : Char) {prevV : Char} {text : List Char}
    (hprev : prevV ≠ nul ∨ prevGenV ≠ nul) (h : s = front ++ '^' :: (text ++ tail))
    (hflush : ∀ prevV, Triple (At (front ++ ['^']) g) (iFlushGen F prevV s)
      (Flushed (front ++ ['^'] ++ text) g fun out => out = [] ∨ ∃ p : Piece, out = p.text))
    {Q : Except String Unit → Scan → Prop}
    (hrest : ∀ prevV out, prevV ≠ nul ∨ prevGenV ≠ nul → (out = [] ∨ ∃ p : Piece, out = p.text) →
      Triple (At (front ++ '^' :: text) (g ++ out)) (flushGenLoop F prevGenV prevV s) Q) :
    Triple (At front g) (flushGenLoop F prevGenV prevV s) Q := by
  rw [flushGenLoop]
  refine atEnd_bind h ?_
  rw [if_neg Bool.false_ne_true]
  refine deref_bind h ?_
  have hnot : ¬ (prevV = nul ∧ prevGenV = nul) := by
    rintro ⟨h, h'⟩
    exact hprev.elim (fun hne => hne h) fun hne => hne h'
  rw [if_pos rfl, if_neg hnot]
  refine Triple.bind (advance_spec '^') fun _ => Triple.bind (hflush _) fun ok => ?_
  rintro m ⟨rfl, out, hout, hm⟩
  have h₁ : s = (front ++ ['^'] ++ text) ++ tail := by
    rw [h]
    simp
  refine atEnd_last_bind h₁ ?_ m hm
  rw [if_neg Bool.false_ne_true]
  have hfront : front ++ ['^'] ++ text = front ++ '^' :: text := by simp
  rw [hfront]
  refine Triple.bind advance_last fun _ => hrest _ out ?_ hout
  split
  · rename_i hnul
    exact Or.inr (hprev.resolve_left fun hne => hne hnul)
  · exact Or.inl ‹_›

/-- All items, where a `^` has a variable before it. -/
theorem flushGenLoop_spec (prevGenV : Char) (items : List Item) {prevV : Char}
    (hprev : prevV ≠ nul ∨ prevGenV ≠ nul) (h : s = front ++ items.flatMap Item.text) :
    Triple (At front g) (flushGenLoop F prevGenV prevV s) fun r m =>
      r = .ok () ∧ ∃ ps : List Piece, m.genList = g ++ ps.flatMap Piece.text := by
  induction items generalizing front g prevV with
  | nil =>
      rw [List.flatMap_nil, List.append_nil] at h
      subst h
      refine Triple.mono (flushGenLoop_nil prevGenV prevV) (fun _ hm => hm) fun r m hm => ?_
      exact ⟨hm.1, [], by rw [hm.2]; simp⟩
  | cons item items ih =>
      rw [List.flatMap_cons] at h
      -- the pieces of the rest come after that of the item
      have hrest (prevV : Char) (out : List Char) (hprev : prevV ≠ nul ∨ prevGenV ≠ nul)
          (hout : out = [] ∨ ∃ p : Piece, out = p.text) :
          Triple (At (front ++ item.text) (g ++ out)) (flushGenLoop F prevGenV prevV s) fun r m =>
            r = .ok () ∧ ∃ ps : List Piece, m.genList = g ++ ps.flatMap Piece.text := by
        refine Triple.mono (ih hprev (h.trans (List.append_assoc _ _ _).symm)) (fun _ hm => hm) ?_
        rintro r m ⟨hr, ps, hps⟩
        rcases hout with rfl | ⟨p, rfl⟩
        · exact ⟨hr, ps, by rw [hps, List.append_nil]⟩
        · exact ⟨hr, p :: ps, by rw [hps, List.append_assoc, List.flatMap_cons]⟩
      rcases item with ⟨v, hv⟩ | e | ⟨first, rest⟩
      · refine flushGenLoop_plain prevGenV hv h ?_
        exact hrest v [v] (Or.inl (ne_nul_of_isVariables hv)) (Or.inr ⟨.move (var v hv), rfl⟩)
      · refine flushGenLoop_caret prevGenV hprev h (fun prevV => ?_) hrest
        have h₁ : s = (front ++ ['^']) ++ e.text ++ items.flatMap Item.text := by
          rw [h, Item.text]
          simp
        refine Triple.mono (iFlushGen_move prevV e h₁) (fun _ hm => hm) fun ok m hm => ?_
        obtain ⟨hok, out, hout, hm⟩ := hm
        exact ⟨hok, out, hout.imp_right fun heq => ⟨.move e, heq⟩, hm⟩
      · refine flushGenLoop_caret prevGenV hprev h (fun prevV => ?_) hrest
        have h₁ : s = (front ++ ['^']) ++ '[' :: first.text ++ rest.flatMap innerText
            ++ ']' :: items.flatMap Item.text := by
          rw [h, Item.text]
          simp
        refine Triple.mono (iFlushGen_block prevV first rest h₁) (fun _ hm => hm) fun ok m hm => ?_
        obtain ⟨hok, out, hout, hm⟩ := hm
        refine ⟨hok, out, hout.imp_right fun ⟨es, heq⟩ => ⟨.block first es, heq⟩, ?_⟩
        simpa using hm

theorem flushGen_run {prevGenV : Char} {genList out : List Char} {rand rand' : Rand} {i : ℕ}
    (hcaret : prevGenV ≠ '^')
    (h : (flushGenLoop F prevGenV nul genList).run ⟨0, [], rand⟩ = some (.ok (), ⟨i, out, rand'⟩)) :
    flushGen F prevGenV genList rand = some (.ok out, rand') := by
  rw [flushGen, if_neg hcaret, h]
  rfl

/-- A rule that starts with a `^` needs a variable before it. -/
theorem flushGen_spec (items : List Item) {prevGenV : Char} (hprev : isVariables prevGenV = true)
    (rand : Rand) : ∃ (ps : List Piece) (rand' : Rand),
      flushGen F prevGenV (items.flatMap Item.text) rand
        = some (.ok (ps.flatMap Piece.text), rand') := by
  have hloop : Triple (At [] []) (flushGenLoop F prevGenV nul (items.flatMap Item.text)) _ :=
    flushGenLoop_spec prevGenV items (Or.inr (ne_nul_of_isVariables hprev)) rfl
  obtain ⟨_, ⟨i, out, rand'⟩, hrun, rfl, ps, rfl⟩ := hloop ⟨0, [], rand⟩ ⟨rfl, rfl⟩
  exact ⟨ps, rand', flushGen_run (plain_of_isVariables hprev).1 hrun⟩

/-- A rule that starts with a variable needs none. -/
theorem flushGen_plain_spec (items : List Item) {prevGenV v : Char} (hprev : prevGenV ≠ '^')
    (hv : isVariables v = true) (rand : Rand) : ∃ (ps : List Piece) (rand' : Rand),
      flushGen F prevGenV (v :: items.flatMap Item.text) rand
        = some (.ok (v :: ps.flatMap Piece.text), rand') := by
  have hloop : Triple (At [] []) (flushGenLoop F prevGenV nul (v :: items.flatMap Item.text)) _ :=
    flushGenLoop_plain prevGenV hv rfl
      (flushGenLoop_spec prevGenV items (Or.inl (ne_nul_of_isVariables hv)) rfl)
  obtain ⟨_, ⟨i, out, rand'⟩, hrun, rfl, ps, rfl⟩ := hloop ⟨0, [], rand⟩ ⟨rfl, rfl⟩
  exact ⟨ps, rand', flushGen_run hprev hrun⟩

/-! ### `Gen` -/

/-- What `Gen` has made: it starts with an `S`. -/
def Grown (l : List Char) : Prop := ∃ ps : List Piece, l = 'S' :: ps.flatMap Piece.text

/-- A block is skipped backwards, if it is not at the start. -/
theorem iIgnoreBlockReverse_spec {pre mid post : List Char} (hpre : pre ≠ [])
    (hmid : ∀ c ∈ mid, c ≠ '[' ∧ c ≠ ']') :
    iIgnoreBlockReverse (pre ++ '[' :: mid ++ post) 0 (pre.length + 1 + mid.length)
      = some (true, pre.length) := by
  have hpos : 0 < pre.length := List.length_pos_iff.mpr hpre
  induction mid using List.reverseRecOn generalizing post with
  | nil =>
      rw [iIgnoreBlockReverse, List.length_nil, Nat.add_zero, if_neg (by omega), Nat.add_sub_cancel,
        if_neg (by omega), List.append_assoc, List.getElem?_append_right (Nat.le_refl _), Nat.sub_self]
      rfl
  | append_singleton mid c ih =>
      have hc := hmid c (List.mem_append_right mid List.mem_cons_self)
      have hl : pre ++ '[' :: (mid ++ [c]) ++ post = (pre ++ '[' :: mid) ++ c :: post := by simp
      have hlen : pre.length + 1 + (mid ++ [c]).length - 1 = (pre ++ '[' :: mid).length := by
        simp only [List.length_append, List.length_cons, List.length_nil]
        omega
      rw [iIgnoreBlockReverse, if_neg (by omega), hlen, if_neg (by simp), hl, getElem_of_split rfl]
      show (if c = '[' then _ else if c = ']' then _ else _) = _
      rw [if_neg hc.1, if_neg hc.2]
      have hlen : (pre ++ '[' :: mid).length = pre.length + 1 + mid.length := by
        simp only [List.length_append, List.length_cons]
        omega
      rw [hlen]
      exact ih fun c hc => hmid c (List.mem_append_left _ hc)

theorem flatMap_text_plain (es : List Elem) : ∀ c ∈ es.flatMap Elem.text, c ≠ '[' ∧ c ≠ ']' := by
  intro c hc
  have hinner : c ∈ (es.map fun e => (false, e)).flatMap innerText := by
    rw [List.flatMap_map]
    exact hc
  exact innerText_plain c hinner

/-- Going back from the end of pieces one comes to a variable. -/
theorem getMstate_of_pieces (ps : List Piece) (post : List Char) :
    ∃ v, getMstate ('S' :: ps.flatMap Piece.text ++ post) 0 (ps.flatMap Piece.text).length = some v ∧
      isVariables v = true := by
  induction ps using List.reverseRecOn generalizing post with
  | nil => exact ⟨'S', by rw [getMstate]; rfl, rfl⟩
  | append_singleton ps p ih =>
      rw [List.flatMap_append, List.flatMap_singleton]
      rcases p with e | ⟨first, es⟩
      · -- a move ends with its variable
        refine ⟨e.v, getMstate_of_var ?_ e.v_mem, e.v_mem⟩
        have hl : 'S' :: (ps.flatMap Piece.text ++ (Piece.move e).text) ++ post
            = ('S' :: ps.flatMap Piece.text ++ e.dir.toList) ++ e.v :: post := by
          simp [Piece.text, Elem.text]
        have hlen : (ps.flatMap Piece.text ++ (Piece.move e).text).length
            = ('S' :: ps.flatMap Piece.text ++ e.dir.toList).length := by
          simp only [Piece.text, Elem.text, List.length_append, List.length_cons, List.length_nil]
          omega
        rw [hlen]
        exact getElem_of_split hl
      · -- a block is skipped backwards, and what is before it has one
        set T := ps.flatMap Piece.text
        set mid := first.text ++ es.flatMap Elem.text
        have hmid : ∀ c ∈ mid, c ≠ '[' ∧ c ≠ ']' := by
          have h := flatMap_text_plain (first :: es)
          rwa [List.flatMap_cons] at h
        have htext : (Piece.block first es).text = '[' :: mid ++ [']'] := by
          rw [Piece.text, List.cons_append]
        have hl : 'S' :: (T ++ (Piece.block first es).text) ++ post
            = 'S' :: T ++ '[' :: mid ++ ']' :: post := by
          rw [htext]
          simp
        have hlen : (T ++ (Piece.block first es).text).length = ('S' :: T).length + 1 + mid.length := by
          rw [htext]
          simp only [List.length_append, List.length_cons, List.length_nil]
          omega
        have hlast : ('S' :: T ++ '[' :: mid ++ ']' :: post)[('S' :: T).length + 1 + mid.length]?
            = some ']' := by
          have hfront : ('S' :: T).length + 1 + mid.length = ('S' :: T ++ '[' :: mid).length := by
            simp only [List.length_append, List.length_cons]
            omega
          rw [hfront]
          exact getElem_of_split rfl
        obtain ⟨v, hv, hvar⟩ := ih ('[' :: mid ++ ']' :: post)
        refine ⟨v, ?_, hvar⟩
        rw [hl, hlen, getMstate, if_neg (by omega), hlast]
        rw [Option.bind_eq_bind, Option.bind_some, if_pos rfl,
          iIgnoreBlockReverse_spec (List.cons_ne_nil _ _) hmid]
        rw [← List.append_assoc] at hv
        exact hv

theorem getMstate_of_grown {l : List Char} (h : Grown l) :
    ∃ v, getMstate l 0 (l.length - 1) = some v ∧ isVariables v = true := by
  obtain ⟨ps, rfl⟩ := h
  have h := getMstate_of_pieces ps []
  rwa [List.append_nil] at h

theorem expand_run {c prev : Char} {rule : String} {gen tmp : List Char} {rand rand' : Rand}
    (hrule : rules c = some rule)
    (hprev : (if gen.length > 0 then getMstate gen 0 (gen.length - 1) else some nul) = some prev)
    (hflush : flushGen F prev rule.toList rand = some (.ok tmp, rand')) :
    expand F c gen rand = some (.ok (gen ++ tmp), rand') := by
  rw [expand, hrule]
  split at hprev
  · rename_i hpos
    simp only [if_pos hpos, hprev, hflush, Option.bind_eq_bind, Option.bind_some]
  · rename_i hnot
    obtain rfl := Option.some.inj hprev
    simp only [if_neg hnot, hflush, Option.bind_eq_bind, Option.bind_some]

/-- A symbol is expanded, or there is no rule for it. -/
theorem expand_grown {gen : List Char} (hgen : Grown gen) (c : Char) (rand : Rand) :
    ∃ (gen' : List Char) (rand' : Rand), expand F c gen rand = some (.ok gen', rand') ∧
      Grown gen' := by
  obtain ⟨v, hv, hvar⟩ := getMstate_of_grown hgen
  have hpos : gen.length > 0 := by
    obtain ⟨ps, rfl⟩ := hgen
    exact Nat.succ_pos _
  obtain ⟨ps, hps⟩ := hgen
  rcases hrule : rules c with - | rule
  · exact ⟨gen, rand, by rw [expand, hrule], ps, hps⟩
  have hflush : ∃ (ps : List Piece) (rand' : Rand),
      flushGen F v rule.toList rand = some (.ok (ps.flatMap Piece.text), rand') := by
    rcases rules_eq c with hnone | ⟨items, -, hitems⟩ | hitems
    · rw [hrule] at hnone
      exact absurd hnone nofun
    · rw [hrule] at hitems
      rw [Option.some.inj hitems]
      exact flushGen_spec items hvar rand
    · rw [hrule] at hitems
      rw [Option.some.inj hitems]
      obtain ⟨ps, rand', h⟩ := flushGen_plain_spec (F := F) itemsS (plain_of_isVariables hvar).1
        (show isVariables 'S' = true by decide) rand
      exact ⟨.move (var 'S') :: ps, rand', h⟩
  obtain ⟨ps', rand', h⟩ := hflush
  refine ⟨gen ++ ps'.flatMap Piece.text, rand', ?_, ps ++ ps', ?_⟩
  · exact expand_run hrule (by rw [if_pos hpos, hv]) h
  · rw [hps, List.flatMap_append]
    rfl

theorem expandAll_grown (tmpList : List Char) {gen : List Char} (hgen : Grown gen) (rand : Rand) :
    ∃ (gen' : List Char) (rand' : Rand), expandAll F tmpList gen rand = some (.ok gen', rand') ∧
      Grown gen' := by
  induction tmpList generalizing gen rand with
  | nil => exact ⟨gen, rand, rfl, hgen⟩
  | cons c tmpList ih =>
      obtain ⟨gen₁, rand₁, h₁, hgen₁⟩ := expand_grown (F := F) hgen c rand
      obtain ⟨gen₂, rand₂, h₂, hgen₂⟩ := ih hgen₁ rand₁
      refine ⟨gen₂, rand₂, ?_, hgen₂⟩
      rw [expandAll, h₁]
      exact h₂

/-- The first symbol is an `S`, before which there is nothing. -/
theorem expandAll_first {tmpList : List Char} (h : Grown tmpList) (rand : Rand) :
    ∃ (gen' : List Char) (rand' : Rand), expandAll F tmpList [] rand = some (.ok gen', rand') ∧
      Grown gen' := by
  obtain ⟨ps, rfl⟩ := h
  have hrule : rules 'S' = some "S^T^[+SS^-T]^[-S]^[>S]^[<S]^[+T>S^-S]^[-T]^[>T]^[<T^+S]^C^[>CT^S]^[<C]" :=
    rfl
  obtain ⟨ps₁, rand₁, h₁⟩ := flushGen_plain_spec (F := F) itemsS (show nul ≠ '^' by decide)
    (show isVariables 'S' = true by decide) rand
  obtain ⟨gen', rand', h₂, hgen'⟩ := expandAll_grown (F := F) (ps.flatMap Piece.text)
    ⟨ps₁, rfl⟩ rand₁
  refine ⟨gen', rand', ?_, hgen'⟩
  rw [expandAll, expand_run hrule rfl h₁]
  exact h₂

/-- A generation starts from what the one before has made, the first one from the axiom. -/
theorem gen_grown (genDepth : ℤ) {tmpList : List Char} (h : Grown tmpList) (rand : Rand) :
    ∃ (l : List Char) (rand' : Rand), gen F genDepth tmpList rand = some (.ok l, rand') ∧
      Grown l := by
  induction hn : genDepth.toNat generalizing genDepth tmpList rand with
  | zero =>
      obtain ⟨l, rand', hrun, hl⟩ := expandAll_first (F := F) h rand
      refine ⟨l, rand', ?_, hl⟩
      rw [gen, hrun]
      simp only [Option.bind_eq_bind, Option.bind_some]
      rw [if_pos (by omega)]
  | succ n ih =>
      obtain ⟨l, rand₁, hrun, hl⟩ := expandAll_first (F := F) h rand
      by_cases hlast : genDepth - 1 ≤ 0
      · refine ⟨l, rand₁, ?_, hl⟩
        rw [gen, hrun]
        simp only [Option.bind_eq_bind, Option.bind_some]
        rw [if_pos hlast]
      · obtain ⟨l', rand', hrun', hl'⟩ := ih (genDepth - 1) hl rand₁ (by omega)
        refine ⟨l', rand', ?_, hl'⟩
        rw [gen, hrun]
        simp only [Option.bind_eq_bind, Option.bind_some]
        rw [if_neg hlast]
        exact hrun'

/-! ### What can be read -/

/-- The brackets match and are not nested; `inside` says whether one is open. -/
def flatBrackets (inside : Bool) : List Char → Bool
  | [] => !inside
  | c :: l =>
      if c = '[' then !inside && flatBrackets true l
      else if c = ']' then inside && flatBrackets false l
      else flatBrackets inside l

theorem flatBrackets_move (inside : Bool) (e : Elem) (l : List Char) :
    flatBrackets inside (e.text ++ l) = flatBrackets inside l := by
  obtain ⟨d, v, hd, hv⟩ := e
  have hv := plain_of_isVariables hv
  have hvar : flatBrackets inside (v :: l) = flatBrackets inside l := by
    rw [flatBrackets, if_neg hv.2.1, if_neg hv.2.2]
  rcases d with - | d
  · exact hvar
  · have hd := plain_of_isDir (hd d rfl)
    show flatBrackets inside (d :: v :: l) = _
    rw [flatBrackets, if_neg hd.2.1, if_neg hd.2.2, hvar]

theorem flatBrackets_moves (inside : Bool) (es : List Elem) (l : List Char) :
    flatBrackets inside (es.flatMap Elem.text ++ l) = flatBrackets inside l := by
  induction es with
  | nil => rfl
  | cons e es ih => rw [List.flatMap_cons, List.append_assoc, flatBrackets_move, ih]

theorem flatBrackets_pieces (ps : List Piece) :
    flatBrackets false (ps.flatMap Piece.text) = true := by
  induction ps with
  | nil => rfl
  | cons p ps ih =>
      rw [List.flatMap_cons]
      rcases p with e | ⟨first, es⟩
      · rw [Piece.text, flatBrackets_move, ih]
      · rw [Piece.text, List.append_assoc, List.append_assoc, List.cons_append, flatBrackets,
          if_pos rfl, flatBrackets_move, flatBrackets_moves]
        exact ih

theorem dirsFollowed_move (e : Elem) (l : List Char) :
    dirsFollowed (e.text ++ l) = dirsFollowed l := by
  obtain ⟨d, v, hd, hv⟩ := e
  have hvar : dirsFollowed (v :: l) = dirsFollowed l := by
    rw [dirsFollowed, isDir_of_isVariables hv]
    rfl
  rcases d with - | d
  · exact hvar
  · show dirsFollowed (d :: v :: l) = _
    rw [dirsFollowed, hvar, List.head?_cons, Option.any_some, hv, Bool.or_true, Bool.true_and]

theorem dirsFollowed_moves (es : List Elem) (l : List Char) :
    dirsFollowed (es.flatMap Elem.text ++ l) = dirsFollowed l := by
  induction es with
  | nil => rfl
  | cons e es ih => rw [List.flatMap_cons, List.append_assoc, dirsFollowed_move, ih]

theorem dirsFollowed_pieces (ps : List Piece) :
    dirsFollowed (ps.flatMap Piece.text) = true := by
  induction ps with
  | nil => rfl
  | cons p ps ih =>
      rw [List.flatMap_cons]
      rcases p with e | ⟨first, es⟩
      · rw [Piece.text, dirsFollowed_move, ih]
      · rw [Piece.text, List.append_assoc, List.append_assoc, List.cons_append, dirsFollowed,
          dirsFollowed_move, dirsFollowed_moves]
        exact ih

theorem caret_not_mem_moves (es : List Elem) : '^' ∉ es.flatMap Elem.text := by
  intro hmem
  obtain ⟨e, -, hmem⟩ := List.mem_flatMap.mp hmem
  rcases List.mem_append.mp hmem with hmem | hmem
  · exact (plain_of_isDir (e.dir_mem _ (Option.mem_toList.mp hmem))).1 rfl
  · exact (plain_of_isVariables e.v_mem).1 (List.mem_singleton.mp hmem).symm

theorem caret_not_mem_pieces (ps : List Piece) : '^' ∉ ps.flatMap Piece.text := by
  intro hmem
  obtain ⟨p, -, hmem⟩ := List.mem_flatMap.mp hmem
  rcases p with e | ⟨first, es⟩
  · exact caret_not_mem_moves [e] (by simpa [Piece.text] using hmem)
  · exact caret_not_mem_moves (first :: es) (by simpa [Piece.text] using hmem)

/-- The pieces as a word. -/
def Word.ofMoves : List Elem → Word
  | [] => nil
  | e :: es => move e (ofMoves es)

/-- A list of pieces as a word. -/
def Word.ofPieces : List Piece → Word
  | [] => nil
  | .move e :: ps => move e (ofPieces ps)
  | .block first es :: ps => block (move first (ofMoves es)) (ofPieces ps)

theorem Word.ofMoves_spec (es : List Elem) :
    (ofMoves es).text = es.flatMap Elem.text ∧ (ofMoves es).Proper := by
  induction es with
  | nil => exact ⟨rfl, trivial⟩
  | cons e es ih => exact ⟨by rw [ofMoves, text, ih.1, List.flatMap_cons], ih.2⟩

theorem Word.ofPieces_spec (ps : List Piece) :
    (ofPieces ps).text = ps.flatMap Piece.text ∧ (ofPieces ps).Proper := by
  induction ps with
  | nil => exact ⟨rfl, trivial⟩
  | cons p ps ih =>
      rw [List.flatMap_cons]
      rcases p with e | ⟨first, es⟩
      · exact ⟨by rw [ofPieces, text, ih.1, Piece.text], ih.2⟩
      · refine ⟨?_, (ofMoves_spec es).2, ih.2⟩
        rw [ofPieces, text, text, ih.1, (ofMoves_spec es).1, Piece.text]
        simp

variable (cos sin : F → F) (noise : F → F → F → F)

theorem start_run {genDepth : ℤ} {m : MountainGen F} {l : List Char} {rand' : Rand}
    (h : gen F genDepth m.tmpList m.rand = some (.ok l, rand')) :
    (start cos sin noise genDepth).run m
      = (startLoop cos sin noise).run { m with tmpList := l, rand := rand', rpos := 0 } := by
  have hlift : (liftM (gen F genDepth m.tmpList m.rand) : M F _).run m = some ((.ok l, rand'), m) := by
    rw [h]
    rfl
  have hget : (get : M F (MountainGen F)).run m = some (m, m) := rfl
  rw [start, run_bind_of_run hget, run_bind_of_run hlift]
  rfl

/-- For every depth and all random numbers: `Gen` logs no error, its result is of the
described form, and the loop of `Start` reads it to the end and throws nothing. -/
theorem grammar_interpretable (genDepth : ℤ) (p : Vector3 F) (step maxHeight : ℤ)
    (usePerlin : Bool) (rand : Rand) :
    ∃ (l : List Char) (rand' : Rand) (m' : MountainGen F),
      gen F genDepth ['S'] rand = some (.ok l, rand') ∧
      '^' ∉ l ∧ l.head? = some 'S' ∧ flatBrackets false l = true ∧ dirsFollowed l = true ∧
      (start cos sin noise genDepth).run (init p step maxHeight usePerlin rand) = some (true, m') ∧
      m'.tmpList = l ∧ m'.rpos = l.length ∧ m'.errors = [] := by
  obtain ⟨l, rand', hgen, ps, rfl⟩ := gen_grown (F := F) genDepth ⟨[], rfl⟩ rand
  set l := 'S' :: ps.flatMap Piece.text
  have hl : l = (Piece.move (var 'S') :: ps).flatMap Piece.text := rfl
  set w := Word.ofPieces (Piece.move (var 'S') :: ps)
  obtain ⟨htext, hproper⟩ := Word.ofPieces_spec (Piece.move (var 'S') :: ps)
  set m : MountainGen F :=
    { init p step maxHeight usePerlin rand with tmpList := l, rand := rand', rpos := 0 }
  obtain ⟨ended, m', hrun, hstarted⟩ := startLoop_spec cos sin noise w (m := m) htext.symm
  obtain ⟨rfl, hrpos, herrors⟩ := hstarted.ended_eq hproper
  refine ⟨l, rand', m', hgen, ?_, rfl, ?_, ?_, ?_, hstarted.frame.tmpList_eq, ?_, herrors⟩
  · rw [hl]
    exact caret_not_mem_pieces _
  · rw [hl]
    exact flatBrackets_pieces _
  · rw [hl]
    exact dirsFollowed_pieces _
  · rw [start_run cos sin noise hgen]
    exact hrun
  · rw [hrpos, htext]
    exact Nat.zero_add _

end

end MountainGen

end PCGForUnity
