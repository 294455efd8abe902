/-
PCGForUnity/Generator/MountainWord.lean

The words that `Start` can read: their brackets are balanced, and a direction is followed
by a variable.  Every list of symbols of this kind is the text of a `Word` (`exists_word`).

* `genNextBlock_spec`: `GenNextBlock` reads a word up to its `]`;
* `startLoop_spec`: the loop of `Start` reads the whole word, or up to its first `^`.

What they do to the turtle is a function of the word, the height apart: `walk` is where it
is then, and `Nested` and `Outer` say which of the blocks that were finished took it back.

Design.  A `Word` is a tree with one constructor for each thing that the code can meet, so
the functions that read it are followed by induction on it.  What each constructor adds is
a lemma of its own (`Walked.move`, `Walked.block`, `Started.move`, `Started.block`), and the
induction joins them with the run of the code.  Symbols that are none of the grammar are
kept, because the code logs an error for them and goes on.
-/
import PCGForUnity.Generator.Mountain
import Mathlib.Data.List.Basic

namespace PCGForUnity

/-- `_currentPoint` and `_currentDir` are what they were. -/
def MountainBlock.Restored {F : Type} (b : MountainBlock F) : Prop :=
  b.pointAfter = b.point ∧ b.dirAfter = b.dir

namespace MountainGen

/-- A variable, and the direction before it if there is one. -/
structure Elem where
  dir : Option Char
  v : Char
  dir_mem : ∀ d ∈ dir, isDir d = true
  v_mem : isVariables v = true

/-- An element as it is written. -/
def Elem.text (e : Elem) : List Char := e.dir.toList ++ [e.v]

/-- The symbol that an element is read by. -/
def Elem.first (e : Elem) : Char := e.dir.getD e.v

/-- A symbol that is none of them and no bracket. -/
structure Other where
  c : Char
  not_var : isVariables c = false
  not_dir : isDir c = false
  not_bracket : c ≠ '[' ∧ c ≠ ']'

/-- What `Start` walks along: moves, blocks and symbols that it does not know. -/
inductive Word
  | nil
  | move (e : Elem) (rest : Word)
  | block (inner rest : Word)
  | other (o : Other) (rest : Word)

namespace Word

/-- A word as it is written. -/
def text : Word → List Char
  | nil => []
  | move e rest => e.text ++ rest.text
  | block inner rest => '[' :: inner.text ++ ']' :: rest.text
  | other o rest => o.c :: rest.text

/-- No variable stands in it. -/
def Moveless : Word → Prop
  | nil => True
  | move _ _ => False
  | block inner rest => inner.Moveless ∧ rest.Moveless
  | other _ rest => rest.Moveless

/-- No variable stands in any of its blocks. -/
def Still : Word → Prop
  | nil => True
  | move _ rest => rest.Still
  | block inner rest => inner.Moveless ∧ rest.Still
  | other _ rest => rest.Still

/-- All symbols are of the grammar. -/
def Proper : Word → Prop
  | nil => True
  | move _ rest => rest.Proper
  | block inner rest => inner.Proper ∧ rest.Proper
  | other _ _ => False

theorem Moveless.still {w : Word} (h : w.Moveless) : w.Still := by
  induction w with
  | nil => trivial
  | move e rest ih => exact h.elim
  | block inner rest ihi ihr => exact ⟨h.1, ihr h.2⟩
  | other o rest ih => exact ih h

end Word

theorem Elem.text_append (e : Elem) (l : List Char) : ∃ l', e.text ++ l = e.first :: l' := by
  rcases e with ⟨- | d, v, hd, hv⟩
  · exact ⟨l, rfl⟩
  · exact ⟨v :: l, rfl⟩

/-! ### Every balanced list is one -/

/-- The brackets are balanced, with `depth` of them open before. -/
def balanced (depth : ℕ) : List Char → Bool
  | [] => depth == 0
  | c :: l =>
      if c = '[' then balanced (depth + 1) l
      else if c = ']' then depth != 0 && balanced (depth - 1) l
      else balanced depth l

/-- A direction is followed by a variable. -/
def dirsFollowed : List Char → Bool
  | [] => true
  | c :: l => (!isDir c || l.head?.any isVariables) && dirsFollowed l

theorem plain_of_isVariables {c : Char} (h : isVariables c = true) :
    c ≠ '^' ∧ c ≠ '[' ∧ c ≠ ']' := by
  refine ⟨?_, ?_, ?_⟩ <;> rintro rfl <;> exact absurd h (by decide)

theorem plain_of_isDir {c : Char} (h : isDir c = true) : c ≠ '^' ∧ c ≠ '[' ∧ c ≠ ']' := by
  refine ⟨?_, ?_, ?_⟩ <;> rintro rfl <;> exact absurd h (by decide)

theorem Elem.first_plain (e : Elem) : e.first ≠ '^' ∧ e.first ≠ '[' ∧ e.first ≠ ']' := by
  rcases e with ⟨- | d, v, hd, hv⟩
  · exact plain_of_isVariables hv
  · exact plain_of_isDir (hd d rfl)

theorem isDir_of_isVariables {c : Char} (h : isVariables c = true) : isDir c = false := by
  rw [isVariables] at h
  simp only [Bool.or_eq_true, beq_iff_eq] at h
  rcases h with ((rfl | rfl) | rfl) | rfl <;> rfl

/-- The words that are open, the innermost one first. -/
theorem exists_words {l : List Char} {depth : ℕ} (hl : balanced depth l = true)
    (hdirs : dirsFollowed l = true) : ∃ (w : Word) (ws : List Word), ws.length = depth ∧
      l = w.text ++ ws.flatMap fun w => ']' :: w.text := by
  induction l generalizing depth with
  | nil =>
      refine ⟨Word.nil, [], ?_, rfl⟩
      exact (beq_iff_eq.mp hl).symm
  | cons c l ih =>
      rw [dirsFollowed, Bool.and_eq_true] at hdirs
      obtain ⟨hc, hdirs⟩ := hdirs
      rw [balanced] at hl
      by_cases hopen : c = '['
      · -- the innermost open word becomes a block of the one around it
        rw [if_pos hopen] at hl
        obtain ⟨inner, ws, hlen, rfl⟩ := ih hl hdirs
        rcases ws with - | ⟨rest, ws⟩
        · exact absurd hlen (Nat.succ_ne_zero depth).symm
        · refine ⟨Word.block inner rest, ws, Nat.succ.inj hlen, ?_⟩
          rw [hopen, Word.text, List.flatMap_cons]
          simp
      · rw [if_neg hopen] at hl
        by_cases hclose : c = ']'
        · rw [if_pos hclose, Bool.and_eq_true] at hl
          -- the list is read from its end, where a `]` opens a word
          obtain ⟨w, ws, hlen, rfl⟩ := ih hl.2 hdirs
          have hdepth : depth ≠ 0 := by simpa using hl.1
          refine ⟨Word.nil, w :: ws, ?_, ?_⟩
          · rw [List.length_cons, hlen]
            omega
          · rw [hclose, List.flatMap_cons]
            rfl
        · rw [if_neg hclose] at hl
          obtain ⟨w, ws, hlen, hw⟩ := ih hl hdirs
          by_cases hvar : isVariables c = true
          · refine ⟨Word.move ⟨none, c, nofun, hvar⟩ w, ws, hlen, ?_⟩
            rw [hw]
            rfl
          by_cases hdir : isDir c = true
          · -- the variable that follows takes the direction
            rw [hdir] at hc
            obtain ⟨v, hv, hvar⟩ : ∃ v, l.head? = some v ∧ isVariables v = true := by
              simpa [Option.any_eq_true] using hc
            rw [hw] at hv
            rcases w with - | ⟨⟨d, v', hd, hv'⟩, rest⟩ | ⟨inner, rest⟩ | ⟨o, rest⟩
            · rcases ws with - | ⟨w, ws⟩
              · exact absurd hv nofun
              · obtain rfl := Option.some.inj hv
                exact absurd hvar (by decide)
            · rcases d with - | d
              · refine ⟨Word.move ⟨some c, v', by simpa using hdir, hv'⟩ rest, ws, hlen, ?_⟩
                rw [hw]
                rfl
              · obtain rfl := Option.some.inj hv
                have hdir := hd _ rfl
                rw [isDir_of_isVariables hvar] at hdir
                exact absurd hdir Bool.false_ne_true
            · obtain rfl := Option.some.inj hv
              exact absurd hvar (by decide)
            · obtain rfl := Option.some.inj hv
              rw [o.not_var] at hvar
              exact absurd hvar Bool.false_ne_true
          · refine ⟨Word.other ⟨c, by simpa using hvar, by simpa using hdir, hopen, hclose⟩ w, ws,
              hlen, ?_⟩
            rw [hw]
            rfl

/-- The lists whose brackets are balanced and whose directions are followed by a variable
are the words. -/
theorem exists_word {l : List Char} (hl : balanced 0 l = true) (hdirs : dirsFollowed l = true) :
    ∃ w : Word, w.text = l := by
  obtain ⟨w, ws, hlen, rfl⟩ := exists_words hl hdirs
  obtain rfl := List.eq_nil_of_length_eq_zero hlen
  exact ⟨w, (List.append_nil _).symm⟩

/-! ### The moves -/

variable {F : Type}

/-- Where the turtle is and where it looks, the height apart. -/
structure Pose (F : Type) where
  x : F
  y : F
  dir : F

/-- Where the turtle is, seen from above. -/
def pose (m : MountainGen F) : Pose F := ⟨m.currentPoint.x, m.currentPoint.y, m.currentDir⟩

/-- What a step that reads symbols leaves. -/
structure Frame (m m' : MountainGen F) : Prop where
  tmpList_eq : m'.tmpList = m.tmpList
  step_eq : m'.step = m.step

theorem Frame.trans {m m' m'' : MountainGen F} (h : Frame m m') (h' : Frame m' m'') :
    Frame m m'' :=
  ⟨h'.tmpList_eq.trans h.tmpList_eq, h'.step_eq.trans h.step_eq⟩

/-- The symbols that are left. -/
def rest (m : MountainGen F) : List Char := m.tmpList.drop m.rpos

/-- A symbol is read. -/
def read (m : MountainGen F) : MountainGen F := { m with rpos := m.rpos + 1 }

theorem next_run {m : MountainGen F} {c : Char} {l : List Char} (h : rest m = c :: l) :
    (next : M F Char).run m = some (c, read m) := by
  have hc : m.tmpList[m.rpos]? = some c := by
    rw [← List.head?_drop, ← rest, h]
    rfl
  have hget : (get : M F (MountainGen F)).run m = some (m, m) := rfl
  rw [next, run_bind_of_run hget, hc]
  rfl

theorem rest_of_frame {m m' : MountainGen F} (hframe : Frame m m') {xs l : List Char}
    (h : rest m = xs ++ l) (hrpos : m'.rpos = m.rpos + xs.length) : rest m' = l := by
  rw [rest, hframe.tmpList_eq, hrpos, ← List.drop_drop, ← rest, h, List.drop_left]

theorem frame_read (m : MountainGen F) : Frame m (read m) := ⟨rfl, rfl⟩

theorem rest_read {m : MountainGen F} {c : Char} {l : List Char} (h : rest m = c :: l) :
    rest (read m) = l :=
  rest_of_frame (frame_read m) (List.singleton_append ▸ h) rfl

variable [FloatOps F]

section Walk

variable (cos sin : F → F) (step : ℤ)

/-- The angle after an element. -/
def Elem.turn (e : Elem) (dir : F) : F := e.dir.elim dir fun d => getDirection d dir

/-- Where the turtle is after an element: it turns, then it goes one step. -/
def Elem.walk (e : Elem) (p : Pose F) : Pose F where
  x := p.x + FloatOps.ofRat step * cos (e.turn p.dir)
  y := p.y + FloatOps.ofRat step * sin (e.turn p.dir)
  dir := e.turn p.dir

/-- A nested block is left where it ends. -/
def Word.walk : Word → Pose F → Pose F
  | nil, p => p
  | move e rest, p => rest.walk (e.walk cos sin step p)
  | block inner rest, p => rest.walk (inner.walk p)
  | other _ rest, p => rest.walk p

theorem Word.Moveless.walk_eq {w : Word} (h : w.Moveless) (p : Pose F) :
    w.walk cos sin step p = p := by
  induction w generalizing p with
  | nil => rfl
  | move e rest ih => exact h.elim
  | block inner rest ihi ihr => rw [Word.walk, ihi h.1, ihr h.2]
  | other o rest ih => exact ih h p

end Walk

/-! ### `GenVar` and `GenNext` -/

/-- Numbers were drawn. -/
def Drawn (m m' : MountainGen F) : Prop := ∃ rand, m' = { m with rand }

theorem frandom_spec (m : MountainGen F) (min max : ℤ) :
    Triple (Drawn m) (frandom min max) fun _ => Drawn m := by
  rintro _ ⟨rand, rfl⟩
  exact ⟨_, _, rfl, _, rfl⟩

variable (cos sin : F → F) (noise : F → F → F → F)

/-- The point moves in the direction the turtle looks. -/
theorem genVar_spec (v : Char) (m : MountainGen F) :
    ∃ m', (genVar cos sin noise v).run m = some ((), m') ∧ Frame m m' ∧ m'.rpos = m.rpos ∧
      m'.errors = m.errors ∧ m'.blocks = m.blocks ∧
      pose m' = ⟨m.currentPoint.x + FloatOps.ofRat m.step * cos m.currentDir,
        m.currentPoint.y + FloatOps.ofRat m.step * sin m.currentDir, m.currentDir⟩ := by
  have hrun : Triple (Drawn m) (genVar cos sin noise v) fun _ m' => Frame m m' ∧
      m'.rpos = m.rpos ∧ m'.errors = m.errors ∧ m'.blocks = m.blocks ∧
      pose m' = ⟨m.currentPoint.x + FloatOps.ofRat m.step * cos m.currentDir,
        m.currentPoint.y + FloatOps.ofRat m.step * sin m.currentDir, m.currentDir⟩ := by
    have hdraw (t : F → F) (min max : ℤ) :
        Triple (Drawn m) (t <$> frandom min max) fun _ => Drawn m :=
      (frandom_spec m min max).map t fun _ _ h => h
    have hheight : Triple (Drawn m) (varHeight v) fun _ => Drawn m :=
      Triple.get_bind fun _ _ => Triple.ite (fun _ => hdraw _ _ _) fun _ =>
        Triple.ite (fun _ => hdraw _ _ _) fun _ => Triple.ite (fun _ => hdraw _ _ _) fun _ =>
          Triple.pure _ fun _ h => h
    have hlower (z : F) : Triple (Drawn m) (lower z) fun _ => Drawn m :=
      Triple.get_bind fun _ _ => Triple.ite (fun _ => hdraw _ _ _) fun _ =>
        Triple.pure _ fun _ h => h
    refine Triple.get_bind fun m₀ hm₀ => ?_
    obtain ⟨rand, rfl⟩ := hm₀
    refine Triple.bind hheight fun height => Triple.bind (hlower _) fun z => ?_
    refine Triple.modify _ ?_
    rintro _ ⟨rand', rfl⟩
    exact ⟨⟨rfl, rfl⟩, rfl, rfl, rfl, rfl⟩
  obtain ⟨_, m', h, hm'⟩ := hrun m ⟨m.rand, rfl⟩
  exact ⟨m', h, hm'⟩

theorem isVariables_of_isDir {c : Char} (h : isDir c = true) : isVariables c = false := by
  by_contra hvar
  rw [isDir_of_isVariables (Bool.not_eq_false _ ▸ hvar)] at h
  exact Bool.false_ne_true h

/-- The moves of a variable, and of a direction with one. -/
theorem genNext_spec (e : Elem) {m : MountainGen F} {l : List Char} (h : rest m = e.text ++ l) :
    ∃ m', (genNext cos sin noise e.first).run (read m) = some ((), m') ∧ Frame m m' ∧
      m'.rpos = m.rpos + e.text.length ∧ m'.errors = m.errors ∧ m'.blocks = m.blocks ∧
      pose m' = e.walk cos sin m.step (pose m) := by
  obtain ⟨d, v, hd, hv⟩ := e
  rcases d with - | d
  · obtain ⟨m', hrun, hframe, hrpos, herrors, hblocks, hpose⟩ :=
      genVar_spec cos sin noise v (read m)
    refine ⟨m', ?_, ⟨hframe.tmpList_eq, hframe.step_eq⟩, hrpos, herrors, hblocks, hpose⟩
    show (genNext cos sin noise v).run (read m) = _
    rw [genNext, if_pos hv]
    exact hrun
  · have hd : isDir d = true := hd d rfl
    have hread : rest (read m) = v :: l := rest_read h
    obtain ⟨m', hrun, hframe, hrpos, herrors, hblocks, hpose⟩ := genVar_spec cos sin noise v
      { read (read m) with currentDir := getDirection d m.currentDir }
    refine ⟨m', ?_, ⟨hframe.tmpList_eq, hframe.step_eq⟩, hrpos, herrors, hblocks, hpose⟩
    show (genNext cos sin noise d).run (read m) = _
    rw [genNext, isVariables_of_isDir hd, hd, if_neg Bool.false_ne_true, if_pos rfl,
      run_bind_of_run (next_run hread)]
    show (if isVariables v then genVar cos sin noise v else logError).run
      { read (read m) with currentDir := getDirection d m.currentDir } = _
    rw [if_pos hv]
    exact hrun

/-- A symbol that is none of the grammar is an error. -/
theorem genNext_other (o : Other) (m : MountainGen F) :
    (genNext cos sin noise o.c).run m = some ((), { m with errors := m.errors ++ [m.rpos] }) := by
  rw [genNext, o.not_var, o.not_dir, if_neg Bool.false_ne_true, if_neg Bool.false_ne_true]
  rfl

/-! ### `GenNextBlock` -/

/-- A block that is left with the moves of its word, of which there are some. -/
def Moved (step : ℤ) (b : MountainBlock F) : Prop :=
  ∃ inner : Word, ¬ inner.Moveless ∧
    (⟨b.pointAfter.x, b.pointAfter.y, b.dirAfter⟩ : Pose F)
      = inner.walk cos sin step ⟨b.point.x, b.point.y, b.dir⟩

/-- The blocks in a word that is nested in another one. -/
structure Nested (w : Word) (step : ℤ) (bs : List (MountainBlock F)) : Prop where
  restored : w.Still → ∀ b ∈ bs, b.Restored
  moved : ¬ w.Still → ∃ b ∈ bs, Moved cos sin step b

/-- What reading a nested word does. -/
structure Walked (w : Word) (m m' : MountainGen F) : Prop where
  frame : Frame m m'
  pose_eq : pose m' = w.walk cos sin m.step (pose m)
  point_eq : w.Moveless → m'.currentPoint = m.currentPoint
  errors_eq : w.Proper → m'.errors = m.errors
  blocks_eq : ∃ bs, m'.blocks = m.blocks ++ bs ∧ Nested cos sin w m.step bs

theorem Nested.block {inner r : Word} {step : ℤ} {bsi bsr : List (MountainBlock F)}
    {b : MountainBlock F} (hi : Nested cos sin inner step bsi) (hr : Nested cos sin r step bsr)
    (hpoint : inner.Moveless → b.pointAfter = b.point)
    (hpose : (⟨b.pointAfter.x, b.pointAfter.y, b.dirAfter⟩ : Pose F)
      = inner.walk cos sin step ⟨b.point.x, b.point.y, b.dir⟩) :
    Nested cos sin (.block inner r) step (bsi ++ b :: bsr) where
  restored := by
    rintro ⟨hstilli, hstillr⟩ b' hb'
    rcases List.mem_append.mp hb' with hb' | hb'
    · exact hi.restored hstilli.still b' hb'
    rcases List.mem_cons.mp hb' with rfl | hb'
    · refine ⟨hpoint hstilli, ?_⟩
      rw [hstilli.walk_eq] at hpose
      exact congrArg Pose.dir hpose
    · exact hr.restored hstillr b' hb'
  moved := by
    intro hnot
    by_cases hstilli : inner.Moveless
    · obtain ⟨b', hb', hmoved⟩ := hr.moved fun hstillr => hnot ⟨hstilli, hstillr⟩
      exact ⟨b', List.mem_append_right bsi (List.mem_cons_of_mem b hb'), hmoved⟩
    · exact ⟨b, List.mem_append_right bsi List.mem_cons_self, inner, hstilli, hpose⟩

/-- A move, and then a word. -/
theorem Walked.move {e : Elem} {r : Word} {m m₁ m₂ : MountainGen F} (hframe : Frame m m₁)
    (herrors : m₁.errors = m.errors) (hblocks : m₁.blocks = m.blocks)
    (hpose : pose m₁ = e.walk cos sin m.step (pose m)) (hw : Walked cos sin r m₁ m₂) :
    Walked cos sin (.move e r) m m₂ := by
  refine ⟨hframe.trans hw.frame, ?_, fun hstill => hstill.elim, ?_, ?_⟩
  · rw [hw.pose_eq, hpose, hframe.step_eq]
    rfl
  · intro hproper
    rw [hw.errors_eq hproper, herrors]
  · obtain ⟨bs, hbs, hnested⟩ := hw.blocks_eq
    rw [hframe.step_eq] at hnested
    exact ⟨bs, by rw [hbs, hblocks], ⟨hnested.restored, hnested.moved⟩⟩

/-- A block is left where it ends, and what follows goes on from there. -/
theorem Walked.block {inner r : Word} {m m₁ m₂ : MountainGen F}
    (hi : Walked cos sin inner (read m) m₁)
    (hr : Walked cos sin r
      { m₁ with
        blocks := m₁.blocks ++
          [⟨m.currentPoint, m.currentDir, m₁.currentPoint, m₁.currentDir⟩] } m₂) :
    Walked cos sin (.block inner r) m m₂ := by
  have hframe : Frame m m₁ := (frame_read m).trans hi.frame
  obtain ⟨bsi, hbsi, hni⟩ := hi.blocks_eq
  obtain ⟨bsr, hbsr, hnr⟩ := hr.blocks_eq
  set b : MountainBlock F := ⟨m.currentPoint, m.currentDir, m₁.currentPoint, m₁.currentDir⟩
  have hpose : pose m₁ = inner.walk cos sin m.step (pose m) := hi.pose_eq
  have hnr : Nested cos sin r m.step bsr := hframe.step_eq ▸ hnr
  refine ⟨⟨hr.frame.tmpList_eq.trans hframe.tmpList_eq, hr.frame.step_eq.trans hframe.step_eq⟩,
    ?_, ?_, ?_, bsi ++ b :: bsr, ?_, ?_⟩
  · rw [hr.pose_eq]
    show r.walk cos sin m₁.step (pose m₁) = _
    rw [hpose, hframe.step_eq]
    rfl
  · rintro ⟨hstilli, hstillr⟩
    rw [hr.point_eq hstillr]
    exact hi.point_eq hstilli
  · rintro ⟨hproperi, hproperr⟩
    rw [hr.errors_eq hproperr]
    exact hi.errors_eq hproperi
  · rw [hbsr]
    show m₁.blocks ++ [b] ++ bsr = _
    rw [hbsi, List.append_assoc, List.append_assoc]
    rfl
  · exact hni.block cos sin hnr hi.point_eq hpose

omit [FloatOps F] in
/-- Behind an inner block comes the rest of the text. -/
theorem rest_of_block {inner : Word} {m m' : MountainGen F} {l : List Char}
    (h : rest m = '[' :: inner.text ++ (']' :: l)) (hframe : Frame m m')
    (hrpos : m'.rpos = m.rpos + (inner.text.length + 2)) : rest m' = l := by
  have hsplit : rest m = ('[' :: inner.text ++ [']']) ++ l := by
    rw [h, List.append_assoc]
    rfl
  apply rest_of_frame hframe hsplit
  rw [hrpos]
  simp only [List.length_append, List.length_cons, List.length_nil]

theorem genNextBlock_spec (w : Word) {m : MountainGen F} {l : List Char}
    (h : rest m = w.text ++ ']' :: l) :
    ∃ m', (genNextBlock cos sin noise).run m = some ((), m') ∧
      m'.rpos = m.rpos + (w.text.length + 1) ∧ Walked cos sin w m m' := by
  induction w generalizing m l with
  | nil =>
      -- the bracket that closes the block
      refine ⟨read m, ?_, rfl, ⟨frame_read m, rfl, fun _ => rfl, fun _ => rfl, [], ?_, ?_⟩⟩
      · rw [genNextBlock, run_bind_of_run (next_run h)]
        rfl
      · exact (List.append_nil _).symm
      · exact ⟨fun _ b hb => absurd hb List.not_mem_nil, fun hnot => absurd trivial hnot⟩
  | move e r ih =>
      rw [Word.text, List.append_assoc] at h
      obtain ⟨m₁, hrun₁, hframe₁, hrpos₁, herrors₁, hblocks₁, hpose₁⟩ :=
        genNext_spec cos sin noise e h
      obtain ⟨l', hl'⟩ := e.text_append _
      obtain ⟨m₂, hrun₂, hrpos₂, hw⟩ := ih (rest_of_frame hframe₁ h hrpos₁)
      refine ⟨m₂, ?_, ?_, hw.move cos sin hframe₁ herrors₁ hblocks₁ hpose₁⟩
      · rw [genNextBlock, run_bind_of_run (next_run (h.trans hl')), if_neg e.first_plain.2.2,
          if_neg e.first_plain.2.1, run_bind_of_run hrun₁]
        exact hrun₂
      · rw [hrpos₂, hrpos₁, Word.text, List.length_append]
        omega
  | block inner r ihi ihr =>
      rw [Word.text, List.cons_append, List.cons_append, List.append_assoc] at h
      obtain ⟨m₁, hrun₁, hrpos₁, hi⟩ := ihi (rest_read h)
      set m₂ : MountainGen F :=
        { m₁ with
          blocks := m₁.blocks ++
            [⟨m.currentPoint, m.currentDir, m₁.currentPoint, m₁.currentDir⟩] } with hm₂
      have hframe₂ : Frame m m₂ :=
        ⟨((frame_read m).trans hi.frame).tmpList_eq, ((frame_read m).trans hi.frame).step_eq⟩
      have hrpos₂ : m₂.rpos = m.rpos + (inner.text.length + 2) := by
        show m₁.rpos = _
        rw [hrpos₁]
        show m.rpos + 1 + _ = _
        omega
      obtain ⟨m₃, hrun₃, hrpos₃, hr⟩ := ihr (rest_of_block h hframe₂ hrpos₂)
      refine ⟨m₃, ?_, ?_, hi.block cos sin hr⟩
      · rw [genNextBlock, run_bind_of_run (next_run h)]
        show ((do genNextBlock cos sin noise; finish (read m); genNextBlock cos sin noise) :
          M F Unit).run (read m) = _
        rw [run_bind_of_run hrun₁]
        exact hrun₃
      · rw [hrpos₃, hrpos₂, Word.text]
        simp only [List.length_append, List.length_cons]
        omega
  | other o r ih =>
      rw [Word.text, List.cons_append] at h
      -- it is only reported
      set m₁ : MountainGen F := { read m with errors := m.errors ++ [m.rpos + 1] }
      have hframe₁ : Frame m m₁ := ⟨rfl, rfl⟩
      obtain ⟨m₂, hrun₂, hrpos₂, hw⟩ := ih (rest_of_frame hframe₁ (List.singleton_append ▸ h) rfl)
      refine ⟨m₂, ?_, ?_, ⟨hframe₁.trans hw.frame, hw.pose_eq, hw.point_eq, fun h => h.elim, ?_⟩⟩
      · rw [genNextBlock, run_bind_of_run (next_run h), if_neg o.not_bracket.2,
          if_neg o.not_bracket.1, run_bind_of_run (genNext_other cos sin noise o (read m))]
        exact hrun₂
      · rw [hrpos₂, Word.text, List.length_cons]
        show m.rpos + 1 + _ = _
        omega
      · obtain ⟨bs, hbs, hnested⟩ := hw.blocks_eq
        exact ⟨bs, hbs, hnested.restored, hnested.moved⟩

/-! ### The loop of `Start` -/

/-- Each outer block starts where the direction is the number of the symbol after its `[`, and
no variable stands in a block inside it.  What follows a `^` is not read. -/
def Word.Aligned : Word → ℕ → F → Prop
  | nil, _, _ => True
  | move e rest, pos, dir => rest.Aligned (pos + e.text.length) (e.turn dir)
  | block inner rest, pos, dir => dir = FloatOps.ofRat ((pos + 1 : ℕ) : ℚ) ∧ inner.Still ∧
      rest.Aligned (pos + (inner.text.length + 2)) dir
  | other o rest, pos, dir => o.c = '^' ∨ rest.Aligned (pos + 1) dir

/-- The blocks in the word that `Start` reads. -/
structure Outer (w : Word) (pos : ℕ) (dir : F) (step : ℤ) (bs : List (MountainBlock F)) : Prop where
  restored : w.Aligned pos dir → ∀ b ∈ bs, b.Restored
  lost : ¬ w.Aligned pos dir → ∃ b ∈ bs, b.dirAfter ≠ b.dir ∨ Moved cos sin step b

/-- What reading it does. -/
structure Started (w : Word) (m m' : MountainGen F) (ended : Bool) : Prop where
  frame : Frame m m'
  ended_eq : w.Proper → ended = true ∧ m'.rpos = m.rpos + w.text.length ∧ m'.errors = m.errors
  blocks_eq : ∃ bs, m'.blocks = m.blocks ++ bs ∧ Outer cos sin w m.rpos m.currentDir m.step bs

theorem Outer.block {inner r : Word} {pos : ℕ} {step : ℤ} {bsi bsr : List (MountainBlock F)}
    {b : MountainBlock F} (hi : Nested cos sin inner step bsi)
    (hr : Outer cos sin r (pos + (inner.text.length + 2)) b.dirAfter step bsr)
    (hpoint : b.pointAfter = b.point) (hdir : b.dirAfter = FloatOps.ofRat ((pos + 1 : ℕ) : ℚ)) :
    Outer cos sin (.block inner r) pos b.dir step (bsi ++ b :: bsr) where
  restored := by
    rintro ⟨haligned, hstill, hrest⟩ b' hb'
    have hsame : b.dirAfter = b.dir := hdir.trans haligned.symm
    rcases List.mem_append.mp hb' with hb' | hb'
    · exact hi.restored hstill b' hb'
    rcases List.mem_cons.mp hb' with rfl | hb'
    · exact ⟨hpoint, hsame⟩
    · exact hr.restored (hsame ▸ hrest) b' hb'
  lost := by
    intro hnot
    by_cases hsame : b.dirAfter = b.dir
    · by_cases hstill : inner.Still
      · obtain ⟨b', hb', hlost⟩ := hr.lost fun hrest =>
          hnot ⟨hsame.symm.trans hdir, hstill, hsame ▸ hrest⟩
        exact ⟨b', List.mem_append_right bsi (List.mem_cons_of_mem b hb'), hlost⟩
      · obtain ⟨b', hb', hmoved⟩ := hi.moved hstill
        exact ⟨b', List.mem_append_left _ hb', Or.inr hmoved⟩
    · exact ⟨b, List.mem_append_right bsi List.mem_cons_self, Or.inl hsame⟩

theorem startLoop_cons {m : MountainGen F} {c : Char} {l : List Char} (h : rest m = c :: l) :
    (startLoop cos sin noise).run m = (if c = '^' then return false
      else if c = '[' then do
        genNextBlock cos sin noise
        modify fun m' => { m' with
          currentDir := FloatOps.ofRat ((read m).rpos : ℚ), currentPoint := m.currentPoint }
        finish (read m)
        startLoop cos sin noise
      else do
        genNext cos sin noise c
        startLoop cos sin noise : M F Bool).run (read m) := by
  have hlt : m.rpos < m.tmpList.length := by
    by_contra hge
    rw [rest, List.drop_eq_nil_of_le (not_lt.mp hge)] at h
    exact absurd h nofun
  conv_lhs => rw [startLoop]
  show (if m.rpos < m.tmpList.length then _ else _ : M F Bool).run m = _
  rw [if_pos hlt, run_bind_of_run (next_run h)]
  split
  · rfl
  · split
    · rfl
    · rfl

theorem Started.move {e : Elem} {r : Word} {m m₁ m₂ : MountainGen F} {ended : Bool}
    (hframe : Frame m m₁) (hrpos : m₁.rpos = m.rpos + e.text.length)
    (herrors : m₁.errors = m.errors) (hblocks : m₁.blocks = m.blocks)
    (hdir : m₁.currentDir = e.turn m.currentDir) (hs : Started cos sin r m₁ m₂ ended) :
    Started cos sin (.move e r) m m₂ ended := by
  refine ⟨hframe.trans hs.frame, fun hproper => ?_, ?_⟩
  · obtain ⟨hended, hrpos', herrors'⟩ := hs.ended_eq hproper
    refine ⟨hended, ?_, herrors'.trans herrors⟩
    rw [hrpos', hrpos, Word.text, List.length_append]
    omega
  · obtain ⟨bs, hbs, houter⟩ := hs.blocks_eq
    rw [hframe.step_eq, hrpos, hdir] at houter
    exact ⟨bs, by rw [hbs, hblocks], houter.restored, houter.lost⟩

/-- An outer block is left at the point before it, in the direction that is the number of the
symbol after its `[`. -/
theorem Started.block {inner r : Word} {m m₁ m₂ : MountainGen F} {ended : Bool}
    (hi : Walked cos sin inner (read m) m₁)
    (hrpos : m₁.rpos = m.rpos + (inner.text.length + 2))
    (hs : Started cos sin r
      { m₁ with
        currentDir := FloatOps.ofRat ((m.rpos + 1 : ℕ) : ℚ)
        currentPoint := m.currentPoint
        blocks := m₁.blocks ++
          [⟨m.currentPoint, m.currentDir, m.currentPoint,
            FloatOps.ofRat ((m.rpos + 1 : ℕ) : ℚ)⟩] } m₂ ended) :
    Started cos sin (.block inner r) m m₂ ended := by
  have hframe : Frame m m₁ := (frame_read m).trans hi.frame
  set b : MountainBlock F :=
    ⟨m.currentPoint, m.currentDir, m.currentPoint, FloatOps.ofRat ((m.rpos + 1 : ℕ) : ℚ)⟩
  obtain ⟨bsi, hbsi, hni⟩ := hi.blocks_eq
  obtain ⟨bsr, hbsr, hor⟩ := hs.blocks_eq
  have hor : Outer cos sin r (m.rpos + (inner.text.length + 2)) b.dirAfter m.step bsr :=
    hframe.step_eq ▸ hrpos ▸ hor
  refine ⟨⟨hs.frame.tmpList_eq.trans hframe.tmpList_eq, hs.frame.step_eq.trans hframe.step_eq⟩,
    fun hproper => ?_, bsi ++ b :: bsr, ?_, ?_⟩
  · obtain ⟨hended, hrpos', herrors⟩ := hs.ended_eq hproper.2
    refine ⟨hended, ?_, herrors.trans (hi.errors_eq hproper.1)⟩
    rw [hrpos']
    show m₁.rpos + _ = _
    rw [hrpos, Word.text]
    simp only [List.length_append, List.length_cons]
    omega
  · rw [hbsr]
    show m₁.blocks ++ [b] ++ bsr = _
    rw [hbsi, List.append_assoc, List.append_assoc]
    rfl
  · exact Outer.block (b := b) cos sin hni hor rfl rfl

theorem startLoop_spec (w : Word) {m : MountainGen F} (h : rest m = w.text) :
    ∃ ended m', (startLoop cos sin noise).run m = some (ended, m') ∧
      Started cos sin w m m' ended := by
  induction w generalizing m with
  | nil =>
      have hge : ¬ m.rpos < m.tmpList.length := by
        have hlen := congrArg List.length h
        rw [rest, List.length_drop, Word.text, List.length_nil] at hlen
        omega
      refine ⟨true, m, ?_, ⟨rfl, rfl⟩, fun _ => ⟨rfl, rfl, rfl⟩, [], (List.append_nil _).symm, ?_, ?_⟩
      · rw [startLoop]
        show (if m.rpos < m.tmpList.length then _ else _ : M F Bool).run m = _
        rw [if_neg hge]
        rfl
      · exact fun _ b hb => absurd hb List.not_mem_nil
      · exact fun hnot => absurd trivial hnot
  | move e r ih =>
      obtain ⟨m₁, hrun₁, hframe₁, hrpos₁, herrors₁, hblocks₁, hpose₁⟩ :=
        genNext_spec cos sin noise e h
      obtain ⟨l', hl'⟩ := e.text_append _
      obtain ⟨ended, m₂, hrun₂, hs⟩ := ih (rest_of_frame hframe₁ h hrpos₁)
      have hdir₁ : m₁.currentDir = e.turn m.currentDir := congrArg Pose.dir hpose₁
      refine ⟨ended, m₂, ?_, hs.move cos sin hframe₁ hrpos₁ herrors₁ hblocks₁ hdir₁⟩
      rw [startLoop_cons cos sin noise (h.trans hl'), if_neg e.first_plain.1,
        if_neg e.first_plain.2.1, run_bind_of_run hrun₁]
      exact hrun₂
  | block inner r _ ihr =>
      rw [Word.text, List.cons_append] at h
      obtain ⟨m₁, hrun₁, hrpos₁, hi⟩ := genNextBlock_spec cos sin noise inner (rest_read h)
      have hframe₁ : Frame m m₁ := (frame_read m).trans hi.frame
      have hrpos₁' : m₁.rpos = m.rpos + (inner.text.length + 2) := by
        rw [hrpos₁]
        show m.rpos + 1 + _ = _
        omega
      set dir : F := FloatOps.ofRat ((m.rpos + 1 : ℕ) : ℚ)
      set m₂ : MountainGen F :=
        { m₁ with
          currentDir := dir
          currentPoint := m.currentPoint
          blocks := m₁.blocks ++ [⟨m.currentPoint, m.currentDir, m.currentPoint, dir⟩] }
      have hframe₂ : Frame m m₂ := ⟨hframe₁.tmpList_eq, hframe₁.step_eq⟩
      obtain ⟨ended, m₃, hrun₃, hs⟩ := ihr (rest_of_block h hframe₂ hrpos₁')
      refine ⟨ended, m₃, ?_, Started.block cos sin hi hrpos₁' hs⟩
      rw [startLoop_cons cos sin noise h, if_neg (by decide), if_pos rfl, run_bind_of_run hrun₁]
      exact hrun₃
  | other o r ih =>
      rw [Word.text] at h
      set m₁ : MountainGen F := { read m with errors := m.errors ++ [m.rpos + 1] }
      have hframe₁ : Frame m m₁ := ⟨rfl, rfl⟩
      by_cases hcaret : o.c = '^'
      -- the loop ends at a `^`, and reads nothing of what follows
      · refine ⟨false, read m, ?_, frame_read m, fun h => h.elim, [], (List.append_nil _).symm, ?_, ?_⟩
        · rw [startLoop_cons cos sin noise h, if_pos hcaret]
          rfl
        · exact fun _ b hb => absurd hb List.not_mem_nil
        · exact fun hnot => absurd (Or.inl hcaret) hnot
      · obtain ⟨ended, m₂, hrun₂, hs⟩ := ih (rest_of_frame hframe₁ (List.singleton_append ▸ h) rfl)
        refine ⟨ended, m₂, ?_, hframe₁.trans hs.frame, fun h => h.elim, ?_⟩
        · rw [startLoop_cons cos sin noise h, if_neg hcaret, if_neg o.not_bracket.1,
            run_bind_of_run (genNext_other cos sin noise o (read m))]
          exact hrun₂
        · obtain ⟨bs, hbs, houter⟩ := hs.blocks_eq
          refine ⟨bs, hbs, fun haligned => ?_, fun hnot => ?_⟩
          · exact houter.restored (haligned.resolve_left hcaret)
          · exact houter.lost fun hrest => hnot (Or.inr hrest)

end MountainGen

end PCGForUnity
