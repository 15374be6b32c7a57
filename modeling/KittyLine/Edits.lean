/-
# The edits of a line keep its cells valid

A line is edited by `line_clear_text`, `line_apply_cursor`, `set_text`,
`set_char`, `add_combining_char` and `copy_char`. `LineEdit` is one such call
that gives a line. `add_combining_char` may use any index the cache's
interning gives (the law `Interns`). `copy_char` may copy from any valid line
that shares the cache, the line itself among them.

Four of the edits only write cells that name no cache entry, and keep the
cache (`Line.PlainWrites`). `copy_char` copies a cell that names an entry
holding code points. `add_combining_char` points its cell at the interned
entry, and changes no entry that held code points (`TextCache.Keeps`).

So validity (§3.1) holds after every run of edits from a valid line, and the
width never changes. Validity says that every indexed cell names an entry with
code points. That is the entry whose first code point `line_get_char` and
`text_at` read. Every valid line that shares the cache still reads its text
over the cache the run leaves (`lineEdit_run_cellsValid`).

Marking keeps step with the text on the lines of `Line.MarkInStep`. Every edit
keeps a line in step, with two exceptions. One is an `add_combining_char` at a
cell whose first code point is 0, which always puts the line out of step
(`addCombiningChar_markInStep_iff`). The other is a `copy_char` from a line
that is out of step. So a run of edits from a line in step either ends in step,
or has one of those two edits at a line still in step
(`lineEdit_run_markInStep`).

What `set_text` writes reads back through `unicode_in_range` as the slice of
its source, with each 0 made a space or dropped (`unicodeInRange_setText`),
and what `line_clear_text` writes as its code point once per column
(`unicodeInRange_lineClearText`); a
`set_text` of code points that are not blank moves the line's length past
the columns it writes (`lineLength_setText`).

Key definitions: `Line.PlainWrites`, `LineEdit`, `Line.ZeroCombine`, `Line.StrayCopy`
Key theorems: `LineEdit.valid`, `LineEdit.run_valid`, `lineEdit_run_cellsValid`,
`LineEdit.markInStep`, `lineEdit_run_markInStep`, `unicodeInRange_setText`, `lineLength_setText`,
`unicodeInRange_lineClearText`
-/
import KittyLine.CellWrite
import KittyLine.MarkWalk

namespace KittyLine

/-! ### Writes of plain cells -/

/-- `l'` is `l` with some cells written as plain cells: the width and the
cache are kept, and every cell of `l'` is `l`'s or names no cache entry and
is of no multi-cell glyph. -/
structure Line.PlainWrites (l l' : Line) : Prop where
  xnum : l'.xnum = l.xnum
  textCache : l'.textCache = l.textCache
  cells : ∀ j, l'.cpuCells j = l.cpuCells j ∨ (l'.cpuCells j).chIsIdx = false ∧ (l'.cpuCells j).isMulticell = false

theorem Line.PlainWrites.refl (l : Line) : l.PlainWrites l := ⟨rfl, rfl, fun _ => .inl rfl⟩

theorem Line.PlainWrites.trans {l₁ l₂ l₃ : Line} (h₁ : l₁.PlainWrites l₂) (h₂ : l₂.PlainWrites l₃) :
    l₁.PlainWrites l₃ :=
  ⟨h₂.xnum.trans h₁.xnum, h₂.textCache.trans h₁.textCache, fun j =>
    (h₂.cells j).elim (fun he => he ▸ h₁.cells j) .inr⟩

theorem Line.PlainWrites.cellsValid {l l' : Line} (h : l.PlainWrites l') (hv : l.CellsValid) : l'.CellsValid :=
  fun i hi hidx => by
    rcases h.cells i with he | hp
    · rw [he, h.textCache]
      exact hv i (h.xnum ▸ hi) (he ▸ hidx)
    · exact absurd (hidx.symm.trans hp.1) Bool.noConfusion

/-- What an edit of plain cells keeps of a valid line. -/
theorem Line.PlainWrites.valid {l l' : Line} (h : l.PlainWrites l') (hv : l.CellsValid) :
    l'.CellsValid ∧ l'.xnum = l.xnum ∧ l.textCache.Keeps l'.textCache :=
  ⟨h.cellsValid hv, h.xnum, by rw [h.textCache]; exact .refl _⟩

theorem fillCells_plain (cells : ℕ → CPUCell) (at' num : ℕ) {c : CPUCell} (hc : c.chIsIdx = false ∧ c.isMulticell = false)
    (j : ℕ) : fillCells cells at' num c j = cells j ∨
      (fillCells cells at' num c j).chIsIdx = false ∧ (fillCells cells at' num c j).isMulticell = false := by
  unfold fillCells
  split_ifs
  · exact .inr hc
  · exact .inl rfl

theorem update_plain (cells : ℕ → CPUCell) (i : ℕ) {c : CPUCell} (hc : c.chIsIdx = false ∧ c.isMulticell = false)
    (j : ℕ) : Function.update cells i c j = cells j ∨
      (Function.update cells i c j).chIsIdx = false ∧ (Function.update cells i c j).isMulticell = false := by
  by_cases hj : j = i
  · subst hj
    rw [Function.update_same]
    exact .inr hc
  · exact .inl (Function.update_noteq hj _ _)

theorem plainWrites_lineClearText (l : Line) (at' num ch : ℕ) : l.PlainWrites (lineClearText l at' num ch) :=
  ⟨rfl, rfl, fillCells_plain _ _ _ ⟨rfl, rfl⟩⟩

theorem plainWrites_lineApplyCursor (l : Line) (cursor : Cursor) (at' num : ℕ) (clearChar : Bool) :
    l.PlainWrites (lineApplyCursor l cursor at' num clearChar) := by
  cases clearChar
  · exact ⟨rfl, rfl, fun _ => .inl rfl⟩
  · exact ⟨rfl, rfl, fillCells_plain _ _ _ ⟨rfl, rfl⟩⟩

/-- Each pass of the copy loop of `set_text` zeroes a cell and gives it a code
point, or stops at a read outside `src` with the cell zeroed. -/
theorem plainWrites_setTextLoop (src : List ℕ) (attrs : CellAttrs) (fg bg dfg : ℕ) (limit : ℤ) :
    ∀ fuel i (offset : ℤ) (l : Line), l.PlainWrites (setTextLoop src attrs fg bg dfg limit fuel i offset l).1
  | 0, _, _, l => .refl l
  | fuel + 1, i, offset, l => by
    unfold setTextLoop
    dsimp only
    split_ifs
    · refine .trans ?_ (plainWrites_setTextLoop src attrs fg bg dfg limit fuel (i + 1) (offset + 1) _)
      refine ⟨rfl, rfl, fun j => ?_⟩
      by_cases hj : j = i
      · subst hj
        exact .inr (by simp [CPUCell.zero])
      · exact .inl (by simp [Function.update_noteq hj])
    · exact ⟨rfl, rfl, update_plain _ i ⟨rfl, rfl⟩⟩
    · exact .refl l

theorem plainWrites_setText (colMask : ℕ) (l : Line) (src : List ℕ) (offset sz : ℤ) (cursor : Cursor) :
    l.PlainWrites (setText colMask l src offset sz cursor).1 := by
  unfold setText
  dsimp only
  split_ifs
  · exact .refl l
  · exact plainWrites_setTextLoop _ _ _ _ _ _ _ _ _ l

theorem plainWrites_lineSetChar (O : LineOptions) (colMask : ℕ) (l : Line) (at' ch : ℕ) (cursor : Option Cursor)
    (hyperlinkId : ℕ) : l.PlainWrites (lineSetChar O colMask l at' ch cursor hyperlinkId) :=
  ⟨rfl, rfl, update_plain _ _ ⟨rfl, rfl⟩⟩

/-! ### The edits -/

/-- One edit of the line `l` that gives the line `l'`. -/
inductive LineEdit : Line → Line → Prop
  /-- `line_clear_text(at, num, ch)`. -/
  | clearText (l : Line) (at' num ch : ℕ) : LineEdit l (lineClearText l at' num ch)
  /-- `line_apply_cursor(cursor, at, num, clear_char)`. -/
  | applyCursor (l : Line) (cursor : Cursor) (at' num : ℕ) (clearChar : Bool) :
      LineEdit l (lineApplyCursor l cursor at' num clearChar)
  /-- `set_text(src, offset, sz, cursor)`, also when it stops short. -/
  | text (colMask : ℕ) (l : Line) (src : List ℕ) (offset sz : ℤ) (cursor : Cursor) :
      LineEdit l (setText colMask l src offset sz cursor).1
  /-- A `set_char` that succeeds. -/
  | char (O : LineOptions) (colMask : ℕ) (l : Line) (at' ch width : ℕ) (cursor : Option Cursor) (hyperlinkId : ℕ)
      {l' : Line} : setChar O colMask l at' ch width cursor hyperlinkId = .ok l' → LineEdit l l'
  /-- An `add_combining_char` that succeeds, with an interning call of the
  cache. -/
  | combining (insert : TextCache → List ℕ → TextCache × ℕ) (l : Line) (x ch : ℕ) {l' : Line} :
      Interns l.textCache ((textInCell (l.cpuCells x) l.textCache).chars ++ [ch])
        (insert l.textCache ((textInCell (l.cpuCells x) l.textCache).chars ++ [ch])) →
      addCombiningChar insert l x ch = .ok l' → LineEdit l l'
  /-- A `copy_char` that succeeds, from a valid line sharing the cache. -/
  | copy (source : Line) (src : ℕ) (l : Line) (dest : ℕ) {l' : Line} :
      source.textCache = l.textCache → source.CellsValid → copyChar source src l dest = .ok l' → LineEdit l l'

/-- **One edit keeps a valid line valid**, its width, and every entry of its
cache that held code points. -/
theorem LineEdit.valid {l l' : Line} (h : LineEdit l l') (hv : l.CellsValid) :
    l'.CellsValid ∧ l'.xnum = l.xnum ∧ l.textCache.Keeps l'.textCache := by
  cases h with
  | clearText l at' num ch => exact (plainWrites_lineClearText l at' num ch).valid hv
  | applyCursor l cursor at' num clearChar => exact (plainWrites_lineApplyCursor l cursor at' num clearChar).valid hv
  | text colMask l src offset sz cursor => exact (plainWrites_setText colMask l src offset sz cursor).valid hv
  | char O colMask l at' ch width cursor hyperlinkId h =>
    obtain ⟨-, -, rfl⟩ := setChar_eq_ok.1 h
    exact (plainWrites_lineSetChar O colMask l at' ch cursor hyperlinkId).valid hv
  | combining insert l x ch hins h => exact addCombiningChar_cellsValid insert hv hins h
  | copy source src l dest hc hvs h =>
    obtain ⟨hv', hx, ht⟩ := copyChar_cellsValid hc.symm hvs hv h
    exact ⟨hv', hx, by rw [ht]; exact .refl _⟩

/-- **A run of edits keeps a valid line valid**, its width, and every entry
of its cache that held code points. -/
theorem LineEdit.run_valid {l l' : Line} (h : Relation.ReflTransGen LineEdit l l') (hv : l.CellsValid) :
    l'.CellsValid ∧ l'.xnum = l.xnum ∧ l.textCache.Keeps l'.textCache := by
  induction h with
  | refl => exact ⟨hv, rfl, .refl _⟩
  | tail _ step ih =>
    obtain ⟨hv₁, hx₁, hk₁⟩ := ih
    obtain ⟨hv₂, hx₂, hk₂⟩ := step.valid hv₁
    exact ⟨hv₂, hx₂.trans hx₁, hk₁.trans hk₂⟩

/-- **No edit breaks a line or the lines sharing its cache.** After any run of
edits from a line whose cells are valid, the line's cells are still valid and
its width is unchanged. So no indexed cell names an entry without code
points, whose first code point `line_get_char` and `text_at` would read. Every
valid line that shares the line's first cache reads each of its cells alike
over the cache the run leaves. -/
theorem lineEdit_run_cellsValid {l l' : Line} (h : Relation.ReflTransGen LineEdit l l') (hv : l.CellsValid) :
    l'.CellsValid ∧ l'.xnum = l.xnum ∧
      ∀ L : Line, L.textCache = l.textCache → L.CellsValid → ∀ y < L.xnum,
        textInCell (L.cpuCells y) l'.textCache = textInCell (L.cpuCells y) L.textCache := by
  obtain ⟨hv', hx, hk⟩ := LineEdit.run_valid h hv
  exact ⟨hv', hx, fun L hL hLv y hy => (hL ▸ hk).textInCell hLv hy⟩

/-- `ab` with an acute accent added to its `a`, interned at index 0. -/
def accentedAb : Line :=
  { Line.ofString "ab" with
    cpuCells := Function.update (Line.ofString "ab").cpuCells 0
      { (Line.ofString "ab").cpuCells 0 with chOrIdx := 0, chIsIdx := true }
    textCache := ((Line.ofString "ab").textCache.internAt 0 ['a'.toNat, 0x301]).1 }

theorem accentedAb_run : Relation.ReflTransGen LineEdit (Line.ofString "ab") (lineClearText accentedAb 1 1 0) :=
  .tail (.single (.combining (TextCache.internAt 0) _ 0 0x301 (TextCache.internAt_interns (Or.inr rfl)) rfl))
    (.clearText accentedAb 1 1 0)

theorem lineEdit_run_cellsValid_ab :
    (lineClearText accentedAb 1 1 0).CellsValid ∧ (lineClearText accentedAb 1 1 0).xnum = (Line.ofString "ab").xnum ∧
      ∀ L : Line, L.textCache = (Line.ofString "ab").textCache → L.CellsValid → ∀ y < L.xnum,
        textInCell (L.cpuCells y) (lineClearText accentedAb 1 1 0).textCache = textInCell (L.cpuCells y) L.textCache :=
  lineEdit_run_cellsValid accentedAb_run (by unfold Line.CellsValid; decide)

example : textAt (lineClearText accentedAb 1 1 0) 0 = .ok ['a'.toNat, 0x301] := rfl

/-! ### Reading back what `set_text` and `line_clear_text` wrote -/

theorem zeroAsSpace_singleton (c : ℕ) : zeroAsSpace [c] = [if c = 0 then ' '.toNat else c] := by
  unfold zeroAsSpace
  split_ifs <;> simp_all

theorem cellText_of_singleton (l : Line) {limit i c : ℕ} (h : (textInCell (l.cpuCells i) l.textCache).chars = [c]) :
    cellText l limit i = (zeroAsSpace [c], i + 1) := by
  unfold cellText
  rw [h, zeroAsSpace_singleton]
  generalize (if c = 0 then ' '.toNat else c) = d
  dsimp only
  split_ifs with ht
  · simp only [List.headD_cons] at ht
    subst ht
    rfl
  · rfl

/-- A plain cell, outside multi-cell glyphs, is written as its code point, a
zero made a space or, with `skip_zero_cells`, dropped. -/
theorem flattenCell_of_plainCell (l : Line) {limit i : ℕ} (includeCc skipZeroCells : Bool)
    (hp : (l.cpuCells i).chIsIdx = false) (hm : (l.cpuCells i).isMulticell = false) :
    flattenCell l limit includeCc skipZeroCells i =
      (if (l.cpuCells i).chOrIdx = 0 ∧ skipZeroCells = true then [] else zeroAsSpace [(l.cpuCells i).chOrIdx], i + 1) := by
  have ht := textInCell_chars_of_not_idx l.textCache hp
  unfold flattenCell
  simp only [CPUCell.isContinuation, hm, Bool.false_and, Bool.false_eq_true, if_false, ht, List.headD_cons,
    cellText_of_singleton l ht]
  split_ifs <;> simp [zeroAsSpace_singleton]

theorem range'_map_getD (src : List ℕ) (x o k : ℕ) (h : ∀ j < k, o + j < src.length) :
    (List.range' x k).map (fun p => src.getD (o + (p - x)) 0) = (src.drop o).take k := by
  apply List.ext_getElem
  · rcases Nat.eq_zero_or_pos k with rfl | hk
    · simp
    · have := h (k - 1) (by omega)
      simp only [List.length_map, List.length_range', List.length_take, List.length_drop]
      omega
  · intro j h₁ h₂
    simp only [List.length_map, List.length_range'] at h₁
    simp [List.getElem_range', List.getElem?_eq_getElem (h j h₁)]

/-- Over columns of plain cells, `flattenText` writes each cell's code point,
a zero made a space or, with `skip_zero_cells`, dropped. -/
theorem flattenText_of_plainCells (l : Line) {c : ℕ} (includeCc skipZeroCells : Bool) : ∀ n a, a + n = c →
    (∀ p, a ≤ p → p < c → (l.cpuCells p).chIsIdx = false ∧ (l.cpuCells p).isMulticell = false) →
    flattenText l c includeCc skipZeroCells n a =
      ((List.range' a n).map fun p => (l.cpuCells p).chOrIdx).flatMap
        fun ch => if ch = 0 ∧ skipZeroCells = true then [] else zeroAsSpace [ch]
  | 0, a, _, _ => by simp [flattenText]
  | n + 1, a, hc, hp => by
    rw [flattenText, if_pos (by omega), flattenCell_of_plainCell l includeCc skipZeroCells (hp a le_rfl (by omega)).1
      (hp a le_rfl (by omega)).2, List.range'_succ, List.map_cons, List.flatMap_cons]
    dsimp only
    rw [flattenText_of_plainCells l includeCc skipZeroCells n (a + 1) (by omega) fun p h₁ h₂ => hp p (by omega) h₂]

theorem flatMap_zeroAsSpace (cs : List ℕ) :
    cs.flatMap (fun ch => if ch = 0 ∧ false = true then [] else zeroAsSpace [ch]) =
      cs.map fun c => if c = 0 then ' '.toNat else c := by
  induction cs with
  | nil => rfl
  | cons c cs ih =>
    rw [List.flatMap_cons, ih, List.map_cons]
    simp [zeroAsSpace_singleton]

theorem flatMap_skipZero (cs : List ℕ) :
    cs.flatMap (fun ch => if ch = 0 ∧ true = true then [] else zeroAsSpace [ch]) = cs.filter (· ≠ 0) := by
  induction cs with
  | nil => rfl
  | cons c cs ih =>
    rw [List.flatMap_cons, ih, List.filter_cons]
    by_cases h : c = 0 <;> simp [h, zeroAsSpace_singleton]

/-- The CPU cells `set_text` leaves from an offset `≥ 0` with `offset + sz`
inside `src`. -/
theorem setText_cpuCells (colMask : ℕ) (l : Line) {src : List ℕ} {offset sz : ℤ} (cursor : Cursor) (h0 : 0 ≤ offset)
    (hlen : offset + sz ≤ src.length) :
    (setText colMask l src offset sz cursor).1.cpuCells =
      setTextCpu l.cpuCells src cursor.x (min sz.toNat (l.xnum - cursor.x)) offset := by
  rw [setText, if_neg (by omega), setTextLoop_eq src _ _ _ _ hlen _ _ _ _ le_rfl h0, add_sub_cancel_left]

section
variable (colMask : ℕ) (l : Line) {src : List ℕ} {offset sz : ℤ} (cursor : Cursor) (h0 : 0 ≤ offset)
  (hlen : offset + sz ≤ src.length)
include h0 hlen

theorem setText_cpuCells_written {p : ℕ} (h₁ : cursor.x ≤ p) (h₂ : p < cursor.x + min sz.toNat (l.xnum - cursor.x)) :
    (setText colMask l src offset sz cursor).1.cpuCells p =
      { CPUCell.zero with chOrIdx := src.getD (offset.toNat + (p - cursor.x)) 0 } := by
  rw [setText_cpuCells colMask l cursor h0 hlen, setTextCpu, if_pos ⟨h₁, h₂⟩,
    show (offset + ((p - cursor.x : ℕ) : ℤ)).toNat = offset.toNat + (p - cursor.x) by omega]

theorem setText_cpuCells_past {p : ℕ} (h : cursor.x + min sz.toNat (l.xnum - cursor.x) ≤ p) :
    (setText colMask l src offset sz cursor).1.cpuCells p = l.cpuCells p := by
  rw [setText_cpuCells colMask l cursor h0 hlen, setTextCpu, if_neg (by omega)]

end

/-- **What `set_text` writes, `unicode_in_range` reads back.** On a line whose
cells are valid, `set_text` from an offset `≥ 0`, with `offset + sz` inside
`src`, writes the columns `[x, x + min(sz, xnum - x))` from the cursor's
column `x`. The text of those columns is the slice of `src` from `offset`,
with each 0 made a space, or dropped with `skip_zero_cells`. A tab it writes
is a `\t` that swallows no cell. This is the text of a call that stays inside
its allocation. -/
theorem unicodeInRange_setText (colMask : ℕ) {l : Line} (hv : l.CellsValid) {src : List ℕ} {offset sz : ℤ}
    (cursor : Cursor) (h0 : 0 ≤ offset) (hlen : offset + sz ≤ src.length) (includeCc : Bool) (g : UnicodeBuf) :
    ((unicodeInRange (setText colMask l src offset sz cursor).1 cursor.x
        (cursor.x + min sz.toNat (l.xnum - cursor.x)) includeCc false false g).2.overflowed = false →
      (unicodeInRange (setText colMask l src offset sz cursor).1 cursor.x
          (cursor.x + min sz.toNat (l.xnum - cursor.x)) includeCc false false g).1 =
        ((src.drop offset.toNat).take (min sz.toNat (l.xnum - cursor.x))).map
          (fun c => if c = 0 then ' '.toNat else c)) ∧
    ((unicodeInRange (setText colMask l src offset sz cursor).1 cursor.x
        (cursor.x + min sz.toNat (l.xnum - cursor.x)) includeCc false true g).2.overflowed = false →
      (unicodeInRange (setText colMask l src offset sz cursor).1 cursor.x
          (cursor.x + min sz.toNat (l.xnum - cursor.x)) includeCc false true g).1 =
        ((src.drop offset.toNat).take (min sz.toNat (l.xnum - cursor.x))).filter (· ≠ 0)) := by
  have hvL := (plainWrites_setText colMask l src offset sz cursor).cellsValid hv
  have hxnum := (plainWrites_setText colMask l src offset sz cursor).xnum
  have hin := fun p => setText_cpuCells_written colMask l cursor h0 hlen (p := p)
  generalize (setText colMask l src offset sz cursor).1 = L at hvL hxnum hin ⊢
  generalize hk : min sz.toNat (l.xnum - cursor.x) = k at hin ⊢
  by_cases hx : cursor.x ≤ l.xnum
  · have hne : ∀ i < cursor.x + k, (textInCell (L.cpuCells i) L.textCache).chars ≠ [] :=
      fun i hi => hvL.chars_ne_nil (by omega)
    have hmap : (List.range' cursor.x k).map (fun p => (L.cpuCells p).chOrIdx) = (src.drop offset.toNat).take k := by
      rw [← range'_map_getD src cursor.x offset.toNat k fun j hj => by omega]
      refine List.map_congr_left fun p hp => ?_
      rw [List.mem_range'_1] at hp
      rw [hin p hp.1 hp.2]
    have hplain : ∀ p, cursor.x ≤ p → p < cursor.x + k → (L.cpuCells p).chIsIdx = false ∧ (L.cpuCells p).isMulticell = false :=
      fun p h₁ h₂ => by rw [hin p h₁ h₂]; exact ⟨rfl, rfl⟩
    rw [unicodeInRange_fst L hne, unicodeInRange_fst L hne, Nat.add_sub_cancel_left,
      flattenText_of_plainCells L includeCc false k cursor.x rfl hplain,
      flattenText_of_plainCells L includeCc true k cursor.x rfl hplain, hmap, flatMap_zeroAsSpace, flatMap_skipZero]
    exact ⟨fun _ => rfl, fun _ => rfl⟩
  · -- past the line nothing is written
    rw [show k = 0 by omega]
    simp [unicodeInRange, unicodeLoop]

theorem unicodeInRange_setText_xyz :
    (unicodeInRange (setText 0xFFFFFFFF (Line.ofString "xyz") ['a'.toNat, 0, '\t'.toNat] 0 3 redCursor).1
        redCursor.x (redCursor.x + min (3 : ℤ).toNat ((Line.ofString "xyz").xnum - redCursor.x)) true false false
        UnicodeBuf.empty).2.overflowed = false ∧
    (unicodeInRange (setText 0xFFFFFFFF (Line.ofString "xyz") ['a'.toNat, 0, '\t'.toNat] 0 3 redCursor).1
        redCursor.x (redCursor.x + min (3 : ℤ).toNat ((Line.ofString "xyz").xnum - redCursor.x)) true false false
        UnicodeBuf.empty).1 =
      ((['a'.toNat, 0, '\t'.toNat].drop (0 : ℤ).toNat).take
        (min (3 : ℤ).toNat ((Line.ofString "xyz").xnum - redCursor.x))).map (fun c => if c = 0 then ' '.toNat else c) ∧
    (unicodeInRange (setText 0xFFFFFFFF (Line.ofString "xyz") ['a'.toNat, 0, '\t'.toNat] 0 3 redCursor).1
        redCursor.x (redCursor.x + min (3 : ℤ).toNat ((Line.ofString "xyz").xnum - redCursor.x)) true false true
        UnicodeBuf.empty).2.overflowed = false ∧
    (unicodeInRange (setText 0xFFFFFFFF (Line.ofString "xyz") ['a'.toNat, 0, '\t'.toNat] 0 3 redCursor).1
        redCursor.x (redCursor.x + min (3 : ℤ).toNat ((Line.ofString "xyz").xnum - redCursor.x)) true false true
        UnicodeBuf.empty).1 =
      ((['a'.toNat, 0, '\t'.toNat].drop (0 : ℤ).toNat).take
        (min (3 : ℤ).toNat ((Line.ofString "xyz").xnum - redCursor.x))).filter (· ≠ 0) :=
  have h := unicodeInRange_setText 0xFFFFFFFF (by unfold Line.CellsValid; decide) redCursor le_rfl (by decide) true
    UnicodeBuf.empty
  have h₁ : (unicodeInRange (setText 0xFFFFFFFF (Line.ofString "xyz") ['a'.toNat, 0, '\t'.toNat] 0 3 redCursor).1
      redCursor.x (redCursor.x + min (3 : ℤ).toNat ((Line.ofString "xyz").xnum - redCursor.x)) true false false
      UnicodeBuf.empty).2.overflowed = false := by decide
  have h₂ : (unicodeInRange (setText 0xFFFFFFFF (Line.ofString "xyz") ['a'.toNat, 0, '\t'.toNat] 0 3 redCursor).1
      redCursor.x (redCursor.x + min (3 : ℤ).toNat ((Line.ofString "xyz").xnum - redCursor.x)) true false true
      UnicodeBuf.empty).2.overflowed = false := by decide
  ⟨h₁, h.1 h₁, h₂, h.2 h₂⟩

example : (unicodeInRange (setText 0xFFFFFFFF (Line.ofString "xyz") ['a'.toNat, 0, '\t'.toNat] 0 3 redCursor).1 0 3
    true false false UnicodeBuf.empty).1 = ['a'.toNat, ' '.toNat, '\t'.toNat] := by
  decide

/-- **`set_text` extends the length.** After a `set_text` as above that
writes at least one column, and none of whose code points is `BLANK_CHAR`,
the line's length is the old length or the column after the last written
one, whichever is larger. -/
theorem lineLength_setText (colMask : ℕ) (l : Line) {src : List ℕ} {offset sz : ℤ} (cursor : Cursor) (h0 : 0 ≤ offset)
    (hlen : offset + sz ≤ src.length) (hk : 0 < min sz.toNat (l.xnum - cursor.x))
    (hnz : blankChar ∉ (src.drop offset.toNat).take (min sz.toNat (l.xnum - cursor.x))) :
    lineLength (setText colMask l src offset sz cursor).1 =
      max (lineLength l) (cursor.x + min sz.toNat (l.xnum - cursor.x)) := by
  have hxnum := (plainWrites_setText colMask l src offset sz cursor).xnum
  have hin := fun p => setText_cpuCells_written colMask l cursor h0 hlen (p := p)
  have hout := fun p => setText_cpuCells_past colMask l cursor h0 hlen (p := p)
  generalize (setText colMask l src offset sz cursor).1 = L at hxnum hin hout ⊢
  generalize hk' : min sz.toNat (l.xnum - cursor.x) = k at hk hnz hin hout ⊢
  have hl := lineLength_lengthIs l
  refine (lineLength_lengthIs L).unique ⟨by have := hl.le; omega, fun y h₁ h₂ => ?_, fun _ => ?_⟩
  · rw [hout y (by omega)]
    exact hl.blank y (by omega) (by omega)
  · rcases Nat.lt_or_ge (cursor.x + k) (lineLength l) with hlt | hge
    · rw [max_eq_left hlt.le, hout _ (by omega)]
      exact hl.last (by omega)
    · -- the last written column holds a code point of the slice
      have hsrc : offset.toNat + (k - 1) < src.length := by omega
      have hi : k - 1 < ((src.drop offset.toNat).take k).length := by
        simp only [List.length_take, List.length_drop]
        omega
      have hmem : src.getD (offset.toNat + (k - 1)) 0 ∈ (src.drop offset.toNat).take k := by
        simpa [List.getElem?_eq_getElem hsrc] using List.getElem_mem hi
      have hne : src.getD (offset.toNat + (k - 1)) 0 ≠ blankChar := fun h => hnz (h ▸ hmem)
      rw [max_eq_right hge, hin _ (by omega) (by omega), show cursor.x + k - 1 - cursor.x = k - 1 by omega]
      simpa [cellIsChar, CPUCell.zero] using hne

theorem lineLength_setText_a :
    lineLength (setText 0xFFFFFFFF (lineClearText (Line.ofString "abcd") 1 3 blankChar) ['x'.toNat] 0 1
        redCursorAt1).1 =
      max (lineLength (lineClearText (Line.ofString "abcd") 1 3 blankChar))
        (redCursorAt1.x + min (1 : ℤ).toNat ((lineClearText (Line.ofString "abcd") 1 3 blankChar).xnum - redCursorAt1.x)) :=
  lineLength_setText 0xFFFFFFFF _ redCursorAt1 le_rfl (by decide) (by decide) (by decide)

example : lineLength (setText 0xFFFFFFFF (lineClearText (Line.ofString "abcd") 1 3 blankChar) ['x'.toNat] 0 1
    redCursorAt1).1 = 2 := by
  decide

/-- **What `line_clear_text` writes, `unicode_in_range` reads back.** On a line
whose cells are valid, when `at + num` does not pass `2^32`, the text of the
cleared columns `[at, min(at + num, xnum))` is `ch` once per column. A 0 is
made a space, or gives nothing with `skip_zero_cells`. This is the text of a
call that stays inside its allocation. -/
theorem unicodeInRange_lineClearText {l : Line} (hv : l.CellsValid) {at' num : ℕ} (ch : ℕ) (h : at' + num < 2 ^ 32)
    (includeCc : Bool) (g : UnicodeBuf) :
    ((unicodeInRange (lineClearText l at' num ch) at' (min (at' + num) l.xnum) includeCc false false g).2.overflowed =
        false →
      (unicodeInRange (lineClearText l at' num ch) at' (min (at' + num) l.xnum) includeCc false false g).1 =
        List.replicate (min (at' + num) l.xnum - at') (if ch = 0 then ' '.toNat else ch)) ∧
    ((unicodeInRange (lineClearText l at' num ch) at' (min (at' + num) l.xnum) includeCc false true g).2.overflowed =
        false →
      (unicodeInRange (lineClearText l at' num ch) at' (min (at' + num) l.xnum) includeCc false true g).1 =
        if ch = 0 then [] else List.replicate (min (at' + num) l.xnum - at') ch) := by
  have hvL := (plainWrites_lineClearText l at' num ch).cellsValid hv
  have hcells : ∀ p, at' ≤ p → p < min (at' + num) l.xnum →
      (lineClearText l at' num ch).cpuCells p = { CPUCell.zero with chOrIdx := ch } := fun p h₁ h₂ => by
    simp only [lineClearText, fillCells_clampNum _ _ _ _ _ h, if_pos (And.intro h₁ h₂)]
  have hc : min (at' + num) l.xnum ≤ (lineClearText l at' num ch).xnum := min_le_right _ _
  generalize lineClearText l at' num ch = L at hvL hcells hc ⊢
  generalize min (at' + num) l.xnum = c at hcells hc ⊢
  have hne : ∀ i < c, (textInCell (L.cpuCells i) L.textCache).chars ≠ [] := fun i hi => hvL.chars_ne_nil (by omega)
  rw [unicodeInRange_fst L hne, unicodeInRange_fst L hne]
  rcases Nat.lt_or_ge at' c with hlt | hge
  · have hplain : ∀ p, at' ≤ p → p < c → (L.cpuCells p).chIsIdx = false ∧ (L.cpuCells p).isMulticell = false :=
      fun p h₁ h₂ => by rw [hcells p h₁ h₂]; exact ⟨rfl, rfl⟩
    have hmap : (List.range' at' (c - at')).map (fun p => (L.cpuCells p).chOrIdx) = List.replicate (c - at') ch := by
      refine List.eq_replicate_iff.2 ⟨by simp, fun b hb => ?_⟩
      obtain ⟨p, hp, rfl⟩ := List.mem_map.1 hb
      rw [List.mem_range'_1] at hp
      rw [hcells p hp.1 (by omega)]
    rw [flattenText_of_plainCells L includeCc false (c - at') at' (by omega) hplain,
      flattenText_of_plainCells L includeCc true (c - at') at' (by omega) hplain, hmap, flatMap_zeroAsSpace,
      flatMap_skipZero, List.map_replicate, List.filter_replicate]
    by_cases h0 : ch = 0 <;> simp [h0]
  · -- an empty range
    rw [Nat.sub_eq_zero_of_le hge]
    simp [flattenText]

theorem unicodeInRange_lineClearText_abc :
    (unicodeInRange (lineClearText (Line.ofString "abc") 1 5 0) 1 (min (1 + 5) (Line.ofString "abc").xnum) true false
        false UnicodeBuf.empty).2.overflowed = false ∧
    (unicodeInRange (lineClearText (Line.ofString "abc") 1 5 0) 1 (min (1 + 5) (Line.ofString "abc").xnum) true false
        false UnicodeBuf.empty).1 =
      List.replicate (min (1 + 5) (Line.ofString "abc").xnum - 1) (if (0 : ℕ) = 0 then ' '.toNat else 0) ∧
    (unicodeInRange (lineClearText (Line.ofString "abc") 1 5 0) 1 (min (1 + 5) (Line.ofString "abc").xnum) true false
        true UnicodeBuf.empty).2.overflowed = false ∧
    (unicodeInRange (lineClearText (Line.ofString "abc") 1 5 0) 1 (min (1 + 5) (Line.ofString "abc").xnum) true false
        true UnicodeBuf.empty).1 =
      if (0 : ℕ) = 0 then [] else List.replicate (min (1 + 5) (Line.ofString "abc").xnum - 1) 0 :=
  have h := unicodeInRange_lineClearText (by unfold Line.CellsValid; decide) 0 (by decide) true UnicodeBuf.empty
  have h₁ : (unicodeInRange (lineClearText (Line.ofString "abc") 1 5 0) 1 (min (1 + 5) (Line.ofString "abc").xnum)
      true false false UnicodeBuf.empty).2.overflowed = false := by decide
  have h₂ : (unicodeInRange (lineClearText (Line.ofString "abc") 1 5 0) 1 (min (1 + 5) (Line.ofString "abc").xnum)
      true false true UnicodeBuf.empty).2.overflowed = false := by decide
  ⟨h₁, h.1 h₁, h₂, h.2 h₂⟩

/-! ### Keeping step with the marker -/

/-- An edit of plain cells keeps marking in step: every cell it writes holds
one code point. -/
theorem Line.PlainWrites.markInStep {l l' : Line} (h : l.PlainWrites l') (hs : l.MarkInStep) : l'.MarkInStep where
  valid := h.cellsValid hs.valid
  single i hi := (h.cells i).elim (fun he => he ▸ hs.single i (h.xnum ▸ hi)) (·.2)
  zeroAlone i hi := by
    rcases h.cells i with he | hp
    · rw [he, h.textCache]
      exact hs.zeroAlone i (h.xnum ▸ hi)
    · rw [textInCell_chars_of_not_idx _ hp.1]
      exact fun _ => rfl

/-- A `copy_char` from a line in step that shares the cache keeps a line in
step. -/
theorem copyChar_markInStep {source l : Line} (hc : source.textCache = l.textCache) (hss : source.MarkInStep)
    (hs : l.MarkInStep) {src dest : ℕ} {l' : Line} (h : copyChar source src l dest = .ok l') : l'.MarkInStep := by
  have hv' := (copyChar_cellsValid hc.symm hss.valid hs.valid h).1
  unfold copyChar at h
  split_ifs at h with hb
  cases h
  have hsrc : src < source.xnum := by omega
  refine ⟨hv', fun i hi => ?_, fun i hi => ?_⟩
  · by_cases hid : i = dest
    · subst hid
      simp only [Function.update_same]
      exact hss.single src hsrc
    · simp only [Function.update_noteq hid]
      exact hs.single i hi
  · by_cases hid : i = dest
    · subst hid
      simp only [Function.update_same]
      rw [← hc]
      exact hss.zeroAlone src hsrc
    · simp only [Function.update_noteq hid]
      exact hs.zeroAlone i hi

theorem addCombiningChar_ok_bounds {insert : TextCache → List ℕ → TextCache × ℕ} {l : Line} {x ch : ℕ} {l' : Line}
    (h : addCombiningChar insert l x ch = .ok l') : x < l.xnum ∧ (l.cpuCells x).isMulticell = false := by
  unfold addCombiningChar at h
  split_ifs at h with h₁ h₂
  exact ⟨Nat.lt_of_not_le h₁, by simpa using h₂⟩

section
variable (insert : TextCache → List ℕ → TextCache × ℕ) {l : Line} {x ch : ℕ}
  (hins : Interns l.textCache ((textInCell (l.cpuCells x) l.textCache).chars ++ [ch])
    (insert l.textCache ((textInCell (l.cpuCells x) l.textCache).chars ++ [ch])))
  {l' : Line} (h : addCombiningChar insert l x ch = .ok l')
include hins h

/-- On a valid line, `add_combining_char` at a cell whose first code point is
0 gives a cell of two code points or more whose first one is 0. -/
theorem addCombiningChar_not_markInStep (hv : l.CellsValid)
    (h0 : (textInCell (l.cpuCells x) l.textCache).chars.headD 0 = 0) : ¬ l'.MarkInStep := by
  have hx := (addCombiningChar_ok_bounds h).1
  obtain ⟨-, -, -, -, htx⟩ := addCombiningChar_ok_cells insert hv hins h
  have hne := hv.chars_ne_nil hx
  intro hs'
  have hone := hs'.zeroAlone x ((addCombiningChar_cellsValid insert hv hins h).2.1 ▸ hx)
    (by rw [htx, headD_append_of_ne_nil hne, h0])
  rw [htx, List.length_append, List.length_singleton] at hone
  exact hne (List.length_eq_zero.1 (by omega))

/-- On a line in step, `add_combining_char` at a cell whose first code point
is not 0 keeps the line in step. -/
theorem addCombiningChar_markInStep (hs : l.MarkInStep)
    (h0 : (textInCell (l.cpuCells x) l.textCache).chars.headD 0 ≠ 0) : l'.MarkInStep := by
  obtain ⟨hcell, htext, hm', -, htx⟩ := addCombiningChar_ok_cells insert hs.valid hins h
  obtain ⟨hv', hxnum, -⟩ := addCombiningChar_cellsValid insert hs.valid hins h
  refine ⟨hv', fun i hi => ?_, fun i hi => ?_⟩
  · by_cases hix : i = x
    · subst hix
      exact hm'
    · rw [hcell i hix]
      exact hs.single i (hxnum ▸ hi)
  · by_cases hix : i = x
    · -- the cell's first code point is still its old one
      subst hix
      rw [htx, headD_append_of_ne_nil (hs.valid.chars_ne_nil (hxnum ▸ hi))]
      exact fun h0' => absurd h0' h0
    · rw [htext i (hxnum ▸ hi) hix]
      exact hs.zeroAlone i (hxnum ▸ hi)

/-- **A combining code point on a blank cell puts marking out of step.** On a
line in step, a successful `add_combining_char` leaves the line in step
exactly when the first code point of its cell is not 0. Otherwise the cell
holds 0 and other code points, which `apply_mark` counts as one code point
while `line_as_unicode` writes them all. -/
theorem addCombiningChar_markInStep_iff (hs : l.MarkInStep) :
    l'.MarkInStep ↔ (textInCell (l.cpuCells x) l.textCache).chars.headD 0 ≠ 0 :=
  ⟨fun hs' h0 => addCombiningChar_not_markInStep insert hins h hs.valid h0 hs',
    addCombiningChar_markInStep insert hins h hs⟩

end

theorem markInStep_ab : (Line.ofString "ab").MarkInStep := ⟨by unfold Line.CellsValid; decide, by decide, by decide⟩

/-- An `add_combining_char` that succeeds at a cell whose first code point is 0. -/
def Line.ZeroCombine (l l' : Line) : Prop :=
  ∃ (insert : TextCache → List ℕ → TextCache × ℕ) (x ch : ℕ),
    Interns l.textCache ((textInCell (l.cpuCells x) l.textCache).chars ++ [ch])
      (insert l.textCache ((textInCell (l.cpuCells x) l.textCache).chars ++ [ch])) ∧
    addCombiningChar insert l x ch = .ok l' ∧ (textInCell (l.cpuCells x) l.textCache).chars.headD 0 = 0

/-- A `copy_char` that succeeds, from a valid line sharing the cache that is
out of step. -/
def Line.StrayCopy (l l' : Line) : Prop :=
  ∃ (source : Line) (src dest : ℕ), source.textCache = l.textCache ∧ source.CellsValid ∧ ¬ source.MarkInStep ∧
    copyChar source src l dest = .ok l'

/-- **One edit keeps a line in step**, unless it is an `add_combining_char`
at a cell whose first code point is 0 or a `copy_char` from a line out of
step. -/
theorem LineEdit.markInStep {l l' : Line} (h : LineEdit l l') (hs : l.MarkInStep) :
    l'.MarkInStep ∨ l.ZeroCombine l' ∨ l.StrayCopy l' := by
  cases h with
  | clearText l at' num ch => exact .inl ((plainWrites_lineClearText l at' num ch).markInStep hs)
  | applyCursor l cursor at' num clearChar =>
    exact .inl ((plainWrites_lineApplyCursor l cursor at' num clearChar).markInStep hs)
  | text colMask l src offset sz cursor => exact .inl ((plainWrites_setText colMask l src offset sz cursor).markInStep hs)
  | char O colMask l at' ch width cursor hyperlinkId h =>
    obtain ⟨-, -, rfl⟩ := setChar_eq_ok.1 h
    exact .inl ((plainWrites_lineSetChar O colMask l at' ch cursor hyperlinkId).markInStep hs)
  | combining insert l x ch hins h =>
    by_cases h0 : (textInCell (l.cpuCells x) l.textCache).chars.headD 0 = 0
    · exact .inr (.inl ⟨insert, x, ch, hins, h, h0⟩)
    · exact .inl (addCombiningChar_markInStep insert hins h hs h0)
  | copy source src l dest hc hvs h =>
    by_cases hss : source.MarkInStep
    · exact .inl (copyChar_markInStep hc hss hs h)
    · exact .inr (.inr ⟨source, src, dest, hc, hvs, hss, h⟩)

/-- **Marking stays in step along a run of edits, up to the first stray
edit.** A run of edits from a line in step ends at a line in step, or it
passes through one of two edits made at a line still in step: an
`add_combining_char` at a cell whose first code point is 0, or a `copy_char`
from a line out of step. -/
theorem lineEdit_run_markInStep {l l' : Line} (h : Relation.ReflTransGen LineEdit l l') (hs : l.MarkInStep) :
    l'.MarkInStep ∨ ∃ a b, Relation.ReflTransGen LineEdit l a ∧ a.MarkInStep ∧ (a.ZeroCombine b ∨ a.StrayCopy b) ∧
      Relation.ReflTransGen LineEdit b l' := by
  induction h with
  | refl => exact .inl hs
  | @tail m n hrun step ih =>
    rcases ih with hm | ⟨a, b, ha, has, hab, hb⟩
    · rcases step.markInStep hm with hn | hab
      · exact .inl hn
      · exact .inr ⟨m, n, hrun, hm, hab, .refl⟩
    · exact .inr ⟨a, b, ha, has, hab, hb.tail step⟩

theorem lineEdit_run_markInStep_ab :
    (lineClearText accentedAb 1 1 0).MarkInStep ∨ ∃ a b, Relation.ReflTransGen LineEdit (Line.ofString "ab") a ∧
      a.MarkInStep ∧ (a.ZeroCombine b ∨ a.StrayCopy b) ∧ Relation.ReflTransGen LineEdit b (lineClearText accentedAb 1 1 0) :=
  lineEdit_run_markInStep accentedAb_run markInStep_ab

example : (lineClearText accentedAb 1 1 0).MarkInStep := ⟨by unfold Line.CellsValid; decide, by decide, by decide⟩

end KittyLine
