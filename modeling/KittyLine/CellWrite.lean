/-
# Writing one cell, and the length of a line

`line_set_char` clears the CPU cell at a column and writes a base code point
and a hyperlink there; with a cursor it gives the GPU cell the cursor's
attributes and colors, and under the hyperlink underline policy "always" a
linked cell gets the configured URL color and style. `set_char` refuses a
column past the line and every width but 1. `line_get_char` reads a cell's
first code point, 0 for an indexed cell of a multi-cell glyph other than its
top-left one. `add_combining_char` appends a code point to a cell's text and
interns the result in the text cache; it refuses a column past the line and
every cell of a multi-cell glyph, its top-left one included. `copy_char`
copies a column's two cells to a column of another line. `line_length` scans
from the last column back for a cell that is not blank. `width` reads a
column's width in cells.

`set_char` writes what `line_get_char` and `text_at` read back and touches no
other column (`setChar_eq_ok`, `lineGetChar_setChar`); under "always" a linked
cell renders with the URL style and, as a truecolor, the URL color
(`renditionOf_lineSetChar_link`). On a line whose cells
are valid (§3.1), `add_combining_char` keeps them valid, `text_at` reads the
cell's old text followed by the new code point, and every cell of any line
sharing the cache reads the text it read (`addCombiningChar_spec`); in the
text `unicode_in_range` gives, the new code point comes right after the
cell's, and nothing else moves (`unicodeInRange_addCombiningChar`); between
lines sharing the cache, `copy_char` keeps the cells valid and the copy reads
as the original (`copyChar_spec`). `line_length` is the column after the last
cell that is not blank (`lineLength_eq_iff`); a clear to the end of the line
cuts it at the clear's start, and a `set_char` of a code point that is not
blank moves it past the column (`lineLength_lineClearText`,
`lineLength_setChar`). `width` returns NULL without an exception, not 0,
on every blank column, and so on every column from `line_length` on
(`width_of_lineLength_le`).

`cell_set_char`, `cell_has_text`, `COPY_CELL`, `BLANK_CHAR`,
`tc_get_or_insert_chars` and the options `line_set_char` reads live outside
`line.c`; they are modelled from the spec (§4.4, §6.2), the cache's interning
as the law a call must keep (`Interns`).

Key definitions: `lineGetChar`, `LineOptions`, `lineSetChar`, `setChar`,
`Interns`, `addCombiningChar`, `copyChar`, `lineLength`, `Line.LengthIs`,
`PyResult`, `width`.
Key theorems: `setChar_eq_ok`, `renditionOf_lineSetChar_link`, `addCombiningChar_spec`,
`unicodeInRange_addCombiningChar`, `copyChar_spec`, `lineLength_eq_iff`,
`lineLength_lineClearText`, `lineLength_setChar`, `width_of_lineLength_le`.
-/
import KittyLine.Mutators
import KittyLine.Flatten

namespace KittyLine

/-! ### `line_get_char`, `line_set_char` and `set_char` -/

/-- `line_get_char(self, at)`: the cell's first code point; 0 for an indexed
cell of a multi-cell glyph other than its top-left one. -/
def lineGetChar (l : Line) (at' : ℕ) : ℕ :=
  if (l.cpuCells at').chIsIdx then
    let lc := textInCell (l.cpuCells at') l.textCache
    if lc.isMulticell && !lc.isTopleft then 0 else lc.chars.headD 0
  else (l.cpuCells at').chOrIdx

/-- Modelled from the spec: `cell_set_char`, which writes a base code point
into a CPU cell (§4.4). -/
def cellSetChar (c : CPUCell) (ch : ℕ) : CPUCell := { c with chOrIdx := ch, chIsIdx := false }

/-- Modelled from the spec: the process-wide options `line_set_char` reads
(§6.2): whether `underline_hyperlinks` is `UNDERLINE_ALWAYS`, `url_color` and
`url_style`. -/
structure LineOptions where
  underlineAlways : Bool
  urlColor : ℕ
  urlStyle : ℕ

/-- kitty's default options: links underlined on hover, `url_color` `#0087bd`,
`url_style` curly. -/
def LineOptions.sample : LineOptions := ⟨false, 0x0087bd, 3⟩

def setCharGpu (O : LineOptions) (colMask : ℕ) (g : GPUCell) (cursor : Option Cursor) (hyperlinkId : ℕ) :
    GPUCell :=
  let g := match cursor with
    | some c => { g with attrs := cursorToAttrs c, fg := c.fg &&& colMask, bg := c.bg &&& colMask
                         decorationFg := c.decorationFg &&& colMask }
    | none => g
  if O.underlineAlways && hyperlinkId != 0 then
    { g with decorationFg := ((O.urlColor &&& colMask) <<< 8) ||| 2
             attrs := { g.attrs with decoration := O.urlStyle } }
  else g

/-- `line_set_char(self, at, ch, cursor, hyperlink_id)` (`none` for a NULL
cursor), with `COL_MASK` as `colMask`: `c->val = 0`, then the code point and
the hyperlink. -/
def lineSetChar (O : LineOptions) (colMask : ℕ) (l : Line) (at' ch : ℕ) (cursor : Option Cursor)
    (hyperlinkId : ℕ) : Line :=
  { l with
    cpuCells := Function.update l.cpuCells at' { cellSetChar CPUCell.zero ch with hyperlinkId := hyperlinkId }
    gpuCells := Function.update l.gpuCells at' (setCharGpu O colMask (l.gpuCells at') cursor hyperlinkId) }

/-- `set_char(at, ch, width=1, cursor=None, hyperlink_id=0)`: the line, or the
error it raises. -/
def setChar (O : LineOptions) (colMask : ℕ) (l : Line) (at' ch width : ℕ) (cursor : Option Cursor)
    (hyperlinkId : ℕ) : Except String Line :=
  if at' ≥ l.xnum then .error "Out of bounds"
  else if width ≠ 1 then .error "TODO: Implement setting wide char"
  else .ok (lineSetChar O colMask l at' ch cursor hyperlinkId)

/-- `set_char` succeeds exactly on a column of the line with width 1, and then
writes `line_set_char`'s line. -/
theorem setChar_eq_ok {O : LineOptions} {colMask : ℕ} {l : Line} {at' ch width : ℕ} {cursor : Option Cursor}
    {hyperlinkId : ℕ} {l' : Line} :
    setChar O colMask l at' ch width cursor hyperlinkId = .ok l' ↔
      at' < l.xnum ∧ width = 1 ∧ l' = lineSetChar O colMask l at' ch cursor hyperlinkId := by
  unfold setChar
  split_ifs with h₁ h₂
  · exact ⟨(fun h => by cases h), fun h => absurd h.1 (by omega)⟩
  · exact ⟨(fun h => by cases h), fun h => absurd h.2.1 h₂⟩
  · exact ⟨fun h => ⟨by omega, by omega, (Except.ok.inj h).symm⟩, fun h => h.2.2 ▸ rfl⟩

section
variable (O : LineOptions) (colMask : ℕ) (l : Line) (at' ch : ℕ) (cursor : Option Cursor) (hyperlinkId : ℕ)

@[simp] theorem lineSetChar_xnum : (lineSetChar O colMask l at' ch cursor hyperlinkId).xnum = l.xnum := rfl

@[simp] theorem lineSetChar_textCache :
    (lineSetChar O colMask l at' ch cursor hyperlinkId).textCache = l.textCache := rfl

theorem lineSetChar_cpuCells_of_ne {y : ℕ} (hy : y ≠ at') :
    (lineSetChar O colMask l at' ch cursor hyperlinkId).cpuCells y = l.cpuCells y :=
  Function.update_noteq hy _ _

theorem lineSetChar_gpuCells_of_ne {y : ℕ} (hy : y ≠ at') :
    (lineSetChar O colMask l at' ch cursor hyperlinkId).gpuCells y = l.gpuCells y :=
  Function.update_noteq hy _ _

theorem cellIsChar_lineSetChar :
    cellIsChar ((lineSetChar O colMask l at' ch cursor hyperlinkId).cpuCells at') ch = true := by
  simp [lineSetChar, cellIsChar, cellSetChar]

/-- `line_get_char` and `text_at` read back what `line_set_char` wrote. -/
theorem lineGetChar_setChar :
    lineGetChar (lineSetChar O colMask l at' ch cursor hyperlinkId) at' = ch ∧
    (at' < l.xnum → textAt (lineSetChar O colMask l at' ch cursor hyperlinkId) at' = .ok [ch]) := by
  have h := cellIsChar_eq_true.1 (cellIsChar_lineSetChar O colMask l at' ch cursor hyperlinkId)
  refine ⟨by simp [lineGetChar, h.1, h.2], fun hx => ?_⟩
  simp [textAt, hx.not_le, h.1, h.2]

end

theorem urlColorWord_eq (u : ℕ) : (u <<< 8) ||| 2 = 256 * u + 2 := by
  rw [Nat.shiftLeft_eq, Nat.mul_comm, ← Nat.mul_add_lt_is_or (by decide : 2 < 2 ^ 8)]

/-- **A linked cell under "always" shows the URL style and color.** When the
policy is `UNDERLINE_ALWAYS` and the hyperlink id is not 0, the cell
`line_set_char` writes renders, whatever the cursor, with the underline style
`url_style` and the underline color the truecolor whose red, green and blue
are the bytes 16..23, 8..15 and 0..7 of `url_color & COL_MASK`. -/
theorem renditionOf_lineSetChar_link (O : LineOptions) (hO : O.underlineAlways = true) (colMask : ℕ) (l : Line)
    (at' ch : ℕ) (cursor : Option Cursor) {hyperlinkId : ℕ} (hid : hyperlinkId ≠ 0) :
    (renditionOf ((lineSetChar O colMask l at' ch cursor hyperlinkId).gpuCells at')).decoration = O.urlStyle ∧
    (renditionOf ((lineSetChar O colMask l at' ch cursor hyperlinkId).gpuCells at')).decorationFg =
      .rgb ((O.urlColor &&& colMask) / 2 ^ 16 % 256) ((O.urlColor &&& colMask) / 2 ^ 8 % 256)
        ((O.urlColor &&& colMask) % 256) := by
  have hg : (lineSetChar O colMask l at' ch cursor hyperlinkId).gpuCells at' =
      setCharGpu O colMask (l.gpuCells at') cursor hyperlinkId := Function.update_same _ _ _
  have hlink : (O.underlineAlways && hyperlinkId != 0) = true := by simp [hO, hid]
  rw [hg]
  unfold setCharGpu
  dsimp only
  rw [if_pos hlink]
  refine ⟨rfl, ?_⟩
  simp only [renditionOf, colorOf, urlColorWord_eq]
  generalize O.urlColor &&& colMask = u
  rw [if_neg (by omega), if_pos (by omega)]
  congr 1 <;> omega

/-! ### `add_combining_char` -/

/-- Modelled from the spec: what a call of `tc_get_or_insert_chars(tc, cs)`
returning the cache and index `r` keeps (§6.2, "interning"): `r.1` holds `cs`
at `r.2`, every other index keeps its entry, and the index either held `cs`
already or held nothing, so that no cell with text was naming it. Interning
code points leaves the glyph data of every entry as it was. -/
structure Interns (tc : TextCache) (cs : List ℕ) (r : TextCache × ℕ) : Prop where
  lookup : r.1.chars r.2 = cs
  keeps : ∀ i ≠ r.2, r.1.chars i = tc.chars i
  fresh : tc.chars r.2 = cs ∨ tc.chars r.2 = []
  multicellData : r.1.multicellData = tc.multicellData

theorem Interns.chars_eq {tc : TextCache} {cs : List ℕ} {r : TextCache × ℕ} (h : Interns tc cs r) {i : ℕ}
    (hi : tc.chars i ≠ []) : r.1.chars i = tc.chars i := by
  by_cases hr : i = r.2
  · subst hr
    rcases h.fresh with h' | h'
    · rw [h.lookup, h']
    · exact absurd h' hi
  · exact h.keeps i hr

/-- `text_in_cell` reads the code points of the cache only at an indexed
cell's entry. -/
theorem textInCell_congr {c : CPUCell} {tc tc' : TextCache} (h : c.chIsIdx = true → tc'.chars c.chOrIdx = tc.chars c.chOrIdx)
    (hm : tc'.multicellData = tc.multicellData) : textInCell c tc' = textInCell c tc := by
  cases hc : c.chIsIdx
  · simp [textInCell, cellMulticellData, hc, hm]
  · simp [textInCell, cellMulticellData, hc, h hc, hm]

theorem Interns.textInCell {tc : TextCache} {cs : List ℕ} {r : TextCache × ℕ} (h : Interns tc cs r) {c : CPUCell}
    (hc : c.chIsIdx = true → tc.chars c.chOrIdx ≠ []) : textInCell c r.1 = textInCell c tc :=
  textInCell_congr (fun hi => h.chars_eq (hc hi)) h.multicellData

/-- The cache `tc'` keeps every entry of `tc` that held code points, and the
glyph data of all, so that every valid line over `tc` reads the same text
over `tc'`. -/
structure TextCache.Keeps (tc tc' : TextCache) : Prop where
  chars : ∀ i, tc.chars i ≠ [] → tc'.chars i = tc.chars i
  multicellData : tc'.multicellData = tc.multicellData

theorem TextCache.Keeps.refl (tc : TextCache) : tc.Keeps tc := ⟨fun _ _ => rfl, rfl⟩

theorem TextCache.Keeps.trans {tc₁ tc₂ tc₃ : TextCache} (h₁ : tc₁.Keeps tc₂) (h₂ : tc₂.Keeps tc₃) : tc₁.Keeps tc₃ :=
  ⟨fun i hi => by rw [h₂.chars i (by rw [h₁.chars i hi]; exact hi), h₁.chars i hi],
    h₂.multicellData.trans h₁.multicellData⟩

theorem Interns.cache_keeps {tc : TextCache} {cs : List ℕ} {r : TextCache × ℕ} (h : Interns tc cs r) : tc.Keeps r.1 :=
  ⟨fun _ hi => h.chars_eq hi, h.multicellData⟩

theorem TextCache.Keeps.textInCell {L : Line} {tc : TextCache} (h : L.textCache.Keeps tc) (hv : L.CellsValid) {y : ℕ}
    (hy : y < L.xnum) : textInCell (L.cpuCells y) tc = textInCell (L.cpuCells y) L.textCache :=
  textInCell_congr (fun hi => h.chars _ (hv y hy hi)) h.multicellData

/-- A cache that holds `cs` at the index `n`: an interning whenever `n` held
`cs` or nothing. -/
def TextCache.internAt (n : ℕ) (tc : TextCache) (cs : List ℕ) : TextCache × ℕ :=
  ({ tc with chars := Function.update tc.chars n cs }, n)

theorem TextCache.internAt_interns {n : ℕ} {tc : TextCache} {cs : List ℕ} (h : tc.chars n = cs ∨ tc.chars n = []) :
    Interns tc cs (tc.internAt n cs) :=
  ⟨Function.update_same _ _ _, fun _ hi => Function.update_noteq hi _ _, h, rfl⟩

/-- `add_combining_char(x, ch)`, with the cache's `tc_get_or_insert_chars` as
`insert`: the line, or the error it raises. -/
def addCombiningChar (insert : TextCache → List ℕ → TextCache × ℕ) (l : Line) (x ch : ℕ) : Except String Line :=
  if x ≥ l.xnum then .error "Column index out of bounds"
  else if (l.cpuCells x).isMulticell then .error "cannot set combining char in a multicell"
  else
    let r := insert l.textCache ((textInCell (l.cpuCells x) l.textCache).chars ++ [ch])
    .ok { l with
      cpuCells := Function.update l.cpuCells x { l.cpuCells x with chOrIdx := r.2, chIsIdx := true }
      textCache := r.1 }

theorem textAt_of_not_multicell {l : Line} {x : ℕ} (hx : x < l.xnum) (hm : (l.cpuCells x).isMulticell = false) :
    textAt l x = .ok (textInCell (l.cpuCells x) l.textCache).chars := by
  unfold textAt
  rw [if_neg hx.not_le]
  cases h : (l.cpuCells x).chIsIdx <;> simp [h, hm, tcCharsAtIndex, textInCell]

/-- A successful `add_combining_char` keeps the line's cells valid and its
width, and its cache keeps every entry that held code points. -/
theorem addCombiningChar_cellsValid (insert : TextCache → List ℕ → TextCache × ℕ) {l : Line} (hv : l.CellsValid)
    {x ch : ℕ} (hins : Interns l.textCache ((textInCell (l.cpuCells x) l.textCache).chars ++ [ch])
      (insert l.textCache ((textInCell (l.cpuCells x) l.textCache).chars ++ [ch]))) {l' : Line}
    (h : addCombiningChar insert l x ch = .ok l') :
    l'.CellsValid ∧ l'.xnum = l.xnum ∧ l.textCache.Keeps l'.textCache := by
  unfold addCombiningChar at h
  split_ifs at h
  cases h
  generalize insert l.textCache ((textInCell (l.cpuCells x) l.textCache).chars ++ [ch]) = r at hins
  refine ⟨fun i hi hidx => ?_, rfl, hins.cache_keeps⟩
  by_cases hix : i = x
  · -- the new entry holds code points
    subst hix
    simp [hins.lookup]
  · -- every other entry is kept
    simp only [Function.update_noteq hix] at hidx ⊢
    rw [hins.chars_eq (hv i hi hidx)]
    exact hv i hi hidx

theorem addCombiningChar_isOk (insert : TextCache → List ℕ → TextCache × ℕ) {l : Line} {x : ℕ} (ch : ℕ)
    (hx : x < l.xnum) (hm : (l.cpuCells x).isMulticell = false) : ∃ l', addCombiningChar insert l x ch = .ok l' :=
  ⟨_, by rw [addCombiningChar, if_neg hx.not_le, if_neg (by rw [hm]; exact Bool.false_ne_true)]⟩

/-- What a successful `add_combining_char` changes: the cell at `x` comes to
hold its old code points followed by `ch`, through an index, and every other
cell keeps its text. -/
theorem addCombiningChar_ok_cells (insert : TextCache → List ℕ → TextCache × ℕ) {l : Line} (hv : l.CellsValid)
    {x ch : ℕ} (hins : Interns l.textCache ((textInCell (l.cpuCells x) l.textCache).chars ++ [ch])
      (insert l.textCache ((textInCell (l.cpuCells x) l.textCache).chars ++ [ch]))) {l' : Line}
    (h : addCombiningChar insert l x ch = .ok l') :
    (∀ y ≠ x, l'.cpuCells y = l.cpuCells y) ∧
      (∀ y < l.xnum, y ≠ x → textInCell (l'.cpuCells y) l'.textCache = textInCell (l.cpuCells y) l.textCache) ∧
      (l'.cpuCells x).isMulticell = false ∧ cellIsChar (l'.cpuCells x) ' '.toNat = false ∧
      (textInCell (l'.cpuCells x) l'.textCache).chars = (textInCell (l.cpuCells x) l.textCache).chars ++ [ch] := by
  unfold addCombiningChar at h
  split_ifs at h with hx hm
  cases h
  generalize insert l.textCache ((textInCell (l.cpuCells x) l.textCache).chars ++ [ch]) = r at hins
  have hcx : Function.update l.cpuCells x { l.cpuCells x with chOrIdx := r.2, chIsIdx := true } x =
      { l.cpuCells x with chOrIdx := r.2, chIsIdx := true } := Function.update_same _ _ _
  refine ⟨fun y hy => Function.update_noteq hy _ _, fun y hy hyx => ?_, by simpa [hcx] using hm,
    by simp [hcx, cellIsChar], ?_⟩
  · dsimp only
    rw [Function.update_noteq hyx]
    exact hins.textInCell (hv y hy)
  · dsimp only
    rw [textInCell_chars_of_idx _ (by rw [hcx]), hcx]
    exact hins.lookup

/-- **`add_combining_char` on a valid line.** On a line whose cells are valid,
at a column of the line whose cell is not of a multi-cell glyph, and with an
interning call, `add_combining_char` succeeds; its line's cells are valid,
`text_at` reads the cell's old text followed by `ch`, no other column
changes, and every cell of every valid line that shares the cache reads under
the new cache the text it read. -/
theorem addCombiningChar_spec (insert : TextCache → List ℕ → TextCache × ℕ) {l : Line} (hv : l.CellsValid)
    {x : ℕ} (ch : ℕ) (hx : x < l.xnum) (hm : (l.cpuCells x).isMulticell = false)
    (hins : Interns l.textCache ((textInCell (l.cpuCells x) l.textCache).chars ++ [ch])
      (insert l.textCache ((textInCell (l.cpuCells x) l.textCache).chars ++ [ch]))) :
    ∃ l', addCombiningChar insert l x ch = .ok l' ∧ l'.CellsValid ∧
      textAt l' x = .ok ((textInCell (l.cpuCells x) l.textCache).chars ++ [ch]) ∧
      (∀ y ≠ x, l'.cpuCells y = l.cpuCells y) ∧
      ∀ L : Line, L.textCache = l.textCache → L.CellsValid →
        ∀ y < L.xnum, textInCell (L.cpuCells y) l'.textCache = textInCell (L.cpuCells y) L.textCache := by
  obtain ⟨l', hok⟩ := addCombiningChar_isOk insert ch hx hm
  obtain ⟨hcell, -, hm', -, htx⟩ := addCombiningChar_ok_cells insert hv hins hok
  obtain ⟨hv', hxnum, hkeep⟩ := addCombiningChar_cellsValid insert hv hins hok
  refine ⟨l', hok, hv', by rw [textAt_of_not_multicell (hxnum ▸ hx) hm', htx], hcell,
    fun L hL hLv y hy => (hL ▸ hkeep).textInCell hLv hy⟩

/-! ### A combining code point in the text -/

theorem headD_append_of_ne_nil {cs : List ℕ} (h : cs ≠ []) (ch : ℕ) : (cs ++ [ch]).headD 0 = cs.headD 0 := by
  obtain ⟨c, cs, rfl⟩ := List.exists_cons_of_ne_nil h
  rfl

theorem zeroAsSpace_append {cs : List ℕ} (h : cs ≠ []) (ch : ℕ) : zeroAsSpace (cs ++ [ch]) = zeroAsSpace cs ++ [ch] := by
  obtain ⟨c, cs, rfl⟩ := List.exists_cons_of_ne_nil h
  simp only [zeroAsSpace, List.cons_append, List.headD_cons, List.tail_cons]
  split <;> rfl

theorem headD_zeroAsSpace_ne_tab {cs : List ℕ} (h : cs.headD 0 ≠ '\t'.toNat) : (zeroAsSpace cs).headD 0 ≠ '\t'.toNat := by
  unfold zeroAsSpace
  split
  · simp only [List.headD_cons]
    decide
  · exact h

theorem flattenText_succ (l : Line) {limit x : ℕ} (includeCc skipZeroCells : Bool) (hx : x < limit)
    (h : (flattenCell l limit includeCc skipZeroCells x).2 = x + 1) :
    flattenText l limit includeCc skipZeroCells (limit - x) x =
      (flattenCell l limit includeCc skipZeroCells x).1 ++ flattenText l limit includeCc skipZeroCells (limit - (x + 1)) (x + 1) := by
  rw [show limit - x = limit - (x + 1) + 1 by omega, flattenText, if_pos hx, h]

theorem flattenCell_of_plain (l : Line) {limit x : ℕ} (skipZeroCells : Bool)
    (hm : (l.cpuCells x).isMulticell = false)
    (htab : (textInCell (l.cpuCells x) l.textCache).chars.headD 0 ≠ '\t'.toNat)
    (hzero : (textInCell (l.cpuCells x) l.textCache).chars.headD 0 ≠ 0 ∨ skipZeroCells = false) :
    flattenCell l limit true skipZeroCells x = (zeroAsSpace (textInCell (l.cpuCells x) l.textCache).chars, x + 1) := by
  have hz : ¬((textInCell (l.cpuCells x) l.textCache).chars.headD 0 = 0 ∧ skipZeroCells = true) := by
    rintro ⟨h₁, h₂⟩
    rcases hzero with h | h
    · exact h h₁
    · exact Bool.false_ne_true (h.symm.trans h₂)
  simp only [flattenCell, CPUCell.isContinuation, hm, Bool.false_and, Bool.false_eq_true, if_false, if_neg hz,
    if_true, cellText, if_neg (headD_zeroAsSpace_ne_tab htab)]

/-- **The text of a range, cut at a plain cell.** Over columns whose cells
have code points, if no cell before the plain cell `x` goes on past it, the
text of `[a, c)` is that of `[a, x)`, the cell's code points and that of
`[x + 1, c)`. -/
theorem unicodeInRange_at_plain (l : Line) {a c x : ℕ} (skipZeroCells : Bool)
    (hv : ∀ i < c, (textInCell (l.cpuCells i) l.textCache).chars ≠ []) (hax : a ≤ x) (hxc : x < c)
    (hm : (l.cpuCells x).isMulticell = false)
    (htab : (textInCell (l.cpuCells x) l.textCache).chars.headD 0 ≠ '\t'.toNat)
    (hzero : (textInCell (l.cpuCells x) l.textCache).chars.headD 0 ≠ 0 ∨ skipZeroCells = false)
    (hb : ∀ t, a ≤ t → t < x → (flattenCell l c true skipZeroCells t).2 ≤ x) (g : UnicodeBuf) :
    (unicodeInRange l a c true false skipZeroCells g).1 =
      (unicodeInRange l a x true false skipZeroCells g).1 ++ zeroAsSpace (textInCell (l.cpuCells x) l.textCache).chars ++
        (unicodeInRange l (x + 1) c true false skipZeroCells g).1 := by
  have hf : flattenCell l c true skipZeroCells x = _ := flattenCell_of_plain l skipZeroCells hm htab hzero
  rw [unicodeInRange_fst l hv, unicodeInRange_fst l (fun i hi => hv i (by omega)), unicodeInRange_fst l hv,
    flattenText_cut l true skipZeroCells hxc.le a hax hb, flattenText_succ l true skipZeroCells hxc (by rw [hf]), hf,
    List.append_assoc]

/-- **A combining code point shows right after its cell.** On a line whose
cells are valid, let `add_combining_char(x, ch)` succeed at a cell that is
neither a tab (whose second code point is its skip count) nor, with
`skip_zero_cells`, a zero cell, and that no tab of the range before it
swallows. Then over a range holding `x`, `unicode_in_range` gives before the
call the text of the columns before `x`, the cell's text and the text of the
columns after it, and after the call the same with `ch` right after the
cell's text, whatever the buffer held, for calls that stay inside their
allocations. -/
theorem unicodeInRange_addCombiningChar (insert : TextCache → List ℕ → TextCache × ℕ) {l : Line}
    (hv : l.CellsValid) {a c x : ℕ} (ch : ℕ) (hax : a ≤ x) (hxc : x < c) (hc : c ≤ l.xnum)
    (hm : (l.cpuCells x).isMulticell = false) (skipZeroCells : Bool)
    (htab : (textInCell (l.cpuCells x) l.textCache).chars.headD 0 ≠ '\t'.toNat)
    (hzero : (textInCell (l.cpuCells x) l.textCache).chars.headD 0 ≠ 0 ∨ skipZeroCells = false)
    (hb : ∀ t, a ≤ t → t < x → (flattenCell l c true skipZeroCells t).2 ≤ x)
    (hins : Interns l.textCache ((textInCell (l.cpuCells x) l.textCache).chars ++ [ch])
      (insert l.textCache ((textInCell (l.cpuCells x) l.textCache).chars ++ [ch]))) (g : UnicodeBuf) :
    (unicodeInRange l a c true false skipZeroCells g).2.overflowed = false →
    (unicodeInRange l a x true false skipZeroCells g).2.overflowed = false →
    (unicodeInRange l (x + 1) c true false skipZeroCells g).2.overflowed = false →
    ∃ l', addCombiningChar insert l x ch = .ok l' ∧
      (unicodeInRange l a c true false skipZeroCells g).1 =
        (unicodeInRange l a x true false skipZeroCells g).1 ++ zeroAsSpace (textInCell (l.cpuCells x) l.textCache).chars ++
          (unicodeInRange l (x + 1) c true false skipZeroCells g).1 ∧
      ((unicodeInRange l' a c true false skipZeroCells g).2.overflowed = false →
        (unicodeInRange l' a c true false skipZeroCells g).1 =
          (unicodeInRange l a x true false skipZeroCells g).1 ++
            (zeroAsSpace (textInCell (l.cpuCells x) l.textCache).chars ++ [ch]) ++
            (unicodeInRange l (x + 1) c true false skipZeroCells g).1) := by
  intro _ _ _
  have hx : x < l.xnum := by omega
  have hne := hv.chars_ne_nil hx
  have hvl : ∀ i < c, (textInCell (l.cpuCells i) l.textCache).chars ≠ [] := fun i hi => hv.chars_ne_nil (by omega)
  obtain ⟨l', hok⟩ := addCombiningChar_isOk insert ch hx hm
  obtain ⟨hcell, htext, hm', hsp, htx⟩ := addCombiningChar_ok_cells insert hv hins hok
  refine ⟨l', hok, unicodeInRange_at_plain l skipZeroCells hvl hax hxc hm htab hzero hb g, fun _ => ?_⟩
  have hv' : ∀ i < c, (textInCell (l'.cpuCells i) l'.textCache).chars ≠ [] := fun i hi => by
    by_cases hix : i = x
    · subst hix
      simp [htx]
    · rw [htext i (by omega) hix]
      exact hvl i hi
  -- the columns before `x` and after it are written as before the call
  have hbefore : ∀ t, a ≤ t → t < x → flattenCell l' c true skipZeroCells t = flattenCell l c true skipZeroCells t :=
    fun t h₁ h₂ => flattenCell_eq_of_lt true skipZeroCells (fun y hy => hcell y (by omega)) hsp
      (htext t (by omega) (by omega)) h₂ (hb t h₁ h₂)
  have hpre : flattenText l' x true skipZeroCells (x - a) a = flattenText l x true skipZeroCells (x - a) a :=
    flattenText_congr true skipZeroCells _ a fun t _ ht =>
      flattenCell_eq_of_lt true skipZeroCells (fun y hy => hcell y (by omega)) hsp (htext t (by omega) (by omega)) ht
        (flattenCell_le l true skipZeroCells ht)
  have hsuf : flattenText l' c true skipZeroCells (c - (x + 1)) (x + 1) =
      flattenText l c true skipZeroCells (c - (x + 1)) (x + 1) :=
    flattenText_congr true skipZeroCells _ _ fun t ht htc =>
      flattenCell_eq_from true skipZeroCells (fun y hy => hcell y (by omega)) (htext t (by omega) (by omega))
  rw [unicodeInRange_at_plain l' skipZeroCells hv' hax hxc hm' (by rw [htx, headD_append_of_ne_nil hne]; exact htab)
      (by rw [htx, headD_append_of_ne_nil hne]; exact hzero) (fun t h₁ h₂ => by rw [hbefore t h₁ h₂]; exact hb t h₁ h₂) g,
    htx, zeroAsSpace_append hne, unicodeInRange_fst l' (fun i hi => hv' i (by omega)), unicodeInRange_fst l' hv',
    unicodeInRange_fst l (fun i hi => hvl i (by omega)), unicodeInRange_fst l hvl, hpre, hsuf]

/-- A tab with skip count 1 that swallows the space after it, then `b`; the
cache holds the tab's entry at index 0 and nothing else. -/
def tabSpaceLine : Line where
  xnum := 3
  cpuCells x := if x = 0 then { CPUCell.zero with chIsIdx := true }
    else { CPUCell.zero with chOrIdx := [0, ' '.toNat, 'b'.toNat].getD x 0 }
  gpuCells _ := GPUCell.blank
  promptKind := .unknown
  textCache := ⟨fun i => if i = 0 then ['\t'.toNat, 1] else [], fun _ => ⟨1, 1, 0, le_rfl, le_rfl⟩⟩

theorem unicodeInRange_addCombiningChar_tabSpace :
    (unicodeInRange tabSpaceLine 0 3 true false false UnicodeBuf.empty).2.overflowed = false ∧
    (unicodeInRange tabSpaceLine 0 2 true false false UnicodeBuf.empty).2.overflowed = false ∧
    (unicodeInRange tabSpaceLine (2 + 1) 3 true false false UnicodeBuf.empty).2.overflowed = false ∧
    ∃ l', addCombiningChar (TextCache.internAt 1) tabSpaceLine 2 0x301 = .ok l' ∧
      (unicodeInRange tabSpaceLine 0 3 true false false UnicodeBuf.empty).1 =
        (unicodeInRange tabSpaceLine 0 2 true false false UnicodeBuf.empty).1 ++
          zeroAsSpace (textInCell (tabSpaceLine.cpuCells 2) tabSpaceLine.textCache).chars ++
          (unicodeInRange tabSpaceLine (2 + 1) 3 true false false UnicodeBuf.empty).1 ∧
      (unicodeInRange l' 0 3 true false false UnicodeBuf.empty).2.overflowed = false ∧
      (unicodeInRange l' 0 3 true false false UnicodeBuf.empty).1 =
        (unicodeInRange tabSpaceLine 0 2 true false false UnicodeBuf.empty).1 ++
          (zeroAsSpace (textInCell (tabSpaceLine.cpuCells 2) tabSpaceLine.textCache).chars ++ [0x301]) ++
          (unicodeInRange tabSpaceLine (2 + 1) 3 true false false UnicodeBuf.empty).1 := by
  have h₁ : (unicodeInRange tabSpaceLine 0 3 true false false UnicodeBuf.empty).2.overflowed = false := by decide
  have h₂ : (unicodeInRange tabSpaceLine 0 2 true false false UnicodeBuf.empty).2.overflowed = false := by decide
  have h₃ : (unicodeInRange tabSpaceLine (2 + 1) 3 true false false UnicodeBuf.empty).2.overflowed = false := by
    decide
  obtain ⟨l', hok, e₁, e₂⟩ := unicodeInRange_addCombiningChar (TextCache.internAt 1) (l := tabSpaceLine)
    (by unfold Line.CellsValid; decide) 0x301
    (a := 0) (c := 3) (x := 2) (by decide) (by decide) (by decide) rfl false (by decide) (by decide) (by decide)
    (TextCache.internAt_interns (Or.inr rfl)) UnicodeBuf.empty h₁ h₂ h₃
  have h₄ : (match addCombiningChar (TextCache.internAt 1) tabSpaceLine 2 0x301 with
      | .ok L => (unicodeInRange L 0 3 true false false UnicodeBuf.empty).2.overflowed
      | .error _ => false) = false := by decide
  rw [hok] at h₄
  exact ⟨h₁, h₂, h₃, l', hok, e₁, h₄, e₂ h₄⟩

example : (unicodeInRange tabSpaceLine 0 3 true false false UnicodeBuf.empty).1 = ['\t'.toNat, 'b'.toNat] := by
  decide

/-! ### `copy_char` -/

/-- `copy_char(src, to, dest)`: the line `to` with the two cells of column
`src` of this line at column `dest`, or the error it raises. `COPY_CELL` is
modelled from the spec: it copies the CPU and the GPU cell (§4.4). -/
def copyChar (l : Line) (src : ℕ) (toLine : Line) (dest : ℕ) : Except String Line :=
  if src ≥ l.xnum ∨ dest ≥ toLine.xnum then .error "Out of bounds"
  else .ok { toLine with
    cpuCells := Function.update toLine.cpuCells dest (l.cpuCells src)
    gpuCells := Function.update toLine.gpuCells dest (l.gpuCells src) }

/-- A successful `copy_char` from a valid line sharing the cache keeps the
destination's cells valid, its width and its cache. -/
theorem copyChar_cellsValid {l toLine : Line} (hc : toLine.textCache = l.textCache) (hv : l.CellsValid)
    (hv' : toLine.CellsValid) {src dest : ℕ} {t : Line} (h : copyChar l src toLine dest = .ok t) :
    t.CellsValid ∧ t.xnum = toLine.xnum ∧ t.textCache = toLine.textCache := by
  unfold copyChar at h
  split_ifs at h with hb
  cases h
  refine ⟨fun i hi hidx => ?_, rfl, rfl⟩
  by_cases hid : i = dest
  · -- the copied cell names an entry of the shared cache
    subst hid
    simp only [Function.update_same] at hidx ⊢
    rw [hc]
    exact hv src (by omega) hidx
  · simp only [Function.update_noteq hid] at hidx ⊢
    exact hv' i hi hidx

/-- **`copy_char` between lines sharing the cache.** It succeeds on columns of
both lines; the destination line's cells stay valid, the copy reads as the
original under `text_at`, and no other column of the destination changes. -/
theorem copyChar_spec {l toLine : Line} (hc : toLine.textCache = l.textCache) (hv : l.CellsValid)
    (hv' : toLine.CellsValid) {src dest : ℕ} (hs : src < l.xnum) (hd : dest < toLine.xnum) :
    ∃ t, copyChar l src toLine dest = .ok t ∧ t.CellsValid ∧ textAt t dest = textAt l src ∧
      ∀ y ≠ dest, t.cpuCells y = toLine.cpuCells y ∧ t.gpuCells y = toLine.gpuCells y := by
  have hok : copyChar l src toLine dest = .ok { toLine with
      cpuCells := Function.update toLine.cpuCells dest (l.cpuCells src)
      gpuCells := Function.update toLine.gpuCells dest (l.gpuCells src) } := by
    rw [copyChar, if_neg (by omega)]
  refine ⟨_, hok, (copyChar_cellsValid hc hv hv' hok).1, by simp [textAt, hd.not_le, hs.not_le, hc],
    fun y hy => ⟨Function.update_noteq hy _ _, Function.update_noteq hy _ _⟩⟩

/-! ### `line_length` -/

/-- Modelled from the spec: `BLANK_CHAR`, the code point of an empty cell
(§4.4, §8 "empty line (all zeros)"). -/
def blankChar : ℕ := 0

/-- The loop of `line_length`: `for (i = 0; i < xnum; i++) if
(!cell_is_char(cpu_cells + last - i, BLANK_CHAR)) return xnum - i;`, from
`i`, with fuel, `last` being `xnum - 1`. -/
def lineLengthLoop (l : Line) : ℕ → ℕ → ℕ
  | 0, _ => 0
  | fuel + 1, i =>
    if i < l.xnum then
      if !cellIsChar (l.cpuCells (l.xnum - 1 - i)) blankChar then l.xnum - i
      else lineLengthLoop l fuel (i + 1)
    else 0

/-- `line_length(self)`. -/
def lineLength (l : Line) : ℕ := lineLengthLoop l l.xnum 0

/-- `n` is the length of the line's text: the cells from `n` on are blank,
and the cell before `n`, if any, is not. -/
structure Line.LengthIs (l : Line) (n : ℕ) : Prop where
  le : n ≤ l.xnum
  blank : ∀ y, n ≤ y → y < l.xnum → cellIsChar (l.cpuCells y) blankChar = true
  last : 0 < n → cellIsChar (l.cpuCells (n - 1)) blankChar = false

theorem Line.LengthIs.le_of {l : Line} {n m : ℕ} (hn : l.LengthIs n) (hm : l.LengthIs m) : m ≤ n := by
  by_contra h
  have := hn.blank (m - 1) (by omega) (by have := hm.le; omega)
  rw [hm.last (by omega)] at this
  exact Bool.false_ne_true this

theorem Line.LengthIs.unique {l : Line} {n m : ℕ} (hn : l.LengthIs n) (hm : l.LengthIs m) : n = m :=
  le_antisymm (hm.le_of hn) (hn.le_of hm)

theorem Line.LengthIs.zero {l : Line} (h : ∀ y < l.xnum, cellIsChar (l.cpuCells y) blankChar = true) :
    l.LengthIs 0 :=
  ⟨Nat.zero_le _, fun y _ hy => h y hy, fun h => absurd h (Nat.lt_irrefl 0)⟩

theorem lineLengthLoop_lengthIs (l : Line) : ∀ fuel i, l.xnum - i ≤ fuel →
    (∀ y, l.xnum - i ≤ y → y < l.xnum → cellIsChar (l.cpuCells y) blankChar = true) →
      l.LengthIs (lineLengthLoop l fuel i)
  | 0, i, hf, hb => Line.LengthIs.zero fun y hy => hb y (by omega) hy
  | fuel + 1, i, hf, hb => by
    simp only [lineLengthLoop]
    split_ifs with hi hc
    · -- the cell at `last - i` is not blank: the length ends after it
      refine ⟨Nat.sub_le _ _, hb, fun _ => ?_⟩
      rw [show l.xnum - i - 1 = l.xnum - 1 - i by omega]
      simpa using hc
    · refine lineLengthLoop_lengthIs l fuel (i + 1) (by omega) fun y h₁ h₂ => ?_
      rcases Nat.eq_or_lt_of_le h₁ with h | h
      · rw [← show l.xnum - 1 - i = y by omega]
        simpa using hc
      · exact hb y (by omega) h₂
    · exact Line.LengthIs.zero fun y hy => hb y (by omega) hy

theorem lineLength_lengthIs (l : Line) : l.LengthIs (lineLength l) :=
  lineLengthLoop_lengthIs l l.xnum 0 (Nat.sub_le _ _) fun _ h₁ h₂ => absurd h₂ (by omega)

/-- **`line_length` is the column after the last cell that is not blank**, 0
for a blank line. -/
theorem lineLength_eq_iff (l : Line) (n : ℕ) : lineLength l = n ↔ l.LengthIs n :=
  ⟨fun h => h ▸ lineLength_lengthIs l, (lineLength_lengthIs l).unique⟩

/-- **A clear to the end of the line cuts its length.** After `line_clear_text`
with `BLANK_CHAR` from `at` to the end of the line, without a 32-bit wrap, the
length is at most `at`, and it is the old length when that was at most `at`. -/
theorem lineLength_lineClearText (l : Line) {at' num : ℕ} (h : at' + num < 2 ^ 32) (hend : l.xnum ≤ at' + num) :
    lineLength (lineClearText l at' num blankChar) ≤ at' ∧
    (lineLength l ≤ at' → lineLength (lineClearText l at' num blankChar) = lineLength l) := by
  have hcells : ∀ y, (lineClearText l at' num blankChar).cpuCells y =
      if at' ≤ y ∧ y < l.xnum then { CPUCell.zero with chOrIdx := blankChar } else l.cpuCells y := fun y => by
    simp only [lineClearText, fillCells_clampNum _ _ _ _ _ h, min_eq_right hend]
  have hblank : cellIsChar { CPUCell.zero with chOrIdx := blankChar } blankChar = true := rfl
  have hL := lineLength_lengthIs (lineClearText l at' num blankChar)
  have hl := lineLength_lengthIs l
  have hxnum : (lineClearText l at' num blankChar).xnum = l.xnum := rfl
  refine ⟨?_, fun hle => hL.unique ⟨hl.le, fun y h₁ h₂ => ?_, fun hpos => ?_⟩⟩
  · -- a length past `at` would end at a cleared cell
    by_contra hgt
    have hlast := hL.last (by omega)
    rw [hcells, if_pos ⟨by omega, by have := hL.le; omega⟩] at hlast
    exact Bool.false_ne_true (hlast.symm.trans hblank)
  · rw [hcells]
    split_ifs
    · exact hblank
    · exact hl.blank y h₁ h₂
  · rw [hcells, if_neg (by omega)]
    exact hl.last hpos

theorem lineLength_lineClearText_abc :
    (lineLength (lineClearText (Line.ofString "abc") 1 5 blankChar) ≤ 1 ∧
      (lineLength (Line.ofString "abc") ≤ 1 →
        lineLength (lineClearText (Line.ofString "abc") 1 5 blankChar) = lineLength (Line.ofString "abc"))) ∧
    lineLength (lineClearText (Line.ofString "abc") 1 5 blankChar) = 1 :=
  ⟨lineLength_lineClearText _ (by decide) (by decide), by decide⟩

/-- **A written code point extends the length.** After a `set_char` of a code
point other than `BLANK_CHAR`, the line's length is the old length or the
column after the write, whichever is larger. -/
theorem lineLength_setChar {O : LineOptions} {colMask : ℕ} {l l' : Line} {at' ch width : ℕ}
    {cursor : Option Cursor} {hyperlinkId : ℕ} (h : setChar O colMask l at' ch width cursor hyperlinkId = .ok l')
    (hch : ch ≠ blankChar) :
    lineLength l' = max (lineLength l) (at' + 1) := by
  obtain ⟨hat, -, rfl⟩ := setChar_eq_ok.1 h
  have hl := lineLength_lengthIs l
  have hset := cellIsChar_lineSetChar O colMask l at' ch cursor hyperlinkId
  refine (lineLength_lengthIs _).unique ⟨by simp only [lineSetChar_xnum]; have := hl.le; omega, fun y h₁ h₂ => ?_,
    fun _ => ?_⟩
  · rw [lineSetChar_cpuCells_of_ne _ _ _ _ _ _ _ (by omega)]
    exact hl.blank y (by omega) h₂
  · rcases Nat.lt_or_ge (lineLength l) (at' + 2) with hlt | hge
    · rw [show max (lineLength l) (at' + 1) - 1 = at' by omega]
      exact cellIsChar_eq_false_of_ne hset hch
    · rw [show max (lineLength l) (at' + 1) - 1 = lineLength l - 1 by omega,
        lineSetChar_cpuCells_of_ne _ _ _ _ _ _ _ (by omega)]
      exact hl.last (by omega)

theorem lineLength_setChar_blank :
    lineLength (lineSetChar LineOptions.sample 0xFFFFFFFF (Line.ofString "\x00\x00\x00") 1 'a'.toNat none 0) =
      max (lineLength (Line.ofString "\x00\x00\x00")) (1 + 1) ∧
    lineLength (Line.ofString "\x00\x00\x00") = 0 :=
  ⟨lineLength_setChar (setChar_eq_ok.2 ⟨by decide, rfl, rfl⟩) (by decide), by decide⟩

/-! ### `width` -/

/-- What a method of `line.c` hands back to Python: an exception with its
message, a NULL with no exception set (which Python turns into a
`SystemError`), or a value. -/
inductive PyResult (α : Type) where
  | error (msg : String)
  | null
  | ok (a : α)
  deriving DecidableEq, Repr

/-- Modelled from the spec: `cell_has_text`, whether a cell is not empty
(§4.4, §8 "empty line (all zeros)"). -/
def cellHasText (c : CPUCell) : Bool := c.chIsIdx || c.chOrIdx != 0

/-- `width(x)`: the error past the line; for a cell without text the C
`return 0`, a NULL with no exception set; for a cell of a multi-cell glyph 0
unless it is the top-left cell, which gives the glyph's width; 1 otherwise. -/
def width (l : Line) (x : ℕ) : PyResult ℕ :=
  if x ≥ l.xnum then .error "Out of bounds"
  else if !cellHasText (l.cpuCells x) then .null
  else if (l.cpuCells x).isMulticell then
    .ok (if (l.cpuCells x).x ≠ 0 ∨ (l.cpuCells x).y ≠ 0 then 0 else (cellMulticellData (l.cpuCells x) l.textCache).width)
  else .ok 1

/-- `width` gives NULL exactly at the blank columns of the line. -/
theorem width_eq_null_iff (l : Line) {x : ℕ} (hx : x < l.xnum) :
    width l x = .null ↔ cellIsChar (l.cpuCells x) blankChar = true := by
  have hblank : (!cellHasText (l.cpuCells x)) = cellIsChar (l.cpuCells x) blankChar := by
    simp [cellHasText, cellIsChar, blankChar, bne]
  unfold width
  rw [if_neg hx.not_le, hblank]
  split_ifs with h <;> simp [h]

/-- **`width` past the length.** Every column from `line_length` on holds the
blank cell, and there `width` returns NULL without setting an exception, so
the Python caller gets a `SystemError`, where §4.4 has `width` return 0 for an
empty cell. -/
theorem width_of_lineLength_le {l : Line} {x : ℕ} (h : lineLength l ≤ x) (hx : x < l.xnum) :
    cellIsChar (l.cpuCells x) blankChar = true ∧ width l x = .null :=
  have hb := (lineLength_lengthIs l).blank x h hx
  ⟨hb, (width_eq_null_iff l hx).2 hb⟩

theorem width_of_lineLength_le_ab :
    lineLength (Line.ofString "ab\x00") ≤ 2 ∧ 2 < (Line.ofString "ab\x00").xnum ∧
    cellIsChar ((Line.ofString "ab\x00").cpuCells 2) blankChar = true ∧ width (Line.ofString "ab\x00") 2 = .null :=
  ⟨by decide, by decide, width_of_lineLength_le (by decide) (by decide)⟩

end KittyLine
