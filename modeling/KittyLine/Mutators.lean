/-
# Writing cells: `set_text`, `line_clear_text`, `line_apply_cursor`

`set_text` copies the code points `src[offset .. offset + sz)` onto the columns
from the cursor's on, each a plain cell with the cursor's attributes and
colors; it refuses `offset + sz` past the string's end. `line_clear_text` and
`line_apply_cursor` act on the columns `[at, at + num)`, clamped to the line:
the first gives each CPU cell the code point `ch`, the second gives the GPU
cells the cursor's rendition, with `clear_char` zeroing the CPU cells too, and
without it keeping each cell's mark and sprite.

The bound checks are not what they look like. `set_text` checks only the
upper end, so a negative `offset` passes and the loop reads `src` before its
start (`setText_reads_before_src`). `line_clear_text` and `line_apply_cursor`
clamp on the 32-bit sum `at + num`, which wraps: `clear_text(1, 0xFFFFFFFF)`
is not clamped, and writes cells past the line (`lineClearText_wraps`). When
the sum does not wrap, both act on exactly `[at, min(at + num, xnum))`
(`lineClearText_lineApplyCursor_of_no_wrap`); for `offset ≥ 0` in bounds,
`set_text` writes exactly `[x, min(x + sz, xnum))`, and `text_at` then reads
the code points back (`setText_written`).

A read of `src` outside `[0, len(src))` is undefined behaviour in C; the model
stops there with `readOutside`. Cells past `xnum` stand for the memory after
the line's cell arrays. The cursor lives outside `line.c` and is modelled
from the spec, with what `cursor_to_attrs` and `cursor_as_gpu_cell` make of it.

Key definitions: `Cursor`, `setTextLoop`, `setText`, `lineClearText`,
`applyCursorLoop`, `lineApplyCursor`.
Key theorems: `setText_written`, `lineClearText_lineApplyCursor_of_no_wrap`.
-/
import KittyLine.CellRead

namespace KittyLine

/-- Modelled from the spec: the cursor as `line.c` reads it, its column, its
colors, the attributes `cursor_to_attrs` makes of it and the GPU cell
`cursor_as_gpu_cell` makes of it (§4.4). -/
structure Cursor where
  x : ℕ
  fg : ℕ
  bg : ℕ
  decorationFg : ℕ
  attrs : CellAttrs
  gpuCell : GPUCell

def cursorToAttrs (c : Cursor) : CellAttrs := c.attrs

def cursorAsGpuCell (c : Cursor) : GPUCell := c.gpuCell

/-- An `unsigned int` sum as C computes it, modulo `2^32`. -/
def u32 (n : ℕ) : ℕ := n % 2 ^ 32

/-- `memset_array(cells + at, c, num)`: the cells `[at, at + num)` set to `c`. -/
def fillCells {α : Type} (cells : ℕ → α) (at' num : ℕ) (c : α) : ℕ → α :=
  fun i => if at' ≤ i ∧ i < at' + num then c else cells i

/-- The count of cells of `[at, at + num)` that a clamp on the 32-bit sum
keeps: `if (at + num > xnum) num = xnum > at ? xnum - at : 0;` -/
def clampNum (xnum at' num : ℕ) : ℕ :=
  if u32 (at' + num) > xnum then (if xnum > at' then xnum - at' else 0) else num

/-! ### `line_clear_text` and `line_apply_cursor` -/

/-- `line_clear_text(self, at, num, ch)`, for unsigned 32-bit `at` and `num`. -/
def lineClearText (l : Line) (at' num ch : ℕ) : Line :=
  { l with cpuCells := fillCells l.cpuCells at' (clampNum l.xnum at' num) { CPUCell.zero with chOrIdx := ch } }

/-- The loop of `line_apply_cursor` without `clear_char`, from column `i`, with
fuel: `for (; i < xnum && i < at + num; i++)`, the cursor's cell `gc` taking
each cell's mark and sprite before it is copied there. -/
def applyCursorLoop (xnum bound : ℕ) : ℕ → ℕ → GPUCell → (ℕ → GPUCell) → (ℕ → GPUCell)
  | 0, _, _, cells => cells
  | fuel + 1, i, gc, cells =>
    if i < xnum ∧ i < bound then
      let gc := { gc with
        attrs := { gc.attrs with mark := (cells i).attrs.mark }
        spriteX := (cells i).spriteX, spriteY := (cells i).spriteY, spriteZ := (cells i).spriteZ }
      applyCursorLoop xnum bound fuel (i + 1) gc (Function.update cells i gc)
    else cells

/-- `line_apply_cursor(self, cursor, at, num, clear_char)`, for unsigned 32-bit
`at` and `num`. -/
def lineApplyCursor (l : Line) (cursor : Cursor) (at' num : ℕ) (clearChar : Bool) : Line :=
  let gc := cursorAsGpuCell cursor
  if clearChar then
    { l with
      cpuCells := fillCells l.cpuCells at' (clampNum l.xnum at' num) CPUCell.zero
      gpuCells := fillCells l.gpuCells at' (clampNum l.xnum at' num) gc }
  else { l with gpuCells := applyCursorLoop l.xnum (u32 (at' + num)) (l.xnum - at') at' gc l.gpuCells }

def withMarkAndSprite (gc c : GPUCell) : GPUCell :=
  { gc with
    attrs := { gc.attrs with mark := c.attrs.mark }
    spriteX := c.spriteX, spriteY := c.spriteY, spriteZ := c.spriteZ }

theorem fillCells_clampNum {α : Type} (cells : ℕ → α) (xnum at' num : ℕ) (c : α)
    (h : at' + num < 2 ^ 32) :
    fillCells cells at' (clampNum xnum at' num) c = fun i => if at' ≤ i ∧ i < min (at' + num) xnum then c else cells i := by
  funext i
  unfold fillCells clampNum u32
  rw [Nat.mod_eq_of_lt h]
  split_ifs <;> first | rfl | omega

/-- **The loop without `clear_char`.** From column `i`, it gives each column of
`[i, min(xnum, bound))` the cursor's cell with the column's own mark and
sprite, and leaves the other cells. -/
theorem applyCursorLoop_eq (xnum bound : ℕ) : ∀ fuel i gc (cells : ℕ → GPUCell), xnum - i ≤ fuel →
    applyCursorLoop xnum bound fuel i gc cells =
      fun j => if i ≤ j ∧ j < xnum ∧ j < bound then withMarkAndSprite gc (cells j) else cells j
  | 0, i, _, cells, hf => by
    funext j
    rw [if_neg (by omega)]
    rfl
  | fuel + 1, i, gc, cells, hf => by
    unfold applyCursorLoop
    split_ifs with hi
    · rw [applyCursorLoop_eq xnum bound fuel (i + 1) _ _ (by omega)]
      funext j
      by_cases hj : j = i
      · subst hj
        simp [hi, withMarkAndSprite]
      · simp only [Function.update_noteq hj, withMarkAndSprite]
        exact if_congr (by omega) rfl rfl
    · funext j
      rw [if_neg (by omega)]

/-- **`line_clear_text` and `line_apply_cursor` without a wrap.** When
`at + num` does not pass `2^32`, `line_clear_text` gives exactly the CPU cells
of `[at, min(at + num, xnum))` the code point `ch` and leaves the GPU cells;
`line_apply_cursor` with `clear_char` zeroes exactly those CPU cells and gives
exactly those GPU cells the cursor's cell; without it, it leaves the CPU
cells, and gives exactly those GPU cells the cursor's cell with their own mark
and sprite. -/
theorem lineClearText_lineApplyCursor_of_no_wrap (l : Line) (cursor : Cursor) (at' num ch : ℕ) (h : at' + num < 2 ^ 32) :
    lineClearText l at' num ch = { l with
      cpuCells := fun i => if at' ≤ i ∧ i < min (at' + num) l.xnum then { CPUCell.zero with chOrIdx := ch }
        else l.cpuCells i } ∧
    lineApplyCursor l cursor at' num true = { l with
      cpuCells := fun i => if at' ≤ i ∧ i < min (at' + num) l.xnum then CPUCell.zero else l.cpuCells i
      gpuCells := fun i => if at' ≤ i ∧ i < min (at' + num) l.xnum then cursorAsGpuCell cursor
        else l.gpuCells i } ∧
    lineApplyCursor l cursor at' num false = { l with
      gpuCells := fun i => if at' ≤ i ∧ i < min (at' + num) l.xnum then
        withMarkAndSprite (cursorAsGpuCell cursor) (l.gpuCells i) else l.gpuCells i } := by
  refine ⟨by rw [lineClearText, fillCells_clampNum _ _ _ _ _ h], ?_, ?_⟩
  · simp only [lineApplyCursor, if_true, fillCells_clampNum _ _ _ _ _ h]
  · simp only [lineApplyCursor, Bool.false_eq_true, if_false,
      applyCursorLoop_eq _ _ _ _ _ _ le_rfl, u32, Nat.mod_eq_of_lt h]
    congr
    funext i
    exact if_congr (by omega) rfl rfl

def redCursor : Cursor :=
  ⟨0, 0x101, 0, 0, CellAttrs.zero, { GPUCell.blank with fg := 0x101 }⟩

theorem lineClearText_lineApplyCursor_ab :
    lineClearText (Line.ofString "ab") 1 5 0 = { Line.ofString "ab" with
      cpuCells := fun i => if 1 ≤ i ∧ i < min (1 + 5) (Line.ofString "ab").xnum then
        { CPUCell.zero with chOrIdx := 0 } else (Line.ofString "ab").cpuCells i } ∧
    lineApplyCursor (Line.ofString "ab") redCursor 1 5 true = { Line.ofString "ab" with
      cpuCells := fun i => if 1 ≤ i ∧ i < min (1 + 5) (Line.ofString "ab").xnum then CPUCell.zero
        else (Line.ofString "ab").cpuCells i
      gpuCells := fun i => if 1 ≤ i ∧ i < min (1 + 5) (Line.ofString "ab").xnum then cursorAsGpuCell redCursor
        else (Line.ofString "ab").gpuCells i } ∧
    lineApplyCursor (Line.ofString "ab") redCursor 1 5 false = { Line.ofString "ab" with
      gpuCells := fun i => if 1 ≤ i ∧ i < min (1 + 5) (Line.ofString "ab").xnum then
        withMarkAndSprite (cursorAsGpuCell redCursor) ((Line.ofString "ab").gpuCells i)
        else (Line.ofString "ab").gpuCells i } :=
  lineClearText_lineApplyCursor_of_no_wrap (Line.ofString "ab") redCursor 1 5 0 (by decide)

/-- `clear_text(1, 0xFFFFFFFF)` on a two-column line: `1 + 0xFFFFFFFF` wraps to
0, the clamp is skipped, and column 2, past the line's two cells, is written;
`apply_cursor` with `clear_char` writes it too. -/
theorem lineClearText_wraps :
    (Line.ofString "ab").xnum = 2 ∧
    (lineClearText (Line.ofString "ab") 1 (2 ^ 32 - 1) 0).cpuCells 2 ≠ (Line.ofString "ab").cpuCells 2 ∧
    (lineApplyCursor (Line.ofString "ab") redCursor 1 (2 ^ 32 - 1) true).gpuCells 2 ≠
      (Line.ofString "ab").gpuCells 2 := by
  decide

/-! ### `set_text` -/

/-- How `set_text` can stop short: the `ValueError` it raises, or a read of
`src` outside `[0, len(src))`, undefined in C, at which the model stops. -/
inductive SetTextError
  | valueError (msg : String)
  | readOutside (offset : ℤ)
  deriving DecidableEq, Repr

/-- The copy loop of `set_text` from column `i` and offset `offset`, with fuel:
`for (; offset < limit && i < xnum; i++, offset++)`, the CPU cell zeroed and
given `src[offset]`, the GPU cell given the cursor's attributes and colors. -/
def setTextLoop (src : List ℕ) (attrs : CellAttrs) (fg bg dfg : ℕ) (limit : ℤ) :
    ℕ → ℕ → ℤ → Line → Line × Option SetTextError
  | 0, _, _, l => (l, none)
  | fuel + 1, i, offset, l =>
    if offset < limit ∧ i < l.xnum then
      let l := { l with cpuCells := Function.update l.cpuCells i CPUCell.zero }
      if 0 ≤ offset ∧ offset < src.length then
        let l := { l with
          cpuCells := Function.update l.cpuCells i { l.cpuCells i with chOrIdx := src.getD offset.toNat 0 }
          gpuCells := Function.update l.gpuCells i
            { l.gpuCells i with attrs := attrs, fg := fg, bg := bg, decorationFg := dfg } }
        setTextLoop src attrs fg bg dfg limit fuel (i + 1) (offset + 1) l
      else (l, some (.readOutside offset))
    else (l, none)

/-- `set_text(src, offset, sz, cursor)`, for a `COL_MASK` given: `src` as its
code points, `offset` and `sz` as `Py_ssize_t` with their sum taken exactly
(its overflow is undefined in C). The line after it, and how it stopped short
if it did. -/
def setText (colMask : ℕ) (l : Line) (src : List ℕ) (offset sz : ℤ) (cursor : Cursor) :
    Line × Option SetTextError :=
  let limit := offset + sz
  if (src.length : ℤ) < limit then (l, some (.valueError "Out of bounds offset/sz"))
  else
    setTextLoop src (cursorToAttrs cursor) (cursor.fg &&& colMask) (cursor.bg &&& colMask)
      (cursor.decorationFg &&& colMask) limit (l.xnum - cursor.x) cursor.x offset l

def setTextCpu (cells : ℕ → CPUCell) (src : List ℕ) (i k : ℕ) (offset : ℤ) : ℕ → CPUCell :=
  fun j => if i ≤ j ∧ j < i + k then { CPUCell.zero with chOrIdx := src.getD (offset + (j - i : ℕ)).toNat 0 }
    else cells j

def setTextGpu (cells : ℕ → GPUCell) (attrs : CellAttrs) (fg bg dfg : ℕ) (i k : ℕ) : ℕ → GPUCell :=
  fun j => if i ≤ j ∧ j < i + k then { cells j with attrs := attrs, fg := fg, bg := bg, decorationFg := dfg }
    else cells j

@[simp] theorem setTextCpu_zero (cells : ℕ → CPUCell) (src : List ℕ) (i : ℕ) (offset : ℤ) :
    setTextCpu cells src i 0 offset = cells :=
  funext fun j => if_neg (by omega)

@[simp] theorem setTextGpu_zero (cells : ℕ → GPUCell) (attrs : CellAttrs) (fg bg dfg i : ℕ) :
    setTextGpu cells attrs fg bg dfg i 0 = cells :=
  funext fun j => if_neg (by omega)

/-- **The copy loop** from a non-negative offset, with `limit` inside `src`:
it writes `min(limit - offset, xnum - i)` columns from `i` and stops without a
read outside `src`. -/
theorem setTextLoop_eq (src : List ℕ) (attrs : CellAttrs) (fg bg dfg : ℕ) {limit : ℤ}
    (hlim : limit ≤ src.length) : ∀ fuel i (offset : ℤ) (l : Line), l.xnum - i ≤ fuel → 0 ≤ offset →
    setTextLoop src attrs fg bg dfg limit fuel i offset l =
      ({ l with
        cpuCells := setTextCpu l.cpuCells src i (min (limit - offset).toNat (l.xnum - i)) offset
        gpuCells := setTextGpu l.gpuCells attrs fg bg dfg i (min (limit - offset).toNat (l.xnum - i)) }, none)
  | 0, i, offset, l, hf, _ => by
    rw [show min (limit - offset).toNat (l.xnum - i) = 0 by omega, setTextCpu_zero, setTextGpu_zero]
    rfl
  | fuel + 1, i, offset, l, hf, h0 => by
    unfold setTextLoop
    split_ifs with hi hs
    · rw [setTextLoop_eq src attrs fg bg dfg hlim fuel (i + 1) (offset + 1) _ (by simp; omega) (by omega)]
      have hk : min (limit - (offset + 1)).toNat (l.xnum - (i + 1)) + 1 =
          min (limit - offset).toNat (l.xnum - i) := by omega
      simp only [Prod.mk.injEq, and_true]
      congr 1
      · -- column `i` now, the others by the rest of the loop
        funext j
        simp only [setTextCpu, Function.update_apply]
        by_cases hj : j = i
        · subst hj; simp [show 0 < min (limit - offset).toNat (l.xnum - j) by omega]
        · simp only [if_neg hj]
          split_ifs <;> first | rfl | omega |
            rw [show offset + 1 + ((j - (i + 1) : ℕ) : ℤ) = offset + ((j - i : ℕ) : ℤ) by omega]
      · funext j
        simp only [setTextGpu, Function.update_apply]
        by_cases hj : j = i
        · subst hj; simp [show 0 < min (limit - offset).toNat (l.xnum - j) by omega]
        · simp only [if_neg hj]
          exact if_congr (by omega) rfl rfl
    · omega
    · rw [show min (limit - offset).toNat (l.xnum - i) = 0 by omega, setTextCpu_zero, setTextGpu_zero]

/-- **`set_text` within bounds.** From an offset `≥ 0` with `offset + sz` inside
`src`, `set_text` reads `src` only inside it, makes each column of
`[x, min(x + sz, xnum))` a plain cell holding `src[offset + i - x]` with the
cursor's attributes and masked colors, leaves every other cell, and `text_at`
reads each of those columns back as its code point. -/
theorem setText_written (colMask : ℕ) (l : Line) (src : List ℕ) {offset sz : ℤ} (cursor : Cursor)
    (h0 : 0 ≤ offset) (hlen : offset + sz ≤ src.length) :
    setText colMask l src offset sz cursor = ({ l with
      cpuCells := fun i => if cursor.x ≤ i ∧ (i : ℤ) < min (cursor.x + sz) l.xnum then
        { CPUCell.zero with chOrIdx := src.getD (offset + (i - cursor.x : ℕ)).toNat 0 } else l.cpuCells i
      gpuCells := fun i => if cursor.x ≤ i ∧ (i : ℤ) < min (cursor.x + sz) l.xnum then
        { l.gpuCells i with
          attrs := cursorToAttrs cursor, fg := cursor.fg &&& colMask
          bg := cursor.bg &&& colMask, decorationFg := cursor.decorationFg &&& colMask }
        else l.gpuCells i }, none) ∧
    ∀ i, cursor.x ≤ i → (i : ℤ) < min (cursor.x + sz) l.xnum →
      textAt (setText colMask l src offset sz cursor).1 i = .ok [src.getD (offset + (i - cursor.x : ℕ)).toNat 0] := by
  refine (fun hset => ⟨hset, fun i hx hi => ?_⟩) ?_
  · -- the loop writes exactly the columns of the range
    unfold setText
    rw [if_neg (by omega), setTextLoop_eq src _ _ _ _ hlen _ _ _ _ le_rfl h0]
    simp only [Prod.mk.injEq, and_true]
    congr 1 <;> funext i <;> exact if_congr (by omega) rfl rfl
  · -- `text_at` reads a plain cell back as its code point
    rw [hset]
    unfold textAt
    rw [if_neg (by simp only; omega)]
    simp [hx, hi, CPUCell.zero]

def redCursorAt1 : Cursor := { redCursor with x := 1 }

theorem setText_written_ab :
    setText 0xFFFFFFFF (Line.ofString "xyz") ['a'.toNat, 'b'.toNat] 0 2 redCursorAt1 = ({ Line.ofString "xyz" with
      cpuCells := fun i => if redCursorAt1.x ≤ i ∧ (i : ℤ) < min (redCursorAt1.x + 2) (Line.ofString "xyz").xnum then
        { CPUCell.zero with chOrIdx := ['a'.toNat, 'b'.toNat].getD ((0 : ℤ) + (i - redCursorAt1.x : ℕ)).toNat 0 }
        else (Line.ofString "xyz").cpuCells i
      gpuCells := fun i => if redCursorAt1.x ≤ i ∧ (i : ℤ) < min (redCursorAt1.x + 2) (Line.ofString "xyz").xnum then
        { (Line.ofString "xyz").gpuCells i with
          attrs := cursorToAttrs redCursorAt1, fg := redCursorAt1.fg &&& 0xFFFFFFFF
          bg := redCursorAt1.bg &&& 0xFFFFFFFF, decorationFg := redCursorAt1.decorationFg &&& 0xFFFFFFFF }
        else (Line.ofString "xyz").gpuCells i }, none) ∧
    ∀ i : ℕ, redCursorAt1.x ≤ i → (i : ℤ) < min (redCursorAt1.x + 2) (Line.ofString "xyz").xnum →
      textAt (setText 0xFFFFFFFF (Line.ofString "xyz") ['a'.toNat, 'b'.toNat] 0 2 redCursorAt1).1 i =
        .ok [['a'.toNat, 'b'.toNat].getD ((0 : ℤ) + (i - redCursorAt1.x : ℕ)).toNat 0] :=
  setText_written 0xFFFFFFFF (Line.ofString "xyz") ['a'.toNat, 'b'.toNat] redCursorAt1 le_rfl (by decide)

/-- `set_text("a", -1, 1, cursor)` on a one-column line: `offset + sz = 0`
passes the check, and the loop reads `src[-1]`, before the string. -/
theorem setText_reads_before_src :
    (setText 0xFFFFFFFF (Line.ofString "b") ['a'.toNat] (-1) 1 redCursor).2 = some (.readOutside (-1)) := by
  decide

end KittyLine
