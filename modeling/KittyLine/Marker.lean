/-
# Marking text

`mark_text_in_line` gives the marker the line's text, `line_as_unicode(line,
false)`, and turns the matches it yields, ranges `[l, r]` of text offsets
with a color, into marks on cells. `apply_marker` walks the cells with
`apply_mark`, which marks one group of cells (a cell, a tab and the spaces it
swallows, a multi-cell glyph) and moves the text offset past the group's text.

The walk stays on the text only if `apply_mark` counts each group as
`unicode_in_range` writes it. For a cell whose text starts with a zero code
point it counts one, where `unicode_in_range` writes a space and every
combining mark after it: from such a cell on, marks land one cell late for
each mark (`markTextInLine_zero_base`).

The marker is a function of the text: it fails at once, or yields its
matches in order and stops, raising an error or not. Its error is reported
only if `apply_marker` pulls past the last match, which it does not once the
walk has reached the end of the line.

Key definitions: `applyMark`, `applyMarker`, `markTextInLine`.
-/
import KittyLine.Unicode

namespace KittyLine

/-- `line->gpu_cells[x].attrs.mark = m`. -/
def Line.setMark (l : Line) (x m : ℕ) : Line :=
  let g := l.gpuCells x
  { l with gpuCells := Function.update l.gpuCells x { g with attrs := { g.attrs with mark := m } } }

@[simp] theorem Line.setMark_cpuCells (l : Line) (x m : ℕ) : (l.setMark x m).cpuCells = l.cpuCells := rfl

@[simp] theorem Line.setMark_xnum (l : Line) (x m : ℕ) : (l.setMark x m).xnum = l.xnum := rfl

@[simp] theorem Line.setMark_textCache (l : Line) (x m : ℕ) :
    (l.setMark x m).textCache = l.textCache := rfl

/-- `k` cells from `x` on get mark `m`: `for (; x < x_limit; x++) MARK;`. -/
def markRange (m : ℕ) : ℕ → Line → ℕ → Line
  | 0, l, _ => l
  | k + 1, l, x => markRange m k (l.setMark x m) (x + 1)

/-- The tab loop of `apply_mark`: `skipTabCells` up to `xnum`, marking each
cell it swallows. -/
def markTabCells (m : ℕ) : ℕ → Line → ℕ → Line × ℕ
  | 0, l, x => (l, x)
  | num + 1, l, x =>
    if x + 1 < l.xnum ∧ cellIsChar (l.cpuCells (x + 1)) ' '.toNat then
      markTabCells m num (l.setMark (x + 1) m) (x + 1)
    else (l, x)

/-- `apply_mark(line, mark, &cell_pos, &match_pos)`: the line, the next cell
and the next text offset. A multi-cell glyph's cells up to `mcd_x_limit` of
the data read at `lc.chars[lc.count]` are marked; then `x--` and `*cell_pos =
x + 1` leave the column the loop stopped at. -/
def applyMark (E : Env) (l : Line) (mark x matchPos : ℕ) : Line × ℕ × ℕ :=
  let l := l.setMark x mark
  let matchPos := matchPos + 1
  let lc := textInCell (l.cpuCells x) l.textCache
  let c0 := lc.chars.headD 0
  if c0 ≠ 0 then
    if c0 = '\t'.toNat then
      let r := markTabCells mark (if lc.chars.length > 1 then lc.chars.getD 1 0 else 0) l x
      (r.1, r.2 + 1, matchPos)
    else if (l.cpuCells x).isMulticell then
      let xLimit := min l.xnum (E.mcdXLimit lc.charsAtCount)
      (markRange mark (xLimit - x) l x, max x xLimit, matchPos + (lc.chars.length - 1))
    else (l, x + 1, matchPos + (lc.chars.length - 1))
  else (l, x + 1, matchPos)

/-- `while (match_pos < bound && x < xnum) apply_mark(line, mark, &x, &match_pos);`
with fuel; each pass moves the text offset by at least one, so `bound`
passes finish it. -/
def applyMarkWhile (E : Env) (mark bound : ℕ) : ℕ → Line → ℕ → ℕ → Line × ℕ × ℕ
  | 0, l, x, mp => (l, x, mp)
  | fuel + 1, l, x, mp =>
    if mp < bound ∧ x < l.xnum then
      let r := applyMark E l mark x mp
      applyMarkWhile E mark bound fuel r.1 r.2.1 r.2.2
    else (l, x, mp)

/-- The loop of `apply_marker` over the matches `(l, r, col)` the marker
yields, `while ((match = PyIter_Next(iter)) && x < line->xnum)`: cells before
`l` get mark 0, cells up to `r` get `col & MARK_MASK`. Besides the line, the
column and the offset, it returns whether `PyIter_Next` was called past the
last match. The iterator is pulled before `x` is compared, so a match pulled
once `x` has reached `xnum` ends the loop and nothing after it is pulled. -/
def applyMatches (E : Env) : List (ℕ × ℕ × ℕ) → Line → ℕ → ℕ → Line × ℕ × ℕ × Bool
  | [], l, x, mp => (l, x, mp, true)
  | (lo, r, col) :: ms, l, x, mp =>
    if x < l.xnum then
      let a := applyMarkWhile E 0 lo lo l x mp
      let b := applyMarkWhile E ((col &&& E.markMask) % 2 ^ 16) (r + 1) (r + 1) a.1 a.2.1 a.2.2
      applyMatches E ms b.1 b.2.1 b.2.2
    else (l, x, mp, false)

/-- What a marker does with the text it is called on: fail at once (`none`),
or yield its matches in order and then stop, raising an error (`true`) or
not, when pulled past the last. -/
def Marker := List ℕ → Option (List (ℕ × ℕ × ℕ) × Bool)

/-- `apply_marker(marker, line, text)`: the line, and whether an error was
reported. The cells past the last match get mark 0. `PyErr_Occurred()` sees
the marker's error only if the loop pulled past its last match. -/
def applyMarker (E : Env) (marker : Marker) (l : Line) (text : List ℕ) : Line × Bool :=
  match marker text with
  | none => (l, true)
  | some (ms, raises) =>
    let r := applyMatches E ms l 0 0
    (markRange 0 (l.xnum - r.2.1) r.1 r.2.1, raises && r.2.2.2)

/-- `mark_text_in_line(marker, line)` (`none` for NULL): the line, the
marker's `error_reported` flag, and the flatten buffer. -/
def markTextInLine (E : Env) (marker : Option Marker) (l : Line) (reported : Bool)
    (g : UnicodeBuf) : Line × Bool × UnicodeBuf :=
  match marker with
  | none => (markRange 0 l.xnum l 0, reported, g)
  | some m =>
    let t := lineAsUnicode E l false g
    if t.1.length > 0 then
      let r := applyMarker E m l t.1
      (r.1, reported || r.2, t.2)
    else (markRange 0 l.xnum l 0, reported, t.2)

/-- A line whose first cell is a zero code point with a combining acute
accent, then `a`, then `b`. -/
def zeroBaseLine : Line where
  xnum := 3
  cpuCells x := if x = 0 then { CPUCell.zero with chIsIdx := true }
    else { CPUCell.zero with chOrIdx := if x = 1 then 'a'.toNat else 'b'.toNat }
  gpuCells _ := GPUCell.blank
  promptKind := .unknown
  textCache := TextCache.const [0, 0x301] ⟨1, 1, 0, le_rfl, le_rfl⟩

/-- The text of `zeroBaseLine` is space, accent, `a`, `b`; a marker matching
the `a` at offset 2 gets cell 2, the `b`, marked, and cell 1 not. -/
theorem markTextInLine_zero_base :
    (lineAsUnicode Env.sample zeroBaseLine false UnicodeBuf.empty).1 = [' '.toNat, 0x301, 'a'.toNat, 'b'.toNat] ∧
    ((markTextInLine Env.sample (some fun _ => some ([(2, 2, 1)], false)) zeroBaseLine false
      UnicodeBuf.empty).1.gpuCells 1).attrs.mark = 0 ∧
    ((markTextInLine Env.sample (some fun _ => some ([(2, 2, 1)], false)) zeroBaseLine false
      UnicodeBuf.empty).1.gpuCells 2).attrs.mark = 1 := by
  decide

end KittyLine
