/-
# Cells, lines and the text cache

The data of `line.c`. A line is `xnum` columns; each column is a CPU cell (its
text, its hyperlink, its place in a multi-cell glyph) and a GPU cell (its
rendition). A cell's text is one code point, or an index into the line's text
cache, which holds the code points of a grapheme (a base and its combining
marks) and, for a multi-cell glyph, the glyph's `MultiCellData`.

Column numbers are `index_type`; the model takes them in `ℕ`, and each cell
array as a function of the column, of which the code reads the first `xnum`.
Code points (`char_type`) and colors (`color_type`) are `ℕ` as well: the code
only masks and shifts them.

The text cache, `text_in_cell` and `cell_is_char` live outside `line.c`; they
are modelled from the spec (§2, §3.1, §4.3).

Key definitions: `CPUCell`, `GPUCell`, `Line`, `Env`, `textInCell`, `cellIsChar`,
`Line.CellsValid`.
-/
import Mathlib.Data.List.Basic
import Mathlib.Algebra.Group.Nat.Basic

namespace KittyLine

/-- The prompt marker a line carries (`attrs.prompt_kind`). -/
inductive PromptKind
  | unknown
  | promptStart
  | secondaryPrompt
  | outputStart
  deriving DecidableEq, Repr

/-- The text half of a cell. -/
structure CPUCell where
  chOrIdx : ℕ
  chIsIdx : Bool
  isMulticell : Bool
  x : ℕ
  y : ℕ
  hyperlinkId : ℕ
  nextCharWasWrapped : Bool
  deriving DecidableEq, Repr

/-- The attribute word of a GPU cell, the fields `line.c` reads. -/
structure CellAttrs where
  decoration : ℕ
  bold : Bool
  italic : Bool
  reverse : Bool
  strike : Bool
  dim : Bool
  mark : ℕ
  deriving DecidableEq, Repr

/-- The rendition half of a cell. A color's low byte is its kind: 1 an index
into the 256-color table in bits 8..15, 2 a truecolor in bits 8..31, anything
else the default. -/
structure GPUCell where
  fg : ℕ
  bg : ℕ
  decorationFg : ℕ
  attrs : CellAttrs
  spriteX : ℕ
  spriteY : ℕ
  spriteZ : ℕ
  deriving DecidableEq, Repr

def CellAttrs.zero : CellAttrs := ⟨0, false, false, false, false, false, 0⟩

/-- The all-zero GPU cell, `blank_cell` in `line_as_ansi`. -/
def GPUCell.blank : GPUCell := ⟨0, 0, 0, CellAttrs.zero, 0, 0, 0⟩

def CPUCell.zero : CPUCell := ⟨0, false, false, 0, 0, 0, false⟩

/-- A multi-cell glyph: its width in cells, its scale and its subscale (§3.4). -/
structure MultiCellData where
  width : ℕ
  scale : ℕ
  subscale : ℕ
  one_le_width : 1 ≤ width
  one_le_scale : 1 ≤ scale

/-- Modelled from the spec: the text cache (§2.1), outside `line.c`. An entry
holds the code points of a grapheme, the `count` that `tc_chars_at_index`
copies, and, for a multi-cell glyph, the glyph's data stored right after them,
where `apply_mark` reads it (`lc.chars[lc.count]`) and `cell_multicell_data`
decodes it. -/
structure TextCache where
  chars : ℕ → List ℕ
  multicellData : ℕ → MultiCellData

/-- One row of the screen. -/
structure Line where
  xnum : ℕ
  cpuCells : ℕ → CPUCell
  gpuCells : ℕ → GPUCell
  promptKind : PromptKind
  textCache : TextCache

def Line.single (cpu : CPUCell) (gpu : GPUCell) (tc : TextCache) : Line :=
  ⟨1, fun _ => cpu, fun _ => gpu, .unknown, tc⟩

/-- A text cache whose every entry is `chars`, for a glyph of the given data. -/
def TextCache.const (chars : List ℕ) (mcd : MultiCellData) : TextCache :=
  ⟨fun _ => chars, fun _ => mcd⟩

/-- A line of one column holding the plain code point `ch`, all else zero. -/
def Line.plain (ch : ℕ) : Line :=
  Line.single { CPUCell.zero with chOrIdx := ch } GPUCell.blank (TextCache.const [] ⟨1, 1, 0, le_rfl, le_rfl⟩)

/-- What `line.c` takes from the rest of kitty and does not define: the
constants `TEXT_SIZE_CODE`, `DECORATION_FG_CODE` and `MARK_MASK`,
`mcd_x_limit`, the last
column `xlimit_for_line` lets the serializers read (never past `xnum`), and
the classifiers `is_url_char` and `can_strip_from_end_of_url`. -/
structure Env where
  textSizeCode : ℕ
  decorationFgCode : ℕ
  markMask : ℕ
  mcdXLimit : MultiCellData → ℕ
  xlimitForLine : Line → ℕ
  xlimit_le : ∀ l, xlimitForLine l ≤ l.xnum
  isUrlChar : ℕ → Bool
  canStripFromEndOfUrl : ℕ → Bool

/-- kitty's values of the constants (66, 58, 3), `mcd_x_limit` the cells a
glyph spans, an `xlimit_for_line` that
reads the whole line, printable ASCII as the URL characters and trailing
punctuation as strippable: an environment to run the model on. -/
def Env.sample : Env where
  textSizeCode := 66
  decorationFgCode := 58
  markMask := 3
  mcdXLimit mcd := mcd.width * mcd.scale
  xlimitForLine l := l.xnum
  xlimit_le _ := le_rfl
  isUrlChar c := 33 ≤ c && c ≤ 126
  canStripFromEndOfUrl c := c ∈ [46, 44, 59, 58, 63, 33, 41, 93, 39, 34]

/-- A line of plain cells spelling `s`. -/
def Line.ofString (s : String) : Line where
  xnum := s.length
  cpuCells x := { CPUCell.zero with chOrIdx := (s.toList.getD x ' ').toNat }
  gpuCells _ := GPUCell.blank
  promptKind := .unknown
  textCache := TextCache.const [] ⟨1, 1, 0, le_rfl, le_rfl⟩

/-- What `text_in_cell` fills in: the cell's code points, the element right
after them (`chars[count]`, the glyph's data for a cell of a multi-cell
glyph), and whether the cell belongs to a multi-cell glyph and is its
top-left cell. -/
structure ListOfChars where
  chars : List ℕ
  charsAtCount : MultiCellData
  isMulticell : Bool
  isTopleft : Bool

/-- Modelled from the spec: `cell_multicell_data`. -/
def cellMulticellData (c : CPUCell) (tc : TextCache) : MultiCellData :=
  tc.multicellData c.chOrIdx

/-- Modelled from the spec: `text_in_cell` (§3.1, §4.1). An indexed cell reads
its entry of the text cache, any other cell its one code point. -/
def textInCell (c : CPUCell) (tc : TextCache) : ListOfChars :=
  { chars := if c.chIsIdx then tc.chars c.chOrIdx else [c.chOrIdx]
    charsAtCount := cellMulticellData c tc
    isMulticell := c.isMulticell
    isTopleft := c.x == 0 && c.y == 0 }

/-- Modelled from the spec: `cell_is_char`, the cell holds exactly the one
plain code point `ch` (§4.3, "cells must match the prefix exactly"). -/
def cellIsChar (c : CPUCell) (ch : ℕ) : Bool := !c.chIsIdx && c.chOrIdx == ch

/-- A cell of a multi-cell glyph other than its top-left one: its text is the
top-left cell's, and readers skip it (§3.1). -/
def CPUCell.isContinuation (c : CPUCell) : Bool := c.isMulticell && !(c.x == 0 && c.y == 0)

/-- The cell invariant of §3.1 that the serializers rely on: an indexed cell
names a live entry of the text cache, which holds at least one code point. -/
def Line.CellsValid (l : Line) : Prop :=
  ∀ i < l.xnum, (l.cpuCells i).chIsIdx = true → l.textCache.chars (l.cpuCells i).chOrIdx ≠ []

/-- The tab loop of the serializers: `while (num && pos + 1 < limit &&
cell_is_char(cells + pos + 1, ' ')) { num--; pos++; }`; the column it stops at. -/
def skipTabCells (l : Line) (limit : ℕ) : ℕ → ℕ → ℕ
  | 0, pos => pos
  | num + 1, pos =>
    if pos + 1 < limit ∧ cellIsChar (l.cpuCells (pos + 1)) ' '.toNat then
      skipTabCells l limit num (pos + 1)
    else pos

theorem le_skipTabCells (l : Line) (limit : ℕ) : ∀ k pos, pos ≤ skipTabCells l limit k pos
  | 0, _ => le_rfl
  | k + 1, pos => by
    unfold skipTabCells
    split
    · exact le_trans (Nat.le_succ pos) (le_skipTabCells l limit k (pos + 1))
    · exact le_rfl

@[simp] theorem textInCell_isMulticell (c : CPUCell) (tc : TextCache) :
    (textInCell c tc).isMulticell = c.isMulticell := rfl

@[simp] theorem textInCell_charsAtCount (c : CPUCell) (tc : TextCache) :
    (textInCell c tc).charsAtCount = cellMulticellData c tc := rfl

@[simp] theorem textInCell_isTopleft (c : CPUCell) (tc : TextCache) :
    (textInCell c tc).isTopleft = (c.x == 0 && c.y == 0) := rfl

theorem textInCell_chars_of_idx {c : CPUCell} (tc : TextCache) (h : c.chIsIdx = true) :
    (textInCell c tc).chars = tc.chars c.chOrIdx := by simp [textInCell, h]

theorem textInCell_chars_of_not_idx {c : CPUCell} (tc : TextCache) (h : c.chIsIdx = false) :
    (textInCell c tc).chars = [c.chOrIdx] := by simp [textInCell, h]

theorem textInCell_of_cellIsChar {c : CPUCell} {ch : ℕ} (tc : TextCache)
    (h : cellIsChar c ch = true) : (textInCell c tc).chars = [ch] := by
  simp only [cellIsChar, Bool.and_eq_true, Bool.not_eq_true', beq_iff_eq] at h
  simp [textInCell, h.1, h.2]

theorem cellIsChar_eq_true {c : CPUCell} {ch : ℕ} :
    cellIsChar c ch = true ↔ c.chIsIdx = false ∧ c.chOrIdx = ch := by
  simp [cellIsChar]

theorem cellIsChar_unique {c : CPUCell} {a b : ℕ} (ha : cellIsChar c a = true)
    (hb : cellIsChar c b = true) : a = b :=
  (cellIsChar_eq_true.1 ha).2.symm.trans (cellIsChar_eq_true.1 hb).2

theorem cellIsChar_eq_false_of_ne {c : CPUCell} {a b : ℕ} (ha : cellIsChar c a = true)
    (hab : a ≠ b) : cellIsChar c b = false := by
  cases hb : cellIsChar c b
  · rfl
  · exact absurd (cellIsChar_unique ha hb) hab

theorem Line.CellsValid.chars_ne_nil {l : Line} (h : l.CellsValid) {i : ℕ} (hi : i < l.xnum) :
    (textInCell (l.cpuCells i) l.textCache).chars ≠ [] := by
  cases hc : (l.cpuCells i).chIsIdx
  · simp [textInCell, hc]
  · simpa [textInCell, hc] using h i hi hc

end KittyLine
