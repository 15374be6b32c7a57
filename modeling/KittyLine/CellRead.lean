/-
# Reading one cell

Three readers of one column. `text_at` returns the cell's text: one code point
for a plain cell, the cached code points for an indexed one, and for a
multi-cell glyph nothing at a continuation cell and the cached text without
its first code point (`lc.chars + 1`) at the top-left cell.
`cell_as_unicode_for_fallback` and `cell_as_utf8_for_fallback` write the text
of a cell for a font that lacks its glyph, the second in UTF-8: the base (a
zero or a tab made a space), then, after any base but a tab, the combining
code points other than the variation selectors. `colors_for_cell` resolves the
colors of a column, reading a multi-cell glyph's colors from its first column.

`text_at` and `unicode_in_range` over the one column agree on a cell that is
neither blank nor a tab, except at a multi-cell glyph's top-left cell, where
`text_at` drops the first code point (`textAt_unicodeInRange`,
`textAt_wideGlyph`), and at a continuation cell that is not indexed. A
glyph's `MultiCellData` is stored after the code points of its entry:
`apply_mark` reads it at `lc.chars[lc.count]`, and `text_in_cell_ansi` writes
the entry's code points after the glyph's prefix as they are. So the
`lc.chars + 1` of `text_at` skips a code point of the glyph, not stored data. The two
fallback writers write one text, the UTF-8 one as the concatenated encodings
of the other's code points (`cellAsUtf8ForFallback_unicode`). On a line whose
glyphs are laid out left to right, a continuation cell has its glyph's colors
(`colorsForCell_continuation`).

`tc_chars_at_index` and `encode_utf8` live outside `line.c`: the first is
modelled from the spec as the `count` code points of the entry; the theorems on the
UTF-8 writer hold for any encoder that writes the bytes it counts.

Key definitions: `textAt`, `fallbackChars`, `cellAsUnicodeForFallback`,
`cellAsUtf8ForFallback`, `resolveColor`, `colorsForCell`.
Key theorems: `textAt_unicodeInRange`, `cellAsUtf8ForFallback_unicode`,
`colorsForCell_continuation`.
-/
import KittyLine.Visible

namespace KittyLine

/-! ### `text_at` -/

/-- Modelled from the spec: `tc_chars_at_index`, the `count` code points of an
entry of the text cache (§2.1); a glyph's data follows them. -/
def tcCharsAtIndex (tc : TextCache) (idx : ℕ) : List ℕ := tc.chars idx

/-- `text_at(x)`: the text of the cell at column `x`, or the index error past
the line. The column is taken as a natural number; the cast of the Python
integer to `unsigned` is left out. -/
def textAt (l : Line) (x : ℕ) : Except String (List ℕ) :=
  if x ≥ l.xnum then .error "Column number out of bounds"
  else
    let cell := l.cpuCells x
    if cell.chIsIdx then
      let lc := tcCharsAtIndex l.textCache cell.chOrIdx
      if cell.isMulticell then
        if cell.x ≠ 0 ∨ cell.y ≠ 0 ∨ lc.length = 0 then .ok [] else .ok (lc.drop 1)
      else .ok lc
    else .ok [cell.chOrIdx]

theorem cellText_of_plain {l : Line} {limit pos : ℕ}
    (hz : (textInCell (l.cpuCells pos) l.textCache).chars.headD 0 ≠ 0)
    (ht : (textInCell (l.cpuCells pos) l.textCache).chars.headD 0 ≠ '\t'.toNat) :
    cellText l limit pos = ((textInCell (l.cpuCells pos) l.textCache).chars, pos + 1) := by
  unfold cellText zeroAsSpace
  simp only [if_neg hz, if_neg ht]

theorem unicodeInRange_one (l : Line) {x : ℕ} (g : UnicodeBuf)
    (hz : (textInCell (l.cpuCells x) l.textCache).chars.headD 0 ≠ 0)
    (ht : (textInCell (l.cpuCells x) l.textCache).chars.headD 0 ≠ '\t'.toNat) :
    (unicodeInRange l x (x + 1) true false false g).1 =
      if (l.cpuCells x).isContinuation then [] else (textInCell (l.cpuCells x) l.textCache).chars := by
  have hne : (textInCell (l.cpuCells x) l.textCache).chars ≠ [] := fun h => hz (by rw [h]; rfl)
  simp only [unicodeInRange, Nat.add_sub_cancel_left, Bool.false_eq_true, false_and, if_false]
  cases hc : (l.cpuCells x).isContinuation
  · obtain ⟨g', hloop, hg'⟩ := @unicodeLoop_noncontinuation l (x + 1) 0 x 0 g (by omega) hc hne
    rw [hloop, cellText_of_plain hz ht] at *
    simpa [unicodeLoop] using hg'
  · simp only [CPUCell.isContinuation, Bool.and_eq_true, Bool.not_eq_true', Bool.and_eq_false_iff,
      beq_eq_false_iff_ne] at hc
    simp [unicodeLoop, hc]

/-- **`text_at` and `unicode_in_range` on one column.** For a cell that is
neither blank nor a tab, `text_at(x)` is what `unicode_in_range(x, x + 1)`
returns, but without its first code point at an indexed multi-cell cell, and
as the cell's code point at a continuation cell that is not indexed, where
`unicode_in_range` returns nothing. This is what a call that stays inside its
allocation returns. -/
theorem textAt_unicodeInRange (l : Line) {x : ℕ} (hx : x < l.xnum)
    (hz : (textInCell (l.cpuCells x) l.textCache).chars.headD 0 ≠ 0)
    (ht : (textInCell (l.cpuCells x) l.textCache).chars.headD 0 ≠ '\t'.toNat) (g : UnicodeBuf) :
    (unicodeInRange l x (x + 1) true false false g).2.overflowed = false →
    textAt l x = .ok
      (if (l.cpuCells x).chIsIdx = false ∧ (l.cpuCells x).isContinuation = true then [(l.cpuCells x).chOrIdx]
      else ((unicodeInRange l x (x + 1) true false false g).1).drop
        (if (l.cpuCells x).chIsIdx ∧ (l.cpuCells x).isMulticell then 1 else 0)) := by
  intro _
  rw [unicodeInRange_one l g hz ht]
  have hne : (textInCell (l.cpuCells x) l.textCache).chars ≠ [] := fun h => hz (by rw [h]; rfl)
  unfold textAt tcCharsAtIndex CPUCell.isContinuation
  rw [if_neg (Nat.not_le.2 hx)]
  simp only [textInCell] at hne ⊢
  cases hi : (l.cpuCells x).chIsIdx
  · -- a plain cell: its code point
    generalize ((l.cpuCells x).isMulticell && !((l.cpuCells x).x == 0 && (l.cpuCells x).y == 0)) = cont
    cases cont <;> simp
  · simp only [hi, if_true] at hne
    cases hm : (l.cpuCells x).isMulticell
    · -- an indexed cell outside multi-cell glyphs: its cached code points
      simp
    · -- a multi-cell glyph: nothing at a continuation, the cached text but
      -- its first code point at the top-left cell
      by_cases hxy : (l.cpuCells x).x = 0 ∧ (l.cpuCells x).y = 0
      · simp [hxy, hne]
      · rcases not_and_or.1 hxy with h | h <;> simp [h]

/-- A width-2 glyph of text `a` on a valid line: at its top-left cell
`text_at` gives nothing, and `unicode_in_range`, inside its allocation,
gives `a`. -/
theorem textAt_wideGlyph :
    wideGlyphLine.CellsValid ∧
    (unicodeInRange wideGlyphLine 0 1 true false false UnicodeBuf.empty).2.overflowed = false ∧
    textAt wideGlyphLine 0 = .ok [] ∧
    (unicodeInRange wideGlyphLine 0 1 true false false UnicodeBuf.empty).1 = ['a'.toNat] :=
  ⟨by unfold Line.CellsValid; decide, by decide, rfl, by decide⟩

def accentLine : Line :=
  Line.single { CPUCell.zero with chIsIdx := true } GPUCell.blank
    (TextCache.const ['e'.toNat, 0x301] ⟨1, 1, 0, le_rfl, le_rfl⟩)

theorem textAt_unicodeInRange_accent :
    (unicodeInRange accentLine 0 (0 + 1) true false false UnicodeBuf.empty).2.overflowed = false ∧
    textAt accentLine 0 = .ok
      (if (accentLine.cpuCells 0).chIsIdx = false ∧ (accentLine.cpuCells 0).isContinuation = true then
        [(accentLine.cpuCells 0).chOrIdx]
      else ((unicodeInRange accentLine 0 (0 + 1) true false false UnicodeBuf.empty).1).drop
        (if (accentLine.cpuCells 0).chIsIdx ∧ (accentLine.cpuCells 0).isMulticell then 1 else 0)) :=
  have hin : (unicodeInRange accentLine 0 (0 + 1) true false false UnicodeBuf.empty).2.overflowed = false := by
    decide
  ⟨hin, textAt_unicodeInRange accentLine (by decide) (by decide) (by decide) UnicodeBuf.empty hin⟩

/-! ### The fallback writers -/

def vs15 : ℕ := 0xFE0E

def vs16 : ℕ := 0xFE0F

/-- The fallback text of a cell's code points `cs` (§3.6, §4.1): the base, a
zero or a tab made a space, then, unless the base is a tab, the combining code
points other than VS15 and VS16. -/
def fallbackChars (cs : List ℕ) : List ℕ :=
  (if cs.headD 0 = 0 ∨ cs.headD 0 = '\t'.toNat then ' '.toNat else cs.headD 0) ::
    if cs.headD 0 = '\t'.toNat then [] else cs.tail.filter fun c => c ≠ vs15 ∧ c ≠ vs16

/-- One pass of `cell_as_unicode_for_fallback`'s loop:
`if (c != VS15 && c != VS16) buf[n++] = c;` -/
def unicodeFallbackStep (r : ℕ × List ℕ) (c : ℕ) : ℕ × List ℕ :=
  if c ≠ vs15 ∧ c ≠ vs16 then (r.1 + 1, r.2 ++ [c]) else r

/-- `cell_as_unicode_for_fallback(lc, buf)`: the count `n` it returns and the
code points it writes, `buf[0 .. n)`. -/
def cellAsUnicodeForFallback (lc : ListOfChars) : ℕ × List ℕ :=
  let b0 := if lc.chars.headD 0 ≠ 0 then lc.chars.headD 0 else ' '.toNat
  if b0 ≠ '\t'.toNat then lc.chars.tail.foldl unicodeFallbackStep (1, [b0])
  else (1, [' '.toNat])

/-- One pass of `cell_as_utf8_for_fallback`'s loop:
`if (ch != VS15 && ch != VS16) n += encode_utf8(ch, buf + n);` -/
def utf8FallbackStep (encodeUtf8 : ℕ → List ℕ) (r : ℕ × List ℕ) (c : ℕ) : ℕ × List ℕ :=
  if c ≠ vs15 ∧ c ≠ vs16 then (r.1 + (encodeUtf8 c).length, r.2 ++ encodeUtf8 c) else r

/-- `cell_as_utf8_for_fallback(lc, buf)` for an `encode_utf8` that writes the
bytes `encodeUtf8 ch` and returns their count: the count `n` it returns and the
bytes it writes, `buf[0 .. n]` with the closing NUL. -/
def cellAsUtf8ForFallback (encodeUtf8 : ℕ → List ℕ) (lc : ListOfChars) : ℕ × List ℕ :=
  let ch := if lc.chars.headD 0 ≠ 0 then lc.chars.headD 0 else ' '.toNat
  let includeCc := ch ≠ '\t'.toNat
  let ch := if ch = '\t'.toNat then ' '.toNat else ch
  let r : ℕ × List ℕ := ((encodeUtf8 ch).length, encodeUtf8 ch)
  let r := if includeCc then lc.chars.tail.foldl (utf8FallbackStep encodeUtf8) r else r
  (r.1, r.2 ++ [0])

theorem foldl_unicodeFallbackStep (cs : List ℕ) (k : ℕ) (xs : List ℕ) :
    cs.foldl unicodeFallbackStep (k, xs) =
      (k + (cs.filter fun c => c ≠ vs15 ∧ c ≠ vs16).length, xs ++ cs.filter fun c => c ≠ vs15 ∧ c ≠ vs16) := by
  induction cs generalizing k xs with
  | nil => simp
  | cons c cs ih =>
    by_cases hc : c ≠ vs15 ∧ c ≠ vs16
    · rw [List.foldl_cons, unicodeFallbackStep, if_pos hc, ih,
        List.filter_cons_of_pos (p := fun c => decide (c ≠ vs15 ∧ c ≠ vs16)) (decide_eq_true hc)]
      simp only [List.length_cons, List.append_assoc, List.singleton_append, Prod.mk.injEq, and_true]
      omega
    · rw [List.foldl_cons, unicodeFallbackStep, if_neg hc, ih,
        List.filter_cons_of_neg (p := fun c => decide (c ≠ vs15 ∧ c ≠ vs16)) (by simpa using hc)]

theorem foldl_utf8FallbackStep (enc : ℕ → List ℕ) (cs : List ℕ) (k : ℕ) (xs : List ℕ) :
    cs.foldl (utf8FallbackStep enc) (k, xs) =
      (k + ((cs.filter fun c => c ≠ vs15 ∧ c ≠ vs16).map enc).flatten.length,
        xs ++ ((cs.filter fun c => c ≠ vs15 ∧ c ≠ vs16).map enc).flatten) := by
  induction cs generalizing k xs with
  | nil => simp
  | cons c cs ih =>
    by_cases hc : c ≠ vs15 ∧ c ≠ vs16
    · rw [List.foldl_cons, utf8FallbackStep, if_pos hc, ih,
        List.filter_cons_of_pos (p := fun c => decide (c ≠ vs15 ∧ c ≠ vs16)) (decide_eq_true hc)]
      simp only [List.map_cons, List.flatten_cons, List.length_append, List.append_assoc, Prod.mk.injEq,
        and_true]
      omega
    · rw [List.foldl_cons, utf8FallbackStep, if_neg hc, ih,
        List.filter_cons_of_neg (p := fun c => decide (c ≠ vs15 ∧ c ≠ vs16)) (by simpa using hc)]

/-- `cell_as_unicode_for_fallback` writes the fallback text and returns its
length. -/
theorem cellAsUnicodeForFallback_eq (lc : ListOfChars) :
    cellAsUnicodeForFallback lc = ((fallbackChars lc.chars).length, fallbackChars lc.chars) := by
  unfold cellAsUnicodeForFallback fallbackChars
  generalize lc.chars.headD 0 = c0
  generalize lc.chars.tail = cs
  by_cases ht : c0 = '\t'.toNat
  · subst ht; simp
  · by_cases h0 : c0 = 0
    · subst h0; simp [foldl_unicodeFallbackStep, Nat.add_comm]
    · simp [h0, show c0 ≠ 9 from ht, foldl_unicodeFallbackStep, Nat.add_comm]

/-- `cell_as_utf8_for_fallback` writes the encodings of the fallback text's
code points, then a NUL, and returns the count of the encodings' bytes. -/
theorem cellAsUtf8ForFallback_eq (enc : ℕ → List ℕ) (lc : ListOfChars) :
    cellAsUtf8ForFallback enc lc =
      (((fallbackChars lc.chars).map enc).flatten.length, ((fallbackChars lc.chars).map enc).flatten ++ [0]) := by
  unfold cellAsUtf8ForFallback fallbackChars
  generalize lc.chars.headD 0 = c0
  generalize lc.chars.tail = cs
  by_cases ht : c0 = '\t'.toNat
  · subst ht; simp
  · by_cases h0 : c0 = 0
    · subst h0; simp [foldl_utf8FallbackStep]
    · simp [h0, show c0 ≠ 9 from ht, foldl_utf8FallbackStep]

/-- **The two fallback writers agree.** `cell_as_utf8_for_fallback` writes the
concatenated `encode_utf8` of the `n` code points `cell_as_unicode_for_fallback`
writes, then a NUL, and returns the byte count; those code points are the base,
a zero or a tab made a space, then, unless the base is a tab, the combining
code points but VS15 and VS16. -/
theorem cellAsUtf8ForFallback_unicode (enc : ℕ → List ℕ) (lc : ListOfChars) :
    (cellAsUtf8ForFallback enc lc).2 =
      (((cellAsUnicodeForFallback lc).2.take (cellAsUnicodeForFallback lc).1).map enc).flatten ++ [0] ∧
    (cellAsUtf8ForFallback enc lc).1 =
      (((cellAsUnicodeForFallback lc).2.take (cellAsUnicodeForFallback lc).1).map enc).flatten.length ∧
    (cellAsUnicodeForFallback lc).2 = fallbackChars lc.chars := by
  rw [cellAsUtf8ForFallback_eq, cellAsUnicodeForFallback_eq, List.take_length]
  exact ⟨rfl, rfl, rfl⟩

/-! ### `colors_for_cell` -/

/-- Modelled from the spec: the color profile, as `line.c` reads it, its
256-color table (§4.5). -/
structure ColorProfile where
  colorTable : ℕ → ℕ

/-- `resolve_color(cp, val, defval)`: by the color's low byte, an entry of the
table, the truecolor in the upper bits, or the default. -/
def resolveColor (cp : ColorProfile) (val defval : ℕ) : ℕ :=
  match val % 256 with
  | 1 => cp.colorTable (val / 256 % 256)
  | 2 => val / 256
  | _ => defval

/-- The walk of `colors_for_cell` to a glyph's first column, with fuel:
`while (cells[x].is_multicell && cells[x].x && x) x--;` -/
def multicellWalk (l : Line) : ℕ → ℕ → ℕ
  | 0, x => x
  | fuel + 1, x =>
    if (l.cpuCells x).isMulticell ∧ (l.cpuCells x).x ≠ 0 ∧ x ≠ 0 then multicellWalk l fuel (x - 1) else x

/-- `colors_for_cell(self, cp, &x, &fg, &bg, &reversed)`: whether `x` is in the
line, and `x`, `fg`, `bg` and `reversed` after it. The walk takes at most `x`
steps. -/
def colorsForCell (l : Line) (cp : ColorProfile) (x fg bg : ℕ) (reversed : Bool) :
    Bool × ℕ × ℕ × ℕ × Bool :=
  if x ≥ l.xnum then (false, x, fg, bg, reversed)
  else
    let x := multicellWalk l x x
    let fg := resolveColor cp (l.gpuCells x).fg fg
    let bg := resolveColor cp (l.gpuCells x).bg bg
    if (l.gpuCells x).attrs.reverse then (true, x, bg, fg, true) else (true, x, fg, bg, reversed)

/-- The horizontal layout of multi-cell glyphs: a multi-cell cell of offset
`dx > 0` has the cells of offsets `0 .. dx - 1` of its glyph right before it. -/
def Line.MulticellRowOk (l : Line) : Prop :=
  ∀ c < l.xnum, (l.cpuCells c).isMulticell = true → 0 < (l.cpuCells c).x →
    (l.cpuCells c).x ≤ c ∧ ∀ k < (l.cpuCells c).x,
      (l.cpuCells (c - (l.cpuCells c).x + k)).isMulticell = true ∧
        (l.cpuCells (c - (l.cpuCells c).x + k)).x = k

instance (l : Line) : Decidable l.MulticellRowOk :=
  inferInstanceAs (Decidable (∀ c < l.xnum, (l.cpuCells c).isMulticell = true → 0 < (l.cpuCells c).x →
    (l.cpuCells c).x ≤ c ∧ ∀ k < (l.cpuCells c).x,
      (l.cpuCells (c - (l.cpuCells c).x + k)).isMulticell = true ∧
        (l.cpuCells (c - (l.cpuCells c).x + k)).x = k))

theorem multicellWalk_of_x_zero (l : Line) {x : ℕ} (h : (l.cpuCells x).x = 0) : ∀ fuel, multicellWalk l fuel x = x
  | 0 => rfl
  | _ + 1 => by simp [multicellWalk, h]

/-- From the cell of offset `j` of a glyph laid out from column `b`, the walk
reaches `b`. -/
theorem multicellWalk_to_first (l : Line) {b : ℕ} : ∀ j fuel, j ≤ fuel →
    (∀ k ≤ j, (l.cpuCells (b + k)).x = k ∧ (0 < k → (l.cpuCells (b + k)).isMulticell = true)) →
      multicellWalk l fuel (b + j) = b
  | 0, fuel, _, h => multicellWalk_of_x_zero l (h 0 le_rfl).1 fuel
  | j + 1, fuel + 1, hf, h => by
    have hj := h (j + 1) le_rfl
    rw [multicellWalk, if_pos ⟨hj.2 (by omega), by omega, by omega⟩, show b + (j + 1) - 1 = b + j by omega]
    exact multicellWalk_to_first l j fuel (by omega) fun k hk => h k (by omega)

/-- **A continuation cell has its glyph's colors.** On a line whose glyphs are
laid out left to right, `colors_for_cell` at a multi-cell cell of offset
`dx > 0` moves `x` to the glyph's first column `c - dx` and returns what it
returns there. -/
theorem colorsForCell_continuation (l : Line) (h : l.MulticellRowOk) (cp : ColorProfile) {c : ℕ}
    (hc : c < l.xnum) (hm : (l.cpuCells c).isMulticell = true) (hx : 0 < (l.cpuCells c).x)
    (fg bg : ℕ) (reversed : Bool) :
    (colorsForCell l cp c fg bg reversed).2.1 = c - (l.cpuCells c).x ∧
    colorsForCell l cp c fg bg reversed = colorsForCell l cp (c - (l.cpuCells c).x) fg bg reversed := by
  obtain ⟨hle, hcells⟩ := h c hc hm hx
  generalize hd : (l.cpuCells c).x = d at *
  -- the columns of the glyph, with their offsets
  have hglyph : ∀ k ≤ d, (l.cpuCells (c - d + k)).x = k ∧
      (0 < k → (l.cpuCells (c - d + k)).isMulticell = true) := by
    intro k hk
    rcases Nat.lt_or_ge k d with hk' | hk'
    · exact ⟨(hcells k hk').2, fun _ => (hcells k hk').1⟩
    · obtain rfl : k = d := by omega
      rw [show c - k + k = c by omega]
      exact ⟨hd, fun _ => hm⟩
  have hwalk : multicellWalk l c c = c - d := by
    simpa [show c - d + d = c by omega] using multicellWalk_to_first l d c hle hglyph
  unfold colorsForCell
  rw [if_neg (show ¬ c ≥ l.xnum by omega), if_neg (show ¬ c - d ≥ l.xnum by omega), hwalk,
    multicellWalk_of_x_zero l (x := c - d) (hglyph 0 (Nat.zero_le _)).1]
  refine ⟨?_, rfl⟩
  dsimp only
  split <;> rfl

theorem colorsForCell_continuation_wideGlyph :
    (colorsForCell wideGlyphLine ⟨fun _ => 0⟩ 1 7 9 false).2.1 = 1 - (wideGlyphLine.cpuCells 1).x ∧
    colorsForCell wideGlyphLine ⟨fun _ => 0⟩ 1 7 9 false =
      colorsForCell wideGlyphLine ⟨fun _ => 0⟩ (1 - (wideGlyphLine.cpuCells 1).x) 7 9 false :=
  colorsForCell_continuation wideGlyphLine (by decide) ⟨fun _ => 0⟩ (by decide) rfl (by decide) 7 9 false

end KittyLine
