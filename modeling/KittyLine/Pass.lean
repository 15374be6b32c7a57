/-
# One pass of `line_as_ansi`, and its loop cut in two

A pass of `line_as_ansi`'s loop writes the cell's escape codes, then the
cell's text through `text_in_cell_ansi`, which returns the count `n` of code
points it wrote, and then patches that text through `buf[len - n]` and
`buf[len - n + 1]`. For every kind of cell `text_in_cell_ansi` appends exactly
`n` code points (`textInCellAnsi_cellAnsiText`), so with `n ≥ 1` the patches
stay among them. With `n = 0`, at a continuation cell of a multi-cell glyph,
they still read `buf[len]`, past the output (`ansiCellTextAccesses_within`):
into a fresh buffer, whose `buf` is NULL, from a range that starts at such a
cell, that is `buf[0]` (`lineAsAnsi_continuation_reads_buf`).

What a pass appends depends only on the previous cell, the active hyperlink
and the pool, never on the text already in the buffer (`AnsiState.Extends`,
`ansiLoop_extends`). So `line_as_ansi` over `[a, c)` is `line_as_ansi` over
`[a, b)` followed by `line_as_ansi` over `[b, c)` on the same buffer and
previous cell, when no tab in `[a, b)` swallows column `b`
(`lineAsAnsi_split`): the loop over `[a, c)` passes through `b`
(`ansiLoop_cut`), and from there runs as the second call does.

Key definitions: `cellAnsiText`, `cellOutput`, `ansiCellTextAccesses`,
`AnsiState.Extends`.
Key theorems: `ansiCellTextAccesses_within`, `ansiLoop_extends`, `ansiLoop_cut`,
`lineAsAnsi_split`.
-/
import KittyLine.AsText

namespace KittyLine

open ANSIBuf

/-! ### What `text_in_cell_ansi` writes -/

/-- What `text_in_cell_ansi` appends for a cell: nothing at a continuation
cell of a multi-cell glyph, the wrapper's opening and the cached text at its
top-left cell, and the cell's code points at any other cell. -/
def cellAnsiText (E : Env) (c : CPUCell) (tc : TextCache) : List ℕ :=
  if c.chIsIdx && c.isMulticell then
    if c.x ≠ 0 ∨ c.y ≠ 0 then [] else multicellPrefix E (cellMulticellData c tc) ++ tc.chars c.chOrIdx
  else (textInCell c tc).chars

/-- `text_in_cell_ansi` appends `cellAnsiText` and returns its length. -/
theorem textInCellAnsi_cellAnsiText (E : Env) (c : CPUCell) (tc : TextCache) (o : ANSIBuf) :
    (textInCellAnsi E c tc o).2.text = o.text ++ cellAnsiText E c tc ∧
    (textInCellAnsi E c tc o).1 = (cellAnsiText E c tc).length := by
  unfold cellAnsiText
  cases hm : (c.chIsIdx && c.isMulticell)
  · rw [textInCellAnsi_single E tc o hm]
    simp
  · simp only [Bool.and_eq_true] at hm
    by_cases hxy : c.x ≠ 0 ∨ c.y ≠ 0
    · simp [textInCellAnsi, hm.1, hm.2, hxy]
    · obtain ⟨hx, hy⟩ : c.x = 0 ∧ c.y = 0 := by omega
      obtain ⟨h1, h2, -⟩ := textInCellAnsi_anchor E tc o hm.1 hm.2 hx hy
      simp [hx, hy, h1, h2]

/-- The positions of `buf` that the patches after `text_in_cell_ansi` read, and
may rewrite: `buf[len - n]`, for the zero check and the tab check, and
`buf[len - n + 1]` for a tab's skip count when `n > 1`. -/
def ansiCellTextAccesses (E : Env) (l : Line) (pos : ℕ) (s : AnsiState) : List ℕ :=
  let r := textInCellAnsi E (l.cpuCells pos) l.textCache s.out
  let n := r.1
  let o := r.2
  let o := if o.buf (o.len - n) = 0 then o.set (o.len - n) ' '.toNat else o
  (o.len - n) :: if o.buf (o.len - n) = '\t'.toNat ∧ n > 1 then [o.len - n + 1] else []

theorem mem_ansiCellTextAccesses {E : Env} {l : Line} {pos p : ℕ} {s : AnsiState}
    (hp : p ∈ ansiCellTextAccesses E l pos s) :
    p = (textInCellAnsi E (l.cpuCells pos) l.textCache s.out).2.len -
        (textInCellAnsi E (l.cpuCells pos) l.textCache s.out).1 ∨
      p = (textInCellAnsi E (l.cpuCells pos) l.textCache s.out).2.len -
        (textInCellAnsi E (l.cpuCells pos) l.textCache s.out).1 + 1 ∧
      1 < (textInCellAnsi E (l.cpuCells pos) l.textCache s.out).1 := by
  unfold ansiCellTextAccesses at hp
  generalize textInCellAnsi E (l.cpuCells pos) l.textCache s.out = r at hp ⊢
  obtain ⟨n, o⟩ := r
  dsimp only at hp ⊢
  have hlen : (if o.buf (o.len - n) = 0 then o.set (o.len - n) ' '.toNat else o).len = o.len := by
    split <;> rfl
  generalize (if o.buf (o.len - n) = 0 then o.set (o.len - n) ' '.toNat else o) = o' at hp hlen
  rw [hlen] at hp
  rcases List.mem_cons.1 hp with rfl | hp
  · exact .inl rfl
  · split_ifs at hp with h
    · exact .inr ⟨List.mem_singleton.1 hp, h.2⟩
    · exact absurd hp (List.not_mem_nil _)

/-- **Where the patches of a pass reach.** For every kind of cell,
`text_in_cell_ansi` appends exactly the `n` code points it returns; the
patches then touch only positions among those `n` code points, or, when
`n = 0`, the position `len` just past the text. -/
theorem ansiCellTextAccesses_within (E : Env) (l : Line) (pos : ℕ) (s : AnsiState) :
    (textInCellAnsi E (l.cpuCells pos) l.textCache s.out).2.text =
      s.out.text ++ cellAnsiText E (l.cpuCells pos) l.textCache ∧
    (textInCellAnsi E (l.cpuCells pos) l.textCache s.out).1 = (cellAnsiText E (l.cpuCells pos) l.textCache).length ∧
    ∀ p ∈ ansiCellTextAccesses E l pos s,
      (s.out.len ≤ p ∧ p < s.out.len + (cellAnsiText E (l.cpuCells pos) l.textCache).length) ∨
      (cellAnsiText E (l.cpuCells pos) l.textCache = [] ∧ p = s.out.len) := by
  obtain ⟨ht, hn⟩ := textInCellAnsi_cellAnsiText E (l.cpuCells pos) l.textCache s.out
  have hlen : (textInCellAnsi E (l.cpuCells pos) l.textCache s.out).2.len =
      s.out.len + (cellAnsiText E (l.cpuCells pos) l.textCache).length := by
    rw [← text_length, ht, List.length_append, text_length]
  refine ⟨ht, hn, fun p hp => ?_⟩
  have hp' := mem_ansiCellTextAccesses hp
  rcases eq_or_ne (cellAnsiText E (l.cpuCells pos) l.textCache) [] with h0 | h0
  · rw [h0, List.length_nil] at hn hlen
    exact .inr ⟨h0, by omega⟩
  · have := List.length_pos.2 h0
    exact .inl (by omega)

/-- `line_as_ansi(wideGlyphLine, fresh buffer, &prev = NULL, 1, 2, 0)`: its
first pass, at the continuation cell of column 1, writes no escape code, and
`text_in_cell_ansi` returns `n = 0`; the patches then reach `buf[0]` of a
buffer nothing was written to, whose `buf` is NULL. -/
theorem lineAsAnsi_continuation_reads_buf :
    wideGlyphLine.CellsValid ∧
    (ansiCellEscapes Env.sample wideGlyphLine 1 (lineAsAnsiStart wideGlyphLine ANSIBuf.empty none 0)).out.len = 0 ∧
    (textInCellAnsi Env.sample (wideGlyphLine.cpuCells 1) wideGlyphLine.textCache
      (ansiCellEscapes Env.sample wideGlyphLine 1 (lineAsAnsiStart wideGlyphLine ANSIBuf.empty none 0)).out).1 = 0 ∧
    ansiCellTextAccesses Env.sample wideGlyphLine 1
      (ansiCellEscapes Env.sample wideGlyphLine 1 (lineAsAnsiStart wideGlyphLine ANSIBuf.empty none 0)) = [0] :=
  ⟨by unfold Line.CellsValid; decide, by decide⟩

/-! ### A pass, whatever the buffer holds -/

/-- What the text part of a pass at `pos` appends, and the column the loop
goes on from: the patches applied to what `text_in_cell_ansi` appends. -/
def cellOutput (E : Env) (l : Line) (limit pos : ℕ) : List ℕ × ℕ :=
  patchText l limit pos (cellAnsiText E (l.cpuCells pos) l.textCache)

/-- **The text part of a pass** appends `cellOutput` and goes on from the
column it names; it sets the previous cell and leaves the flag, the active
id and the pool. -/
theorem ansiCellText_spec (E : Env) (l : Line) (limit pos : ℕ) (s : AnsiState) :
    (ansiCellText E l limit pos s).1.out.text = s.out.text ++ (cellOutput E l limit pos).1 ∧
    (ansiCellText E l limit pos s).2 = (cellOutput E l limit pos).2 ∧
    (ansiCellText E l limit pos s).1.prev = l.gpuCells pos ∧
    (ansiCellText E l limit pos s).1.escapeCodeWritten = s.escapeCodeWritten ∧
    (ansiCellText E l limit pos s).1.out.activeHyperlinkId = s.out.activeHyperlinkId ∧
    (ansiCellText E l limit pos s).1.out.hyperlinkPool = s.out.hyperlinkPool := by
  obtain ⟨ht, hn⟩ := textInCellAnsi_cellAnsiText E (l.cpuCells pos) l.textCache s.out
  obtain ⟨h1, h2⟩ := ansiCellText_patch E l limit pos s ht hn
  obtain ⟨h5, h6⟩ := ansiCellText_meta E l limit pos s
  refine ⟨h1, h2, ?_, ?_, h5, h6⟩ <;>
  · unfold ansiCellText
    dsimp only
    split_ifs <;> rfl

theorem lt_cellOutput (E : Env) (l : Line) (limit pos : ℕ) : pos < (cellOutput E l limit pos).2 := by
  unfold cellOutput patchText
  split_ifs
  · simp
  · have := le_skipTabCells l limit ((zeroAsSpace (cellAnsiText E (l.cpuCells pos) l.textCache)).getD 1 0) pos
    simp only
    omega
  · simp

theorem skipTabCells_limit (l : Line) {b L : ℕ} (hbL : b ≤ L) :
    ∀ k pos, skipTabCells l L k pos + 1 ≤ b → skipTabCells l b k pos = skipTabCells l L k pos
  | 0, _, _ => rfl
  | k + 1, pos, h => by
    unfold skipTabCells at h ⊢
    by_cases hc : pos + 1 < L ∧ cellIsChar (l.cpuCells (pos + 1)) ' '.toNat = true
    · rw [if_pos hc] at h ⊢
      have := le_skipTabCells l L k (pos + 1)
      rw [if_pos ⟨by omega, hc.2⟩]
      exact skipTabCells_limit l hbL k (pos + 1) h
    · rw [if_neg hc]
      rw [if_neg fun h' => hc ⟨by omega, h'.2⟩]

theorem cellOutput_limit (E : Env) (l : Line) {b L pos : ℕ} (hbL : b ≤ L)
    (h : (cellOutput E l L pos).2 ≤ b) : cellOutput E l b pos = cellOutput E l L pos := by
  unfold cellOutput patchText at h ⊢
  split_ifs at h ⊢
  · rfl
  · rw [skipTabCells_limit l hbL _ _ h]
  · rfl

theorem ansiCell_fst_limit (E : Env) (l : Line) (b L pos : ℕ) (s : AnsiState) :
    (ansiCell E l b pos s).1 = (ansiCell E l L pos s).1 := by
  unfold ansiCell ansiCellText
  dsimp only
  split_ifs <;> rfl

/-! ### Runs that differ by what the buffer held -/

/-- `s` is where `t` is when the buffer already held `X` before `t`'s text,
and an escape code was already written if `F`: the same previous cell, active
id and pool, and `F` joined to `t`'s flag. -/
structure AnsiState.Extends (s t : AnsiState) (X : List ℕ) (F : Bool) : Prop where
  text : s.out.text = X ++ t.out.text
  prev : s.prev = t.prev
  active : s.out.activeHyperlinkId = t.out.activeHyperlinkId
  pool : s.out.hyperlinkPool = t.out.hyperlinkPool
  flag : s.escapeCodeWritten = (F || t.escapeCodeWritten)

section
variable {E : Env} {l : Line} {s t : AnsiState} {X : List ℕ} {F : Bool}

theorem AnsiState.Extends.hyperlink (h : s.Extends t X F) (pos : ℕ) :
    (ansiCellHyperlink l pos s).Extends (ansiCellHyperlink l pos t) X F := by
  unfold ansiCellHyperlink
  dsimp only
  rw [h.pool, h.active]
  split_ifs
  · obtain ⟨hs1, hs2, hs3⟩ := writeHyperlink_spec (l.cpuCells pos).hyperlinkId s.out
    obtain ⟨ht1, ht2, ht3⟩ := writeHyperlink_spec (l.cpuCells pos).hyperlinkId t.out
    exact ⟨by rw [hs1, ht1, h.text, h.pool, List.append_assoc], h.prev, by rw [hs2, ht2, h.pool],
      by rw [hs3, ht3, h.pool], by simp⟩
  · exact h

theorem AnsiState.Extends.sgr (h : s.Extends t X F) (pos : ℕ) :
    (ansiCellSgr E l pos s).Extends (ansiCellSgr E l pos t) X F := by
  unfold ansiCellSgr
  dsimp only
  rw [h.prev]
  split_ifs
  · exact ⟨by rw [writeSgr_text, writeSgr_text, h.text, List.append_assoc], rfl,
      by simpa [writeSgr] using h.active, by simpa [writeSgr] using h.pool, by simp⟩
  · exact h

/-- **One pass** from states that differ by what the buffer held: they go on
from the same column, and still differ only by it. -/
theorem AnsiState.Extends.cell (h : s.Extends t X F) (limit pos : ℕ) :
    (ansiCell E l limit pos s).1.Extends (ansiCell E l limit pos t).1 X F ∧
      (ansiCell E l limit pos s).2 = (ansiCell E l limit pos t).2 := by
  have he := (h.hyperlink (l := l) pos).sgr (E := E) (l := l) pos
  obtain ⟨hs1, hs2, hs3, hs4, hs5, hs6⟩ := ansiCellText_spec E l limit pos (ansiCellEscapes E l pos s)
  obtain ⟨ht1, ht2, ht3, ht4, ht5, ht6⟩ := ansiCellText_spec E l limit pos (ansiCellEscapes E l pos t)
  refine ⟨⟨?_, by simp only [ansiCell, hs3, ht3], ?_, ?_, ?_⟩, by simp only [ansiCell, hs2, ht2]⟩
  · simp only [ansiCell, hs1, ht1, ← List.append_assoc]
    exact congrArg (· ++ (cellOutput E l limit pos).1) he.text
  · simp only [ansiCell, hs5, ht5]; exact he.active
  · simp only [ansiCell, hs6, ht6]; exact he.pool
  · simp only [ansiCell, hs4, ht4]; exact he.flag

/-- **The loop** from states that differ by what the buffer held ends in states
that differ only by it. -/
theorem ansiLoop_extends (limit : ℕ) : ∀ fuel pos {s t : AnsiState}, s.Extends t X F →
    (ansiLoop E l limit fuel pos s).Extends (ansiLoop E l limit fuel pos t) X F
  | 0, _, _, _, h => h
  | fuel + 1, pos, s, t, h => by
    simp only [ansiLoop]
    split_ifs
    · obtain ⟨h', hnext⟩ := h.cell (E := E) (l := l) limit pos
      rw [hnext]
      exact ansiLoop_extends limit fuel _ h'
    · exact h

end

/-! ### Cutting the loop at a column -/

theorem ansiCell_snd (E : Env) (l : Line) (limit pos : ℕ) (s : AnsiState) :
    (ansiCell E l limit pos s).2 = (cellOutput E l limit pos).2 :=
  (ansiCellText_spec E l limit pos (ansiCellEscapes E l pos s)).2.1

theorem ansiLoop_fuel (E : Env) (l : Line) (limit : ℕ) : ∀ f₁ f₂ pos (s : AnsiState),
    limit - pos ≤ f₁ → limit - pos ≤ f₂ → ansiLoop E l limit f₁ pos s = ansiLoop E l limit f₂ pos s
  | 0, 0, _, _, _, _ => rfl
  | 0, _ + 1, pos, _, h₁, _ => by simp [ansiLoop, show ¬ pos < limit by omega]
  | _ + 1, 0, pos, _, _, h₂ => by simp [ansiLoop, show ¬ pos < limit by omega]
  | f₁ + 1, f₂ + 1, pos, s, h₁, h₂ => by
    simp only [ansiLoop]
    split_ifs with hp
    · have := lt_cellOutput E l limit pos
      exact ansiLoop_fuel E l limit f₁ f₂ _ _ (by rw [ansiCell_snd]; omega) (by rw [ansiCell_snd]; omega)
    · rfl

/-- **The loop passes through `b`.** When no pass in `[pos, b)` goes on from a
column past `b`, the loop bounded by `L ≥ b` runs as the loop bounded by `b`,
and then on from `b`. -/
theorem ansiLoop_cut (E : Env) (l : Line) {b L : ℕ} (hbL : b ≤ L) (pos : ℕ) (s : AnsiState) (hpos : pos ≤ b)
    (hb : ∀ t, pos ≤ t → t < b → (cellOutput E l L t).2 ≤ b) :
    ansiLoop E l L (L - pos) pos s = ansiLoop E l L (L - b) b (ansiLoop E l b (b - pos) pos s) := by
  rcases Nat.eq_or_lt_of_le hpos with rfl | hlt
  · simp [ansiLoop]
  · have hnext := lt_cellOutput E l L pos
    have hle := hb pos le_rfl hlt
    have hsnd : (ansiCell E l b pos s).2 = (ansiCell E l L pos s).2 := by
      rw [ansiCell_snd, ansiCell_snd, cellOutput_limit E l hbL hle]
    rw [show L - pos = L - pos - 1 + 1 by omega, show b - pos = b - pos - 1 + 1 by omega]
    simp only [ansiLoop, if_pos (show pos < L by omega), if_pos hlt, hsnd, ansiCell_fst_limit E l b L]
    rw [ansiCell_snd]
    rw [ansiLoop_fuel E l L (L - pos - 1) (L - (cellOutput E l L pos).2) _ _ (by omega) le_rfl,
      ansiLoop_fuel E l b (b - pos - 1) (b - (cellOutput E l L pos).2) _ _ (by omega) le_rfl]
    exact ansiLoop_cut E l hbL _ _ hle fun t h₁ h₂ => hb t (by omega) h₂
termination_by b - pos

/-! ### `line_as_ansi` cut in two -/

theorem lineAsAnsiStart_unknown (l : Line) (hk : l.promptKind = .unknown) (o : ANSIBuf) (prev : Option GPUCell) :
    lineAsAnsiStart l o prev 0 = ⟨{ o with len := 0 }, prev.getD GPUCell.blank, false⟩ := by
  simp [lineAsAnsiStart, hk, promptMark]

/-- `line_as_ansi` returns its loop's flag and buffer, and its loop's previous
cell when the loop runs. -/
theorem lineAsAnsi_loop (E : Env) (l : Line) (o : ANSIBuf) (prev : Option GPUCell)
    (startAt stopBefore prefixChar : ℕ) :
    ∃ S, S = ansiLoop E l (min stopBefore (E.xlimitForLine l)) (min stopBefore (E.xlimitForLine l) - startAt)
        startAt (lineAsAnsiStart l o prev prefixChar) ∧
      lineAsAnsi E l o prev startAt stopBefore prefixChar =
        (S.escapeCodeWritten, S.out, if min stopBefore (E.xlimitForLine l) ≤ startAt then prev else some S.prev) := by
  refine ⟨_, rfl, ?_⟩
  unfold lineAsAnsi
  dsimp only
  split
  · rw [show min stopBefore (E.xlimitForLine l) - startAt = 0 by omega]
    rfl
  · rfl

/-- **`line_as_ansi` cut at a column.** For a line of no prompt kind and no
prefix character, and columns `a ≤ b ≤ c` where no pass in `[a, b)` of the
call over `[a, c)` goes on from past `b` (no tab there swallows column `b`):
the call over `[a, b)` and then the call over `[b, c)`, on the buffer and the
previous cell the first leaves, write what the call over `[a, c)` writes, and
leave the same previous cell and active hyperlink; the call over `[a, c)`
writes an escape code exactly when one of the two does. -/
theorem lineAsAnsi_split (E : Env) (l : Line) (hk : l.promptKind = .unknown) (o : ANSIBuf)
    (prev : Option GPUCell) {a b c : ℕ} (hab : a ≤ b) (hbc : b ≤ c)
    (hb : ∀ t, a ≤ t → t < b → (cellOutput E l (min c (E.xlimitForLine l)) t).2 ≤ b) :
    (lineAsAnsi E l o prev a b 0).2.1.text ++
        (lineAsAnsi E l (lineAsAnsi E l o prev a b 0).2.1 (lineAsAnsi E l o prev a b 0).2.2 b c 0).2.1.text =
      (lineAsAnsi E l o prev a c 0).2.1.text ∧
    (lineAsAnsi E l (lineAsAnsi E l o prev a b 0).2.1 (lineAsAnsi E l o prev a b 0).2.2 b c 0).2.2 =
      (lineAsAnsi E l o prev a c 0).2.2 ∧
    (lineAsAnsi E l (lineAsAnsi E l o prev a b 0).2.1 (lineAsAnsi E l o prev a b 0).2.2 b c 0).2.1.activeHyperlinkId =
      (lineAsAnsi E l o prev a c 0).2.1.activeHyperlinkId ∧
    ((lineAsAnsi E l o prev a b 0).1 ||
        (lineAsAnsi E l (lineAsAnsi E l o prev a b 0).2.1 (lineAsAnsi E l o prev a b 0).2.2 b c 0).1) =
      (lineAsAnsi E l o prev a c 0).1 := by
  obtain ⟨T₁, hT₁, h₁⟩ := lineAsAnsi_loop E l o prev a b 0
  obtain ⟨T, hT, h⟩ := lineAsAnsi_loop E l o prev a c 0
  rw [h₁, h]
  obtain ⟨T₂, hT₂, h₂⟩ :=
    lineAsAnsi_loop E l T₁.out (if min b (E.xlimitForLine l) ≤ a then prev else some T₁.prev) b c 0
  rw [h₂]
  dsimp only
  rw [lineAsAnsiStart_unknown l hk] at hT₁ hT hT₂
  generalize E.xlimitForLine l = xl at *
  -- the loop over `[a, c)` passes through `b`, where the loop over `[a, b)` ends
  have hcut : T = ansiLoop E l (min c xl) (min c xl - b) b T₁ := by
    by_cases hbx : b ≤ xl
    · rw [hT, hT₁, min_eq_left hbx]
      exact ansiLoop_cut E l (by omega) a _ hab hb
    · rw [show min c xl - b = 0 by omega, hT, hT₁, min_eq_right (by omega : xl ≤ b),
        min_eq_right (by omega : xl ≤ c)]
      rfl
  have hprev : (if min b xl ≤ a then prev else some T₁.prev).getD GPUCell.blank = T₁.prev := by
    split
    · rw [hT₁, show min b xl - a = 0 by omega]
      rfl
    · rfl
  have hext : T.Extends T₂ T₁.out.text T₁.escapeCodeWritten := by
    rw [hcut, hT₂]
    exact ansiLoop_extends _ _ _ ⟨(List.append_nil _).symm, hprev.symm, rfl, rfl, by simp⟩
  refine ⟨hext.text.symm, ?_, hext.active.symm, hext.flag.symm⟩
  -- the previous cell: the last loop that runs sets it
  by_cases hcb : min c xl ≤ b
  · -- the call over `[b, c)` runs no loop, and the loop over `[a, c)` ends at `b`
    have hT : T = T₁ := by rw [hcut, show min c xl - b = 0 by omega]; rfl
    rw [if_pos hcb, show min b xl = min c xl by omega, hT]
  · rw [if_neg hcb, if_neg (show ¬ min c xl ≤ a by omega), hext.prev]

/-- `tabLine` cut after its curly-underlined first cell, with the curly cell
as the previous cell of the second call: the two calls write what the single
call writes, and leave its previous cell and hyperlink. -/
theorem lineAsAnsi_split_tabLine :
    tabLine.promptKind = .unknown ∧ 0 ≤ 1 ∧ 1 ≤ 4 ∧
    (∀ t, 0 ≤ t → t < 1 → (cellOutput Env.sample tabLine (min 4 (Env.sample.xlimitForLine tabLine)) t).2 ≤ 1) ∧
    ((lineAsAnsi Env.sample tabLine ANSIBuf.empty none 0 1 0).2.1.text ++
        (lineAsAnsi Env.sample tabLine (lineAsAnsi Env.sample tabLine ANSIBuf.empty none 0 1 0).2.1
          (lineAsAnsi Env.sample tabLine ANSIBuf.empty none 0 1 0).2.2 1 4 0).2.1.text =
      (lineAsAnsi Env.sample tabLine ANSIBuf.empty none 0 4 0).2.1.text ∧
    (lineAsAnsi Env.sample tabLine (lineAsAnsi Env.sample tabLine ANSIBuf.empty none 0 1 0).2.1
        (lineAsAnsi Env.sample tabLine ANSIBuf.empty none 0 1 0).2.2 1 4 0).2.2 =
      (lineAsAnsi Env.sample tabLine ANSIBuf.empty none 0 4 0).2.2 ∧
    (lineAsAnsi Env.sample tabLine (lineAsAnsi Env.sample tabLine ANSIBuf.empty none 0 1 0).2.1
        (lineAsAnsi Env.sample tabLine ANSIBuf.empty none 0 1 0).2.2 1 4 0).2.1.activeHyperlinkId =
      (lineAsAnsi Env.sample tabLine ANSIBuf.empty none 0 4 0).2.1.activeHyperlinkId ∧
    ((lineAsAnsi Env.sample tabLine ANSIBuf.empty none 0 1 0).1 ||
        (lineAsAnsi Env.sample tabLine (lineAsAnsi Env.sample tabLine ANSIBuf.empty none 0 1 0).2.1
          (lineAsAnsi Env.sample tabLine ANSIBuf.empty none 0 1 0).2.2 1 4 0).1) =
      (lineAsAnsi Env.sample tabLine ANSIBuf.empty none 0 4 0).1) :=
  ⟨rfl, by decide, by decide, by decide,
    lineAsAnsi_split Env.sample tabLine rfl ANSIBuf.empty none (by decide) (by decide) (by decide)⟩

end KittyLine
