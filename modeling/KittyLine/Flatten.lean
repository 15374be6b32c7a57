/-
# The text of a range, without the buffer

`unicode_in_range` writes into `global_unicode_in_range_buf`, a buffer kept
from call to call: it copies each cell's code points to the count `n` it has
written so far, patches them there (a zero becomes a space) and reads a tab's
skip count back from the buffer. What it returns is `buf[0 .. n)`.
`flattenText` is the same text computed from the line alone, cell after cell
(`flattenCell`).

For a line whose cells are valid (§3.1) and a range inside the line, a call
of `unicode_in_range` that stays inside its allocation returns `flattenText`,
whatever the buffer held before the call: no code point of an earlier call
survives into a later one (`unicodeInRange_eq_flattenText`). A range cut at a
column that no tab before it swallows gives the two texts one after the other
(`unicodeInRange_split`).

Key definitions: `flattenCell`, `flattenText`.
Key theorems: `unicodeLoop_flattenCell`, `unicodeLoop_flattenText`,
`unicodeInRange_eq_flattenText`, `flattenText_cut`, `unicodeInRange_split`.
-/
import KittyLine.Pass

namespace KittyLine

/-! ### One cell, and the range -/

/-- What `unicode_in_range` writes for the cell at column `i`, and the column
it goes on from: nothing for a continuation cell, or for a zero cell with
`skip_zero_cells`; `cellText` otherwise, only its first code point without
`include_cc`. -/
def flattenCell (l : Line) (limit : ℕ) (includeCc skipZeroCells : Bool) (i : ℕ) : List ℕ × ℕ :=
  if (l.cpuCells i).isContinuation then ([], i + 1)
  else if (textInCell (l.cpuCells i) l.textCache).chars.headD 0 = 0 ∧ skipZeroCells then ([], i + 1)
  else if includeCc then cellText l limit i
  else ((cellText l limit i).1.take 1, (cellText l limit i).2)

/-- The text `unicode_in_range` writes for the columns from `i` to `limit`,
with fuel, computed from the line alone. -/
def flattenText (l : Line) (limit : ℕ) (includeCc skipZeroCells : Bool) : ℕ → ℕ → List ℕ
  | 0, _ => []
  | fuel + 1, i =>
    if i < limit then
      (flattenCell l limit includeCc skipZeroCells i).1 ++
        flattenText l limit includeCc skipZeroCells fuel (flattenCell l limit includeCc skipZeroCells i).2
    else []

theorem lt_cellText (l : Line) (limit pos : ℕ) : pos < (cellText l limit pos).2 := by
  have := le_skipTabCells l limit ((zeroAsSpace (textInCell (l.cpuCells pos) l.textCache).chars).getD 1 0) pos
  unfold cellText
  dsimp only
  split <;> dsimp only <;> omega

theorem lt_flattenCell (l : Line) (limit : ℕ) (includeCc skipZeroCells : Bool) (i : ℕ) :
    i < (flattenCell l limit includeCc skipZeroCells i).2 := by
  have := lt_cellText l limit i
  unfold flattenCell
  split_ifs <;> simp only [Nat.lt_succ_self, this]

theorem skipTabCells_lt (l : Line) {limit : ℕ} : ∀ k pos, pos < limit → skipTabCells l limit k pos < limit
  | 0, _, h => h
  | k + 1, pos, h => by
    unfold skipTabCells
    split_ifs with hc
    · exact skipTabCells_lt l k (pos + 1) hc.1
    · exact h

theorem flattenCell_le (l : Line) {limit i : ℕ} (includeCc skipZeroCells : Bool) (hi : i < limit) :
    (flattenCell l limit includeCc skipZeroCells i).2 ≤ limit := by
  have : (cellText l limit i).2 ≤ limit := by
    unfold cellText
    dsimp only
    split
    · exact skipTabCells_lt l _ i hi
    · exact hi
  unfold flattenCell
  split_ifs <;> first | exact hi | exact this

/-! ### `unicode_in_range`'s loop computes it -/

theorem skipCount_writeChars (f : ℕ → ℕ) (n : ℕ) {cs cs' : List ℕ} (hl : cs'.length = cs.length) :
    (if cs.length > 1 then writeChars f n cs' (n + 1) else 0) = cs'.getD 1 0 := by
  split_ifs with h
  · exact writeChars_add _ _ (by omega)
  · exact (List.getD_eq_default _ _ (by omega)).symm

theorem writeChars_take_one (f : ℕ → ℕ) (n : ℕ) {cs : List ℕ} (hne : cs ≠ []) :
    (List.range (n + (cs.take 1).length)).map (writeChars f n cs) = (List.range n).map f ++ cs.take 1 := by
  obtain ⟨c, cs, rfl⟩ := List.exists_cons_of_ne_nil hne
  exact range_map_append (fun j hj => writeChars_of_lt _ hj) fun k hk => by
    obtain rfl : k = 0 := by simpa using hk
    simp [writeChars]

/-- **One pass of `unicode_in_range`.** On a cell with code points, the pass
leaves the buffer's `[0, n)` as it was, followed by `flattenCell`, and goes on
from the column `flattenCell` names; whatever the buffer holds past `n` is
overwritten or left out. -/
theorem unicodeLoop_flattenCell (l : Line) {limit fuel i n : ℕ} {g : UnicodeBuf} (hi : i < limit)
    (hne : (textInCell (l.cpuCells i) l.textCache).chars ≠ []) (includeCc skipZeroCells : Bool) :
    ∃ g', unicodeLoop l limit includeCc skipZeroCells (fuel + 1) i n g =
        unicodeLoop l limit includeCc skipZeroCells fuel (flattenCell l limit includeCc skipZeroCells i).2
          (n + (flattenCell l limit includeCc skipZeroCells i).1.length) g' ∧
      (List.range (n + (flattenCell l limit includeCc skipZeroCells i).1.length)).map g'.chars =
        (List.range n).map g.chars ++ (flattenCell l limit includeCc skipZeroCells i).1 := by
  have hl := length_zeroAsSpace hne
  have hne' : zeroAsSpace (textInCell (l.cpuCells i) l.textCache).chars ≠ [] :=
    List.ne_nil_of_length_pos (by rw [hl]; exact List.length_pos.2 hne)
  simp only [unicodeLoop, if_pos hi, textInCell_isMulticell, textInCell_isTopleft, growUntilFits_chars,
    ite_chars]
  rw [zeroPatch_writeChars _ _ hne, writeChars_head _ _ hne', writeChars_head _ _ hne,
    skipCount_writeChars _ _ hl]
  unfold flattenCell cellText CPUCell.isContinuation
  dsimp only
  generalize (textInCell (l.cpuCells i) l.textCache).chars = cs at hl hne hne' ⊢
  generalize zeroAsSpace cs = cs' at hl hne' ⊢
  obtain ⟨c, t, rfl⟩ := List.exists_cons_of_ne_nil hne'
  generalize growUntilFits cs.length n (cs.length + 1) g = G
  have hkeep : (List.range n).map (writeChars g.chars n cs) = (List.range n).map g.chars :=
    List.map_congr_left fun j hj => writeChars_of_lt _ (List.mem_range.1 hj)
  split_ifs with hc hz htab hcc
  · -- a continuation cell: nothing
    exact ⟨_, rfl, by simpa using hkeep⟩
  · -- a zero cell with `skip_zero_cells`: nothing
    exact ⟨_, rfl, by simpa using hkeep⟩
  · -- a tab: its `\t`
    obtain rfl : c = '\t'.toNat := htab
    exact ⟨_, rfl, writeChars_take_one _ _ hne'⟩
  · obtain rfl : c = '\t'.toNat := htab
    exact ⟨_, rfl, writeChars_take_one _ _ hne'⟩
  · -- any other cell: its code points, or the first one
    refine ⟨_, by dsimp only; rw [hl], ?_⟩
    exact range_map_append (fun j hj => writeChars_of_lt _ hj) fun k hk => writeChars_add _ _ hk
  · exact ⟨_, rfl, writeChars_take_one _ _ hne'⟩

/-- **The loop computes `flattenText`.** Over columns whose cells have code
points, the buffer's `[0, n)` at the end is what it was at the start followed
by `flattenText`, whatever the buffer held. -/
theorem unicodeLoop_flattenText (l : Line) {limit : ℕ}
    (hv : ∀ i < limit, (textInCell (l.cpuCells i) l.textCache).chars ≠ []) (includeCc skipZeroCells : Bool) :
    ∀ fuel i n (g : UnicodeBuf),
      (List.range (unicodeLoop l limit includeCc skipZeroCells fuel i n g).1).map
          (unicodeLoop l limit includeCc skipZeroCells fuel i n g).2.chars =
        (List.range n).map g.chars ++ flattenText l limit includeCc skipZeroCells fuel i
  | 0, _, _, _ => by simp [unicodeLoop, flattenText]
  | fuel + 1, i, n, g => by
    by_cases hi : i < limit
    · obtain ⟨g', hloop, hg'⟩ := @unicodeLoop_flattenCell l limit fuel i n g hi (hv i hi) includeCc skipZeroCells
      rw [hloop, unicodeLoop_flattenText l hv includeCc skipZeroCells fuel, hg', flattenText, if_pos hi,
        List.append_assoc]
    · simp [unicodeLoop, flattenText, hi]

theorem unicodeInRange_fst (l : Line) {limit : ℕ}
    (hv : ∀ i < limit, (textInCell (l.cpuCells i) l.textCache).chars ≠ []) (includeCc skipZeroCells : Bool)
    (start : ℕ) (g : UnicodeBuf) :
    (unicodeInRange l start limit includeCc false skipZeroCells g).1 =
      flattenText l limit includeCc skipZeroCells (limit - start) start := by
  simpa [unicodeInRange] using unicodeLoop_flattenText l hv includeCc skipZeroCells (limit - start) start 0 g

/-- **`unicode_in_range` does not show the buffer's past.** For a line whose
cells are valid and a range inside it, a call that stays inside its
allocation returns, without a trailing newline, `flattenText`, whatever the
global buffer held and however large it was before the call. -/
theorem unicodeInRange_eq_flattenText (l : Line) (hv : l.CellsValid) {start limit : ℕ} (hlim : limit ≤ l.xnum)
    (includeCc skipZeroCells : Bool) (g : UnicodeBuf) :
    (unicodeInRange l start limit includeCc false skipZeroCells g).2.overflowed = false →
      (unicodeInRange l start limit includeCc false skipZeroCells g).1 =
        flattenText l limit includeCc skipZeroCells (limit - start) start := fun _ =>
  unicodeInRange_fst l (fun _ hi => hv.chars_ne_nil (Nat.lt_of_lt_of_le hi hlim)) includeCc skipZeroCells start g

/-- `a`, a tab that swallows the space after it, `e` with a combining acute
accent, `b`. -/
def tabAccentLine : Line where
  xnum := 5
  cpuCells x := if x = 1 then { CPUCell.zero with chIsIdx := true }
    else if x = 3 then { CPUCell.zero with chOrIdx := 1, chIsIdx := true }
    else { CPUCell.zero with chOrIdx := ['a'.toNat, 0, ' '.toNat, 0, 'b'.toNat].getD x 0 }
  gpuCells _ := GPUCell.blank
  promptKind := .unknown
  textCache := ⟨fun i => if i = 0 then ['\t'.toNat, 1] else ['e'.toNat, 0x301], fun _ => ⟨1, 1, 0, le_rfl, le_rfl⟩⟩

theorem unicodeInRange_eq_flattenText_tabAccent :
    tabAccentLine.CellsValid ∧
    (unicodeInRange tabAccentLine 0 5 true false false ⟨fun _ => 'x'.toNat, 4096, 4096, false⟩).2.overflowed =
      false ∧
    (unicodeInRange tabAccentLine 0 5 true false false ⟨fun _ => 'x'.toNat, 4096, 4096, false⟩).1 =
      flattenText tabAccentLine 5 true false 5 0 ∧
    flattenText tabAccentLine 5 true false 5 0 = ['a'.toNat, '\t'.toNat, 'e'.toNat, 0x301, 'b'.toNat] :=
  have hv : tabAccentLine.CellsValid := by unfold Line.CellsValid; decide
  have hin : (unicodeInRange tabAccentLine 0 5 true false false ⟨fun _ => 'x'.toNat, 4096, 4096, false⟩).2.overflowed =
      false := by decide
  ⟨hv, hin, unicodeInRange_eq_flattenText tabAccentLine hv (by decide) true false _ hin, by decide⟩

/-! ### Cutting a range -/

/-- Fuel past what the range needs changes nothing. -/
theorem flattenText_fuel (l : Line) (limit : ℕ) (includeCc skipZeroCells : Bool) : ∀ f₁ f₂ i,
    limit - i ≤ f₁ → limit - i ≤ f₂ →
      flattenText l limit includeCc skipZeroCells f₁ i = flattenText l limit includeCc skipZeroCells f₂ i
  | 0, 0, _, _, _ => rfl
  | 0, _ + 1, i, h₁, _ => by simp [flattenText, show ¬ i < limit by omega]
  | _ + 1, 0, i, _, h₂ => by simp [flattenText, show ¬ i < limit by omega]
  | f₁ + 1, f₂ + 1, i, h₁, h₂ => by
    simp only [flattenText]
    split_ifs
    · have := lt_flattenCell l limit includeCc skipZeroCells i
      rw [flattenText_fuel l limit includeCc skipZeroCells f₁ f₂ _ (by omega) (by omega)]
    · rfl

/-- A cell whose text ends at a column `b ≤ L` under the limit `L` is written
alike under the limit `b`. -/
theorem cellText_limit (l : Line) {b L pos : ℕ} (hbL : b ≤ L) (h : (cellText l L pos).2 ≤ b) :
    cellText l b pos = cellText l L pos := by
  unfold cellText at h ⊢
  dsimp only at h ⊢
  split_ifs at h ⊢
  · rw [skipTabCells_limit l hbL _ _ h]
  · rfl

theorem cellText_fst (l : Line) (L L' pos : ℕ) : (cellText l L pos).1 = (cellText l L' pos).1 := by
  unfold cellText
  dsimp only
  split <;> rfl

theorem flattenCell_limit (l : Line) {b L i : ℕ} (hbL : b ≤ L) (includeCc skipZeroCells : Bool)
    (h : (flattenCell l L includeCc skipZeroCells i).2 ≤ b) :
    flattenCell l b includeCc skipZeroCells i = flattenCell l L includeCc skipZeroCells i := by
  unfold flattenCell at h ⊢
  split_ifs at h ⊢ <;> first | rfl | rw [cellText_limit l hbL h]

/-- **The range cut at `b`.** When no cell of `[a, b)` goes on from a column
past `b`, the text of `[a, c)` is the text of `[a, b)` followed by the text
of `[b, c)`. -/
theorem flattenText_cut (l : Line) (includeCc skipZeroCells : Bool) {b c : ℕ} (hbc : b ≤ c) (a : ℕ)
    (hab : a ≤ b) (hb : ∀ t, a ≤ t → t < b → (flattenCell l c includeCc skipZeroCells t).2 ≤ b) :
    flattenText l c includeCc skipZeroCells (c - a) a =
      flattenText l b includeCc skipZeroCells (b - a) a ++ flattenText l c includeCc skipZeroCells (c - b) b := by
  rcases Nat.eq_or_lt_of_le hab with rfl | hlt
  · simp [flattenText]
  · have hnext := lt_flattenCell l c includeCc skipZeroCells a
    have hle := hb a le_rfl hlt
    rw [show c - a = c - a - 1 + 1 by omega, show b - a = b - a - 1 + 1 by omega]
    simp only [flattenText, if_pos (show a < c by omega), if_pos hlt,
      flattenCell_limit l hbc includeCc skipZeroCells hle, List.append_assoc]
    rw [flattenText_fuel l c includeCc skipZeroCells (c - a - 1) (c - (flattenCell l c includeCc skipZeroCells a).2)
        _ (by omega) le_rfl,
      flattenText_fuel l b includeCc skipZeroCells (b - a - 1) (b - (flattenCell l c includeCc skipZeroCells a).2)
        _ (by omega) le_rfl,
      flattenText_cut l includeCc skipZeroCells hbc _ hle fun t h₁ h₂ => hb t (by omega) h₂]
termination_by b - a

/-! ### Lines that agree -/

theorem skipTabCells_congr_from {l l' : Line} {limit : ℕ} : ∀ k pos,
    (∀ y, pos < y → l'.cpuCells y = l.cpuCells y) → skipTabCells l' limit k pos = skipTabCells l limit k pos
  | 0, _, _ => rfl
  | k + 1, pos, h => by
    simp only [skipTabCells, h (pos + 1) (Nat.lt_succ_self pos)]
    split_ifs
    · exact skipTabCells_congr_from k (pos + 1) fun y hy => h y (by omega)
    · rfl

/-- A tab loop that stops before column `x` stops at the same column on a
line with the same cells before `x` and no space at `x`. -/
theorem skipTabCells_eq_of_lt {l l' : Line} {limit x : ℕ} (hc : ∀ y < x, l'.cpuCells y = l.cpuCells y)
    (hx : cellIsChar (l'.cpuCells x) ' '.toNat = false) : ∀ k pos, skipTabCells l limit k pos < x →
      skipTabCells l' limit k pos = skipTabCells l limit k pos
  | 0, _, _ => rfl
  | k + 1, pos, h => by
    unfold skipTabCells at h ⊢
    by_cases hcond : pos + 1 < limit ∧ cellIsChar (l.cpuCells (pos + 1)) ' '.toNat = true
    · rw [if_pos hcond] at h ⊢
      have := le_skipTabCells l limit k (pos + 1)
      rw [if_pos (by rw [hc (pos + 1) (by omega)]; exact hcond)]
      exact skipTabCells_eq_of_lt hc hx k (pos + 1) h
    · rw [if_neg hcond] at h ⊢
      rw [if_neg]
      rintro ⟨h₁, h₂⟩
      rcases Nat.lt_or_ge (pos + 1) x with hlt | hge
      · rw [hc _ hlt] at h₂
        exact hcond ⟨h₁, h₂⟩
      · rw [show pos + 1 = x by omega, hx] at h₂
        exact Bool.false_ne_true h₂

/-- A cell before `x` whose text reads alike, on a line with the same cells
before `x` and no space at `x`, is written alike when it does not go on past
`x`. -/
theorem flattenCell_eq_of_lt {l l' : Line} {limit x t : ℕ} (includeCc skipZeroCells : Bool)
    (hc : ∀ y < x, l'.cpuCells y = l.cpuCells y) (hx : cellIsChar (l'.cpuCells x) ' '.toNat = false)
    (htext : textInCell (l'.cpuCells t) l'.textCache = textInCell (l.cpuCells t) l.textCache) (ht : t < x)
    (hb : (flattenCell l limit includeCc skipZeroCells t).2 ≤ x) :
    flattenCell l' limit includeCc skipZeroCells t = flattenCell l limit includeCc skipZeroCells t := by
  unfold flattenCell cellText at hb ⊢
  dsimp only at hb ⊢
  rw [htext, hc t ht]
  split_ifs at hb ⊢ <;> first | rfl | rw [skipTabCells_eq_of_lt hc hx _ _ (by omega)]

theorem flattenCell_eq_from {l l' : Line} {limit t : ℕ} (includeCc skipZeroCells : Bool)
    (hc : ∀ y, t ≤ y → l'.cpuCells y = l.cpuCells y)
    (htext : textInCell (l'.cpuCells t) l'.textCache = textInCell (l.cpuCells t) l.textCache) :
    flattenCell l' limit includeCc skipZeroCells t = flattenCell l limit includeCc skipZeroCells t := by
  unfold flattenCell cellText
  dsimp only
  rw [htext, hc t le_rfl, skipTabCells_congr_from _ t fun y hy => hc y hy.le]

/-- Lines whose cells from `i` to the limit are written alike have the same
text from `i`. -/
theorem flattenText_congr {l l' : Line} {limit : ℕ} (includeCc skipZeroCells : Bool) : ∀ fuel i,
    (∀ t, i ≤ t → t < limit → flattenCell l' limit includeCc skipZeroCells t = flattenCell l limit includeCc skipZeroCells t) →
      flattenText l' limit includeCc skipZeroCells fuel i = flattenText l limit includeCc skipZeroCells fuel i
  | 0, _, _ => rfl
  | fuel + 1, i, h => by
    simp only [flattenText]
    split_ifs with hi
    · have := lt_flattenCell l limit includeCc skipZeroCells i
      rw [h i le_rfl hi, flattenText_congr includeCc skipZeroCells fuel _ fun t h₁ h₂ => h t (by omega) h₂]
    · rfl

/-- **Cutting a range.** If no cell before a column `b` goes on past `b` (no
tab swallows spaces across it), the text of `[a, c)` is the text of `[a, b)`
followed by that of `[b, c)`, whatever each call's buffer held, when the
three calls stay inside their allocations. -/
theorem unicodeInRange_split (l : Line) (hv : l.CellsValid) {a b c : ℕ} (hab : a ≤ b) (hbc : b ≤ c)
    (hc : c ≤ l.xnum) (includeCc skipZeroCells : Bool)
    (hb : ∀ t, a ≤ t → t < b → (flattenCell l c includeCc skipZeroCells t).2 ≤ b) (g g₁ g₂ : UnicodeBuf) :
    (unicodeInRange l a c includeCc false skipZeroCells g).2.overflowed = false →
    (unicodeInRange l a b includeCc false skipZeroCells g₁).2.overflowed = false →
    (unicodeInRange l b c includeCc false skipZeroCells g₂).2.overflowed = false →
    (unicodeInRange l a c includeCc false skipZeroCells g).1 =
      (unicodeInRange l a b includeCc false skipZeroCells g₁).1 ++
        (unicodeInRange l b c includeCc false skipZeroCells g₂).1 := fun _ _ _ => by
  have hv' : ∀ {L}, L ≤ l.xnum → ∀ i < L, (textInCell (l.cpuCells i) l.textCache).chars ≠ [] :=
    fun hL _ hi => hv.chars_ne_nil (Nat.lt_of_lt_of_le hi hL)
  rw [unicodeInRange_fst l (hv' hc), unicodeInRange_fst l (hv' (hbc.trans hc)), unicodeInRange_fst l (hv' hc)]
  exact flattenText_cut l includeCc skipZeroCells hbc a hab hb

theorem unicodeInRange_split_tabAccent :
    (unicodeInRange tabAccentLine 0 5 true false false UnicodeBuf.empty).2.overflowed = false ∧
    (unicodeInRange tabAccentLine 0 3 true false false UnicodeBuf.empty).2.overflowed = false ∧
    (unicodeInRange tabAccentLine 3 5 true false false ⟨fun _ => 'x'.toNat, 4096, 4096, false⟩).2.overflowed =
      false ∧
    (unicodeInRange tabAccentLine 0 5 true false false UnicodeBuf.empty).1 =
      (unicodeInRange tabAccentLine 0 3 true false false UnicodeBuf.empty).1 ++
        (unicodeInRange tabAccentLine 3 5 true false false ⟨fun _ => 'x'.toNat, 4096, 4096, false⟩).1 :=
  have h₁ : (unicodeInRange tabAccentLine 0 5 true false false UnicodeBuf.empty).2.overflowed = false := by decide
  have h₂ : (unicodeInRange tabAccentLine 0 3 true false false UnicodeBuf.empty).2.overflowed = false := by decide
  have h₃ : (unicodeInRange tabAccentLine 3 5 true false false ⟨fun _ => 'x'.toNat, 4096, 4096, false⟩).2.overflowed =
      false := by decide
  ⟨h₁, h₂, h₃, unicodeInRange_split tabAccentLine (by unfold Line.CellsValid; decide) (by decide) (by decide)
    (by decide) true false (by decide) _ _ _ h₁ h₂ h₃⟩

end KittyLine
