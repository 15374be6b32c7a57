/-
# The marker's walk

`apply_marker` takes the matches a marker yields on the line's text, ranges
`[l, r]` of text offsets with a color, and walks the cells with `apply_mark`,
which marks one group of cells (a cell, a tab and the spaces it swallows, the
cells of a multi-cell glyph) and moves the text offset past the group's text.
For each match it walks, marking 0, while the offset is before `l`, then,
marking the match's color, while the offset is at most `r`; after the last
match it clears every cell left.

Whenever the walk moves on at every cell, this is one plain walk over the
groups in which each group gets the mark of the first match, in the marker's
order, that reaches the group's offset (`applyMarker_eq_markWalk`): the two
inner loops and the final clear are stretches of that walk
(`applyMarkWhile_walk`, `applyMatches_walk`). Each inner loop stops at the
first group whose offset reaches its bound (`applyMarkWhile_groups`), so the
loop over the matches pulls past the last one, and sees the marker's error,
exactly when some group's offset is past every match but the last
(`applyMatches_pulled`).

On a line with no multi-cell glyph whose cells with a zero first code point
hold only that code point, the walk's groups are the cells `line_as_unicode`
writes, in the same order, and each group's offset is where its text starts
in the text the marker was given (`markTextInLine_inStep`). Without the
second condition the offsets drift (`markTextInLine_zero_base`).

`line_has_mark` then finds a mark exactly when a group's offset lies in a
match of a color it counts (`lineHasMark_markTextInLine`). When the marker
yields, the marks depend on neither the line's old GPU cells nor the flatten
buffer, so marking twice marks as once (`markTextInLine_mark_eq`); a marker
that fails at once leaves the old marks.

Key definitions: `markStep`, `matchMark`, `markWalk`, `markGroups`,
`Line.MarkInStep`, `lineHasMark`.
Key theorems: `applyMark_eq`, `applyMarkWhile_walk`, `applyMatches_walk`,
`applyMatches_pulled`, `applyMarker_eq_markWalk`, `markWalk_mark`, `markGroups_cover`,
`markTextInLine_inStep`, `lineHasMark_markTextInLine`, `markTextInLine_mark_eq`.
-/
import KittyLine.Marker
import KittyLine.Flatten

namespace KittyLine

/-! ### Marking a run of cells -/

@[simp] theorem markRange_xnum (m : ℕ) : ∀ k (l : Line) x, (markRange m k l x).xnum = l.xnum
  | 0, _, _ => rfl
  | k + 1, l, x => by simp [markRange, markRange_xnum m k]

@[simp] theorem markRange_cpuCells (m : ℕ) : ∀ k (l : Line) x, (markRange m k l x).cpuCells = l.cpuCells
  | 0, _, _ => rfl
  | k + 1, l, x => by simp [markRange, markRange_cpuCells m k]

@[simp] theorem markRange_textCache (m : ℕ) : ∀ k (l : Line) x, (markRange m k l x).textCache = l.textCache
  | 0, _, _ => rfl
  | k + 1, l, x => by simp [markRange, markRange_textCache m k]

theorem markRange_add (m : ℕ) : ∀ a b (l : Line) x, markRange m (a + b) l x = markRange m b (markRange m a l x) (x + a)
  | 0, _, _, _ => by simp [markRange]
  | a + 1, b, l, x => by
    rw [Nat.add_right_comm, markRange, markRange_add m a b, markRange, Nat.add_right_comm x, Nat.add_assoc]

theorem Line.setMark_setMark (l : Line) (x m m' : ℕ) : (l.setMark x m).setMark x m' = l.setMark x m' := by
  simp [Line.setMark, Function.update_idem]

theorem markRange_setMark_self (m : ℕ) {k : ℕ} (hk : 0 < k) (l : Line) (x : ℕ) :
    markRange m k (l.setMark x m) x = markRange m k l x := by
  obtain ⟨k, rfl⟩ : ∃ j, k = j + 1 := ⟨k - 1, by omega⟩
  rw [markRange, markRange, Line.setMark_setMark]

/-- The tab loop reads only the CPU cells. -/
theorem skipTabCells_congr {l₁ l₂ : Line} (h : l₁.cpuCells = l₂.cpuCells) (limit : ℕ) :
    ∀ k pos, skipTabCells l₁ limit k pos = skipTabCells l₂ limit k pos
  | 0, _ => rfl
  | k + 1, pos => by simp only [skipTabCells, h, skipTabCells_congr h limit k]

theorem markTabCells_eq (m : ℕ) : ∀ num (l : Line) x,
    markTabCells m num l x = (markRange m (skipTabCells l l.xnum num x - x) l (x + 1), skipTabCells l l.xnum num x)
  | 0, l, x => by simp [markTabCells, skipTabCells, markRange]
  | num + 1, l, x => by
    simp only [markTabCells, skipTabCells]
    split_ifs with h
    · have hle := le_skipTabCells l l.xnum num (x + 1)
      rw [markTabCells_eq m num, skipTabCells_congr (show (l.setMark (x + 1) m).cpuCells = l.cpuCells from rfl) _ num (x + 1)]
      simp only [Line.setMark_xnum]
      rw [show skipTabCells l l.xnum num (x + 1) - x = (skipTabCells l l.xnum num (x + 1) - (x + 1)) + 1 by omega,
        markRange]
    · simp [markRange]

/-! ### What one `apply_mark` does -/

/-- The column `apply_mark` goes on from, and the count it adds to the text
offset, from column `x` (they depend on neither the mark nor the offset). -/
def markStep (E : Env) (l : Line) (x : ℕ) : ℕ × ℕ :=
  ((applyMark E l 0 x 0).2.1, (applyMark E l 0 x 0).2.2)

theorem headD_ne_zero_length {cs : List ℕ} (h : cs.headD 0 ≠ 0) : 1 + (cs.length - 1) = cs.length := by
  cases cs with
  | nil => exact absurd rfl h
  | cons c cs => simp; omega

/-- `markStep` case by case: a tab moves past the spaces it swallows and
counts 1, a multi-cell glyph moves to its limit, any other cell moves one
column; a cell with a nonzero first code point counts all of its code points,
one with a zero first code point counts 1. -/
theorem markStep_eq (E : Env) (l : Line) (x : ℕ) :
    markStep E l x =
      if (textInCell (l.cpuCells x) l.textCache).chars.headD 0 ≠ 0 then
        if (textInCell (l.cpuCells x) l.textCache).chars.headD 0 = '\t'.toNat then
          (skipTabCells l l.xnum (if (textInCell (l.cpuCells x) l.textCache).chars.length > 1 then
            (textInCell (l.cpuCells x) l.textCache).chars.getD 1 0 else 0) x + 1, 1)
        else if (l.cpuCells x).isMulticell then
          (max x (min l.xnum (E.mcdXLimit (cellMulticellData (l.cpuCells x) l.textCache))),
            (textInCell (l.cpuCells x) l.textCache).chars.length)
        else (x + 1, (textInCell (l.cpuCells x) l.textCache).chars.length)
      else (x + 1, 1) := by
  unfold markStep applyMark
  simp only [Line.setMark_cpuCells, Line.setMark_textCache, Line.setMark_xnum, markTabCells_eq, textInCell_charsAtCount,
    skipTabCells_congr (show (l.setMark x 0).cpuCells = l.cpuCells from rfl)]
  generalize (if (textInCell (l.cpuCells x) l.textCache).chars.length > 1 then
    (textInCell (l.cpuCells x) l.textCache).chars.getD 1 0 else 0) = k
  split_ifs with h0 htab hm
  · rfl
  · rw [Nat.zero_add, headD_ne_zero_length h0]
  · rw [Nat.zero_add, headD_ne_zero_length h0]
  · rfl

/-- **One `apply_mark`.** It marks the cells from `x` to the column it goes on
from (at least the cell at `x`), goes on from `markStep`, and adds its count to
the offset. -/
theorem applyMark_eq (E : Env) (l : Line) (mark x mp : ℕ) :
    applyMark E l mark x mp =
      (markRange mark (max (x + 1) (markStep E l x).1 - x) l x, (markStep E l x).1, mp + (markStep E l x).2) := by
  rw [markStep_eq]
  unfold applyMark
  simp only [Line.setMark_cpuCells, Line.setMark_textCache, Line.setMark_xnum, markTabCells_eq, textInCell_charsAtCount,
    skipTabCells_congr (show (l.setMark x mark).cpuCells = l.cpuCells from rfl)]
  generalize (if (textInCell (l.cpuCells x) l.textCache).chars.length > 1 then
    (textInCell (l.cpuCells x) l.textCache).chars.getD 1 0 else 0) = k
  split_ifs with h0 htab hm
  · -- a tab: the cell and the spaces it swallows
    have := le_skipTabCells l l.xnum k x
    rw [show max (x + 1) (skipTabCells l l.xnum k x + 1) - x = (skipTabCells l l.xnum k x - x) + 1 by omega]
    rfl
  · -- a multi-cell glyph: the cells up to its limit
    rw [Nat.add_assoc, headD_ne_zero_length h0]
    generalize min l.xnum (E.mcdXLimit (cellMulticellData (l.cpuCells x) l.textCache)) = xl
    rcases Nat.lt_or_ge x xl with hx | hx
    · rw [show max (x + 1) (max x xl) = xl by omega, markRange_setMark_self mark (by omega)]
    · rw [show max (x + 1) (max x xl) - x = 0 + 1 by omega, show xl - x = 0 by omega]
      rfl
  · -- any other cell: the cell alone
    rw [Nat.add_assoc, headD_ne_zero_length h0, show max (x + 1) (x + 1) - x = 0 + 1 by omega]
    rfl
  · rw [show max (x + 1) (x + 1) - x = 0 + 1 by omega]
    rfl

/-! ### The plain walk -/

/-- The mark the matches `ms`, taken in order, give a group whose text starts
at offset `s`: 0 if the first match that does not end before `s` starts after
it, that match's color if it holds `s`, 0 past them all. -/
def matchMark (E : Env) (s : ℕ) : List (ℕ × ℕ × ℕ) → ℕ
  | [] => 0
  | (lo, r, col) :: ms => if s < lo then 0 else if s ≤ r then (col &&& E.markMask) % 2 ^ 16 else matchMark E s ms

/-- The plain walk from column `x` at offset `s`, with fuel: each group of
cells gets `matchMark` of its offset. -/
def markWalk (E : Env) (ms : List (ℕ × ℕ × ℕ)) : ℕ → Line → ℕ → ℕ → Line
  | 0, l, _, _ => l
  | fuel + 1, l, x, s =>
    if x < l.xnum then
      markWalk E ms fuel (markRange (matchMark E s ms) ((markStep E l x).1 - x) l x) (markStep E l x).1
        (s + (markStep E l x).2)
    else l

/-- The walk changes only the GPU cells. -/
theorem markWalk_frame (E : Env) (ms : List (ℕ × ℕ × ℕ)) : ∀ fuel (l : Line) x s,
    (markWalk E ms fuel l x s).xnum = l.xnum ∧ (markWalk E ms fuel l x s).cpuCells = l.cpuCells ∧
      (markWalk E ms fuel l x s).textCache = l.textCache
  | 0, _, _, _ => ⟨rfl, rfl, rfl⟩
  | fuel + 1, l, x, s => by
    simp only [markWalk]
    split_ifs
    · have h := markWalk_frame E ms fuel (markRange (matchMark E s ms) ((markStep E l x).1 - x) l x)
        (markStep E l x).1 (s + (markStep E l x).2)
      simp only [markRange_xnum, markRange_cpuCells, markRange_textCache] at h
      exact h
    · exact ⟨rfl, rfl, rfl⟩

@[simp] theorem markWalk_xnum (E : Env) (ms : List (ℕ × ℕ × ℕ)) (fuel : ℕ) (l : Line) (x s : ℕ) :
    (markWalk E ms fuel l x s).xnum = l.xnum :=
  (markWalk_frame E ms fuel l x s).1

/-- The walk moves on at every cell of the line. It can fail only at a
multi-cell glyph whose `mcd_x_limit` is not past its column. -/
def Line.MarkWalkMoves (E : Env) (l : Line) : Prop := ∀ x < l.xnum, x < (markStep E l x).1

instance (E : Env) (l : Line) : Decidable (l.MarkWalkMoves E) :=
  inferInstanceAs (Decidable (∀ x < l.xnum, x < (markStep E l x).1))

/-- `markStep` reads only the CPU cells, the text cache and the width. -/
theorem markStep_congr (E : Env) {l₁ l₂ : Line} (hx : l₁.xnum = l₂.xnum) (hc : l₁.cpuCells = l₂.cpuCells)
    (ht : l₁.textCache = l₂.textCache) : markStep E l₁ = markStep E l₂ := by
  funext x
  simp only [markStep_eq, hx, hc, ht, skipTabCells_congr hc]

@[simp] theorem markStep_markRange (E : Env) (m k : ℕ) (l : Line) (y : ℕ) :
    markStep E (markRange m k l y) = markStep E l :=
  markStep_congr E (by simp) (by simp) (by simp)

/-- What every `apply_mark` does: it never goes back, from a column of the
line it stays within the line, and it always counts. -/
theorem markStep_bounds (E : Env) (l : Line) (x : ℕ) :
    x ≤ (markStep E l x).1 ∧ (x < l.xnum → (markStep E l x).1 ≤ l.xnum) ∧ 0 < (markStep E l x).2 := by
  have hlen : (textInCell (l.cpuCells x) l.textCache).chars.headD 0 ≠ 0 →
      0 < (textInCell (l.cpuCells x) l.textCache).chars.length := fun h0 =>
    List.length_pos.2 fun h => h0 (by rw [h]; rfl)
  rw [markStep_eq]
  generalize (if (textInCell (l.cpuCells x) l.textCache).chars.length > 1 then
    (textInCell (l.cpuCells x) l.textCache).chars.getD 1 0 else 0) = k
  split_ifs with h0 htab hm
  · exact ⟨Nat.le_succ_of_le (le_skipTabCells l _ k x), skipTabCells_lt l k x, Nat.one_pos⟩
  · exact ⟨le_max_left _ _, fun hx => max_le hx.le (min_le_left _ _), hlen h0⟩
  · exact ⟨Nat.le_succ x, id, hlen h0⟩
  · exact ⟨Nat.le_succ x, id, Nat.one_pos⟩

theorem le_markStep (E : Env) (l : Line) (x : ℕ) : x ≤ (markStep E l x).1 := (markStep_bounds E l x).1

theorem markStep_le (E : Env) {l : Line} {x : ℕ} (hx : x < l.xnum) : (markStep E l x).1 ≤ l.xnum :=
  (markStep_bounds E l x).2.1 hx

theorem markStep_snd_pos (E : Env) (l : Line) (x : ℕ) : 0 < (markStep E l x).2 := (markStep_bounds E l x).2.2

section
variable {E : Env} {ms : List (ℕ × ℕ × ℕ)}

theorem Line.MarkWalkMoves.markRange {L : Line} (h : L.MarkWalkMoves E) (m k y : ℕ) :
    (KittyLine.markRange m k L y).MarkWalkMoves E := by
  intro x hx
  simp only [markRange_xnum, markStep_markRange] at hx ⊢
  exact h x hx

theorem markWalk_fuel : ∀ f₁ f₂ (L : Line) x s, L.MarkWalkMoves E → L.xnum - x ≤ f₁ → L.xnum - x ≤ f₂ →
    markWalk E ms f₁ L x s = markWalk E ms f₂ L x s
  | 0, 0, _, _, _, _, _, _ => rfl
  | 0, _ + 1, L, x, _, _, h₁, _ => by simp [markWalk, show ¬ x < L.xnum by omega]
  | _ + 1, 0, L, x, _, _, _, h₂ => by simp [markWalk, show ¬ x < L.xnum by omega]
  | f₁ + 1, f₂ + 1, L, x, s, hL, h₁, h₂ => by
    simp only [markWalk]
    split_ifs with hx
    · have := hL x hx
      exact markWalk_fuel f₁ f₂ _ _ _ (hL.markRange _ _ _) (by simp; omega) (by simp; omega)
    · rfl

/-- Only the marks of offsets from `s` on matter to the walk from `s`. -/
theorem markWalk_congr {ms₁ ms₂ : List (ℕ × ℕ × ℕ)} : ∀ fuel (L : Line) x s,
    (x < L.xnum → ∀ s', s ≤ s' → matchMark E s' ms₁ = matchMark E s' ms₂) →
    markWalk E ms₁ fuel L x s = markWalk E ms₂ fuel L x s
  | 0, _, _, _, _ => rfl
  | fuel + 1, L, x, s, h => by
    simp only [markWalk]
    split_ifs with hx
    · rw [h hx s le_rfl]
      exact markWalk_congr fuel _ _ _ fun _ s' hs' => h hx s' (by omega)
    · rfl

/-- A walk in which every group gets the same mark marks every cell left. -/
theorem markWalk_const {c : ℕ} : ∀ fuel (L : Line) x s, L.MarkWalkMoves E → L.xnum - x ≤ fuel →
    (∀ s', s ≤ s' → matchMark E s' ms = c) → markWalk E ms fuel L x s = markRange c (L.xnum - x) L x
  | 0, L, x, _, _, hf, _ => by simp [markWalk, show L.xnum - x = 0 by omega, markRange]
  | fuel + 1, L, x, s, hL, hf, h => by
    simp only [markWalk]
    split_ifs with hx
    · have h₁ := hL x hx
      have h₂ := markStep_le E hx
      have hadd := markRange_add c ((markStep E L x).1 - x) (L.xnum - (markStep E L x).1) L x
      rw [show x + ((markStep E L x).1 - x) = (markStep E L x).1 by omega,
        show (markStep E L x).1 - x + (L.xnum - (markStep E L x).1) = L.xnum - x by omega] at hadd
      rw [h s le_rfl, markWalk_const fuel _ _ _ (hL.markRange _ _ _) (by simp; omega)
        fun s' hs' => h s' (by omega), markRange_xnum, hadd]
    · simp [show L.xnum - x = 0 by omega, markRange]

/-- One group of the walk, with the walk's own fuel. -/
theorem markWalk_step {L : Line} (hL : L.MarkWalkMoves E) {x : ℕ} (hx : x < L.xnum) (s : ℕ) :
    markWalk E ms (L.xnum - x) L x s =
      markWalk E ms (L.xnum - (markStep E L x).1) (markRange (matchMark E s ms) ((markStep E L x).1 - x) L x)
        (markStep E L x).1 (s + (markStep E L x).2) := by
  have := hL x hx
  rw [show L.xnum - x = L.xnum - x - 1 + 1 by omega, markWalk, if_pos hx]
  exact markWalk_fuel _ _ _ _ _ (hL.markRange _ _ _) (by simp; omega) (by simp)

/-- What a stretch of `apply_mark`s does, seen from the plain walk: the cells
keep their layout, the column and the offset only grow, and the walk from the
start is the walk from where the stretch stops. -/
structure MarkSegment (E : Env) (ms : List (ℕ × ℕ × ℕ)) (L : Line) (x s : ℕ) (r : Line × ℕ × ℕ) : Prop where
  moves : r.1.MarkWalkMoves E
  xnum : r.1.xnum = L.xnum
  x_le : x ≤ r.2.1
  s_le : s ≤ r.2.2
  walk : markWalk E ms (L.xnum - x) L x s = markWalk E ms (L.xnum - r.2.1) r.1 r.2.1 r.2.2

theorem MarkSegment.refl {L : Line} (hL : L.MarkWalkMoves E) (x s : ℕ) : MarkSegment E ms L x s (L, x, s) :=
  ⟨hL, rfl, le_rfl, le_rfl, rfl⟩

theorem MarkSegment.trans {L : Line} {x s : ℕ} {r r' : Line × ℕ × ℕ} (h : MarkSegment E ms L x s r)
    (h' : MarkSegment E ms r.1 r.2.1 r.2.2 r') : MarkSegment E ms L x s r' :=
  ⟨h'.moves, h'.xnum.trans h.xnum, h.x_le.trans h'.x_le, h.s_le.trans h'.s_le,
    by rw [h.walk, ← h.xnum, h'.walk]⟩

/-- **An inner loop of `apply_marker`.** `while (match_pos < bound && x < xnum)
apply_mark(line, mark, &x, &match_pos);` is a stretch of the plain walk when
every group it can reach gets `mark` there, and it stops at the end of the
line or at an offset past `bound`. -/
theorem applyMarkWhile_walk (mark bound : ℕ) : ∀ fuel (L : Line) x s, L.MarkWalkMoves E → bound - s ≤ fuel →
    (x < L.xnum → ∀ s', s ≤ s' → s' < bound → matchMark E s' ms = mark) →
    MarkSegment E ms L x s (applyMarkWhile E mark bound fuel L x s) ∧
      (L.xnum ≤ (applyMarkWhile E mark bound fuel L x s).2.1 ∨ bound ≤ (applyMarkWhile E mark bound fuel L x s).2.2)
  | 0, L, x, s, hL, hf, _ => ⟨MarkSegment.refl hL x s, .inr (show bound ≤ s by omega)⟩
  | fuel + 1, L, x, s, hL, hf, h => by
    simp only [applyMarkWhile]
    split_ifs with hc
    · have hn := hL x hc.2
      have hpos := markStep_snd_pos E L x
      rw [applyMark_eq, show max (x + 1) (markStep E L x).1 = (markStep E L x).1 by omega]
      obtain ⟨hseg, hstop⟩ := applyMarkWhile_walk mark bound fuel (markRange mark ((markStep E L x).1 - x) L x)
        (markStep E L x).1 (s + (markStep E L x).2) (hL.markRange _ _ _) (by omega)
        fun _ s' hs' hb => h hc.2 s' (by omega) hb
      refine ⟨MarkSegment.trans (r := (markRange mark ((markStep E L x).1 - x) L x, (markStep E L x).1,
        s + (markStep E L x).2)) ⟨hL.markRange _ _ _, markRange_xnum _ _ _ _, hn.le, by dsimp only; omega, ?_⟩ hseg,
        by simpa using hstop⟩
      rw [markWalk_step hL hc.2, h hc.2 s le_rfl hc.1]
    · exact ⟨MarkSegment.refl hL x s, by dsimp only; omega⟩

/-- **The loop over the matches, and the clear after it.** From any column
and offset, `apply_marker`'s loop over the matches `ms` followed by the
clearing of the cells left is the plain walk with `matchMark`. -/
theorem applyMatches_walk : ∀ (ms : List (ℕ × ℕ × ℕ)) (L : Line) x s, L.MarkWalkMoves E →
    markRange 0 (L.xnum - (applyMatches E ms L x s).2.1) (applyMatches E ms L x s).1 (applyMatches E ms L x s).2.1 =
      markWalk E ms (L.xnum - x) L x s
  | [], L, x, s, hL => (markWalk_const _ L x s hL le_rfl fun _ _ => rfl).symm
  | (lo, r, col) :: ms, L, x, s, hL => by
    by_cases hx : x < L.xnum
    · simp only [applyMatches, if_pos hx]
      -- before the match: mark 0
      obtain ⟨ha, hastop⟩ := @applyMarkWhile_walk E ((lo, r, col) :: ms) 0 lo lo L x s hL (by omega)
        fun _ s' _ h => by simp [matchMark, h]
      generalize applyMarkWhile E 0 lo lo L x s = a at ha hastop ⊢
      -- inside it: its color
      obtain ⟨hb, hbstop⟩ := @applyMarkWhile_walk E ((lo, r, col) :: ms) ((col &&& E.markMask) % 2 ^ 16)
        (r + 1) (r + 1) a.1 a.2.1 a.2.2 ha.moves (by omega) fun hxa s' hs' hr => by
          have : lo ≤ s' := by rw [ha.xnum] at hxa; omega
          simp [matchMark, Nat.not_lt.2 this, Nat.le_of_lt_succ hr]
      generalize applyMarkWhile E ((col &&& E.markMask) % 2 ^ 16) (r + 1) (r + 1) a.1 a.2.1 a.2.2 = b
        at hb hbstop ⊢
      rw [ha.xnum] at hbstop
      rw [ha.walk, ← ha.xnum, hb.walk, ← hb.xnum, applyMatches_walk ms _ _ _ hb.moves]
      -- past it: the rest of the matches
      refine markWalk_congr _ _ _ _ fun hxb s' hs' => ?_
      rw [hb.xnum, ha.xnum] at hxb
      have := hb.x_le
      have := hb.s_le
      have : lo ≤ s' := by omega
      simp [matchMark, Nat.not_lt.2 this, show ¬ s' ≤ r by omega]
    · simp [applyMatches, hx, show L.xnum - x = 0 by omega, markRange, markWalk]

end

/-! ### Group by group -/

theorem markRange_mark (m : ℕ) : ∀ k (L : Line) x y,
    ((markRange m k L x).gpuCells y).attrs.mark = if x ≤ y ∧ y < x + k then m else (L.gpuCells y).attrs.mark
  | 0, L, x, y => by rw [markRange, if_neg (by omega)]
  | k + 1, L, x, y => by
    rw [markRange, markRange_mark m k]
    by_cases hy : y = x
    · subst hy; simp [Line.setMark]
    · simp only [Line.setMark, Function.update_noteq hy]
      split_ifs <;> first | rfl | omega

theorem markRange_gpuCells_of_lt (m : ℕ) : ∀ k (L : Line) {x y : ℕ}, y < x →
    (markRange m k L x).gpuCells y = L.gpuCells y
  | 0, _, _, _, _ => rfl
  | k + 1, L, x, y, h => by
    rw [markRange, markRange_gpuCells_of_lt m k _ (Nat.lt_succ_of_lt h)]
    exact Function.update_noteq (Nat.ne_of_lt h) _ _

/-- The walk from `x` leaves the cells before `x`. -/
theorem markWalk_gpuCells_of_lt {E : Env} {ms : List (ℕ × ℕ × ℕ)} : ∀ fuel (L : Line) x s y, y < x →
    (markWalk E ms fuel L x s).gpuCells y = L.gpuCells y
  | 0, _, _, _, _, _ => rfl
  | fuel + 1, L, x, s, y, hy => by
    simp only [markWalk]
    split_ifs
    · rw [markWalk_gpuCells_of_lt fuel _ _ _ y (lt_of_lt_of_le hy (le_markStep E L x))]
      exact markRange_gpuCells_of_lt _ _ _ hy
    · rfl

/-- The groups the walk starts from column `x` at offset `s`, with fuel: the
column of each and its offset. -/
def markGroups (E : Env) (l : Line) : ℕ → ℕ → ℕ → List (ℕ × ℕ)
  | 0, _, _ => []
  | fuel + 1, x, s =>
    if x < l.xnum then (x, s) :: markGroups E l fuel (markStep E l x).1 (s + (markStep E l x).2) else []

/-- The groups depend on the width and on `markStep` only. -/
theorem markGroups_congr (E : Env) {l₁ l₂ : Line} (hx : l₁.xnum = l₂.xnum) (hs : markStep E l₁ = markStep E l₂) :
    markGroups E l₁ = markGroups E l₂ := by
  funext fuel
  induction fuel with
  | zero => rfl
  | succ fuel ih => funext x s; simp only [markGroups, hx, hs, ih]

@[simp] theorem markGroups_markRange (E : Env) (m k : ℕ) (l : Line) (y : ℕ) :
    markGroups E (markRange m k l y) = markGroups E l :=
  markGroups_congr E (markRange_xnum m k l y) (markStep_markRange E m k l y)

/-- A property that holds at the walk's start and that every group passes
on holds at every group, and every group is a column of the line. -/
theorem markGroups_induct (E : Env) (l : Line) {P : ℕ → ℕ → Prop}
    (hstep : ∀ x s, x < l.xnum → P x s → P (markStep E l x).1 (s + (markStep E l x).2)) :
    ∀ fuel x s, P x s → ∀ p ∈ markGroups E l fuel x s, P p.1 p.2 ∧ p.1 < l.xnum
  | 0, _, _, _, p, hp => absurd hp (List.not_mem_nil p)
  | fuel + 1, x, s, hP, p, hp => by
    simp only [markGroups] at hp
    split_ifs at hp with hx
    · rcases List.mem_cons.1 hp with rfl | hp
      · exact ⟨hP, hx⟩
      · exact markGroups_induct E l hstep fuel _ _ (hstep x s hx hP) p hp
    · exact absurd hp (List.not_mem_nil p)

theorem lt_of_mem_markGroups (E : Env) (l : Line) {fuel x s : ℕ} {p : ℕ × ℕ} (hp : p ∈ markGroups E l fuel x s) :
    p.1 < l.xnum :=
  (markGroups_induct E l (P := fun _ _ => True) (fun _ _ _ _ => trivial) fuel x s trivial p hp).2

/-- **The groups cover the line.** Every cell lies in one group the walk starts. -/
theorem markGroups_cover (E : Env) {L : Line} (hL : L.MarkWalkMoves E) : ∀ fuel x s, L.xnum - x ≤ fuel →
    ∀ y, x ≤ y → y < L.xnum → ∃ p ∈ markGroups E L fuel x s, p.1 ≤ y ∧ y < (markStep E L p.1).1
  | 0, x, _, hf, y, hxy, hy => absurd hy (by omega)
  | fuel + 1, x, s, hf, y, hxy, hy => by
    have hx : x < L.xnum := by omega
    simp only [markGroups, if_pos hx]
    by_cases hn : y < (markStep E L x).1
    · exact ⟨(x, s), List.mem_cons_self _ _, hxy, hn⟩
    · obtain ⟨p, hp, h⟩ := markGroups_cover E hL fuel (markStep E L x).1 (s + (markStep E L x).2)
        (by have := hL x hx; omega)
        y (by omega) hy
      exact ⟨p, List.mem_cons_of_mem _ hp, h⟩

/-! ### When the marker's error is seen -/

theorem markGroups_fuel (E : Env) {L : Line} (hL : L.MarkWalkMoves E) : ∀ f₁ f₂ x s,
    L.xnum - x ≤ f₁ → L.xnum - x ≤ f₂ → markGroups E L f₁ x s = markGroups E L f₂ x s
  | 0, 0, _, _, _, _ => rfl
  | 0, _ + 1, x, _, h₁, _ => by simp [markGroups, show ¬ x < L.xnum by omega]
  | _ + 1, 0, x, _, _, h₂ => by simp [markGroups, show ¬ x < L.xnum by omega]
  | f₁ + 1, f₂ + 1, x, s, h₁, h₂ => by
    simp only [markGroups]
    split_ifs with hx
    · have := hL x hx
      rw [markGroups_fuel E hL f₁ f₂ _ _ (by omega) (by omega)]
    · rfl

/-- The groups from a column of the line: its own, then those from the next. -/
theorem markGroups_step (E : Env) {L : Line} (hL : L.MarkWalkMoves E) {x : ℕ} (hx : x < L.xnum) (s : ℕ) :
    markGroups E L (L.xnum - x) x s =
      (x, s) :: markGroups E L (L.xnum - (markStep E L x).1) (markStep E L x).1 (s + (markStep E L x).2) := by
  have := hL x hx
  rw [show L.xnum - x = L.xnum - x - 1 + 1 by omega, markGroups, if_pos hx,
    markGroups_fuel E hL _ _ _ _ (by omega) le_rfl]

theorem le_of_mem_markGroups (E : Env) (l : Line) {fuel x s : ℕ} {p : ℕ × ℕ} (hp : p ∈ markGroups E l fuel x s) :
    s ≤ p.2 :=
  (markGroups_induct E l (P := fun _ s' => s ≤ s') (fun _ _ _ h => h.trans (Nat.le_add_right _ _))
    fuel x s le_rfl p hp).1

section
variable {E : Env}

/-- **Where an inner loop stops.** The groups from where `while (match_pos <
bound && x < xnum) apply_mark(...)` stops are those from where it started
whose offset is at least `bound`. -/
theorem applyMarkWhile_groups (mark bound : ℕ) : ∀ fuel (L : Line) x s, L.MarkWalkMoves E → bound - s ≤ fuel →
    ∀ q, q ∈ markGroups E (applyMarkWhile E mark bound fuel L x s).1
        ((applyMarkWhile E mark bound fuel L x s).1.xnum - (applyMarkWhile E mark bound fuel L x s).2.1)
        (applyMarkWhile E mark bound fuel L x s).2.1 (applyMarkWhile E mark bound fuel L x s).2.2 ↔
      q ∈ markGroups E L (L.xnum - x) x s ∧ bound ≤ q.2
  | 0, L, x, s, _, hf, q => by
    simp only [applyMarkWhile]
    exact ⟨fun h => ⟨h, by have := le_of_mem_markGroups E L h; omega⟩, And.left⟩
  | fuel + 1, L, x, s, hL, hf, q => by
    simp only [applyMarkWhile]
    split_ifs with hc
    · -- one more group: its offset is below `bound`
      have hn := hL x hc.2
      have hpos := markStep_snd_pos E L x
      rw [applyMark_eq, show max (x + 1) (markStep E L x).1 = (markStep E L x).1 by omega,
        applyMarkWhile_groups mark bound fuel _ _ _ (hL.markRange _ _ _) (by dsimp only; omega), markGroups_markRange,
        markRange_xnum, markGroups_step E hL hc.2, List.mem_cons]
      constructor
      · exact fun ⟨h, hb⟩ => ⟨.inr h, hb⟩
      · rintro ⟨rfl | h, hb⟩
        · exact absurd hb (by dsimp only; omega)
        · exact ⟨h, hb⟩
    · -- stopped: at the end of the line, or at an offset of at least `bound`
      dsimp only
      refine ⟨fun h => ⟨h, ?_⟩, And.left⟩
      by_cases hx : x < L.xnum
      · have := le_of_mem_markGroups E L h
        omega
      · simp [show L.xnum - x = 0 by omega, markGroups] at h

/-- **The loop over the matches pulls past the last one** exactly when the
marker yields none, or when some group's offset is past every match but the
last, so that the walk has not reached the end of the line when the last
match is pulled. -/
theorem applyMatches_pulled : ∀ (ms : List (ℕ × ℕ × ℕ)) (L : Line) x s, L.MarkWalkMoves E →
    ((applyMatches E ms L x s).2.2.2 = true ↔
      ms = [] ∨ ∃ p ∈ markGroups E L (L.xnum - x) x s, ∀ m ∈ ms.dropLast, m.1 ≤ p.2 ∧ m.2.1 < p.2)
  | [], _, _, _, _ => by simp [applyMatches]
  | (lo, r, col) :: ms, L, x, s, hL => by
    by_cases hx : x < L.xnum
    · simp only [applyMatches, if_pos hx]
      obtain ⟨ha, -⟩ := @applyMarkWhile_walk E [] 0 lo lo L x s hL (by omega) fun _ _ _ _ => rfl
      have hga := applyMarkWhile_groups (E := E) 0 lo lo L x s hL (by omega)
      generalize applyMarkWhile E 0 lo lo L x s = a at ha hga ⊢
      obtain ⟨hb, -⟩ := @applyMarkWhile_walk E [(0, r, col)] ((col &&& E.markMask) % 2 ^ 16) (r + 1) (r + 1)
        a.1 a.2.1 a.2.2 ha.moves (by omega) fun _ _ _ h => by simp [matchMark, Nat.le_of_lt_succ h]
      have hgb := applyMarkWhile_groups (E := E) ((col &&& E.markMask) % 2 ^ 16) (r + 1) (r + 1) a.1 a.2.1 a.2.2
        ha.moves (by omega)
      generalize applyMarkWhile E ((col &&& E.markMask) % 2 ^ 16) (r + 1) (r + 1) a.1 a.2.1 a.2.2 = b at hb hgb ⊢
      rw [applyMatches_pulled ms _ _ _ hb.moves, hb.xnum, ha.xnum] at *
      rcases ms with _ | ⟨m, ms⟩
      · -- the last match: pulled while the walk is inside the line
        simp only [true_or, List.dropLast_single, List.not_mem_nil, false_implies, implies_true, and_true,
          List.cons_ne_nil, false_or, true_iff]
        exact ⟨(x, s), by rw [markGroups_step E hL hx]; exact List.mem_cons_self _ _⟩
      · -- an earlier match: the walk must pass its end
        simp only [List.cons_ne_nil, false_or, List.dropLast_cons₂, List.mem_cons, forall_eq_or_imp]
        constructor
        · rintro ⟨p, hp, hq⟩
          obtain ⟨hpa, hr⟩ := (hgb p).1 hp
          obtain ⟨hpL, hlo⟩ := (hga p).1 hpa
          exact ⟨p, hpL, ⟨hlo, by omega⟩, hq⟩
        · rintro ⟨p, hpL, ⟨hlo, hr⟩, hq⟩
          exact ⟨p, (hgb p).2 ⟨(hga p).2 ⟨hpL, hlo⟩, by omega⟩, hq⟩
    · simp [applyMatches, hx, show L.xnum - x = 0 by omega, markGroups]

end

/-- **`apply_marker` is the plain walk.** When the walk moves on at every
cell, the line `apply_marker` leaves is the one the plain walk from column 0
and offset 0 leaves: each group of cells gets the mark of the first match, in
the marker's order, that reaches the group's offset (`matchMark`). The
marker's error is reported when it raises and the loop pulls past its last
match: when it yields none, or when some group's offset is past every match
but the last. -/
theorem applyMarker_eq_markWalk (E : Env) (marker : Marker) (l : Line) (text : List ℕ)
    {ms : List (ℕ × ℕ × ℕ)} {raises : Bool} (hm : marker text = some (ms, raises)) (hl : l.MarkWalkMoves E) :
    (applyMarker E marker l text).1 = markWalk E ms l.xnum l 0 0 ∧
      ((applyMarker E marker l text).2 = true ↔ raises = true ∧
        (ms = [] ∨ ∃ p ∈ markGroups E l l.xnum 0 0, ∀ m ∈ ms.dropLast, m.1 ≤ p.2 ∧ m.2.1 < p.2)) := by
  simp only [applyMarker, hm, Bool.and_eq_true]
  rw [applyMatches_pulled ms l 0 0 hl, applyMatches_walk ms l 0 0 hl, Nat.sub_zero]
  exact ⟨rfl, Iff.rfl⟩

theorem applyMarker_eq_markWalk_tabAccent :
    tabAccentLine.MarkWalkMoves Env.sample ∧
    (applyMarker Env.sample (fun _ => some ([(2, 4, 1), (9, 9, 2)], true)) tabAccentLine
        ['a'.toNat, '\t'.toNat, 'e'.toNat, 0x301, 'b'.toNat]).1 =
      markWalk Env.sample [(2, 4, 1), (9, 9, 2)] tabAccentLine.xnum tabAccentLine 0 0 ∧
    ((applyMarker Env.sample (fun _ => some ([(2, 4, 1), (9, 9, 2)], true)) tabAccentLine
        ['a'.toNat, '\t'.toNat, 'e'.toNat, 0x301, 'b'.toNat]).2 = true ↔ true = true ∧
      ([(2, 4, 1), (9, 9, 2)] = [] ∨ ∃ p ∈ markGroups Env.sample tabAccentLine tabAccentLine.xnum 0 0,
        ∀ m ∈ [(2, 4, 1), (9, 9, 2)].dropLast, m.1 ≤ p.2 ∧ m.2.1 < p.2)) :=
  have hl : tabAccentLine.MarkWalkMoves Env.sample := by decide
  ⟨hl, applyMarker_eq_markWalk Env.sample _ tabAccentLine _ rfl hl⟩

example : (applyMarker Env.sample (fun _ => some ([(2, 4, 1), (9, 9, 2)], true)) tabAccentLine
    ['a'.toNat, '\t'.toNat, 'e'.toNat, 0x301, 'b'.toNat]).2 = false := by
  decide

/-- **Every cell of a group gets the group's mark.** -/
theorem markWalk_mark (E : Env) (ms : List (ℕ × ℕ × ℕ)) : ∀ fuel (L : Line) x s, L.MarkWalkMoves E →
    ∀ p ∈ markGroups E L fuel x s, ∀ y, p.1 ≤ y → y < (markStep E L p.1).1 →
      ((markWalk E ms fuel L x s).gpuCells y).attrs.mark = matchMark E p.2 ms
  | 0, _, _, _, _, p, hp, _, _, _ => absurd hp (List.not_mem_nil p)
  | fuel + 1, L, x, s, hL, p, hp, y, h₁, h₂ => by
    simp only [markGroups] at hp
    split_ifs at hp with hx
    · simp only [markWalk, if_pos hx]
      rcases List.mem_cons.1 hp with rfl | hp
      · -- the group at `x`: marked now, and the walk goes on past it
        dsimp only at h₁ h₂ ⊢
        have := hL x hx
        rw [markWalk_gpuCells_of_lt _ _ _ _ _ h₂, markRange_mark, if_pos ⟨h₁, by omega⟩]
      · rw [← markGroups_markRange E (matchMark E s ms) ((markStep E L x).1 - x) L x] at hp
        exact markWalk_mark E ms fuel _ _ _ (hL.markRange _ _ _) p hp y h₁ (by simpa using h₂)
    · exact absurd hp (List.not_mem_nil p)

/-- With a marker and a nonempty text, `mark_text_in_line` marks as the plain
walk over the matches the marker yields. -/
theorem markTextInLine_walk (E : Env) {l : Line} (hl : l.MarkWalkMoves E) (m : Marker) (reported : Bool)
    (g : UnicodeBuf) {ms : List (ℕ × ℕ × ℕ)} {raises : Bool}
    (hm : m (lineAsUnicode E l false g).1 = some (ms, raises)) (hne : (lineAsUnicode E l false g).1 ≠ []) :
    (markTextInLine E (some m) l reported g).1 = markWalk E ms l.xnum l 0 0 := by
  simp only [markTextInLine, List.length_pos.2 hne, if_true, applyMarker, hm]
  rw [applyMatches_walk ms l 0 0 hl]
  rfl

/-- With a marker that yields, `mark_text_in_line` changes only the GPU cells. -/
theorem markTextInLine_frame (E : Env) {l : Line} (hl : l.MarkWalkMoves E) (m : Marker) (reported : Bool)
    (g : UnicodeBuf) {ms : List (ℕ × ℕ × ℕ)} {raises : Bool}
    (hm : m (lineAsUnicode E l false g).1 = some (ms, raises)) :
    (markTextInLine E (some m) l reported g).1.xnum = l.xnum ∧
      (markTextInLine E (some m) l reported g).1.cpuCells = l.cpuCells ∧
      (markTextInLine E (some m) l reported g).1.textCache = l.textCache := by
  by_cases hne : (lineAsUnicode E l false g).1 = []
  · simp only [markTextInLine, hne, List.length_nil, lt_irrefl, if_false, markRange_xnum, markRange_cpuCells,
      markRange_textCache, and_self]
  · rw [markTextInLine_walk E hl m reported g hm hne]
    exact markWalk_frame E ms _ l 0 0

/-! ### Keeping step with the text -/

/-- The lines on which the walk keeps step with the text `line_as_unicode`
gives the marker: valid cells (§3.1), no cell of a multi-cell glyph (where
the walk goes by `mcd_x_limit`), and no cell whose first code point is zero
holding another (`apply_mark` counts such a cell as one code point). -/
structure Line.MarkInStep (l : Line) : Prop where
  valid : l.CellsValid
  single : ∀ i < l.xnum, (l.cpuCells i).isMulticell = false
  zeroAlone : ∀ i < l.xnum, (textInCell (l.cpuCells i) l.textCache).chars.headD 0 = 0 →
    (textInCell (l.cpuCells i) l.textCache).chars.length = 1

theorem getD_one_eq (cs : List ℕ) : (if cs.length > 1 then cs.getD 1 0 else 0) = cs.getD 1 0 := by
  split_ifs with h
  · rfl
  · rw [List.getD_eq_default _ _ (by omega)]

section
variable {l : Line} (h : l.MarkInStep)
include h

/-- On such a line `apply_mark` goes on from where `line_as_unicode` does, and
counts the code points it writes. -/
theorem Line.MarkInStep.markStep_cellText (E : Env) {x : ℕ} (hx : x < l.xnum) :
    markStep E l x = ((cellText l l.xnum x).2, (cellText l l.xnum x).1.length) := by
  have hz := h.zeroAlone x hx
  have hne := h.valid.chars_ne_nil hx
  rw [markStep_eq, h.single x hx, getD_one_eq]
  unfold cellText zeroAsSpace
  generalize (textInCell (l.cpuCells x) l.textCache).chars = cs at hz hne ⊢
  obtain ⟨c, cs, rfl⟩ := List.exists_cons_of_ne_nil hne
  by_cases hc : c = 0
  · -- a zero cell is written as one space
    subst hc
    simp at hz
    simp [hz]
  · simp only [List.headD_cons, ne_eq, hc, not_false_eq_true, if_true, if_false, List.tail_cons,
      Bool.false_eq_true]
    split_ifs <;> rfl

theorem Line.MarkInStep.moves (E : Env) : l.MarkWalkMoves E := fun x hx => by
  rw [h.markStep_cellText E hx]
  exact lt_cellText l l.xnum x

theorem Line.MarkInStep.flattenCell_cellText {limit x : ℕ} (hx : x < l.xnum) :
    flattenCell l limit true false x = cellText l limit x := by
  simp [flattenCell, CPUCell.isContinuation, h.single x hx]

/-- Where each group of the walk stands in the text: up to a limit `xl`, the
text before the group's offset is what `flattenText` writes before its column. -/
theorem Line.MarkInStep.markGroups_text (E : Env) {xl : ℕ} (hxl : xl ≤ l.xnum) (fuel : ℕ) :
    ∀ p ∈ markGroups E l fuel 0 0, p.1 ≤ xl → ∃ A : List ℕ, A.length = p.2 ∧
      flattenText l xl true false xl 0 = A ++ flattenText l xl true false (xl - p.1) p.1 := by
  refine fun p hp => (markGroups_induct E l (P := fun x s => x ≤ xl → ∃ A : List ℕ, A.length = s ∧
      flattenText l xl true false xl 0 = A ++ flattenText l xl true false (xl - x) x) ?_ fuel 0 0
    (fun _ => ⟨[], rfl, rfl⟩) p hp).1
  intro x s hx hP hnext
  rw [h.markStep_cellText E hx] at hnext ⊢
  have hlt := lt_cellText l l.xnum x
  obtain ⟨A, hA, hT⟩ := hP (by omega)
  refine ⟨A ++ (cellText l l.xnum x).1, by rw [List.length_append, hA], ?_⟩
  rw [hT, List.append_assoc, show xl - x = (xl - x - 1) + 1 by omega, flattenText, if_pos (by omega),
    h.flattenCell_cellText hx, cellText_limit l hxl hnext,
    flattenText_fuel l xl true false _ _ _ (by omega) (le_refl (xl - (cellText l l.xnum x).2))]

end

/-- **Marking keeps step with the text.** On a line of `MarkInStep`, the
marks `mark_text_in_line` sets go group by group (`markGroups`): the groups
cover the line, each group is the cells one cell's text covers as
`line_as_unicode` writes it, and that text starts at the group's offset in
the text the marker was given; every cell of a group gets the mark of the
first match that reaches the group's offset. This holds for a text that
`line_as_unicode` writes inside its allocation. -/
theorem markTextInLine_inStep (E : Env) {l : Line} (h : l.MarkInStep) (m : Marker) (reported : Bool)
    (g : UnicodeBuf) {ms : List (ℕ × ℕ × ℕ)} {raises : Bool}
    (hm : m (lineAsUnicode E l false g).1 = some (ms, raises)) (hne : (lineAsUnicode E l false g).1 ≠ []) :
    (lineAsUnicode E l false g).2.overflowed = false →
    (∀ y < l.xnum, ∃ p ∈ markGroups E l l.xnum 0 0, p.1 ≤ y ∧ y < (cellText l l.xnum p.1).2) ∧
    ∀ p ∈ markGroups E l l.xnum 0 0,
      (p.1 < E.xlimitForLine l → (cellText l l.xnum p.1).1 <+: (lineAsUnicode E l false g).1.drop p.2) ∧
      ∀ y, p.1 ≤ y → y < (cellText l l.xnum p.1).2 →
        ((markTextInLine E (some m) l reported g).1.gpuCells y).attrs.mark = matchMark E p.2 ms := by
  intro _
  have hl := h.moves E
  have hxl := E.xlimit_le l
  have hT : (lineAsUnicode E l false g).1 = flattenText l (E.xlimitForLine l) true false (E.xlimitForLine l) 0 :=
    unicodeInRange_fst l (fun i hi => h.valid.chars_ne_nil (Nat.lt_of_lt_of_le hi hxl)) true false 0 g
  have hwalk := markTextInLine_walk E hl m reported g hm hne
  -- a group's end, as the walk has it
  have hend : ∀ p ∈ markGroups E l l.xnum 0 0, (markStep E l p.1).1 = (cellText l l.xnum p.1).2 := fun p hp =>
    by rw [h.markStep_cellText E (lt_of_mem_markGroups E l hp)]
  refine ⟨fun y hy => ?_, fun p hp => ⟨fun hpx => ?_, fun y h₁ h₂ => ?_⟩⟩
  · -- the groups cover the line
    obtain ⟨p, hp, h₁, h₂⟩ := markGroups_cover E hl l.xnum 0 0 (Nat.sub_le _ _) y (Nat.zero_le y) hy
    exact ⟨p, hp, h₁, hend p hp ▸ h₂⟩
  · -- a group's text starts at its offset
    obtain ⟨A, hA, hA'⟩ := h.markGroups_text E hxl _ p hp hpx.le
    rw [hT, hA', List.drop_left' hA, show E.xlimitForLine l - p.1 = (E.xlimitForLine l - p.1 - 1) + 1 by omega,
      flattenText, if_pos hpx, h.flattenCell_cellText (lt_of_mem_markGroups E l hp), cellText_fst l l.xnum (E.xlimitForLine l)]
    exact List.prefix_append _ _
  · -- every cell of a group gets its mark
    rw [hwalk]
    exact markWalk_mark E ms l.xnum l 0 0 hl p hp y h₁ (hend p hp ▸ h₂)

theorem markTextInLine_inStep_tabAccent :
    tabAccentLine.MarkInStep ∧
    (lineAsUnicode Env.sample tabAccentLine false UnicodeBuf.empty).2.overflowed = false ∧
    markGroups Env.sample tabAccentLine tabAccentLine.xnum 0 0 = [(0, 0), (1, 1), (3, 2), (4, 4)] ∧
    ((∀ y < tabAccentLine.xnum, ∃ p ∈ markGroups Env.sample tabAccentLine tabAccentLine.xnum 0 0,
        p.1 ≤ y ∧ y < (cellText tabAccentLine tabAccentLine.xnum p.1).2) ∧
      ∀ p ∈ markGroups Env.sample tabAccentLine tabAccentLine.xnum 0 0,
        (p.1 < Env.sample.xlimitForLine tabAccentLine → (cellText tabAccentLine tabAccentLine.xnum p.1).1 <+:
          (lineAsUnicode Env.sample tabAccentLine false UnicodeBuf.empty).1.drop p.2) ∧
        ∀ y, p.1 ≤ y → y < (cellText tabAccentLine tabAccentLine.xnum p.1).2 →
          ((markTextInLine Env.sample (some fun _ => some ([(2, 3, 1)], false)) tabAccentLine false
            UnicodeBuf.empty).1.gpuCells y).attrs.mark = matchMark Env.sample p.2 [(2, 3, 1)]) := by
  have h : tabAccentLine.MarkInStep := ⟨by unfold Line.CellsValid; decide, by decide, by decide⟩
  have hin : (lineAsUnicode Env.sample tabAccentLine false UnicodeBuf.empty).2.overflowed = false := by decide
  exact ⟨h, hin, by decide, markTextInLine_inStep Env.sample h _ false UnicodeBuf.empty rfl (by decide) hin⟩

/-! ### Reading the marks back -/

/-- The loop of `line_has_mark` from column `x`, with fuel. -/
def hasMarkLoop (l : Line) (mark : ℕ) : ℕ → ℕ → Bool
  | 0, _ => false
  | fuel + 1, x =>
    if x < l.xnum then
      if (l.gpuCells x).attrs.mark ≠ 0 ∧ (mark = 0 ∨ mark = (l.gpuCells x).attrs.mark) then true
      else hasMarkLoop l mark fuel (x + 1)
    else false

/-- `line_has_mark(line, mark)`: whether a cell carries a nonzero mark, and
`mark` itself unless `mark` is 0. -/
def lineHasMark (l : Line) (mark : ℕ) : Bool := hasMarkLoop l mark l.xnum 0

/-- The cells a mark query counts. -/
def MarkCounts (mark m : ℕ) : Prop := m ≠ 0 ∧ (mark = 0 ∨ mark = m)

instance (mark m : ℕ) : Decidable (MarkCounts mark m) := inferInstanceAs (Decidable (_ ∧ _))

theorem hasMarkLoop_iff (l : Line) (mark : ℕ) : ∀ fuel x, hasMarkLoop l mark fuel x = true ↔
    ∃ y, x ≤ y ∧ y < x + fuel ∧ y < l.xnum ∧ MarkCounts mark (l.gpuCells y).attrs.mark
  | 0, x => by simp only [hasMarkLoop, Bool.false_eq_true, false_iff]; omega
  | fuel + 1, x => by
    simp only [hasMarkLoop]
    split_ifs with hx hm
    · exact iff_of_true rfl ⟨x, le_rfl, by omega, hx, hm⟩
    · rw [hasMarkLoop_iff l mark fuel (x + 1)]
      constructor
      · rintro ⟨y, h₁, h₂, h₃, h₄⟩
        exact ⟨y, by omega, by omega, h₃, h₄⟩
      · rintro ⟨y, h₁, h₂, h₃, h₄⟩
        rcases Nat.eq_or_lt_of_le h₁ with rfl | h₁
        · exact absurd h₄ hm
        · exact ⟨y, h₁, by omega, h₃, h₄⟩
    · simp only [Bool.false_eq_true, false_iff, not_exists]
      omega

/-- **`line_has_mark` is the search it looks like.** -/
theorem lineHasMark_iff (l : Line) (mark : ℕ) :
    lineHasMark l mark = true ↔ ∃ y < l.xnum, MarkCounts mark (l.gpuCells y).attrs.mark := by
  rw [lineHasMark, hasMarkLoop_iff]
  constructor
  · rintro ⟨y, -, -, hy, h⟩
    exact ⟨y, hy, h⟩
  · rintro ⟨y, hy, h⟩
    exact ⟨y, Nat.zero_le y, by omega, hy, h⟩

/-- **What marking leaves for `line_has_mark`.** On a line where the walk moves
on at every column, after `mark_text_in_line` with a marker yielding the
matches `ms`, the line has a mark that the query `mark` counts exactly when
one of the walk's groups has its offset inside a match, the first reaching
it, of a color the query counts. This holds for a text that `line_as_unicode`
writes inside its allocation. -/
theorem lineHasMark_markTextInLine (E : Env) {l : Line} (hl : l.MarkWalkMoves E) (m : Marker) (reported : Bool)
    (g : UnicodeBuf) {ms : List (ℕ × ℕ × ℕ)} {raises : Bool}
    (hm : m (lineAsUnicode E l false g).1 = some (ms, raises)) (hne : (lineAsUnicode E l false g).1 ≠ [])
    (mark : ℕ) :
    (lineAsUnicode E l false g).2.overflowed = false →
      (lineHasMark (markTextInLine E (some m) l reported g).1 mark = true ↔
        ∃ p ∈ markGroups E l l.xnum 0 0, MarkCounts mark (matchMark E p.2 ms)) := by
  intro _
  have hmark := markWalk_mark E ms l.xnum l 0 0 hl
  rw [markTextInLine_walk E hl m reported g hm hne, lineHasMark_iff, markWalk_xnum]
  constructor
  · rintro ⟨y, hy, h⟩
    obtain ⟨p, hp, h₁, h₂⟩ := markGroups_cover E hl l.xnum 0 0 (Nat.sub_le _ _) y (Nat.zero_le y) hy
    exact ⟨p, hp, hmark p hp y h₁ h₂ ▸ h⟩
  · rintro ⟨p, hp, h⟩
    have hlt := lt_of_mem_markGroups E l hp
    exact ⟨p.1, hlt, (hmark p hp p.1 le_rfl (hl p.1 hlt)).symm ▸ h⟩

theorem lineHasMark_markTextInLine_tabAccent :
    (lineAsUnicode Env.sample tabAccentLine false UnicodeBuf.empty).2.overflowed = false ∧
    (lineHasMark (markTextInLine Env.sample (some fun _ => some ([(2, 3, 1)], false)) tabAccentLine false
        UnicodeBuf.empty).1 1 = true ↔
      ∃ p ∈ markGroups Env.sample tabAccentLine tabAccentLine.xnum 0 0,
        MarkCounts 1 (matchMark Env.sample p.2 [(2, 3, 1)])) ∧
    (3, 2) ∈ markGroups Env.sample tabAccentLine tabAccentLine.xnum 0 0 :=
  have hin : (lineAsUnicode Env.sample tabAccentLine false UnicodeBuf.empty).2.overflowed = false := by decide
  ⟨hin, lineHasMark_markTextInLine Env.sample (by decide) _ false UnicodeBuf.empty rfl (by decide) 1 hin, by decide⟩

/-! ### What marking does not read -/

/-- **Marking starts from scratch.** When the marker yields its matches, the
marks `mark_text_in_line` leaves on the line's columns depend neither on the
GPU cells the line had, its old marks among them, nor on the flatten buffer:
lines with the same width, CPU cells and text cache get the same marks, and
marking a line again gives the marks it has. This needs an `xlimit_for_line`
that reads only the width and the CPU cells, and texts that `line_as_unicode`
writes inside its allocation. -/
theorem markTextInLine_mark_eq (E : Env)
    (hE : ∀ l₁ l₂ : Line, l₁.xnum = l₂.xnum → l₁.cpuCells = l₂.cpuCells → E.xlimitForLine l₁ = E.xlimitForLine l₂)
    {l l' : Line} (hx : l'.xnum = l.xnum) (hc : l'.cpuCells = l.cpuCells) (ht : l'.textCache = l.textCache)
    (hv : l.CellsValid) (hl : l.MarkWalkMoves E) (m : Marker) (g g' : UnicodeBuf) {ms : List (ℕ × ℕ × ℕ)}
    {raises : Bool} (hm : m (lineAsUnicode E l false g).1 = some (ms, raises)) (r r' : Bool) :
    (lineAsUnicode E l false g).2.overflowed = false → (lineAsUnicode E l' false g').2.overflowed = false →
    ∀ y < l.xnum, ((markTextInLine E (some m) l' r' g').1.gpuCells y).attrs.mark =
      ((markTextInLine E (some m) l r g).1.gpuCells y).attrs.mark := by
  intro _ _
  have hs := markStep_congr E hx hc ht
  have hl' : l'.MarkWalkMoves E := fun x hx' => by rw [hs]; exact hl x (hx ▸ hx')
  -- the text reads neither the GPU cells nor the buffer
  have hT : (lineAsUnicode E l' false g').1 = (lineAsUnicode E l false g).1 := by
    have hxl := E.xlimit_le l
    have hne : ∀ i < E.xlimitForLine l, (textInCell (l.cpuCells i) l.textCache).chars ≠ [] :=
      fun i hi => hv.chars_ne_nil (by omega)
    rw [lineAsUnicode, lineAsUnicode, hE l' l hx hc, unicodeInRange_fst l' (by rw [hc, ht]; exact hne),
      unicodeInRange_fst l hne]
    exact flattenText_congr true false _ 0 fun t _ _ =>
      flattenCell_eq_from true false (fun y _ => congrFun hc y) (by rw [hc, ht])
  intro y hy
  by_cases hne : (lineAsUnicode E l false g).1 = []
  · -- no text: every column is cleared
    have hne' := hT.trans hne
    simp only [markTextInLine, hne, hne', List.length_nil, lt_irrefl, if_false, markRange_mark, hx, hy,
      Nat.zero_le, Nat.zero_add, and_self, if_true]
  · -- a text: both are the plain walk over the same groups
    rw [markTextInLine_walk E hl' m r' g' (hT ▸ hm) (hT ▸ hne), markTextInLine_walk E hl m r g hm hne]
    obtain ⟨p, hp, h₁, h₂⟩ := markGroups_cover E hl l.xnum 0 0 (Nat.sub_le _ _) y (Nat.zero_le y) hy
    rw [markWalk_mark E ms l.xnum l 0 0 hl p hp y h₁ h₂,
      markWalk_mark E ms l'.xnum l' 0 0 hl' p (by rw [hx, markGroups_congr E hx hs]; exact hp) y h₁ (by rw [hs]; exact h₂)]

theorem markTextInLine_mark_eq_tabAccent :
    (lineAsUnicode Env.sample tabAccentLine false UnicodeBuf.empty).2.overflowed = false ∧
    (lineAsUnicode Env.sample (markTextInLine Env.sample (some fun _ => some ([(2, 3, 1)], false)) tabAccentLine
      false UnicodeBuf.empty).1 false ⟨fun _ => 7, 4096, 4096, false⟩).2.overflowed = false ∧
    ((markTextInLine Env.sample (some fun _ => some ([(2, 3, 1)], false))
        (markTextInLine Env.sample (some fun _ => some ([(2, 3, 1)], false)) tabAccentLine false
          UnicodeBuf.empty).1 false ⟨fun _ => 7, 4096, 4096, false⟩).1.gpuCells 3).attrs.mark =
      ((markTextInLine Env.sample (some fun _ => some ([(2, 3, 1)], false)) tabAccentLine false
        UnicodeBuf.empty).1.gpuCells 3).attrs.mark :=
  have hl : tabAccentLine.MarkWalkMoves Env.sample := by decide
  have h := markTextInLine_frame Env.sample hl (fun _ => some ([(2, 3, 1)], false)) false UnicodeBuf.empty rfl
  have h₁ : (lineAsUnicode Env.sample tabAccentLine false UnicodeBuf.empty).2.overflowed = false := by decide
  have h₂ : (lineAsUnicode Env.sample (markTextInLine Env.sample (some fun _ => some ([(2, 3, 1)], false))
      tabAccentLine false UnicodeBuf.empty).1 false ⟨fun _ => 7, 4096, 4096, false⟩).2.overflowed = false := by
    decide
  ⟨h₁, h₂, markTextInLine_mark_eq Env.sample (fun _ _ hx _ => hx) h.1 h.2.1 h.2.2
    (by unfold Line.CellsValid; decide) hl _ UnicodeBuf.empty _ rfl false false h₁ h₂ 3 (by decide)⟩

end KittyLine
