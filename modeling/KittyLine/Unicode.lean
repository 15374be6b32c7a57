/-
# `unicode_in_range` and its buffer

`unicode_in_range` flattens the cells of `[start, limit)` into one string: a
continuation cell of a multi-cell glyph gives nothing, a zero first code point
becomes a space (or the cell is dropped with `skip_zero_cells`), a tab gives
its `\t` and swallows the space cells its skip count names, and any other cell
gives its code points (only the first without `include_cc`). It writes into
`global_unicode_in_range_buf`, kept from call to call, and grows it whenever a
cell's text does not fit.

The buffer records its capacity in `char_type` elements, but the number it
passes to `realloc` is the same one, read as a size in bytes: each growth
records four times the elements it allocates room for (`grow_capacity`). A
call goes past the allocation as soon as its text needs more than a quarter
of the capacity. The model goes on there as if the memory were the buffer's,
and records in `UnicodeBuf.overflowed` that the C code has left its
allocation. Between calls the buffer is never grown, or grown to the size it
records (`unicodeCalls_reachable`). From such a buffer a call whose string is
longer than the allocation has left it (`unicodeInRange_overflowed_of_long`),
and a call over cells holding fewer than 1024 code points stays inside
(`unicodeInRange_fits`). What is proved about the string a call returns is
proved for calls that stay inside.

The trailing newline is written only while the count is below the capacity
(`unicodeInRange_trailingNewline`), so an empty range on the buffer before any
call ends without it (`unicodeInRange_newline_dropped`).

`text_in_cell_without_alloc` lives outside `line.c`; it is modelled from the
spec: it copies the cell's code points into the buffer when they fit in what
is left of the capacity, and fails otherwise.

Key definitions: `UnicodeBuf`, `unicodeInRange`, `lineAsUnicode`, `UnicodeBuf.Reachable`.
Key theorems: `grow_capacity`, `unicodeInRange_trailingNewline`, `unicodeCalls_reachable`,
`unicodeInRange_overflowed_of_long`, `unicodeInRange_fits`.
-/
import KittyLine.Ansi

namespace KittyLine

/-- `global_unicode_in_range_buf`: its contents, the capacity it records, the
size last passed to `realloc` (0 before the first), and whether a call has
accessed an element at or past `allocBytes / sizeof(char_type)`. Such an
access is outside the allocation, and what the C code does from there on is
undefined: the model goes on, and records it. -/
structure UnicodeBuf where
  chars : ℕ → ℕ
  capacity : ℕ
  allocBytes : ℕ
  overflowed : Bool

/-- The buffer before any call, `{0}`. -/
def UnicodeBuf.empty : UnicodeBuf := ⟨fun _ => 0, 0, 0, false⟩

/-- `sizeof(char_type)`. -/
def sizeofCharType : ℕ := 4

/-- An access of the elements below `top`. -/
def UnicodeBuf.access (g : UnicodeBuf) (top : ℕ) : UnicodeBuf :=
  { g with overflowed := g.overflowed || decide (g.allocBytes / sizeofCharType < top) }

/-- One growth: `ns = MAX(4096u, 2 * capacity); realloc(chars, ns); capacity = ns;`. -/
def UnicodeBuf.grow (g : UnicodeBuf) : UnicodeBuf :=
  let ns := max 4096 (2 * g.capacity)
  { g with capacity := ns, allocBytes := ns }

/-- The code points `cs` copied into `f` from position `n`. -/
def writeChars (f : ℕ → ℕ) (n : ℕ) (cs : List ℕ) : ℕ → ℕ :=
  fun p => if n ≤ p ∧ p < n + cs.length then cs.getD (p - n) 0 else f p

/-- The grow loop, `while (!text_in_cell_without_alloc(...)) { grow }`:
modelled from the spec, the copy of `need` code points to position `n` fails
while they do not fit in `capacity - n`. -/
def growUntilFits (need n : ℕ) : ℕ → UnicodeBuf → UnicodeBuf
  | 0, g => g
  | fuel + 1, g => if need ≤ g.capacity - n then g else growUntilFits need n fuel g.grow

/-- The loop of `unicode_in_range` from column `i`, with `n` code points
written: the count at the end, and the buffer. A pass copies the cell's code
points to `[n, n + count)` and, unless the cell is a continuation, reads
`chars[n]`: those are its accesses. -/
def unicodeLoop (l : Line) (limit : ℕ) (includeCc skipZeroCells : Bool) :
    ℕ → ℕ → ℕ → UnicodeBuf → ℕ × UnicodeBuf
  | 0, _, n, g => (n, g)
  | fuel + 1, i, n, g =>
    if i < limit then
      let lc := textInCell (l.cpuCells i) l.textCache
      let g := growUntilFits lc.chars.length n (lc.chars.length + 1) g
      let cont := lc.isMulticell && !lc.isTopleft
      let g := { g.access (n + if cont then lc.chars.length else max lc.chars.length 1) with
        chars := writeChars g.chars n lc.chars }
      if cont then unicodeLoop l limit includeCc skipZeroCells fuel (i + 1) n g
      else if g.chars n = 0 ∧ skipZeroCells then
        unicodeLoop l limit includeCc skipZeroCells fuel (i + 1) n g
      else
        let g := if g.chars n = 0 then { g with chars := Function.update g.chars n ' '.toNat } else g
        if g.chars n = '\t'.toNat then
          let skip := if lc.chars.length > 1 then g.chars (n + 1) else 0
          unicodeLoop l limit includeCc skipZeroCells fuel (skipTabCells l limit skip i + 1) (n + 1) g
        else
          unicodeLoop l limit includeCc skipZeroCells fuel (i + 1)
            (n + if includeCc then lc.chars.length else 1) g
    else (n, g)

/-- `unicode_in_range(self, start, limit, include_cc, add_trailing_newline,
skip_zero_cells)`: the string, and the buffer it leaves. -/
def unicodeInRange (l : Line) (start limit : ℕ) (includeCc addTrailingNewline skipZeroCells : Bool)
    (g : UnicodeBuf) : List ℕ × UnicodeBuf :=
  let r := unicodeLoop l limit includeCc skipZeroCells (limit - start) start 0 g
  let n := r.1
  let g := r.2
  let r : ℕ × UnicodeBuf :=
    if addTrailingNewline ∧ !(l.cpuCells (l.xnum - 1)).nextCharWasWrapped ∧ n < g.capacity then
      (n + 1, { g.access (n + 1) with chars := Function.update g.chars n '\n'.toNat })
    else (n, g)
  ((List.range r.1).map r.2.chars, r.2)

/-- `line_as_unicode(self, skip_zero_cells)`. -/
def lineAsUnicode (E : Env) (l : Line) (skipZeroCells : Bool) (g : UnicodeBuf) : List ℕ × UnicodeBuf :=
  unicodeInRange l 0 (E.xlimitForLine l) true false skipZeroCells g

theorem growUntilFits_chars (need n : ℕ) : ∀ fuel g, (growUntilFits need n fuel g).chars = g.chars
  | 0, _ => rfl
  | fuel + 1, g => by
    simp only [growUntilFits]
    split
    · rfl
    · exact growUntilFits_chars need n fuel g.grow

theorem growUntilFits_overflowed (need n : ℕ) : ∀ fuel g,
    (growUntilFits need n fuel g).overflowed = g.overflowed
  | 0, _ => rfl
  | fuel + 1, g => by
    simp only [growUntilFits]
    split
    · rfl
    · exact growUntilFits_overflowed need n fuel g.grow

theorem ite_chars (G : UnicodeBuf) (c : Prop) [Decidable c] (A B : ℕ → ℕ) :
    (if c then ({ G with chars := A } : UnicodeBuf) else { G with chars := B }) =
      { G with chars := if c then A else B } := by
  split <;> rfl

/-- Every growth records as its capacity, in code points, the size it gives
`realloc` in bytes: four times the room it gets. -/
theorem grow_capacity (g : UnicodeBuf) :
    g.grow.allocBytes = g.grow.capacity ∧ g.grow.allocBytes < g.grow.capacity * sizeofCharType := by
  refine ⟨rfl, ?_⟩
  show max 4096 (2 * g.capacity) < max 4096 (2 * g.capacity) * 4
  omega

/-- The first call on a line of one plain cell grows the empty buffer to a
recorded capacity of 4096 code points, 16384 bytes, for an allocation of 4096
bytes. -/
theorem unicodeInRange_capacity_exceeds_allocation :
    (unicodeInRange (Line.plain 'a'.toNat) 0 1 true false false UnicodeBuf.empty).2.capacity = 4096 ∧
    (unicodeInRange (Line.plain 'a'.toNat) 0 1 true false false UnicodeBuf.empty).2.allocBytes = 4096 ∧
    (unicodeInRange (Line.plain 'a'.toNat) 0 1 true false false UnicodeBuf.empty).2.allocBytes <
      (unicodeInRange (Line.plain 'a'.toNat) 0 1 true false false UnicodeBuf.empty).2.capacity *
        sizeofCharType := by
  decide

/-! ### The trailing newline -/

/-- **The trailing newline.** With `add_trailing_newline`, `unicode_in_range`
returns what it returns without it, followed by `\n` exactly when the last
cell is not wrapped and the `n` code points of the range leave room in the
buffer, `n < capacity`. -/
theorem unicodeInRange_trailingNewline (l : Line) (start limit : ℕ) (includeCc skipZeroCells : Bool)
    (g : UnicodeBuf) :
    (unicodeInRange l start limit includeCc true skipZeroCells g).1 =
      (unicodeInRange l start limit includeCc false skipZeroCells g).1 ++
        if (l.cpuCells (l.xnum - 1)).nextCharWasWrapped = false ∧
            (unicodeLoop l limit includeCc skipZeroCells (limit - start) start 0 g).1 <
              (unicodeLoop l limit includeCc skipZeroCells (limit - start) start 0 g).2.capacity
        then ['\n'.toNat] else [] := by
  unfold unicodeInRange
  generalize unicodeLoop l limit includeCc skipZeroCells (limit - start) start 0 g = r
  obtain ⟨n, g'⟩ := r
  by_cases hw : (l.cpuCells (l.xnum - 1)).nextCharWasWrapped = false ∧ n < g'.capacity
  · have hmap : (List.range n).map (Function.update g'.chars n '\n'.toNat) = (List.range n).map g'.chars :=
      List.map_congr_left fun j hj => Function.update_noteq (List.mem_range.1 hj).ne _ _
    simp [hw, List.range_succ, hmap]
    exact fun a ha => Function.update_noteq ha.ne _ _
  · simp [hw]

/-- On the buffer before any call, an empty range gets no newline: the count
0 is not below the capacity 0, though nothing is out of its allocation. -/
theorem unicodeInRange_newline_dropped (l : Line) (start : ℕ) (includeCc skipZeroCells : Bool) :
    (unicodeInRange l start start includeCc true skipZeroCells UnicodeBuf.empty).1 = [] ∧
    (unicodeInRange l start start includeCc false skipZeroCells UnicodeBuf.empty).1 = [] ∧
    (unicodeInRange l start start includeCc true skipZeroCells UnicodeBuf.empty).2.overflowed = false := by
  simp [unicodeInRange, unicodeLoop, UnicodeBuf.empty]

/-! ### Staying inside the allocation -/

/-- The states the buffer is in between calls: never grown, or last grown to
a capacity of at least 4096 that is also the size passed to `realloc`. -/
structure UnicodeBuf.Reachable (g : UnicodeBuf) : Prop where
  alloc_eq : g.allocBytes = g.capacity
  capacity_cases : g.capacity = 0 ∨ 4096 ≤ g.capacity

theorem UnicodeBuf.Reachable.empty : UnicodeBuf.empty.Reachable := ⟨rfl, .inl rfl⟩

theorem UnicodeBuf.Reachable.grow {g : UnicodeBuf} (_ : g.Reachable) : g.grow.Reachable :=
  ⟨rfl, .inr (le_max_left _ _)⟩

/-- The grow loop keeps the buffer reachable and never shrinks it; once it
grows, the capacity is at least 4096. -/
theorem growUntilFits_reachable (need n : ℕ) : ∀ fuel (g : UnicodeBuf), g.Reachable →
    (growUntilFits need n fuel g).Reachable ∧ g.capacity ≤ (growUntilFits need n fuel g).capacity ∧
      (0 < fuel → g.capacity - n < need → 4096 ≤ (growUntilFits need n fuel g).capacity)
  | 0, g, hg => ⟨hg, le_rfl, by omega⟩
  | fuel + 1, g, hg => by
    simp only [growUntilFits]
    split_ifs with hfit
    · exact ⟨hg, le_rfl, by omega⟩
    · obtain ⟨h₁, h₂, -⟩ := growUntilFits_reachable need n fuel g.grow hg.grow
      have : g.capacity ≤ g.grow.capacity ∧ 4096 ≤ g.grow.capacity := by
        simp only [UnicodeBuf.grow]; omega
      exact ⟨h₁, this.1.trans h₂, fun _ _ => this.2.trans h₂⟩

/-- **One pass of the loop, seen from the allocation.** It grows the buffer,
accesses the elements below some `top` of at most `n + max count 1`, and goes
on from a later column with a count of at most `top`. -/
theorem unicodeLoop_pass (l : Line) {limit fuel i n : ℕ} (g : UnicodeBuf) (hi : i < limit)
    (includeCc skipZeroCells : Bool) :
    ∃ (i' n' top : ℕ) (c : ℕ → ℕ), i < i' ∧ n' ≤ top ∧
      top ≤ n + max (textInCell (l.cpuCells i) l.textCache).chars.length 1 ∧
      unicodeLoop l limit includeCc skipZeroCells (fuel + 1) i n g =
        unicodeLoop l limit includeCc skipZeroCells fuel i' n'
          { (growUntilFits (textInCell (l.cpuCells i) l.textCache).chars.length n
            ((textInCell (l.cpuCells i) l.textCache).chars.length + 1) g).access top with chars := c } := by
  have hskip := le_skipTabCells l limit
  simp only [unicodeLoop, if_pos hi]
  generalize textInCell (l.cpuCells i) l.textCache = lc at hskip ⊢
  generalize growUntilFits lc.chars.length n (lc.chars.length + 1) g = G
  by_cases hc : (lc.isMulticell && !lc.isTopleft) = true
  · simp only [hc, if_true]
    exact ⟨_, _, _, _, Nat.lt_succ_self i, by omega, by omega, rfl⟩
  simp only [hc, Bool.false_eq_true, if_false]
  generalize writeChars G.chars n lc.chars = w
  by_cases hz : w n = 0 ∧ skipZeroCells = true
  · rw [if_pos hz]
    exact ⟨_, _, _, _, Nat.lt_succ_self i, by omega, by omega, rfl⟩
  rw [if_neg hz, ite_chars]
  generalize (if w n = 0 then Function.update w n ' '.toNat else w) = w'
  by_cases ht : w' n = '\t'.toNat
  · rw [if_pos ht]
    exact ⟨_, _, _, _, Nat.lt_succ_of_le (hskip _ i), by omega, by omega, rfl⟩
  · rw [if_neg ht]
    exact ⟨_, _, _, _, Nat.lt_succ_self i, by split <;> omega, by omega, rfl⟩

theorem unicodeLoop_reachable (l : Line) (limit : ℕ) (includeCc skipZeroCells : Bool) :
    ∀ fuel i n (g : UnicodeBuf), g.Reachable → (unicodeLoop l limit includeCc skipZeroCells fuel i n g).2.Reachable
  | 0, _, _, _, hg => hg
  | fuel + 1, i, n, g, hg => by
    by_cases hi : i < limit
    · obtain ⟨i', n', top, c, -, -, -, heq⟩ := @unicodeLoop_pass l limit fuel i n g hi includeCc skipZeroCells
      generalize (textInCell (l.cpuCells i) l.textCache).chars.length = len at heq
      have hG := (growUntilFits_reachable len n (len + 1) g hg).1
      rw [heq]
      exact unicodeLoop_reachable l limit includeCc skipZeroCells fuel i' n' _ ⟨hG.alloc_eq, hG.capacity_cases⟩
    · simpa [unicodeLoop, hi] using hg

/-- The loop's count stays within the allocation, or the loop has left it. -/
theorem unicodeLoop_within (l : Line) (limit : ℕ) (includeCc skipZeroCells : Bool) :
    ∀ fuel i n (g : UnicodeBuf), g.Reachable → (g.overflowed = true ∨ n ≤ g.allocBytes / sizeofCharType) →
      (unicodeLoop l limit includeCc skipZeroCells fuel i n g).2.overflowed = true ∨
        (unicodeLoop l limit includeCc skipZeroCells fuel i n g).1 ≤
          (unicodeLoop l limit includeCc skipZeroCells fuel i n g).2.allocBytes / sizeofCharType
  | 0, _, _, _, _, h => h
  | fuel + 1, i, n, g, hg, h => by
    by_cases hi : i < limit
    · obtain ⟨i', n', top, c, -, hn', -, heq⟩ := @unicodeLoop_pass l limit fuel i n g hi includeCc skipZeroCells
      generalize (textInCell (l.cpuCells i) l.textCache).chars.length = len at heq
      obtain ⟨hG, hcap, -⟩ := growUntilFits_reachable len n (len + 1) g hg
      rw [heq]
      refine unicodeLoop_within l limit includeCc skipZeroCells fuel i' n' _ ⟨hG.alloc_eq, hG.capacity_cases⟩ ?_
      simp only [UnicodeBuf.access, growUntilFits_overflowed, Bool.or_eq_true, decide_eq_true_eq]
      rw [hg.alloc_eq] at h
      rw [hG.alloc_eq]
      rcases h with h | h
      · exact .inl (.inl h)
      · unfold sizeofCharType at h ⊢
        omega
    · simpa [unicodeLoop, hi] using h

/-- **A text longer than the allocation has left it.** When the string a call
returns is longer than the allocation the buffer ends with, in `char_type`
elements, the call has accessed elements outside it. -/
theorem unicodeInRange_overflowed_of_long (l : Line) (start limit : ℕ)
    (includeCc addTrailingNewline skipZeroCells : Bool) {g : UnicodeBuf} (hg : g.Reachable)
    (hlong : (unicodeInRange l start limit includeCc addTrailingNewline skipZeroCells g).2.allocBytes /
      sizeofCharType < (unicodeInRange l start limit includeCc addTrailingNewline skipZeroCells g).1.length) :
    (unicodeInRange l start limit includeCc addTrailingNewline skipZeroCells g).2.overflowed = true := by
  have h := unicodeLoop_within l limit includeCc skipZeroCells (limit - start) start 0 g hg (.inr (Nat.zero_le _))
  unfold unicodeInRange at hlong ⊢
  generalize unicodeLoop l limit includeCc skipZeroCells (limit - start) start 0 g = r at h hlong
  dsimp only at hlong ⊢
  split_ifs at hlong ⊢
  · simp only [UnicodeBuf.access, List.length_map, List.length_range, Bool.or_eq_true, decide_eq_true_eq] at hlong ⊢
    omega
  · simp only [List.length_map, List.length_range] at hlong
    exact h.resolve_right (by omega)

def longCellLine : Line :=
  Line.single { CPUCell.zero with chIsIdx := true } GPUCell.blank
    (TextCache.const (List.replicate 1025 'a'.toNat) ⟨1, 1, 0, le_rfl, le_rfl⟩)

set_option maxRecDepth 8000 in
theorem unicodeInRange_overflowed_of_long_longCell :
    UnicodeBuf.empty.Reachable ∧
    (unicodeInRange longCellLine 0 1 true false false UnicodeBuf.empty).2.allocBytes / sizeofCharType <
      (unicodeInRange longCellLine 0 1 true false false UnicodeBuf.empty).1.length ∧
    (unicodeInRange longCellLine 0 1 true false false UnicodeBuf.empty).2.overflowed = true :=
  have h : (unicodeInRange longCellLine 0 1 true false false UnicodeBuf.empty).2.allocBytes / sizeofCharType <
      (unicodeInRange longCellLine 0 1 true false false UnicodeBuf.empty).1.length := by decide
  ⟨.empty, h, unicodeInRange_overflowed_of_long _ _ _ _ _ _ .empty h⟩

/-- The code points `text_in_cell` gives the cells of `[i, limit)`, together. -/
def rangeCharCount (l : Line) (i limit : ℕ) : ℕ :=
  ((List.range' i (limit - i)).map fun j => (textInCell (l.cpuCells j) l.textCache).chars.length).sum

theorem rangeCharCount_cons (l : Line) {i limit : ℕ} (hi : i < limit) :
    rangeCharCount l i limit =
      (textInCell (l.cpuCells i) l.textCache).chars.length + rangeCharCount l (i + 1) limit := by
  unfold rangeCharCount
  rw [show limit - i = limit - (i + 1) + 1 by omega, List.range'_succ, List.map_cons, List.sum_cons]

theorem rangeCharCount_anti (l : Line) (limit : ℕ) : ∀ k i, rangeCharCount l (i + k) limit ≤ rangeCharCount l i limit
  | 0, _ => le_rfl
  | k + 1, i => by
    by_cases hi : i < limit
    · have := rangeCharCount_anti l limit k (i + 1)
      rw [rangeCharCount_cons l hi, show i + (k + 1) = i + 1 + k by omega]
      omega
    · simp [rangeCharCount, show limit - (i + (k + 1)) = 0 by omega]

/-- Over a range whose cells hold fewer than 1024 code points together, the
loop stays inside the allocation: the first pass grows a never-grown buffer
to 4096 elements of capacity, a quarter of which is allocated. -/
theorem unicodeLoop_fits (l : Line) (hv : l.CellsValid) {limit : ℕ} (hlim : limit ≤ l.xnum)
    (includeCc skipZeroCells : Bool) :
    ∀ fuel i n (g : UnicodeBuf), g.Reachable → g.overflowed = false → n + rangeCharCount l i limit < 1024 →
      (unicodeLoop l limit includeCc skipZeroCells fuel i n g).2.overflowed = false ∧
        (unicodeLoop l limit includeCc skipZeroCells fuel i n g).1 ≤ n + rangeCharCount l i limit
  | 0, _, _, _, _, ho, _ => ⟨ho, Nat.le_add_right _ _⟩
  | fuel + 1, i, n, g, hg, ho, hs => by
    by_cases hi : i < limit
    · have hlen := List.length_pos.2 (hv.chars_ne_nil (lt_of_lt_of_le hi hlim))
      obtain ⟨i', n', top, c, hi', hn', htop, heq⟩ := @unicodeLoop_pass l limit fuel i n g hi includeCc skipZeroCells
      have hcount := rangeCharCount_cons l hi
      have hanti := rangeCharCount_anti l limit (i' - (i + 1)) (i + 1)
      rw [show i + 1 + (i' - (i + 1)) = i' by omega] at hanti
      generalize (textInCell (l.cpuCells i) l.textCache).chars.length = len at heq hlen htop hcount
      obtain ⟨hG, hcap, hgrow⟩ := growUntilFits_reachable len n (len + 1) g hg
      have h4096 : 4096 ≤ (growUntilFits len n (len + 1) g).capacity := by
        rcases hg.capacity_cases with h0 | h0
        · exact hgrow (Nat.succ_pos _) (by omega)
        · exact h0.trans hcap
      have hin : ({ (growUntilFits len n (len + 1) g).access top with chars := c } : UnicodeBuf).overflowed =
          false := by
        simp only [UnicodeBuf.access, growUntilFits_overflowed, ho, Bool.false_or, decide_eq_false_iff_not,
          hG.alloc_eq, sizeofCharType]
        omega
      have ih := unicodeLoop_fits l hv hlim includeCc skipZeroCells fuel i' n'
        { (growUntilFits len n (len + 1) g).access top with chars := c } ⟨hG.alloc_eq, hG.capacity_cases⟩ hin
        (by omega)
      rw [heq]
      exact ⟨ih.1, by omega⟩
    · simp [unicodeLoop, hi, ho]

/-- **A short range stays inside the allocation.** From a reachable buffer
that no call has overflowed, a call over a range of valid cells holding fewer
than 1024 code points together accesses only allocated elements, trailing
newline included. -/
theorem unicodeInRange_fits (l : Line) (hv : l.CellsValid) {start limit : ℕ} (hlim : limit ≤ l.xnum)
    (includeCc addTrailingNewline skipZeroCells : Bool) {g : UnicodeBuf} (hg : g.Reachable)
    (ho : g.overflowed = false) (hs : rangeCharCount l start limit < 1024) :
    (unicodeInRange l start limit includeCc addTrailingNewline skipZeroCells g).2.overflowed = false := by
  have hr := unicodeLoop_reachable l limit includeCc skipZeroCells (limit - start) start 0 g hg
  obtain ⟨ho', hn⟩ := unicodeLoop_fits l hv hlim includeCc skipZeroCells (limit - start) start 0 g hg ho
    (by omega)
  unfold unicodeInRange
  generalize unicodeLoop l limit includeCc skipZeroCells (limit - start) start 0 g = r at hr ho' hn
  dsimp only
  split_ifs with h
  · have := hr.capacity_cases
    simp only [UnicodeBuf.access, ho', Bool.false_or, decide_eq_false_iff_not, hr.alloc_eq, sizeofCharType]
    omega
  · exact ho'

theorem unicodeInRange_fits_plain :
    (Line.plain 'a'.toNat).CellsValid ∧ rangeCharCount (Line.plain 'a'.toNat) 0 1 < 1024 ∧
    (unicodeInRange (Line.plain 'a'.toNat) 0 1 true true false UnicodeBuf.empty).2.overflowed = false :=
  have hv : (Line.plain 'a'.toNat).CellsValid := by unfold Line.CellsValid; decide
  ⟨hv, by decide, unicodeInRange_fits _ hv le_rfl true true false .empty rfl (by decide)⟩

end KittyLine
