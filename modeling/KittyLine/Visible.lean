/-
# What a terminal shows of `line_as_ansi`

`line_as_ansi` and `line_as_unicode` serialize the same line, the first with
escape codes between the cells' texts. The reader `visibleText` deletes
`CSI ... m` and `OSC ... ESC \`, and replaces a text-size wrapper
`OSC TEXT_SIZE_CODE ; params ; payload BEL` by its payload; it is a fold of
`Reader.step` over the code points, as a terminal's parser is.

For a line whose cells are valid, belong to no multi-cell glyph and hold no
`ESC`, the reader shows exactly `line_as_unicode(line, false)`
(`visibleText_asAnsi`): the two loops visit the same columns, tab skips
included, and append per cell the same text (`cellText`) after escape codes
the reader drops (`ansiCellEscapes_text`, `ansiCellText_text`,
`unicodeLoop_cell`, `ansiLoop_unicodeLoop`). What the patches after
`text_in_cell_ansi` make of any cell's text is `patchText`
(`ansiCellText_patch`).

Not covered: a multi-cell glyph, whose wrapper `text_in_cell_ansi` leaves
without its `BEL` (`textInCellAnsi_anchor`), so that the reader never reaches
the payload (`visibleText_asAnsi_wideGlyph`); and a cell holding `ESC`, which
`line_as_ansi` writes unescaped.

Key definitions: `Reader`, `visibleText`, `cellText`, `patchText`, `Line.SimpleCells`.
Key theorems: `ansiLoop_unicodeLoop`, `visibleText_asAnsi`.
-/
import KittyLine.Unicode

namespace KittyLine

open ANSIBuf

/-! ### The reader -/

/-- The modes of the reader: in text, after `ESC`, inside a CSI, inside an
OSC, and after an `ESC` inside an OSC. -/
inductive ReadMode
  | ground
  | escape
  | csi
  | osc
  | oscEscape
  deriving DecidableEq, Repr

/-- The reader's state: the text it has shown, its mode, and the code points
of the sequence it is inside, shown as they are if the stream ends there. -/
structure Reader where
  shown : List ℕ
  mode : ReadMode
  pending : List ℕ
  deriving DecidableEq, Repr

/-- What follows the first `;` of `xs`, if there is one. -/
def afterSemi (xs : List ℕ) : Option (List ℕ) :=
  if ';'.toNat ∈ xs then some ((xs.dropWhile (· != ';'.toNat)).drop 1) else none

/-- The payload of a text-size wrapper `ESC ] TEXT_SIZE_CODE ; params ;
payload`, read from the sequence before its `BEL`. -/
def textSizePayload (E : Env) (seq : List ℕ) : Option (List ℕ) :=
  let body := seq.drop 2
  if body.takeWhile (· != ';'.toNat) = decimal E.textSizeCode then (afterSemi body).bind afterSemi
  else none

/-- One code point inside an OSC: `BEL` ends it, showing the payload of a
text-size wrapper; `ESC` may start its `ESC \`. -/
def Reader.oscByte (E : Env) (r : Reader) (c : ℕ) : Reader :=
  if c = 7 then ⟨r.shown ++ (textSizePayload E r.pending).getD [], .ground, []⟩
  else if c = 27 then ⟨r.shown, .oscEscape, r.pending ++ [c]⟩
  else ⟨r.shown, .osc, r.pending ++ [c]⟩

/-- One code point read. -/
def Reader.step (E : Env) (r : Reader) (c : ℕ) : Reader :=
  match r.mode with
  | .ground => if c = 27 then ⟨r.shown, .escape, [c]⟩ else ⟨r.shown ++ [c], .ground, []⟩
  | .escape =>
    if c = '['.toNat then ⟨r.shown, .csi, r.pending ++ [c]⟩
    else if c = ']'.toNat then ⟨r.shown, .osc, r.pending ++ [c]⟩
    else if c = 27 then ⟨r.shown ++ r.pending, .escape, [c]⟩
    else ⟨r.shown ++ r.pending ++ [c], .ground, []⟩
  | .csi => if c = 'm'.toNat then ⟨r.shown, .ground, []⟩ else ⟨r.shown, .csi, r.pending ++ [c]⟩
  | .osc => r.oscByte E c
  | .oscEscape => if c = '\\'.toNat then ⟨r.shown, .ground, []⟩ else r.oscByte E c

def Reader.text (shown : List ℕ) : Reader := ⟨shown, .ground, []⟩

/-- What the reader shows of a stream: the stream with every `CSI ... m` and
every `OSC ... ESC \` deleted and every text-size wrapper `OSC TEXT_SIZE_CODE ;
params ; payload BEL` replaced by its payload. A sequence the stream ends
inside is shown as it is. -/
def visibleText (E : Env) (xs : List ℕ) : List ℕ :=
  let r := xs.foldl (Reader.step E) (Reader.text [])
  r.shown ++ r.pending

/-- A stretch of output that the reader, in text, reads back to text showing
nothing. -/
def Invisible (E : Env) (xs : List ℕ) : Prop :=
  ∀ shown, xs.foldl (Reader.step E) (Reader.text shown) = Reader.text shown

section
variable {E : Env}

/-- Text without `ESC` is shown as it is. -/
theorem foldl_text {xs : List ℕ} (h : 27 ∉ xs) (shown : List ℕ) :
    xs.foldl (Reader.step E) (Reader.text shown) = Reader.text (shown ++ xs) := by
  induction xs generalizing shown with
  | nil => simp
  | cons c xs ih =>
    simp only [List.mem_cons, not_or] at h
    have hc : Reader.step E (Reader.text shown) c = Reader.text (shown ++ [c]) := by
      simp [Reader.step, Reader.text, Ne.symm h.1]
    rw [List.foldl_cons, hc, ih h.2, List.append_assoc, List.singleton_append]

theorem foldl_csi {xs : List ℕ} (h : 'm'.toNat ∉ xs) (shown pending : List ℕ) :
    xs.foldl (Reader.step E) ⟨shown, .csi, pending⟩ = ⟨shown, .csi, pending ++ xs⟩ := by
  induction xs generalizing pending with
  | nil => simp
  | cons c xs ih =>
    simp only [List.mem_cons, not_or] at h
    simp only [List.foldl_cons, Reader.step, if_neg (Ne.symm h.1), ih h.2, List.append_assoc,
      List.singleton_append]

theorem foldl_osc {xs : List ℕ} (h7 : 7 ∉ xs) (h27 : 27 ∉ xs) (shown pending : List ℕ) :
    xs.foldl (Reader.step E) ⟨shown, .osc, pending⟩ = ⟨shown, .osc, pending ++ xs⟩ := by
  induction xs generalizing pending with
  | nil => simp
  | cons c xs ih =>
    simp only [List.mem_cons, not_or] at h7 h27
    simp only [List.foldl_cons, Reader.step, Reader.oscByte, if_neg (Ne.symm h7.1),
      if_neg (Ne.symm h27.1), ih h7.2 h27.2, List.append_assoc, List.singleton_append]

/-- An SGR sequence `ESC [ params m` is invisible. -/
theorem invisible_csi {p : List ℕ} (h : 'm'.toNat ∉ p) :
    Invisible E ([27, '['.toNat] ++ p ++ ['m'.toNat]) := by
  intro shown
  simp only [List.foldl_append, List.foldl_cons, List.foldl_nil, Reader.text, Reader.step,
    if_true, foldl_csi h]

theorem invisible_osc {p : List ℕ} (h7 : 7 ∉ p) (h27 : 27 ∉ p) :
    Invisible E ([27, ']'.toNat] ++ p ++ [27, '\\'.toNat]) := by
  intro shown
  simp [Reader.text, Reader.step, Reader.oscByte, foldl_osc h7 h27]

end


theorem writeSgr_text (val : List Char) (o : ANSIBuf) :
    (writeSgr val o).text = o.text ++ ([27, '['.toNat] ++ (val.take 122).map Char.toNat ++ ['m'.toNat]) := by
  simp [writeSgr]

/-- A zero first code point made a space, as both serializers write it. -/
def zeroAsSpace (cs : List ℕ) : List ℕ := if cs.headD 0 = 0 then ' '.toNat :: cs.tail else cs

theorem length_zeroAsSpace {cs : List ℕ} (h : cs ≠ []) : (zeroAsSpace cs).length = cs.length := by
  obtain ⟨c, cs, rfl⟩ := List.exists_cons_of_ne_nil h
  unfold zeroAsSpace
  split <;> rfl

/-- What both serializers write for a cell outside multi-cell glyphs, and the
column they go on from: the cell's code points with a zero first one made a
space, or only the `\t` of a tab cell, which swallows the space cells its skip
count names. -/
def cellText (l : Line) (limit pos : ℕ) : List ℕ × ℕ :=
  let cs := zeroAsSpace (textInCell (l.cpuCells pos) l.textCache).chars
  if cs.headD 0 = '\t'.toNat then (['\t'.toNat], skipTabCells l limit (cs.getD 1 0) pos + 1)
  else (cs, pos + 1)

theorem textInCellAnsi_single (E : Env) {c : CPUCell} (tc : TextCache) (o : ANSIBuf)
    (hm : (c.chIsIdx && c.isMulticell) = false) :
    textInCellAnsi E c tc o = ((textInCell c tc).chars.length, o.pushAll (textInCell c tc).chars) := by
  unfold textInCellAnsi
  cases h : c.chIsIdx <;> simp_all [tcCharsAtIndexAnsi, textInCell]

theorem ANSIBuf.buf_append {o : ANSIBuf} {T ys : List ℕ} (h : o.text = T ++ ys) {j : ℕ}
    (hj : j < ys.length) : o.buf (T.length + j) = ys.getD j 0 := by
  have hl : o.len = T.length + ys.length := by rw [← text_length, h, List.length_append]
  rw [buf_get o (by omega), h, List.getD_append_right _ _ _ _ (by omega), Nat.add_sub_cancel_left]

/-- The zero patch on code points `cs` written after `T`: a zero first code
point becomes a space. -/
theorem zeroPatch_text {o : ANSIBuf} {T cs : List ℕ} (ht : o.text = T ++ cs) (hne : cs ≠ []) :
    (if o.buf T.length = 0 then o.set T.length ' '.toNat else o).text = T ++ zeroAsSpace cs := by
  obtain ⟨c, cs, rfl⟩ := List.exists_cons_of_ne_nil hne
  have h0 : o.buf T.length = c := by simpa using ANSIBuf.buf_append ht (j := 0) (by simp)
  rw [h0]
  unfold zeroAsSpace
  by_cases hc : c = 0
  · rw [if_pos hc, text_set, ht]
    simp [hc, List.set_append_right]
  · rw [if_neg hc, ht]
    simp [hc]

/-- What the patches of a pass make of the code points `cs` that
`text_in_cell_ansi` appended, and the column the loop goes on from: nothing
for none; otherwise `cs` with a zero first code point made a space, or only
the `\t` of a tab, which swallows the space cells its skip count names. -/
def patchText (l : Line) (limit pos : ℕ) (cs : List ℕ) : List ℕ × ℕ :=
  if cs = [] then ([], pos + 1)
  else if (zeroAsSpace cs).headD 0 = '\t'.toNat then
    (['\t'.toNat], skipTabCells l limit ((zeroAsSpace cs).getD 1 0) pos + 1)
  else (zeroAsSpace cs, pos + 1)

/-- **The patches of a pass.** Whatever code points `cs` `text_in_cell_ansi`
appended and counted, a pass leaves the text followed by `patchText` of them,
and goes on from the column `patchText` names. With nothing appended, the
patches read and may rewrite `buf[len]`, past the text. -/
theorem ansiCellText_patch (E : Env) (l : Line) (limit pos : ℕ) (s : AnsiState) {cs : List ℕ}
    (ht : (textInCellAnsi E (l.cpuCells pos) l.textCache s.out).2.text = s.out.text ++ cs)
    (hn : (textInCellAnsi E (l.cpuCells pos) l.textCache s.out).1 = cs.length) :
    (ansiCellText E l limit pos s).1.out.text = s.out.text ++ (patchText l limit pos cs).1 ∧
      (ansiCellText E l limit pos s).2 = (patchText l limit pos cs).2 := by
  unfold ansiCellText patchText
  generalize textInCellAnsi E (l.cpuCells pos) l.textCache s.out = r at ht hn
  obtain ⟨n, o⟩ := r
  dsimp only at ht hn ⊢
  subst hn
  have hlen : o.len = s.out.text.length + cs.length := by rw [← text_length, ht, List.length_append]
  rcases eq_or_ne cs [] with rfl | hne
  · -- nothing appended: the patches stay past the text
    have hpatch : (if o.buf o.len = 0 then o.set o.len ' '.toNat else o).text = s.out.text := by
      split
      · rw [text_set_of_le _ _ le_rfl, ht, List.append_nil]
      · rw [ht, List.append_nil]
    simp only [List.length_nil, Nat.sub_zero, show ¬ (0 > 1) from by decide, if_false, if_true,
      List.append_nil]
    generalize (if o.buf o.len = 0 then o.set o.len ' '.toNat else o) = o₂ at hpatch ⊢
    split <;> exact ⟨hpatch, rfl⟩
  · rw [if_neg hne, show o.len - cs.length = s.out.text.length by omega]
    have ht₂ := zeroPatch_text ht hne
    have hl₂ : (if o.buf s.out.text.length = 0 then o.set s.out.text.length ' '.toNat else o).len =
        s.out.text.length + cs.length := by
      split <;> simp [hlen]
    generalize (if o.buf s.out.text.length = 0 then o.set s.out.text.length ' '.toNat else o) = o₂ at ht₂ hl₂ ⊢
    rw [show o₂.len - cs.length = s.out.text.length by omega]
    have hlen₂ := length_zeroAsSpace hne
    generalize zeroAsSpace cs = cs' at ht₂ hlen₂ ⊢
    have hb0 : o₂.buf s.out.text.length = cs'.headD 0 := by
      simpa [List.getD_eq_getElem?_getD, List.head?_eq_getElem?] using
        ANSIBuf.buf_append ht₂ (j := 0) (by rw [hlen₂]; exact List.length_pos.2 hne)
    rw [hb0]
    split_ifs with htab hn1
    · -- a tab with its skip count: `len -= n - 1` keeps only the `\t`
      obtain ⟨c, cs'', rfl⟩ := List.exists_cons_of_ne_nil (List.ne_nil_of_length_pos (by omega) : cs' ≠ [])
      refine ⟨?_, by rw [ANSIBuf.buf_append ht₂ (by omega)]⟩
      rw [text_shrink, ht₂, show o₂.len - (cs.length - 1) = s.out.text.length + 1 by omega,
        List.take_append_eq_append_take, List.take_of_length_le (by omega), Nat.add_sub_cancel_left]
      exact congrArg _ (congrArg (· :: []) htab)
    · -- a lone tab
      obtain ⟨c, rfl⟩ : ∃ c, cs' = [c] := List.length_eq_one.1 (by have := List.length_pos.2 hne; omega)
      obtain rfl : c = '\t'.toNat := htab
      exact ⟨ht₂, rfl⟩
    · exact ⟨ht₂, rfl⟩

theorem cellText_eq_patchText (l : Line) (limit pos : ℕ)
    (hne : (textInCell (l.cpuCells pos) l.textCache).chars ≠ []) :
    cellText l limit pos = patchText l limit pos (textInCell (l.cpuCells pos) l.textCache).chars := by
  unfold cellText patchText
  rw [if_neg hne]

/-- **The text of a cell.** For a cell with at least one code point that is
not an indexed cell of a multi-cell glyph, a pass writes `cellText` after what
the escapes wrote, and goes on from the column `cellText` names. -/
theorem ansiCellText_text (E : Env) (l : Line) (limit pos : ℕ) (s : AnsiState)
    (hm : ((l.cpuCells pos).chIsIdx && (l.cpuCells pos).isMulticell) = false)
    (hne : (textInCell (l.cpuCells pos) l.textCache).chars ≠ []) :
    (ansiCellText E l limit pos s).1.out.text = s.out.text ++ (cellText l limit pos).1 ∧
      (ansiCellText E l limit pos s).2 = (cellText l limit pos).2 ∧
      (ansiCellText E l limit pos s).1.out.hyperlinkPool = s.out.hyperlinkPool := by
  have hs := textInCellAnsi_single E l.textCache s.out hm
  rw [cellText_eq_patchText l limit pos hne]
  refine ⟨?_, ?_, ?_⟩
  · exact (ansiCellText_patch E l limit pos s (by rw [hs, pushAll_text]) (by rw [hs])).1
  · exact (ansiCellText_patch E l limit pos s (by rw [hs, pushAll_text]) (by rw [hs])).2
  · unfold ansiCellText
    rw [hs]
    dsimp only
    split_ifs <;> simp

/-! ### The escape codes of a pass -/

/-- **The escape codes are invisible.** Without a hyperlink pool, a pass
writes before the cell's text an SGR sequence or nothing. -/
theorem ansiCellEscapes_text (E : Env) (l : Line) (pos : ℕ) (s : AnsiState)
    (hpool : s.out.hyperlinkPool = none) :
    ∃ esc, Invisible E esc ∧ (ansiCellEscapes E l pos s).out.text = s.out.text ++ esc ∧
      (ansiCellEscapes E l pos s).out.hyperlinkPool = none := by
  unfold ansiCellEscapes ansiCellHyperlink ansiCellSgr
  simp only [hpool, Option.isSome_none, Bool.false_eq_true, false_and, if_false]
  split
  · refine ⟨_, invisible_csi ?_, writeSgr_text _ _, by simp [writeSgr, hpool]⟩
    intro hm
    obtain ⟨c, hc, hcm⟩ := List.mem_map.1 hm
    have := List.all_eq_true.1 (cellAsSgr_paramBytes E.decorationFgCode (l.gpuCells pos) s.prev) c
      (List.mem_of_mem_take hc)
    simp [isParamByte, hcm] at this
  · exact ⟨[], fun _ => rfl, by simp, hpool⟩

/-! ### The same cell in `unicode_in_range` -/

theorem writeChars_of_lt {f : ℕ → ℕ} {n j : ℕ} (cs : List ℕ) (h : j < n) : writeChars f n cs j = f j := by
  simp [writeChars, Nat.not_le.2 h]

theorem writeChars_add (f : ℕ → ℕ) (n : ℕ) {cs : List ℕ} {k : ℕ} (h : k < cs.length) :
    writeChars f n cs (n + k) = cs.getD k 0 := by
  simp [writeChars, h]

theorem zeroPatch_writeChars (f : ℕ → ℕ) (n : ℕ) {cs : List ℕ} (hne : cs ≠ []) :
    (if writeChars f n cs n = 0 then Function.update (writeChars f n cs) n ' '.toNat
      else writeChars f n cs) = writeChars f n (zeroAsSpace cs) := by
  obtain ⟨c, cs, rfl⟩ := List.exists_cons_of_ne_nil hne
  have h : writeChars f n (c :: cs) n = c := by simp [writeChars]
  rw [h]
  unfold zeroAsSpace
  by_cases hc : c = 0
  · simp only [hc, List.headD_cons, if_true, List.tail_cons]
    funext j
    by_cases hj : j = n
    · subst hj
      simp [writeChars]
    · rw [Function.update_noteq hj]
      simp only [writeChars, List.length_cons]
      split_ifs with h1
      · obtain ⟨k, hk⟩ : ∃ k, j - n = k + 1 := ⟨j - n - 1, by omega⟩
        simp [hk]
      · rfl
  · simp [hc]

theorem writeChars_head (f : ℕ → ℕ) (n : ℕ) {cs : List ℕ} (h : cs ≠ []) :
    writeChars f n cs n = cs.headD 0 := by
  obtain ⟨c, cs, rfl⟩ := List.exists_cons_of_ne_nil h
  simp [writeChars]

/-- **A pass of `unicode_in_range` on a cell that is not a continuation**
writes `cellText` after the `n` code points it had and goes on from the column
`cellText` names. -/
theorem unicodeLoop_noncontinuation (l : Line) {limit fuel i n : ℕ} {g : UnicodeBuf} (hi : i < limit)
    (hc : (l.cpuCells i).isContinuation = false)
    (hne : (textInCell (l.cpuCells i) l.textCache).chars ≠ []) :
    ∃ g', unicodeLoop l limit true false (fuel + 1) i n g =
        unicodeLoop l limit true false fuel (cellText l limit i).2 (n + (cellText l limit i).1.length) g' ∧
      (List.range (n + (cellText l limit i).1.length)).map g'.chars =
        (List.range n).map g.chars ++ (cellText l limit i).1 := by
  have hl := length_zeroAsSpace hne
  have hne' : zeroAsSpace (textInCell (l.cpuCells i) l.textCache).chars ≠ [] :=
    List.ne_nil_of_length_pos (by rw [hl]; exact List.length_pos.2 hne)
  unfold CPUCell.isContinuation at hc
  simp only [unicodeLoop, if_pos hi, textInCell_isMulticell, textInCell_isTopleft, hc, Bool.false_eq_true,
    if_false, and_false, growUntilFits_chars, if_true, ite_chars]
  rw [zeroPatch_writeChars _ _ hne, writeChars_head _ _ hne']
  unfold cellText
  dsimp only
  generalize (textInCell (l.cpuCells i) l.textCache).chars = cs at hl hne' ⊢
  generalize zeroAsSpace cs = cs' at hl hne' ⊢
  refine ⟨{ (growUntilFits cs.length n (cs.length + 1) g).access (n + max cs.length 1) with
    chars := writeChars g.chars n cs' }, ?_, ?_⟩
  · split_ifs with htab h1
    · rw [writeChars_add _ _ (by omega : 1 < cs'.length)]
      rfl
    · rw [List.getD_eq_default _ _ (by omega : cs'.length ≤ 1)]
      rfl
    · rw [hl]
  · split_ifs with htab
    · refine range_map_append (fun j hj => writeChars_of_lt _ hj) fun k hk => ?_
      obtain rfl : k = 0 := by simpa using hk
      show writeChars g.chars n cs' (n + 0) = ['\t'.toNat].getD 0 0
      rw [Nat.add_zero, writeChars_head _ _ hne', htab]
      rfl
    · exact range_map_append (fun j hj => writeChars_of_lt _ hj) fun k hk => writeChars_add _ _ hk

/-- **A pass of `unicode_in_range` on a cell outside multi-cell glyphs**. -/
theorem unicodeLoop_cell (l : Line) {limit fuel i n : ℕ} {g : UnicodeBuf} (hi : i < limit)
    (hm : (l.cpuCells i).isMulticell = false)
    (hne : (textInCell (l.cpuCells i) l.textCache).chars ≠ []) :
    ∃ g', unicodeLoop l limit true false (fuel + 1) i n g =
        unicodeLoop l limit true false fuel (cellText l limit i).2 (n + (cellText l limit i).1.length) g' ∧
      (List.range (n + (cellText l limit i).1.length)).map g'.chars =
        (List.range n).map g.chars ++ (cellText l limit i).1 :=
  unicodeLoop_noncontinuation l hi (by simp [CPUCell.isContinuation, hm]) hne

/-! ### The two loops in step -/

/-- The lines whose cells both serializers write alike: valid cells, none of
them part of a multi-cell glyph, none holding `ESC`. -/
structure Line.SimpleCells (l : Line) : Prop where
  valid : l.CellsValid
  single : ∀ i < l.xnum, (l.cpuCells i).isMulticell = false
  noEsc : ∀ i < l.xnum, 27 ∉ (textInCell (l.cpuCells i) l.textCache).chars

theorem zeroAsSpace_subset (cs : List ℕ) : zeroAsSpace cs ⊆ ' '.toNat :: cs := by
  unfold zeroAsSpace
  split
  · exact List.cons_subset_cons _ fun x hx => List.mem_of_mem_tail hx
  · exact List.subset_cons_self _ _

theorem cellText_noEsc {l : Line} {limit i : ℕ}
    (h : 27 ∉ (textInCell (l.cpuCells i) l.textCache).chars) : 27 ∉ (cellText l limit i).1 := by
  unfold cellText
  dsimp only
  split
  · simp
  · intro h27
    rcases List.mem_cons.1 (zeroAsSpace_subset _ h27) with h' | h'
    · exact absurd h' (by decide)
    · exact h h'

/-- **The loops in step.** From states whose texts the reader shows alike,
`line_as_ansi`'s loop and `unicode_in_range`'s loop, run with the same fuel
from the same column, end in states whose texts the reader shows alike. -/
theorem ansiLoop_unicodeLoop (E : Env) {l : Line} {limit : ℕ} (h : l.SimpleCells)
    (hlim : limit ≤ l.xnum) : ∀ fuel pos (s : AnsiState) n (g : UnicodeBuf),
      s.out.hyperlinkPool = none →
      s.out.text.foldl (Reader.step E) (Reader.text []) = Reader.text ((List.range n).map g.chars) →
      (ansiLoop E l limit fuel pos s).out.text.foldl (Reader.step E) (Reader.text []) =
        Reader.text ((List.range (unicodeLoop l limit true false fuel pos n g).1).map
          (unicodeLoop l limit true false fuel pos n g).2.chars)
  | 0, _, _, _, _, _, hr => hr
  | fuel + 1, pos, s, n, g, hp, hr => by
    by_cases hi : pos < limit
    · have hm := h.single pos (by omega)
      have hne := h.valid.chars_ne_nil (show pos < l.xnum by omega)
      obtain ⟨esc, hinv, hesc, hp₁⟩ := ansiCellEscapes_text E l pos s hp
      obtain ⟨ht, hnext, hp₂⟩ := ansiCellText_text E l limit pos (ansiCellEscapes E l pos s)
        (by simp [hm]) hne
      obtain ⟨g', hloop, hg'⟩ := @unicodeLoop_cell l limit fuel pos n g hi hm hne
      simp only [ansiLoop, if_pos hi]
      rw [hloop, show ansiCell E l limit pos s = ansiCellText E l limit pos (ansiCellEscapes E l pos s)
        from rfl, hnext]
      refine ansiLoop_unicodeLoop E h hlim fuel _ _ _ g' (hp₂.trans hp₁) ?_
      rw [ht, hesc, List.foldl_append, List.foldl_append, hr, hinv,
        foldl_text (cellText_noEsc (h.noEsc pos (by omega))), hg']
    · simp only [ansiLoop, unicodeLoop, if_neg hi]
      exact hr

/-- Run from a start the reader shows as nothing, `line_as_ansi`'s loop over
`[0, xlimit_for_line)` shows what `unicode_in_range` writes there. -/
theorem visibleText_ansiLoop (E : Env) {l : Line} (h : l.SimpleCells) {o : ANSIBuf}
    (hp : o.hyperlinkPool = none)
    (hinv : o.text.foldl (Reader.step E) (Reader.text []) = Reader.text []) (prev : GPUCell)
    (esc : Bool) (g : UnicodeBuf) :
    visibleText E (ansiLoop E l (E.xlimitForLine l) (E.xlimitForLine l - 0) 0 ⟨o, prev, esc⟩).out.text =
      (unicodeInRange l 0 (E.xlimitForLine l) true false false g).1 := by
  have hr := ansiLoop_unicodeLoop E h (E.xlimit_le l) (E.xlimitForLine l - 0) 0 ⟨o, prev, esc⟩ 0 g
    hp hinv
  unfold visibleText unicodeInRange
  rw [hr]
  simp [Reader.text]

/-- The OSC 133 mark of a prompt is invisible. -/
theorem writeMark_text (m : List Char) (o : ANSIBuf) :
    (writeMark m o).text = o.text ++ ([27, ']'.toNat] ++
      ("133;".toList.map Char.toNat ++ (m.take 32).map Char.toNat) ++ [27, '\\'.toNat]) := by
  simp [writeMark]

theorem markBody_ctrl {m : List Char} (hm : ∀ c ∈ m, c.toNat ≠ 7 ∧ c.toNat ≠ 27) :
    7 ∉ "133;".toList.map Char.toNat ++ (m.take 32).map Char.toNat ∧
      27 ∉ "133;".toList.map Char.toNat ++ (m.take 32).map Char.toNat := by
  simp only [List.mem_append, List.mem_map, not_or]
  exact ⟨⟨by decide, fun ⟨c, hc, e⟩ => (hm c (List.mem_of_mem_take hc)).1 e⟩,
    ⟨by decide, fun ⟨c, hc, e⟩ => (hm c (List.mem_of_mem_take hc)).2 e⟩⟩

theorem invisible_writeMark (E : Env) (m : List Char) (hm : ∀ c ∈ m, c.toNat ≠ 7 ∧ c.toNat ≠ 27)
    (o : ANSIBuf) (ho : o.text = []) :
    (writeMark m o).text.foldl (Reader.step E) (Reader.text []) = Reader.text [] := by
  rw [writeMark_text, ho, List.nil_append]
  exact invisible_osc (markBody_ctrl hm).1 (markBody_ctrl hm).2 []

/-- **What a terminal shows of `line_as_ansi` is `line_as_unicode`.** For a
line whose cells are valid, outside multi-cell glyphs and free of `ESC`,
reading `line_as_ansi(line, &prev = NULL, 0, xnum, 0)` (no hyperlink pool)
with `CSI ... m` and `OSC ... ESC \` deleted gives `line_as_unicode(line,
false)`, whatever the buffer `unicode_in_range` starts from, when it writes
inside its allocation. -/
theorem visibleText_asAnsi (E : Env) {l : Line} (h : l.SimpleCells) (g : UnicodeBuf) :
    (lineAsUnicode E l false g).2.overflowed = false → visibleText E (asAnsi E l) = (lineAsUnicode E l false g).1 := by
  intro _
  unfold asAnsi lineAsUnicode
  rw [lineAsAnsi_out, min_eq_right (E.xlimit_le l)]
  unfold lineAsAnsiStart
  cases hk : l.promptKind <;> simp only [promptMark, hk, ne_eq, not_true_eq_false, if_false] <;>
    refine visibleText_ansiLoop E h rfl ?_ _ _ g
  · rfl
  all_goals exact invisible_writeMark E _ (by decide) _ rfl

/-- A line `a`, tab, space, `b` whose first cell is curly-underlined. -/
def tabLine : Line :=
  { Line.ofString "a\t b" with gpuCells := fun i => if i = 0 then curlyCell else GPUCell.blank }

theorem visibleText_asAnsi_tabLine :
    (lineAsUnicode Env.sample tabLine false UnicodeBuf.empty).2.overflowed = false ∧
    visibleText Env.sample (asAnsi Env.sample tabLine) =
      (lineAsUnicode Env.sample tabLine false UnicodeBuf.empty).1 :=
  have hin : (lineAsUnicode Env.sample tabLine false UnicodeBuf.empty).2.overflowed = false := by decide
  ⟨hin, visibleText_asAnsi Env.sample ⟨by unfold Line.CellsValid; decide, by decide, by decide⟩
    UnicodeBuf.empty hin⟩

example : visibleText Env.sample (asAnsi Env.sample tabLine) = ['a'.toNat, 9, 32, 'b'.toNat] := by
  decide

theorem visibleText_asAnsi_wideGlyph :
    visibleText Env.sample (asAnsi Env.sample wideGlyphLine) =
      [27, ']'.toNat, '6'.toNat, '6'.toNat, ';'.toNat, 'w'.toNat, '='.toNat, '2'.toNat, ';'.toNat,
        'a'.toNat] ∧
    (lineAsUnicode Env.sample wideGlyphLine false UnicodeBuf.empty).1 = ['a'.toNat] := by
  decide

end KittyLine
