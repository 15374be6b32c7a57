/-
# `line_as_ansi`

The ANSI serializer: for each column of `[start_at, min(stop_before,
xlimit_for_line))` it writes the OSC 8 that switches the hyperlink (when the
buffer has a pool), the SGR delta from the previous cell (`cell_as_sgr`), and
the cell's text (`text_in_cell_ansi`), then patches the text it just wrote: a
zero first code point becomes a space, and a tab keeps only its `\t` and
swallows as many following space cells as its skip count says.

The loop is `ansiLoop`, one step a cell (`ansiCell`), with fuel: each step
moves at least one column, so `limit - start_at` steps finish it.

`text_in_cell_ansi` writes a multi-cell glyph's top-left cell as the OSC
`ESC ] TEXT_SIZE_CODE ; F ; text` of `write_multicell_ansi_prefix` and stores
its closing `BEL` at `buf[len]` without moving `len`: the `BEL` is not part of
the output, and the next write overwrites it (`textInCellAnsi_anchor`).

Key definitions: `writeSgr`, `writeHyperlink`, `writeMark`,
`writeMulticellAnsiPrefix`, `textInCellAnsi`, `ansiCell`, `lineAsAnsi`.
-/
import KittyLine.Sgr

namespace KittyLine

open ANSIBuf

/-- `write_sgr`: `ESC [`, at most 122 characters of `val`, `m`. -/
def writeSgr (val : List Char) (o : ANSIBuf) : ANSIBuf :=
  ((o.pushAll [27, '['.toNat]).pushAll ((val.take 122).map Char.toNat)).push 'm'.toNat

/-- `write_mark`: `ESC ] 133 ;`, at most 32 characters of `mark`, `ESC \`. -/
def writeMark (mark : List Char) (o : ANSIBuf) : ANSIBuf :=
  ((o.pushAll ([27, ']'.toNat] ++ "133;".toList.map Char.toNat)).pushAll
    ((mark.take 32).map Char.toNat)).pushAll [27, '\\'.toNat]

def keyId (key : List ℕ) : List ℕ := key.takeWhile (· != ':'.toNat)

def keyUri (key : List ℕ) : List ℕ := (key.dropWhile (· != ':'.toNat)).drop 1

/-- `write_hyperlink`: resolve `hid` in the pool (an id the pool does not
know is written as 0), record it as the active hyperlink and write
`ESC ] 8 ; [id=<id>] ; <uri> ESC \`, or `ESC ] 8 ; ; ESC \` for 0. A key is
the pool's string, each `char` as `W` widens it; a key without `:` is outside
what the code handles (`strstr` returns NULL), and the model then writes it
all as the id. -/
def writeHyperlink (hid : ℕ) (o : ANSIBuf) : ANSIBuf :=
  let key := if hid = 0 then none else o.hyperlinkPool.bind fun pool => pool hid
  let o : ANSIBuf := { o with activeHyperlinkId := if key.isSome then hid else 0 }
  let o := o.pushAll [27, ']'.toNat, '8'.toNat]
  let o := match key with
    | none => o.pushAll [';'.toNat, ';'.toNat]
    | some k =>
      let o := o.push ';'.toNat
      let o := if keyId k = [] then o else (o.pushAll ("id=".toList.map Char.toNat)).pushAll (keyId k)
      (o.push ';'.toNat).pushAll (keyUri k)
  o.pushAll [27, '\\'.toNat]

def writeMulticellField (c v : ℕ) (o : ANSIBuf) : ANSIBuf :=
  (nonnegativeIntegerAsUtf32 v ((o.push c).push '='.toNat)).2.push ':'.toNat

/-- The three fields of `write_multicell_ansi_prefix`: `w=`, `s=` and `S=` for
a width or scale above 1 and a nonzero subscale. -/
def writeMulticellFields (mcd : MultiCellData) (o : ANSIBuf) : ANSIBuf :=
  let o := if mcd.width > 1 then writeMulticellField 'w'.toNat mcd.width o else o
  let o := if mcd.scale > 1 then writeMulticellField 's'.toNat mcd.scale o else o
  if mcd.subscale ≠ 0 then writeMulticellField 'S'.toNat mcd.subscale o else o

/-- `write_multicell_ansi_prefix`: `ESC ] TEXT_SIZE_CODE ;`, the fields, the
last `:` taken back, and `;`; it returns the count it wrote. -/
def writeMulticellAnsiPrefix (E : Env) (mcd : MultiCellData) (o : ANSIBuf) : ℕ × ANSIBuf :=
  let pos := o.len
  let o := ((o.pushAll [27, ']'.toNat]).pushAll (decimal E.textSizeCode)).push ';'.toNat
  let o := writeMulticellFields mcd o
  let o : ANSIBuf := if o.buf (o.len - 1) = ':'.toNat then { o with len := o.len - 1 } else o
  let o := o.push ';'.toNat
  (o.len - pos, o)

/-- Modelled from the spec: `tc_chars_at_index_ansi` writes the code points of
an entry of the text cache into the buffer and returns their count (§6.2). -/
def tcCharsAtIndexAnsi (tc : TextCache) (idx : ℕ) (o : ANSIBuf) : ℕ × ANSIBuf :=
  ((tc.chars idx).length, o.pushAll (tc.chars idx))

/-- `text_in_cell_ansi`: the count it returns, and the buffer. -/
def textInCellAnsi (E : Env) (c : CPUCell) (tc : TextCache) (o : ANSIBuf) : ℕ × ANSIBuf :=
  if c.chIsIdx then
    if !c.isMulticell then tcCharsAtIndexAnsi tc c.chOrIdx o
    else if c.x ≠ 0 ∨ c.y ≠ 0 then (0, o)
    else
      let r := writeMulticellAnsiPrefix E (cellMulticellData c tc) o
      let t := tcCharsAtIndexAnsi tc c.chOrIdx r.2
      (r.1 + t.1, t.2.set t.2.len 7)
  else (1, o.push c.chOrIdx)

/-- What `line_as_ansi` carries from cell to cell: the buffer, the previous
GPU cell and whether an escape code was written. -/
structure AnsiState where
  out : ANSIBuf
  prev : GPUCell
  escapeCodeWritten : Bool

/-- The OSC 8 of one pass of `line_as_ansi`'s loop at column `pos`: with a
hyperlink pool, switch the hyperlink when the cell's id is not the active one. -/
def ansiCellHyperlink (l : Line) (pos : ℕ) (s : AnsiState) : AnsiState :=
  let hid := (l.cpuCells pos).hyperlinkId
  if s.out.hyperlinkPool.isSome ∧ hid ≠ s.out.activeHyperlinkId then
    { s with out := writeHyperlink hid s.out, escapeCodeWritten := true }
  else s

/-- The SGR of one pass at column `pos`: the delta from the previous cell, when
`SGR_MASK`'s attributes or a color differ and the delta is not empty. -/
def ansiCellSgr (E : Env) (l : Line) (pos : ℕ) (s : AnsiState) : AnsiState :=
  let cell := l.gpuCells pos
  let sgr := cellAsSgr E.decorationFgCode cell s.prev
  if (sgrAttrsDiffer cell.attrs s.prev.attrs || cell.fg != s.prev.fg || cell.bg != s.prev.bg ||
      cell.decorationFg != s.prev.decorationFg) && sgr ≠ [] then
    { s with out := writeSgr sgr s.out, escapeCodeWritten := true }
  else s

def ansiCellEscapes (E : Env) (l : Line) (pos : ℕ) (s : AnsiState) : AnsiState :=
  ansiCellSgr E l pos (ansiCellHyperlink l pos s)

/-- The text of one pass at column `pos`: `text_in_cell_ansi`, then the
patches (a zero first code point becomes a space; a tab keeps its `\t` and
swallows the space cells its skip count names); the state and the column the
loop goes on from. -/
def ansiCellText (E : Env) (l : Line) (limit pos : ℕ) (s : AnsiState) : AnsiState × ℕ :=
  let r := textInCellAnsi E (l.cpuCells pos) l.textCache s.out
  let n := r.1
  let o := r.2
  let o := if o.buf (o.len - n) = 0 then o.set (o.len - n) ' '.toNat else o
  if o.buf (o.len - n) = '\t'.toNat then
    let skip := if n > 1 then o.buf (o.len - n + 1) else 0
    let o : ANSIBuf := if n > 1 then { o with len := o.len - (n - 1) } else o
    ({ s with out := o, prev := l.gpuCells pos }, skipTabCells l limit skip pos + 1)
  else ({ s with out := o, prev := l.gpuCells pos }, pos + 1)

/-- One pass of `line_as_ansi`'s loop at column `pos`: the state after it, and
the column the loop goes on from. -/
def ansiCell (E : Env) (l : Line) (limit pos : ℕ) (s : AnsiState) : AnsiState × ℕ :=
  ansiCellText E l limit pos (ansiCellEscapes E l pos s)

/-- `line_as_ansi`'s loop, from column `pos`, with fuel. -/
def ansiLoop (E : Env) (l : Line) (limit : ℕ) : ℕ → ℕ → AnsiState → AnsiState
  | 0, _, s => s
  | fuel + 1, pos, s =>
    if pos < limit then
      let r := ansiCell E l limit pos s
      ansiLoop E l limit fuel r.2 r.1
    else s

def promptMark : PromptKind → Option (List Char)
  | .unknown => none
  | .promptStart => some "A".toList
  | .secondaryPrompt => some "A;k=s".toList
  | .outputStart => some "C".toList

/-- The state `line_as_ansi`'s loop starts from: the buffer emptied, the
prefix character and the prompt's OSC 133 mark written, and the previous cell
`*prev_cell` or the blank cell for NULL. -/
def lineAsAnsiStart (l : Line) (o : ANSIBuf) (prev : Option GPUCell) (prefixChar : ℕ) : AnsiState :=
  let o : ANSIBuf := { o with len := 0 }
  let o := if prefixChar ≠ 0 then o.push prefixChar else o
  match promptMark l.promptKind with
  | none => ⟨o, prev.getD GPUCell.blank, false⟩
  | some m => ⟨writeMark m o, prev.getD GPUCell.blank, true⟩

/-- `line_as_ansi(self, output, &prev_cell, start_at, stop_before, prefix_char)`:
whether an escape code was written, the buffer, and `*prev_cell` (`none` for
NULL). -/
def lineAsAnsi (E : Env) (l : Line) (o : ANSIBuf) (prev : Option GPUCell)
    (startAt stopBefore prefixChar : ℕ) : Bool × ANSIBuf × Option GPUCell :=
  let limit := min stopBefore (E.xlimitForLine l)
  let s := lineAsAnsiStart l o prev prefixChar
  if limit ≤ startAt then (s.escapeCodeWritten, s.out, prev)
  else
    let s := ansiLoop E l limit (limit - startAt) startAt s
    (s.escapeCodeWritten, s.out, some s.prev)

theorem lineAsAnsi_out (E : Env) (l : Line) (o : ANSIBuf) (prev : Option GPUCell)
    (startAt stopBefore prefixChar : ℕ) :
    (lineAsAnsi E l o prev startAt stopBefore prefixChar).2.1 =
      (ansiLoop E l (min stopBefore (E.xlimitForLine l)) (min stopBefore (E.xlimitForLine l) - startAt)
        startAt (lineAsAnsiStart l o prev prefixChar)).out := by
  unfold lineAsAnsi
  dsimp only
  split
  · rw [show min stopBefore (E.xlimitForLine l) - startAt = 0 by omega]
    rfl
  · rfl

/-- `as_ansi`: the line from column 0 to `xnum`, from a NULL previous cell,
into an empty buffer. -/
def asAnsi (E : Env) (l : Line) : List ℕ := (lineAsAnsi E l ANSIBuf.empty none 0 l.xnum 0).2.1.text

/-- A one-column line holding `a` with a curly underline: `line_as_ansi`
writes `ESC [ 4 : m a`, and a terminal reading `4:` underlines nothing. -/
theorem lineAsAnsi_curly_underline_lost :
    asAnsi Env.sample { Line.plain 'a'.toNat with gpuCells := fun _ => curlyCell } =
      [27, '['.toNat, '4'.toNat, ':'.toNat, 'm'.toNat, 'a'.toNat] ∧
    (sgrApply 58 {} ['4'.toNat, ':'.toNat]).decoration = 0 ∧ (renditionOf curlyCell).decoration = 4 := by
  decide

/-! ### The multi-cell wrapper -/

/-- The fields of a multi-cell prefix: `w=<width>` for a width above 1,
`s=<scale>` for a scale above 1, `S=<subscale>` for a nonzero subscale. -/
def multicellFields (mcd : MultiCellData) : List (List ℕ) :=
  (if mcd.width > 1 then [['w'.toNat, '='.toNat] ++ decimal mcd.width] else []) ++
  (if mcd.scale > 1 then [['s'.toNat, '='.toNat] ++ decimal mcd.scale] else []) ++
  (if mcd.subscale ≠ 0 then [['S'.toNat, '='.toNat] ++ decimal mcd.subscale] else [])

/-- The opening of the wrapper of a multi-cell glyph's text,
`ESC ] TEXT_SIZE_CODE ; F ;`, with `F` the fields joined by `:`. -/
def multicellPrefix (E : Env) (mcd : MultiCellData) : List ℕ :=
  [27, ']'.toNat] ++ decimal E.textSizeCode ++ [';'.toNat] ++
    [':'.toNat].intercalate (multicellFields mcd) ++ [';'.toNat]

theorem writeMulticellField_text (c v : ℕ) (o : ANSIBuf) :
    (writeMulticellField c v o).text = o.text ++ ([c, '='.toNat] ++ decimal v ++ [':'.toNat]) := by
  simp [writeMulticellField, (nonnegativeIntegerAsUtf32_spec _ _).2.1]

theorem writeMulticellField_len (c v : ℕ) (o : ANSIBuf) :
    (writeMulticellField c v o).len = o.len + (decimal v).length + 3 := by
  simp [writeMulticellField, (nonnegativeIntegerAsUtf32_spec _ _).2.2.1]; omega

theorem text_ite_field (p : Prop) [Decidable p] (c v : ℕ) (o : ANSIBuf) :
    (if p then writeMulticellField c v o else o).text =
      o.text ++ ((if p then [[c, '='.toNat] ++ decimal v] else []).map (· ++ [':'.toNat])).flatten := by
  split <;> simp [writeMulticellField_text]

theorem flatten_map_append_sep (sep : ℕ) : ∀ (fs : List (List ℕ)), fs ≠ [] →
    (fs.map (· ++ [sep])).flatten = [sep].intercalate fs ++ [sep]
  | [f], _ => by simp [List.intercalate, List.intersperse]
  | f :: g :: fs, _ => by
    have ih := flatten_map_append_sep sep (g :: fs) (by simp)
    simp only [List.intercalate, List.intersperse, List.flatten_cons, List.map_cons] at ih ⊢
    rw [ih]
    simp

@[simp] theorem writeMulticellField_activeHyperlinkId (c v : ℕ) (o : ANSIBuf) :
    (writeMulticellField c v o).activeHyperlinkId = o.activeHyperlinkId := by
  simp [writeMulticellField, (nonnegativeIntegerAsUtf32_spec _ _).2.2.2.1]

@[simp] theorem writeMulticellField_hyperlinkPool (c v : ℕ) (o : ANSIBuf) :
    (writeMulticellField c v o).hyperlinkPool = o.hyperlinkPool := by
  simp [writeMulticellField, (nonnegativeIntegerAsUtf32_spec _ _).2.2.2.2]

theorem ANSIBuf.buf_last {o : ANSIBuf} {t : List ℕ} {c : ℕ} (h : o.text = t ++ [c]) :
    o.buf (o.len - 1) = c := by
  have hl : o.len = t.length + 1 := by rw [← ANSIBuf.text_length, h]; simp
  rw [ANSIBuf.buf_get o (by omega)]
  simp [h, hl]

theorem writeMulticellFields_text (mcd : MultiCellData) (o : ANSIBuf) :
    (writeMulticellFields mcd o).text = o.text ++ ((multicellFields mcd).map (· ++ [':'.toNat])).flatten := by
  simp only [writeMulticellFields, text_ite_field, multicellFields, List.map_append, List.flatten_append,
    List.append_assoc]

theorem writeMulticellFields_activeHyperlinkId (mcd : MultiCellData) (o : ANSIBuf) :
    (writeMulticellFields mcd o).activeHyperlinkId = o.activeHyperlinkId := by
  simp only [writeMulticellFields]; split_ifs <;> simp

theorem writeMulticellFields_hyperlinkPool (mcd : MultiCellData) (o : ANSIBuf) :
    (writeMulticellFields mcd o).hyperlinkPool = o.hyperlinkPool := by
  simp only [writeMulticellFields]; split_ifs <;> simp

theorem text_drop_colon {o : ANSIBuf} {t : List ℕ} {c : ℕ} (h : o.text = t ++ [c]) :
    (if o.buf (o.len - 1) = ':'.toNat then ({ o with len := o.len - 1 } : ANSIBuf) else o).text =
      if c = ':'.toNat then t else t ++ [c] := by
  rw [ANSIBuf.buf_last h]
  split
  · have hl : o.len = t.length + 1 := by rw [← ANSIBuf.text_length, h]; simp
    rw [ANSIBuf.text_shrink, h, hl]; simp
  · exact h

/-- `write_multicell_ansi_prefix` writes `multicellPrefix` and returns its
length. -/
theorem writeMulticellAnsiPrefix_spec (E : Env) (mcd : MultiCellData) (o : ANSIBuf) :
    (writeMulticellAnsiPrefix E mcd o).2.text = o.text ++ multicellPrefix E mcd ∧
    (writeMulticellAnsiPrefix E mcd o).1 = (multicellPrefix E mcd).length ∧
    (writeMulticellAnsiPrefix E mcd o).2.activeHyperlinkId = o.activeHyperlinkId ∧
    (writeMulticellAnsiPrefix E mcd o).2.hyperlinkPool = o.hyperlinkPool := by
  simp only [writeMulticellAnsiPrefix]
  set o2 := writeMulticellFields mcd
    (((o.pushAll [27, ']'.toNat]).pushAll (decimal E.textSizeCode)).push ';'.toNat)
  set base := o.text ++ ([27, ']'.toNat] ++ decimal E.textSizeCode)
  set o3 : ANSIBuf := if o2.buf (o2.len - 1) = ':'.toNat then { o2 with len := o2.len - 1 } else o2
  have h2 : o2.text = base ++ ';'.toNat :: ((multicellFields mcd).map (· ++ [':'.toNat])).flatten := by
    simp [o2, base, writeMulticellFields_text]
  -- the text once the last `:` is taken back
  have h3 : o3.text = base ++ ';'.toNat :: [':'.toNat].intercalate (multicellFields mcd) := by
    by_cases hf : multicellFields mcd = []
    · rw [text_drop_colon (t := base) (c := ';'.toNat) (by simpa [hf] using h2), hf]
      simp [List.intercalate]
    · rw [text_drop_colon (t := base ++ ';'.toNat :: [':'.toNat].intercalate (multicellFields mcd))
        (c := ':'.toNat) (by rw [h2, flatten_map_append_sep _ _ hf]; simp), if_pos rfl]
  refine ⟨?_, ?_, ?_, ?_⟩
  · rw [ANSIBuf.text_push, h3]; simp [multicellPrefix, base]
  · rw [ANSIBuf.push_len, ← ANSIBuf.text_length o3, h3, ← ANSIBuf.text_length o]
    simp [multicellPrefix, base]; omega
  · simp only [o3]; split <;> simp [o2, writeMulticellFields_activeHyperlinkId]
  · simp only [o3]; split <;> simp [o2, writeMulticellFields_hyperlinkPool]

/-- **The top-left cell of a multi-cell glyph.** `text_in_cell_ansi` appends
the wrapper's opening and the glyph's text and returns their count; the
closing `BEL` is at `buf[len]`, past the output. -/
theorem textInCellAnsi_anchor (E : Env) {c : CPUCell} (tc : TextCache) (o : ANSIBuf)
    (hi : c.chIsIdx = true) (hm : c.isMulticell = true) (hx : c.x = 0) (hy : c.y = 0) :
    (textInCellAnsi E c tc o).2.text =
      o.text ++ (multicellPrefix E (cellMulticellData c tc) ++ tc.chars c.chOrIdx) ∧
    (textInCellAnsi E c tc o).1 = (multicellPrefix E (cellMulticellData c tc) ++ tc.chars c.chOrIdx).length ∧
    (textInCellAnsi E c tc o).2.buf (textInCellAnsi E c tc o).2.len = 7 ∧
    (textInCellAnsi E c tc o).2.activeHyperlinkId = o.activeHyperlinkId ∧
    (textInCellAnsi E c tc o).2.hyperlinkPool = o.hyperlinkPool := by
  obtain ⟨h1, h2, h3, h4⟩ := writeMulticellAnsiPrefix_spec E (cellMulticellData c tc) o
  simp only [textInCellAnsi, hi, hm, hx, hy, tcCharsAtIndexAnsi, Bool.not_true, Bool.false_eq_true,
    if_false, if_true, ne_eq, not_true_eq_false, or_self]
  refine ⟨?_, by simp [h2], by simp [ANSIBuf.set], by simp [h3], by simp [h4]⟩
  rw [ANSIBuf.text_set_of_le _ _ le_rfl]
  simp [h1]

/-- Reading the fields of a multi-cell prefix back: `w=`, `s=` and `S=` set
width, scale and subscale; a missing width or scale is 1, a missing subscale 0. -/
def readMulticellFields (f : List ℕ) : ℕ × ℕ × ℕ :=
  (f.splitOn ':'.toNat).foldl (fun acc fld =>
    match fld with
    | k :: e :: ds =>
      if e ≠ '='.toNat then acc
      else if k = 'w'.toNat then (digitsValue ds, acc.2)
      else if k = 's'.toNat then (acc.1, digitsValue ds, acc.2.2)
      else if k = 'S'.toNat then (acc.1, acc.2.1, digitsValue ds)
      else acc
    | _ => acc) (1, 1, 0)

theorem colon_not_mem_multicellFields (mcd : MultiCellData) : ∀ f ∈ multicellFields mcd, ':'.toNat ∉ f := by
  have hfield : ∀ k v, k ≠ ':'.toNat → ':'.toNat ∉ [k, '='.toNat] ++ decimal v := by
    intro k v hk hc
    simp only [List.cons_append, List.nil_append, List.mem_cons] at hc
    rcases hc with h | h | h
    · exact hk h.symm
    · exact absurd h (by decide)
    · exact absurd (decimal_digit h).2 (by decide)
  intro f hf
  simp only [multicellFields, List.mem_append] at hf
  split_ifs at hf <;> simp only [List.mem_singleton, List.not_mem_nil, false_or, or_false] at hf <;>
    rcases hf with (rfl | rfl) | rfl <;> exact hfield _ _ (by decide)

theorem splitOn_multicellFields (mcd : MultiCellData) :
    ([':'.toNat].intercalate (multicellFields mcd)).splitOn ':'.toNat =
      if multicellFields mcd = [] then [[]] else multicellFields mcd := by
  split_ifs with he
  · rw [he]; rfl
  · exact List.splitOn_intercalate _ _ (colon_not_mem_multicellFields mcd) he

/-- The fields of a multi-cell prefix read back as the glyph's data. -/
theorem readMulticellFields_multicellFields (mcd : MultiCellData) :
    readMulticellFields ([':'.toNat].intercalate (multicellFields mcd)) =
      (mcd.width, mcd.scale, mcd.subscale) := by
  have hw := mcd.one_le_width
  have hs := mcd.one_le_scale
  rw [readMulticellFields, splitOn_multicellFields]
  -- the keys are told apart
  have hsw : ¬ 's'.toNat = 'w'.toNat := by decide
  have hSw : ¬ 'S'.toNat = 'w'.toNat := by decide
  have hSs : ¬ 'S'.toNat = 's'.toNat := by decide
  split_ifs with he
  · -- no field: the defaults
    simp only [multicellFields, List.append_eq_nil, ite_eq_right_iff, List.cons_ne_nil, imp_false,
      not_lt, ne_eq, not_not] at he
    simp only [List.foldl_cons, List.foldl_nil, Prod.mk.injEq]
    omega
  · simp only [multicellFields, List.foldl_append, List.cons_append, List.nil_append]
    split_ifs <;> simp only [List.foldl_cons, List.foldl_nil, ne_eq, not_true_eq_false, if_false,
      if_true, digitsValue_decimal, Prod.mk.injEq, hsw, hSw, hSs, true_and, and_true] <;> omega

def wideGlyphLine : Line where
  xnum := 2
  cpuCells x := { CPUCell.zero with chIsIdx := true, isMulticell := true, x := x }
  gpuCells _ := GPUCell.blank
  promptKind := .unknown
  textCache := TextCache.const ['a'.toNat] ⟨2, 1, 0, by decide, le_rfl⟩

/-- `as_ansi` of a width-2 glyph: `ESC ] 66 ; w=2 ; a` and no `BEL`. -/
theorem asAnsi_wideGlyph_no_bel :
    asAnsi Env.sample wideGlyphLine =
      [27, ']'.toNat, '6'.toNat, '6'.toNat, ';'.toNat, 'w'.toNat, '='.toNat, '2'.toNat, ';'.toNat,
        'a'.toNat] := by
  decide

end KittyLine
