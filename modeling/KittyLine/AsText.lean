/-
# Hyperlinks across `as_text_generic`

`as_text_generic` hands a callback the text of a run of lines. With
`as_ansi`, each line gives a newline if the line before did not wrap, an SGR
reset `ESC [ m` if the line's text is not empty, the `line_as_ansi` text of
the line, and a `\r` with wrap markers. At the end come a last newline and,
if a hyperlink is still open, `ESC ] 8 ; ; ESC \`. `line_as_ansi` switches
hyperlinks with OSC 8 as the cells' ids change, and keeps the id it last
opened in the buffer from one line to the next.

The reference is a terminal's parser as far as hyperlinks go (`LinkReader`).
Escape sequences are read as in the DEC parser: an OSC string ends at `BEL`
or at any `ESC`, a CSI at its final byte. OSC 8 `8 ; params ; uri` opens the
hyperlink `(id, uri)`, or closes it for an empty URI.

The reader and the buffer stay in step (`LinkReader.Synced`). Each pass of
`line_as_ansi`'s loop keeps them so and has the cell's link open where the
cell's text starts (`ansiCellEscapes_synced`, `ansiCellText_quiet`). So does
each line (`lineAsAnsi_synced`), and so does each pass of `as_text_generic`'s
loop (`asTextLine_synced`); this gives the whole run (`asTextGeneric_links`).

This needs keys that OSC 8 carries intact (`LinkKeyOk`) and cells without
`ESC` (`Line.LinksOk`). It also does not hold at the SGR reset of a line: the
callback gets the reset after `line_as_ansi` has already moved the buffer's
id to the line's last link (`asTextGeneric_reset_ahead`).

Not covered: a callback that fails, and `get_line` returning NULL; the model
takes the lines as a list and the callback as always succeeding.

Key definitions: `LinkReader`, `cellLink`, `asTextLine`, `asTextGeneric`, `Replays`.
Key theorems: `lineAsAnsi_synced`, `asTextLine_synced`, `asTextGeneric_links`.
-/
import KittyLine.Visible

namespace KittyLine

open ANSIBuf

/-! ### The reference reader -/

/-- The modes of a terminal's parser: in text, after `ESC`, inside a CSI, and
inside an OSC string. -/
inductive LinkMode
  | ground
  | escape
  | csi
  | osc
  deriving DecidableEq, Repr

/-- A terminal's parser as far as hyperlinks go: its mode, the OSC string read
so far, and the open hyperlink, its `id` parameter and its URI. -/
structure LinkReader where
  mode : LinkMode
  osc : List ℕ
  link : Option (List ℕ × List ℕ)
  deriving DecidableEq, Repr

/-- The value of the `id` key of OSC 8 parameters `k=v:k=v`, empty without one. -/
def linkIdParam (params : List ℕ) : List ℕ :=
  match (params.splitOn ':'.toNat).find? (fun p => p.take 3 == "id=".toList.map Char.toNat) with
  | some p => p.drop 3
  | none => []

/-- An OSC string ends: `8 ; params ; uri` opens the hyperlink `(id, uri)`, or
closes the open one for an empty URI; any other string leaves it. -/
def oscEnd (s : List ℕ) (link : Option (List ℕ × List ℕ)) : Option (List ℕ × List ℕ) :=
  if s.take 2 = ['8'.toNat, ';'.toNat] ∧ ';'.toNat ∈ s.drop 2 then
    let uri := ((s.drop 2).dropWhile (· != ';'.toNat)).drop 1
    if uri = [] then none else some (linkIdParam ((s.drop 2).takeWhile (· != ';'.toNat)), uri)
  else link

def LinkReader.step (r : LinkReader) (c : ℕ) : LinkReader :=
  match r.mode with
  | .ground => if c = 27 then { r with mode := .escape } else r
  | .escape =>
    if c = '['.toNat then { r with mode := .csi }
    else if c = ']'.toNat then { r with mode := .osc, osc := [] }
    else if c = 27 then r
    else { r with mode := .ground }
  | .csi =>
    if c = 27 then { r with mode := .escape }
    else if 0x40 ≤ c ∧ c ≤ 0x7E then { r with mode := .ground }
    else r
  | .osc =>
    if c = 7 then { r with mode := .ground, link := oscEnd r.osc r.link }
    else if c = 27 then { r with mode := .escape, link := oscEnd r.osc r.link }
    else { r with osc := r.osc ++ [c] }

def LinkReader.run (r : LinkReader) (xs : List ℕ) : LinkReader := xs.foldl LinkReader.step r

def LinkReader.init : LinkReader := ⟨.ground, [], none⟩

@[simp] theorem LinkReader.run_nil (r : LinkReader) : r.run [] = r := rfl

@[simp] theorem LinkReader.run_cons (r : LinkReader) (c : ℕ) (xs : List ℕ) :
    r.run (c :: xs) = (r.step c).run xs := rfl

@[simp] theorem LinkReader.run_append (r : LinkReader) (xs ys : List ℕ) :
    r.run (xs ++ ys) = (r.run xs).run ys := List.foldl_append _ _ _ _

/-- The reader between sequences: in text, or inside an OSC string that no
continuation makes an OSC 8 (the wrapper of a multi-cell glyph, which
`text_in_cell_ansi` leaves open). -/
def LinkReader.Quiet (r : LinkReader) : Prop :=
  r.mode = .ground ∨ (r.mode = .osc ∧ ∀ t link, oscEnd (r.osc ++ t) link = link)

section
variable {r : LinkReader}

/-- A code point other than `ESC` leaves a reader between sequences there,
with its link. -/
theorem LinkReader.Quiet.step (hq : r.Quiet) {c : ℕ} (hc : c ≠ 27) :
    (r.step c).Quiet ∧ (r.step c).link = r.link := by
  rcases hq with hg | ⟨ho, hi⟩
  · have h : r.step c = r := by simp [LinkReader.step, hg, hc]
    rw [h]
    exact ⟨Or.inl hg, rfl⟩
  · by_cases h7 : c = 7
    · have h : r.step c = { r with mode := .ground, link := oscEnd r.osc r.link } := by
        simp [LinkReader.step, ho, h7]
      rw [h]
      exact ⟨Or.inl rfl, by simpa using hi [] r.link⟩
    · have h : r.step c = { r with osc := r.osc ++ [c] } := by simp [LinkReader.step, ho, h7, hc]
      rw [h]
      exact ⟨Or.inr ⟨ho, fun t l => by simpa using hi ([c] ++ t) l⟩, rfl⟩

/-- Text without `ESC` leaves a reader between sequences there, with its link. -/
theorem LinkReader.Quiet.run (hq : r.Quiet) {xs : List ℕ} (h : 27 ∉ xs) :
    (r.run xs).Quiet ∧ (r.run xs).link = r.link := by
  induction xs generalizing r with
  | nil => exact ⟨hq, rfl⟩
  | cons c xs ih =>
    simp only [List.mem_cons, not_or] at h
    obtain ⟨hq', hl⟩ := hq.step (Ne.symm h.1)
    obtain ⟨hq'', hl'⟩ := ih hq' h.2
    exact ⟨hq'', hl'.trans hl⟩

/-- `ESC` read between sequences starts an escape sequence; an OSC string it
ends leaves the link. -/
theorem LinkReader.Quiet.step_esc (hq : r.Quiet) : r.step 27 = ⟨.escape, r.osc, r.link⟩ := by
  rcases hq with hg | ⟨ho, hi⟩
  · simp [LinkReader.step, hg]
  · have h := hi [] r.link
    rw [List.append_nil] at h
    simp [LinkReader.step, ho, h]

end

theorem LinkReader.run_csi {p : List ℕ} (hp : ∀ c ∈ p, 0x30 ≤ c ∧ c < 0x40) (s : List ℕ)
    (link : Option (List ℕ × List ℕ)) : (⟨.csi, s, link⟩ : LinkReader).run p = ⟨.csi, s, link⟩ := by
  induction p with
  | nil => rfl
  | cons c p ih =>
    have hc := hp c (List.mem_cons_self _ _)
    have hstep : (⟨.csi, s, link⟩ : LinkReader).step c = ⟨.csi, s, link⟩ := by
      simp only [LinkReader.step]
      rw [if_neg (by omega), if_neg (by omega)]
    rw [LinkReader.run_cons, hstep]
    exact ih fun d hd => hp d (List.mem_cons_of_mem _ hd)

theorem LinkReader.run_oscString {p : List ℕ} (h7 : 7 ∉ p) (h27 : 27 ∉ p) (s : List ℕ)
    (link : Option (List ℕ × List ℕ)) : (⟨.osc, s, link⟩ : LinkReader).run p = ⟨.osc, s ++ p, link⟩ := by
  induction p generalizing s with
  | nil => simp
  | cons c p ih =>
    simp only [List.mem_cons, not_or] at h7 h27
    simp only [LinkReader.run_cons, LinkReader.step, if_neg (Ne.symm h7.1), if_neg (Ne.symm h27.1)]
    rw [ih h7.2 h27.2]
    simp

section
variable {r : LinkReader}

/-- An SGR sequence `ESC [ params m` read between sequences: back in text, the
link unchanged. -/
theorem LinkReader.Quiet.run_sgr (hq : r.Quiet) {p : List ℕ} (hp : ∀ c ∈ p, 0x30 ≤ c ∧ c < 0x40) :
    r.run ([27, '['.toNat] ++ p ++ ['m'.toNat]) = ⟨.ground, r.osc, r.link⟩ := by
  simp only [LinkReader.run_append, LinkReader.run_cons, LinkReader.run_nil, hq.step_esc]
  rw [show (⟨.escape, r.osc, r.link⟩ : LinkReader).step '['.toNat = ⟨.csi, r.osc, r.link⟩ from rfl,
    LinkReader.run_csi hp]
  rfl

/-- An OSC `ESC ] p ESC \` read between sequences: back in text, with the
link the string `p` sets. -/
theorem LinkReader.Quiet.run_osc (hq : r.Quiet) {p : List ℕ} (h7 : 7 ∉ p) (h27 : 27 ∉ p) :
    r.run ([27, ']'.toNat] ++ p ++ [27, '\\'.toNat]) = ⟨.ground, p, oscEnd p r.link⟩ := by
  simp only [LinkReader.run_append, LinkReader.run_cons, LinkReader.run_nil, hq.step_esc]
  rw [show (⟨.escape, r.osc, r.link⟩ : LinkReader).step ']'.toNat = ⟨.osc, [], r.link⟩ from rfl,
    LinkReader.run_oscString h7 h27, List.nil_append]
  rfl

end

/-! ### What the serializer writes, read back -/

/-- No continuation makes a text-size wrapper an OSC 8, for a `TEXT_SIZE_CODE`
other than 8. -/
theorem oscEnd_textSize {n : ℕ} (hn : n ≠ 8) (t : List ℕ) (link : Option (List ℕ × List ℕ)) :
    oscEnd (decimal n ++ ';'.toNat :: t) link = link := by
  unfold oscEnd
  rw [if_neg]
  rintro ⟨h, -⟩
  obtain ⟨d, ds, hd⟩ := List.exists_cons_of_ne_nil (decimal_ne_nil n)
  rw [hd] at h
  cases ds with
  | nil =>
    have hd8 : d = '8'.toNat := by simpa using h
    exact hn (by rw [← digitsValue_decimal n, hd, hd8]; rfl)
  | cons e es =>
    have he : e = ';'.toNat := by simp at h; exact h.2
    have := decimal_digit (show e ∈ decimal n by rw [hd]; simp)
    rw [he] at this
    exact absurd this (by decide)

theorem decimal_not_ctrl (n : ℕ) : 7 ∉ decimal n ∧ 27 ∉ decimal n :=
  ⟨fun h => by have := decimal_digit h; omega, fun h => by have := decimal_digit h; omega⟩

section
variable {r : LinkReader}

/-- The text of a multi-cell glyph's top-left cell, `ESC ] TEXT_SIZE_CODE ; F
; payload` without `BEL`, read between sequences: the reader is left inside an
OSC string clear of OSC 8, with its link. -/
theorem LinkReader.Quiet.run_textSize (hq : r.Quiet) {n : ℕ} (hn : n ≠ 8) {rest : List ℕ}
    (h : 27 ∉ rest) :
    (r.run ([27, ']'.toNat] ++ (decimal n ++ ';'.toNat :: rest))).Quiet ∧
      (r.run ([27, ']'.toNat] ++ (decimal n ++ ';'.toNat :: rest))).link = r.link := by
  have hd := decimal_not_ctrl n
  have hopen : r.run ([27, ']'.toNat] ++ (decimal n ++ [';'.toNat])) =
      ⟨.osc, decimal n ++ [';'.toNat], r.link⟩ := by
    simp only [LinkReader.run_append, LinkReader.run_cons, LinkReader.run_nil, hq.step_esc]
    rw [show (⟨.escape, r.osc, r.link⟩ : LinkReader).step ']'.toNat = ⟨.osc, [], r.link⟩ from rfl,
      LinkReader.run_oscString hd.1 hd.2, List.nil_append, LinkReader.step]
    simp
  have hq' : (⟨.osc, decimal n ++ [';'.toNat], r.link⟩ : LinkReader).Quiet :=
    Or.inr ⟨rfl, fun t l => by simpa using oscEnd_textSize hn t l⟩
  rw [show decimal n ++ ';'.toNat :: rest = (decimal n ++ [';'.toNat]) ++ rest by simp,
    ← List.append_assoc, LinkReader.run_append, hopen]
  exact hq'.run h

end

/-- What `write_hyperlink` writes as the parameters of a key: `id=<id>`, or
nothing for an empty id part. -/
def hyperlinkParams (k : List ℕ) : List ℕ :=
  if keyId k = [] then [] else "id=".toList.map Char.toNat ++ keyId k

/-- What `write_hyperlink` writes between `ESC ]` and `ESC \`: `8 ; params ;
uri` for a key, `8 ; ;` for none. -/
def hyperlinkBody : Option (List ℕ) → List ℕ
  | none => ['8'.toNat, ';'.toNat, ';'.toNat]
  | some k => ['8'.toNat, ';'.toNat] ++ (hyperlinkParams k ++ ';'.toNat :: keyUri k)

theorem mem_hyperlinkBody {k : List ℕ} {c : ℕ} (h : c ∈ hyperlinkBody (some k)) :
    c ∈ "8;id=".toList.map Char.toNat ∨ c ∈ k := by
  simp only [hyperlinkBody, hyperlinkParams, List.mem_append, List.mem_cons] at h
  rcases h with h | h | h | h
  · left; simp at h ⊢; omega
  · split_ifs at h
    · cases h
    · rcases List.mem_append.1 h with h | h
      · left; simp at h ⊢; omega
      · exact Or.inr (List.takeWhile_subset _ h)
  · left; simp [h]
  · exact Or.inr (List.dropWhile_subset _ (List.mem_of_mem_drop h))

/-- `write_hyperlink` writes `ESC ] body ESC \` for the key the id resolves
to, and makes the id active if there is a key, 0 if not. -/
theorem writeHyperlink_spec (hid : ℕ) (o : ANSIBuf) :
    (writeHyperlink hid o).text = o.text ++ ([27, ']'.toNat] ++
      hyperlinkBody (if hid = 0 then none else o.hyperlinkPool.bind fun pool => pool hid) ++
      [27, '\\'.toNat]) ∧
    (writeHyperlink hid o).activeHyperlinkId =
      (if (if hid = 0 then none else o.hyperlinkPool.bind fun pool => pool hid).isSome then hid else 0) ∧
    (writeHyperlink hid o).hyperlinkPool = o.hyperlinkPool := by
  unfold writeHyperlink
  generalize (if hid = 0 then none else o.hyperlinkPool.bind fun pool => pool hid) = key
  cases key with
  | none => simp [hyperlinkBody]
  | some k => by_cases hk : keyId k = [] <;> simp [hyperlinkBody, hyperlinkParams, hk]

/-- A key OSC 8 carries intact: no `;` in its id part (it would end the
parameters), a URI (an empty one closes the link), and no `BEL` or `ESC`
(they would end the OSC string). -/
structure LinkKeyOk (k : List ℕ) : Prop where
  idNoSemi : ';'.toNat ∉ keyId k
  uriNe : keyUri k ≠ []
  noBel : 7 ∉ k
  noEsc : 27 ∉ k

instance (k : List ℕ) : Decidable (LinkKeyOk k) :=
  decidable_of_iff (';'.toNat ∉ keyId k ∧ keyUri k ≠ [] ∧ 7 ∉ k ∧ 27 ∉ k)
    ⟨fun ⟨a, b, c, d⟩ => ⟨a, b, c, d⟩, fun ⟨a, b, c, d⟩ => ⟨a, b, c, d⟩⟩

/-- The hyperlink the id `hid` names in the pool: the id part and the URI of
its key; none for 0 or for an id the pool does not hold. -/
def cellLink (pool : ℕ → Option (List ℕ)) (hid : ℕ) : Option (List ℕ × List ℕ) :=
  if hid = 0 then none else (pool hid).map fun k => (keyId k, keyUri k)

@[simp] theorem cellLink_zero (pool : ℕ → Option (List ℕ)) : cellLink pool 0 = none := rfl

theorem linkIdParam_hyperlinkParams (k : List ℕ) : linkIdParam (hyperlinkParams k) = keyId k := by
  unfold hyperlinkParams
  split_ifs with hk
  · rw [hk]; rfl
  · have hid : ∀ x ∈ "id=".toList.map Char.toNat, ¬(x == ':'.toNat) = true := by decide
    have hcolon : ∀ x ∈ "id=".toList.map Char.toNat ++ keyId k, ¬(x == ':'.toNat) = true := by
      intro x hx
      rcases List.mem_append.1 hx with hx | hx
      · exact hid x hx
      · simpa using List.mem_takeWhile_imp hx
    unfold linkIdParam
    rw [show ("id=".toList.map Char.toNat ++ keyId k).splitOn ':'.toNat =
      ["id=".toList.map Char.toNat ++ keyId k] from List.splitOnP_eq_single _ _ hcolon]
    simp

theorem hyperlinkBody_ctrl (key : Option (List ℕ)) (hk : ∀ k ∈ key, LinkKeyOk k) :
    7 ∉ hyperlinkBody key ∧ 27 ∉ hyperlinkBody key := by
  cases key with
  | none => decide
  | some k =>
    have hok := hk k rfl
    exact ⟨fun h => (mem_hyperlinkBody h).elim (absurd · (by decide)) hok.noBel,
      fun h => (mem_hyperlinkBody h).elim (absurd · (by decide)) hok.noEsc⟩

/-- **OSC 8 carries an intact key.** The body `write_hyperlink` writes opens
the hyperlink the key names, and closes it for none. -/
theorem oscEnd_hyperlinkBody (key : Option (List ℕ)) (hk : ∀ k ∈ key, LinkKeyOk k)
    (link : Option (List ℕ × List ℕ)) :
    oscEnd (hyperlinkBody key) link = key.map fun k => (keyId k, keyUri k) := by
  cases key with
  | none => rfl
  | some k =>
    have hok := hk k rfl
    have hid : ∀ a ∈ "id=".toList.map Char.toNat, (a != ';'.toNat) = true := by decide
    have hpos : ∀ a ∈ hyperlinkParams k, (a != ';'.toNat) = true := by
      intro a ha
      unfold hyperlinkParams at ha
      split_ifs at ha
      · cases ha
      · rcases List.mem_append.1 ha with ha | ha
        · exact hid a ha
        · exact bne_iff_ne.2 fun h => hok.idNoSemi (h ▸ ha)
    have hdrop : (['8'.toNat, ';'.toNat] ++ (hyperlinkParams k ++ ';'.toNat :: keyUri k)).drop 2 =
        hyperlinkParams k ++ ';'.toNat :: keyUri k := rfl
    have htake : (['8'.toNat, ';'.toNat] ++ (hyperlinkParams k ++ ';'.toNat :: keyUri k)).take 2 =
        ['8'.toNat, ';'.toNat] := rfl
    unfold oscEnd hyperlinkBody
    rw [hdrop, htake, if_pos ⟨rfl, by simp⟩, List.dropWhile_append_of_pos hpos,
      List.takeWhile_append_of_pos hpos]
    simp [hok.uriNe, linkIdParam_hyperlinkParams]

/-! ### A pass of `line_as_ansi` -/

/-- The reader agrees with the buffer: it is between sequences, and its open
link is the one the buffer's active id names. -/
structure LinkReader.Synced (r : LinkReader) (pool : ℕ → Option (List ℕ)) (a : ℕ) : Prop where
  quiet : r.Quiet
  link : r.link = cellLink pool a

/-- The lines `as_text_generic` serializes with their hyperlinks intact: no
cell's text holds `ESC`, and every key an id of a cell resolves to is one
OSC 8 carries intact. -/
structure Line.LinksOk (l : Line) (pool : ℕ → Option (List ℕ)) : Prop where
  noEsc : ∀ i < l.xnum, 27 ∉ (textInCell (l.cpuCells i) l.textCache).chars
  keys : ∀ i < l.xnum, (l.cpuCells i).hyperlinkId ≠ 0 → ∀ k ∈ pool (l.cpuCells i).hyperlinkId, LinkKeyOk k

instance (l : Line) (pool : ℕ → Option (List ℕ)) : Decidable (l.LinksOk pool) :=
  decidable_of_iff ((∀ i < l.xnum, 27 ∉ (textInCell (l.cpuCells i) l.textCache).chars) ∧
      ∀ i < l.xnum, (l.cpuCells i).hyperlinkId ≠ 0 → ∀ k ∈ pool (l.cpuCells i).hyperlinkId, LinkKeyOk k)
    ⟨fun ⟨a, b⟩ => ⟨a, b⟩, fun ⟨a, b⟩ => ⟨a, b⟩⟩

section
variable {E : Env} {pool : ℕ → Option (List ℕ)} {l : Line} {r : LinkReader}

/-- The OSC 8 of a pass: from a reader in step with the buffer, the link of the
cell at `pos` is open after it, and the buffer's id names it. -/
theorem ansiCellHyperlink_synced (hl : l.LinksOk pool) {pos : ℕ} (hpos : pos < l.xnum)
    {s : AnsiState} (hp : s.out.hyperlinkPool = some pool)
    (hr : (r.run s.out.text).Synced pool s.out.activeHyperlinkId) :
    (r.run (ansiCellHyperlink l pos s).out.text).Synced pool (ansiCellHyperlink l pos s).out.activeHyperlinkId ∧
    (r.run (ansiCellHyperlink l pos s).out.text).link = cellLink pool (l.cpuCells pos).hyperlinkId ∧
    (ansiCellHyperlink l pos s).out.hyperlinkPool = some pool := by
  unfold ansiCellHyperlink
  dsimp only
  set hid := (l.cpuCells pos).hyperlinkId
  have hkey : (if hid = 0 then none else s.out.hyperlinkPool.bind fun pool => pool hid) =
      if hid = 0 then none else pool hid := by rw [hp]; rfl
  have hlink : ((if hid = 0 then none else pool hid).map fun k => (keyId k, keyUri k)) =
      cellLink pool hid := by unfold cellLink; split_ifs <;> rfl
  split_ifs with hc
  · -- the id changes: `write_hyperlink`
    have hok : ∀ k ∈ (if hid = 0 then none else pool hid), LinkKeyOk k := by
      split_ifs with h0
      · intro k hk; cases hk
      · exact hl.keys pos hpos h0
    have hctrl := hyperlinkBody_ctrl _ hok
    have hrun : r.run (writeHyperlink hid s.out).text =
        ⟨.ground, hyperlinkBody (if hid = 0 then none else pool hid),
          cellLink pool hid⟩ := by
      rw [(writeHyperlink_spec hid s.out).1, LinkReader.run_append, hkey, hr.quiet.run_osc hctrl.1 hctrl.2,
        oscEnd_hyperlinkBody _ hok, hlink]
    have hact : cellLink pool (writeHyperlink hid s.out).activeHyperlinkId = cellLink pool hid := by
      rw [(writeHyperlink_spec hid s.out).2.1, hkey, ← hlink]
      cases hk : (if hid = 0 then none else pool hid) with
      | none => rfl
      | some k => rw [Option.isSome_some, if_pos rfl, ← hlink, hk]
    refine ⟨⟨?_, ?_⟩, ?_, ?_⟩
    · rw [hrun]; exact Or.inl rfl
    · rw [hrun]; exact hact.symm
    · rw [hrun]
    · rw [(writeHyperlink_spec hid s.out).2.2, hp]
  · -- the id is the active one
    have hsame : hid = s.out.activeHyperlinkId := by
      by_contra h
      exact hc ⟨by simp [hp], h⟩
    exact ⟨hr, by rw [hr.link, hsame], hp⟩

/-- The SGR of a pass, `cell_as_sgr`'s parameters in a CSI, keeps the reader
in step with the buffer. -/
theorem ansiCellSgr_synced (E : Env) (l : Line) (pos : ℕ) (s : AnsiState) {a : ℕ}
    (hr : (r.run s.out.text).Synced pool a) :
    (r.run (ansiCellSgr E l pos s).out.text).Synced pool a ∧
      (ansiCellSgr E l pos s).out.activeHyperlinkId = s.out.activeHyperlinkId ∧
      (ansiCellSgr E l pos s).out.hyperlinkPool = s.out.hyperlinkPool := by
  unfold ansiCellSgr
  dsimp only
  split_ifs
  · have hp : ∀ c ∈ ((cellAsSgr E.decorationFgCode (l.gpuCells pos) s.prev).take 122).map Char.toNat,
        0x30 ≤ c ∧ c < 0x40 := by
      intro c hc
      obtain ⟨d, hd, rfl⟩ := List.mem_map.1 hc
      simpa [isParamByte] using List.all_eq_true.1
        (cellAsSgr_paramBytes E.decorationFgCode (l.gpuCells pos) s.prev) d (List.mem_of_mem_take hd)
    have hrun := hr.quiet.run_sgr hp
    refine ⟨⟨?_, ?_⟩, by simp [writeSgr], by simp [writeSgr]⟩
    · rw [writeSgr_text, LinkReader.run_append, hrun]; exact Or.inl rfl
    · rw [writeSgr_text, LinkReader.run_append, hrun]; exact hr.link
  · exact ⟨hr, rfl, rfl⟩

/-- **The escape codes of a pass.** From a reader in step with the buffer, the
escape codes of the pass at `pos` leave it in step, with the cell's link open
where the cell's text starts. -/
theorem ansiCellEscapes_synced (hl : l.LinksOk pool) {pos : ℕ} (hpos : pos < l.xnum)
    {s : AnsiState} (hp : s.out.hyperlinkPool = some pool)
    (hr : (r.run s.out.text).Synced pool s.out.activeHyperlinkId) :
    (r.run (ansiCellEscapes E l pos s).out.text).Synced pool (ansiCellEscapes E l pos s).out.activeHyperlinkId ∧
    (r.run (ansiCellEscapes E l pos s).out.text).link = cellLink pool (l.cpuCells pos).hyperlinkId ∧
    (ansiCellEscapes E l pos s).out.hyperlinkPool = some pool := by
  obtain ⟨h1, h2, h3⟩ := ansiCellHyperlink_synced hl hpos hp hr
  obtain ⟨h4, h5, h6⟩ := ansiCellSgr_synced E l pos _ h1
  unfold ansiCellEscapes
  rw [h5, h6]
  exact ⟨h4, h4.link.trans (h1.link.symm.trans h2), h3⟩

theorem textInCellAnsi_meta (E : Env) (c : CPUCell) (tc : TextCache) (o : ANSIBuf) :
    (textInCellAnsi E c tc o).2.activeHyperlinkId = o.activeHyperlinkId ∧
      (textInCellAnsi E c tc o).2.hyperlinkPool = o.hyperlinkPool := by
  have h := writeMulticellAnsiPrefix_spec E (cellMulticellData c tc) o
  unfold textInCellAnsi tcCharsAtIndexAnsi
  split_ifs <;> simp [ANSIBuf.set, h.2.2.1, h.2.2.2]

theorem ansiCellText_meta (E : Env) (l : Line) (limit pos : ℕ) (s : AnsiState) :
    (ansiCellText E l limit pos s).1.out.activeHyperlinkId = s.out.activeHyperlinkId ∧
      (ansiCellText E l limit pos s).1.out.hyperlinkPool = s.out.hyperlinkPool := by
  have h := textInCellAnsi_meta E (l.cpuCells pos) l.textCache s.out
  unfold ansiCellText
  dsimp only
  split_ifs <;> simp [h.1, h.2]

theorem ansiCellText_of_nothing (E : Env) (l : Line) (limit pos : ℕ) (s : AnsiState)
    (h : textInCellAnsi E (l.cpuCells pos) l.textCache s.out = (0, s.out)) :
    (ansiCellText E l limit pos s).1.out.text = s.out.text := by
  unfold ansiCellText
  rw [h]
  dsimp only
  split_ifs <;> first | omega | simp [text_set_of_le]

/-- A pass writes the top-left cell of a multi-cell glyph as its wrapper's
opening and its text. -/
theorem ansiCellText_anchor (E : Env) (l : Line) (limit pos : ℕ) (s : AnsiState)
    (hi : (l.cpuCells pos).chIsIdx = true) (hm : (l.cpuCells pos).isMulticell = true)
    (hx : (l.cpuCells pos).x = 0) (hy : (l.cpuCells pos).y = 0) :
    (ansiCellText E l limit pos s).1.out.text = s.out.text ++
      (multicellPrefix E (cellMulticellData (l.cpuCells pos) l.textCache) ++
        l.textCache.chars (l.cpuCells pos).chOrIdx) := by
  obtain ⟨h1, h2, -, -, -⟩ := textInCellAnsi_anchor E l.textCache s.out hi hm hx hy
  have hhead : (multicellPrefix E (cellMulticellData (l.cpuCells pos) l.textCache) ++
      l.textCache.chars (l.cpuCells pos).chOrIdx).getD 0 0 = 27 := by simp [multicellPrefix]
  unfold ansiCellText
  generalize textInCellAnsi E (l.cpuCells pos) l.textCache s.out = t at h1 h2
  generalize multicellPrefix E (cellMulticellData (l.cpuCells pos) l.textCache) ++
    l.textCache.chars (l.cpuCells pos).chOrIdx = cs at h1 h2 hhead ⊢
  have hne : 0 < cs.length := by
    cases cs
    · cases hhead
    · simp
  have hlen : t.2.len - t.1 = s.out.text.length := by
    have := congrArg List.length h1
    rw [List.length_append, text_length, text_length] at this
    rw [text_length]
    omega
  have hb := ANSIBuf.buf_append h1 (j := 0) hne
  rw [Nat.add_zero, hhead] at hb
  dsimp only
  rw [hlen, hb, if_neg (show (27 : ℕ) ≠ 0 by decide), hlen, hb,
    if_neg (show (27 : ℕ) ≠ '\t'.toNat by decide)]
  exact h1

theorem multicellFields_noEsc (mcd : MultiCellData) :
    27 ∉ [':'.toNat].intercalate (multicellFields mcd) := by
  intro h
  have hfield : ∀ f ∈ multicellFields mcd, 27 ∉ f := by
    intro f hf
    simp only [multicellFields, List.mem_append] at hf
    have hkv : ∀ k v, k ≠ 27 → 27 ∉ [k, '='.toNat] ++ decimal v := fun k v hk h => by
      simp only [List.cons_append, List.nil_append, List.mem_cons] at h
      rcases h with h | h | h
      · exact hk h.symm
      · exact absurd h (by decide)
      · exact (decimal_not_ctrl v).2 h
    split_ifs at hf <;> simp only [List.mem_singleton, List.not_mem_nil, false_or, or_false] at hf <;>
      rcases hf with (rfl | rfl) | rfl <;> exact hkv _ _ (by decide)
  by_cases he : multicellFields mcd = []
  · rw [he] at h; cases h
  · have h' : 27 ∈ ((multicellFields mcd).map (· ++ [':'.toNat])).flatten := by
      rw [flatten_map_append_sep _ _ he]; exact List.mem_append_left _ h
    obtain ⟨f, hf, hcf⟩ := List.mem_flatten.1 h'
    obtain ⟨g, hg, rfl⟩ := List.mem_map.1 hf
    rcases List.mem_append.1 hcf with hc | hc
    · exact hfield g hg hc
    · simp at hc

/-- **The text of a pass** leaves a reader between sequences there, with its
link: a cell's code points hold no `ESC`, and the top-left cell of a
multi-cell glyph opens a text-size wrapper that is no OSC 8. -/
theorem ansiCellText_quiet (htsc : E.textSizeCode ≠ 8) (hl : l.LinksOk pool) (limit pos : ℕ)
    (hpos : pos < l.xnum) (s : AnsiState) (hr : (r.run s.out.text).Quiet) :
    (r.run (ansiCellText E l limit pos s).1.out.text).Quiet ∧
      (r.run (ansiCellText E l limit pos s).1.out.text).link = (r.run s.out.text).link := by
  have hesc := hl.noEsc pos hpos
  by_cases hm : ((l.cpuCells pos).chIsIdx && (l.cpuCells pos).isMulticell) = false
  · by_cases hne : (textInCell (l.cpuCells pos) l.textCache).chars = []
    · rw [ansiCellText_of_nothing E l limit pos s (by rw [textInCellAnsi_single E _ _ hm, hne]; rfl)]
      exact ⟨hr, rfl⟩
    · rw [(ansiCellText_text E l limit pos s hm hne).1, LinkReader.run_append]
      exact hr.run (cellText_noEsc hesc)
  · obtain ⟨hi, hmc⟩ : (l.cpuCells pos).chIsIdx = true ∧ (l.cpuCells pos).isMulticell = true := by
      simpa using hm
    by_cases htl : (l.cpuCells pos).x = 0 ∧ (l.cpuCells pos).y = 0
    · rw [ansiCellText_anchor E l limit pos s hi hmc htl.1 htl.2, LinkReader.run_append]
      have hpay : 27 ∉ l.textCache.chars (l.cpuCells pos).chOrIdx := by
        rwa [textInCell_chars_of_idx _ hi] at hesc
      have hrest : 27 ∉ [':'.toNat].intercalate (multicellFields
          (cellMulticellData (l.cpuCells pos) l.textCache)) ++ ';'.toNat ::
            l.textCache.chars (l.cpuCells pos).chOrIdx := by
        simp only [List.mem_append, List.mem_cons, not_or]
        exact ⟨multicellFields_noEsc _, by decide, hpay⟩
      have h := hr.run_textSize htsc hrest
      simp only [multicellPrefix, List.append_assoc, List.cons_append, List.singleton_append,
        List.nil_append] at h ⊢
      exact h
    · rw [ansiCellText_of_nothing E l limit pos s (by
        unfold textInCellAnsi; simp [hi, hmc, not_and_or.1 htl])]
      exact ⟨hr, rfl⟩

/-- The passes of `line_as_ansi`'s loop: each column it visits, with the state
it visits it in. -/
def ansiPasses (E : Env) (l : Line) (limit : ℕ) : ℕ → ℕ → AnsiState → List (ℕ × AnsiState)
  | 0, _, _ => []
  | fuel + 1, pos, s =>
    if pos < limit then
      let r := ansiCell E l limit pos s
      (pos, s) :: ansiPasses E l limit fuel r.2 r.1
    else []

/-- **The loop.** From a reader in step with the buffer, `line_as_ansi`'s loop
keeps it in step, and at each pass the cell's link is open where the cell's
text starts. -/
theorem ansiLoop_synced (htsc : E.textSizeCode ≠ 8) (hl : l.LinksOk pool) {limit : ℕ}
    (hlim : limit ≤ l.xnum) : ∀ fuel pos (s : AnsiState), s.out.hyperlinkPool = some pool →
      (r.run s.out.text).Synced pool s.out.activeHyperlinkId →
      (∀ p ∈ ansiPasses E l limit fuel pos s,
        (r.run (ansiCellEscapes E l p.1 p.2).out.text).link = cellLink pool (l.cpuCells p.1).hyperlinkId) ∧
      (r.run (ansiLoop E l limit fuel pos s).out.text).Synced pool
        (ansiLoop E l limit fuel pos s).out.activeHyperlinkId ∧
      (ansiLoop E l limit fuel pos s).out.hyperlinkPool = some pool
  | 0, _, _, hp, hs => ⟨fun _ h => (List.not_mem_nil _ h).elim, hs, hp⟩
  | fuel + 1, pos, s, hp, hs => by
    by_cases hi : pos < limit
    · obtain ⟨he, hlink, hp₁⟩ := ansiCellEscapes_synced hl (by omega : pos < l.xnum) hp hs
      obtain ⟨hq, hl₂⟩ := ansiCellText_quiet htsc hl limit pos (by omega) _ he.quiet
      obtain ⟨ha, hp₂⟩ := ansiCellText_meta E l limit pos (ansiCellEscapes E l pos s)
      have hs' : (r.run (ansiCellText E l limit pos (ansiCellEscapes E l pos s)).1.out.text).Synced pool
          (ansiCellText E l limit pos (ansiCellEscapes E l pos s)).1.out.activeHyperlinkId :=
        ⟨hq, by rw [hl₂, ha]; exact he.link⟩
      obtain ⟨ih₁, ih₂, ih₃⟩ := ansiLoop_synced htsc hl hlim fuel _ _ (hp₂.trans hp₁) hs'
      simp only [ansiPasses, ansiLoop, if_pos hi, List.mem_cons]
      exact ⟨fun p hp' => hp'.elim (fun e => e ▸ hlink) (ih₁ p), ih₂, ih₃⟩
    · simp only [ansiPasses, ansiLoop, if_neg hi]
      exact ⟨fun _ h => (List.not_mem_nil _ h).elim, hs, hp⟩

/-- The passes of the loop of `line_as_ansi(self, output, &prev_cell,
start_at, stop_before, prefix_char)`. -/
def lineAsAnsiPasses (E : Env) (l : Line) (o : ANSIBuf) (prev : Option GPUCell)
    (startAt stopBefore prefixChar : ℕ) : List (ℕ × AnsiState) :=
  let limit := min stopBefore (E.xlimitForLine l)
  ansiPasses E l limit (limit - startAt) startAt (lineAsAnsiStart l o prev prefixChar)

theorem lineAsAnsiStart_synced (l : Line) (o : ANSIBuf) {a : ℕ} (hr : r.Synced pool a) :
    (r.run (lineAsAnsiStart l o none 0).out.text).Synced pool a ∧
      (lineAsAnsiStart l o none 0).out.activeHyperlinkId = o.activeHyperlinkId ∧
      (lineAsAnsiStart l o none 0).out.hyperlinkPool = o.hyperlinkPool := by
  have hmark : ∀ m : List Char, (∀ c ∈ m, c.toNat ≠ 7 ∧ c.toNat ≠ 27) →
      (r.run (writeMark m { o with len := 0 }).text).Synced pool a := by
    intro m hm
    have hnil : ({ o with len := 0 } : ANSIBuf).text = [] := rfl
    rw [writeMark_text, hnil, List.nil_append, hr.quiet.run_osc (markBody_ctrl hm).1 (markBody_ctrl hm).2]
    exact ⟨Or.inl rfl, by simp [oscEnd, hr.link]⟩
  unfold lineAsAnsiStart
  cases hk : l.promptKind
  · exact ⟨hr, rfl, rfl⟩
  all_goals exact ⟨hmark _ (by decide), by simp [promptMark, writeMark], by simp [promptMark, writeMark]⟩

/-- **One line.** From a reader in step with the buffer, `line_as_ansi(line,
&prev = NULL, 0, xnum, 0)` leaves the reader in step with the buffer, and at
each pass of its loop the cell's link is open where the cell's text starts. -/
theorem lineAsAnsi_synced (htsc : E.textSizeCode ≠ 8) (hl : l.LinksOk pool) {o : ANSIBuf}
    (hp : o.hyperlinkPool = some pool) (hr : r.Synced pool o.activeHyperlinkId) :
    (∀ p ∈ lineAsAnsiPasses E l o none 0 l.xnum 0,
      (r.run (ansiCellEscapes E l p.1 p.2).out.text).link = cellLink pool (l.cpuCells p.1).hyperlinkId) ∧
    (r.run (lineAsAnsi E l o none 0 l.xnum 0).2.1.text).Synced pool
      (lineAsAnsi E l o none 0 l.xnum 0).2.1.activeHyperlinkId ∧
    (lineAsAnsi E l o none 0 l.xnum 0).2.1.hyperlinkPool = some pool := by
  obtain ⟨h1, h2, h3⟩ := lineAsAnsiStart_synced l o hr
  rw [lineAsAnsi_out]
  exact ansiLoop_synced htsc hl (min_le_left _ _) _ _ _ (h3.trans hp) (h2 ▸ h1)

end

/-! ### `as_text_generic` -/

def sgrReset : List ℕ := [27, '['.toNat, 'm'.toNat]

/-- What `as_text_generic` closes a hyperlink still open with, `ESC ] 8 ; ; ESC \`. -/
def closeHyperlink : List ℕ := [27, ']'.toNat, '8'.toNat, ';'.toNat, ';'.toNat, 27, '\\'.toNat]

/-- What `as_text_generic` carries from line to line: the pieces handed to the
callback so far, each with the id `ansibuf->active_hyperlink_id` held when it
was handed over; the buffer; the flatten buffer of `line_as_unicode`; and
whether a newline is due. -/
structure AsTextState where
  pieces : List (List ℕ × ℕ)
  out : ANSIBuf
  unicodeBuf : UnicodeBuf
  needNewline : Bool

def asTextStart (o : ANSIBuf) (g : UnicodeBuf) : AsTextState :=
  ⟨[], { o with activeHyperlinkId := 0 }, g, false⟩

/-- `if (need_newline) APPEND(nl);` -/
def newlinePieces (st : AsTextState) : List (List ℕ × ℕ) :=
  if st.needNewline then [([10], st.out.activeHyperlinkId)] else []

/-- `if (t && ansibuf->len > 0) APPEND(sgr_reset);`, once `line_as_ansi` has
filled the buffer. -/
def resetPieces (o : ANSIBuf) : List (List ℕ × ℕ) :=
  if o.len > 0 then [(sgrReset, o.activeHyperlinkId)] else []

/-- `if (insert_wrap_markers) APPEND(cr);` -/
def wrapPieces (insertWrapMarkers : Bool) (a : ℕ) : List (List ℕ × ℕ) :=
  if insertWrapMarkers then [([13], a)] else []

/-- One pass of `as_text_generic`'s loop, over the line `l`: with `as_ansi`,
`line_as_ansi` from a NULL previous cell, its text handed over after the SGR
reset; without, `line_as_unicode(line, false)`. `need_newline` is read from
the line's last column (a line has at least one). -/
def asTextLine (E : Env) (asAnsi insertWrapMarkers : Bool) (st : AsTextState) (l : Line) :
    AsTextState :=
  let pieces := st.pieces ++ newlinePieces st
  let needNewline := !(l.cpuCells (l.xnum - 1)).nextCharWasWrapped
  if asAnsi then
    let o := (lineAsAnsi E l st.out none 0 l.xnum 0).2.1
    ⟨pieces ++ resetPieces o ++ [(o.text, o.activeHyperlinkId)] ++
      wrapPieces insertWrapMarkers o.activeHyperlinkId, o, st.unicodeBuf, needNewline⟩
  else
    let t := lineAsUnicode E l false st.unicodeBuf
    ⟨pieces ++ [(t.1, st.out.activeHyperlinkId)] ++
      wrapPieces insertWrapMarkers st.out.activeHyperlinkId, st.out, t.2, needNewline⟩

/-- `as_text_generic` over the lines `ls`, with the arguments `as_ansi` and
`insert_wrap_markers` and the flag `add_trailing_newline`: what the callback
is handed, the buffer and the flatten buffer. -/
def asTextGeneric (E : Env) (asAnsi insertWrapMarkers addTrailingNewline : Bool) (ls : List Line)
    (o : ANSIBuf) (g : UnicodeBuf) : AsTextState :=
  let st := ls.foldl (asTextLine E asAnsi insertWrapMarkers) (asTextStart o g)
  let st := if st.needNewline && addTrailingNewline then
    { st with pieces := st.pieces ++ [([10], st.out.activeHyperlinkId)] } else st
  if st.out.activeHyperlinkId ≠ 0 then
    { st with pieces := st.pieces ++ [(closeHyperlink, 0)], out := { st.out with activeHyperlinkId := 0 } }
  else st

def streamOf (ps : List (List ℕ × ℕ)) : List ℕ := (ps.map Prod.fst).flatten

@[simp] theorem streamOf_append (ps qs : List (List ℕ × ℕ)) :
    streamOf (ps ++ qs) = streamOf ps ++ streamOf qs := by
  simp [streamOf]

@[simp] theorem streamOf_singleton (t : List ℕ) (a : ℕ) : streamOf [(t, a)] = t := by
  simp [streamOf]

/-- The reader replays the pieces in order, and after each piece other than an
SGR reset the link it has open is the one named by the id handed over with
the piece. -/
def Replays (pool : ℕ → Option (List ℕ)) : LinkReader → List (List ℕ × ℕ) → Prop
  | _, [] => True
  | r, (t, a) :: ps => (t ≠ sgrReset → (r.run t).link = cellLink pool a) ∧ Replays pool (r.run t) ps

theorem replays_append (pool : ℕ → Option (List ℕ)) : ∀ (r : LinkReader) (ps qs : List (List ℕ × ℕ)),
    Replays pool r (ps ++ qs) ↔ Replays pool r ps ∧ Replays pool (r.run (streamOf ps)) qs
  | r, [], qs => by simp [Replays, streamOf]
  | r, (t, a) :: ps, qs => by
    have hs : streamOf ((t, a) :: ps) = t ++ streamOf ps := by simp [streamOf]
    simp only [List.cons_append, Replays, List.append_eq, replays_append pool (r.run t) ps qs, hs,
      LinkReader.run_append, and_assoc]

section
variable {E : Env} {pool : ℕ → Option (List ℕ)} {r : LinkReader}

theorem replays_plain {t : List ℕ} (h : 27 ∉ t) {a : ℕ} (hr : r.Synced pool a) :
    Replays pool r [(t, a)] ∧ (r.run t).Synced pool a := by
  obtain ⟨hq, hl⟩ := hr.quiet.run h
  exact ⟨⟨fun _ => hl.trans hr.link, trivial⟩, hq, hl.trans hr.link⟩

theorem replays_optional (c : Prop) [Decidable c] {t : List ℕ} (h : 27 ∉ t) {a : ℕ}
    (hr : r.Synced pool a) :
    Replays pool r (if c then [(t, a)] else []) ∧
      (r.run (streamOf (if c then [(t, a)] else []))).Synced pool a := by
  split
  · simpa using replays_plain h hr
  · exact ⟨trivial, hr⟩

theorem replays_reset {a b : ℕ} (hr : r.Synced pool a) :
    Replays pool r [(sgrReset, b)] ∧ (r.run sgrReset).Synced pool a := by
  have h : r.run sgrReset = ⟨.ground, r.osc, r.link⟩ := hr.quiet.run_sgr (p := []) (by simp)
  exact ⟨⟨fun h => absurd rfl h, trivial⟩, by rw [h]; exact Or.inl rfl, by rw [h]; exact hr.link⟩

/-- What `as_text_generic` keeps from one line to the next: the buffer's pool,
the replay of the pieces handed over, and the reader after them in step with
the buffer. -/
structure AsTextState.Synced (st : AsTextState) (pool : ℕ → Option (List ℕ)) : Prop where
  hasPool : st.out.hyperlinkPool = some pool
  replays : Replays pool LinkReader.init st.pieces
  reader : (LinkReader.init.run (streamOf st.pieces)).Synced pool st.out.activeHyperlinkId

/-- What the callback has been handed when the `line_as_ansi` text of the line
`l` starts: the pieces so far, the newline if one is due, and the SGR reset. -/
def streamBeforeText (E : Env) (st : AsTextState) (l : Line) : List ℕ :=
  streamOf (st.pieces ++ newlinePieces st ++ resetPieces (lineAsAnsi E l st.out none 0 l.xnum 0).2.1)

/-- **One pass of `as_text_generic`.** From a state in step, the pass over a
line keeps it in step, and the cell's link is open where each cell's text
starts. -/
theorem asTextLine_synced (htsc : E.textSizeCode ≠ 8) {l : Line} (hl : l.LinksOk pool)
    (insertWrapMarkers : Bool) {st : AsTextState} (hst : st.Synced pool) :
    (∀ p ∈ lineAsAnsiPasses E l st.out none 0 l.xnum 0,
      (LinkReader.init.run (streamBeforeText E st l ++ (ansiCellEscapes E l p.1 p.2).out.text)).link =
        cellLink pool (l.cpuCells p.1).hyperlinkId) ∧
    (asTextLine E true insertWrapMarkers st l).Synced pool := by
  set o := (lineAsAnsi E l st.out none 0 l.xnum 0).2.1 with ho
  set r₀ := LinkReader.init.run (streamOf st.pieces)
  have hn : Replays pool r₀ (newlinePieces st) ∧
      (r₀.run (streamOf (newlinePieces st))).Synced pool st.out.activeHyperlinkId :=
    replays_optional _ (t := [10]) (by decide) hst.reader
  set r₁ := r₀.run (streamOf (newlinePieces st))
  have hs : Replays pool r₁ (resetPieces o) ∧
      (r₁.run (streamOf (resetPieces o))).Synced pool st.out.activeHyperlinkId := by
    unfold resetPieces
    split
    · simpa using replays_reset hn.2
    · exact ⟨trivial, hn.2⟩
  set r₂ := r₁.run (streamOf (resetPieces o))
  obtain ⟨hpass, hline, hpool⟩ := lineAsAnsi_synced htsc hl hst.hasPool hs.2
  have hw : Replays pool (r₂.run o.text) (wrapPieces insertWrapMarkers o.activeHyperlinkId) ∧
      ((r₂.run o.text).run (streamOf (wrapPieces insertWrapMarkers o.activeHyperlinkId))).Synced pool
        o.activeHyperlinkId :=
    replays_optional _ (t := [13]) (by decide) hline
  have hrun : r₂ = LinkReader.init.run (streamBeforeText E st l) := by
    simp only [r₂, r₁, r₀, streamBeforeText, streamOf_append, LinkReader.run_append, ho]
  refine ⟨fun p hp => by rw [LinkReader.run_append, ← hrun]; exact hpass p hp, hpool, ?_, ?_⟩
  · show Replays pool LinkReader.init (st.pieces ++ newlinePieces st ++ resetPieces o ++
      [(o.text, o.activeHyperlinkId)] ++ wrapPieces insertWrapMarkers o.activeHyperlinkId)
    simp only [replays_append, streamOf_append, streamOf_singleton, LinkReader.run_append]
    exact ⟨⟨⟨⟨hst.replays, hn.1⟩, hs.1⟩, fun _ => hline.link, trivial⟩, hw.1⟩
  · show (LinkReader.init.run (streamOf (st.pieces ++ newlinePieces st ++ resetPieces o ++
      [(o.text, o.activeHyperlinkId)] ++ wrapPieces insertWrapMarkers o.activeHyperlinkId))).Synced
        pool o.activeHyperlinkId
    simp only [streamOf_append, streamOf_singleton, LinkReader.run_append]
    exact hw.2

/-- **The loop of `as_text_generic`.** From a state in step, the passes over
the lines `ls` keep it in step, and the link of each cell is open where the
cell's text starts, in every line. -/
theorem foldl_asTextLine_synced (htsc : E.textSizeCode ≠ 8) (insertWrapMarkers : Bool) :
    ∀ (ls : List Line) (st : AsTextState), (∀ l ∈ ls, l.LinksOk pool) → st.Synced pool →
      (∀ y (hy : y < ls.length), ∀ p ∈ lineAsAnsiPasses E ls[y]
          ((ls.take y).foldl (asTextLine E true insertWrapMarkers) st).out none 0 ls[y].xnum 0,
        (LinkReader.init.run (streamBeforeText E ((ls.take y).foldl (asTextLine E true insertWrapMarkers) st)
          ls[y] ++ (ansiCellEscapes E ls[y] p.1 p.2).out.text)).link =
          cellLink pool (ls[y].cpuCells p.1).hyperlinkId) ∧
      (ls.foldl (asTextLine E true insertWrapMarkers) st).Synced pool
  | [], _, _, hst => ⟨fun _ hy => absurd hy (Nat.not_lt_zero _), hst⟩
  | l :: ls, st, hls, hst => by
    obtain ⟨hpass, hst'⟩ := asTextLine_synced htsc (hls l (List.mem_cons_self _ _)) insertWrapMarkers hst
    obtain ⟨ih₁, ih₂⟩ := foldl_asTextLine_synced htsc insertWrapMarkers ls _
      (fun l' hl' => hls l' (List.mem_cons_of_mem _ hl')) hst'
    refine ⟨fun y hy => ?_, ih₂⟩
    cases y with
    | zero => exact hpass
    | succ y => exact ih₁ y (by simpa using hy)

theorem asTextStart_synced {o : ANSIBuf} (hp : o.hyperlinkPool = some pool) (g : UnicodeBuf) :
    (asTextStart o g).Synced pool :=
  ⟨hp, trivial, Or.inl rfl, rfl⟩

end

/-- A line of plain cells spelling `s`, the cell at `x` in the hyperlink
`ids[x]` (0 past the list). -/
def Line.withLinks (s : String) (ids : List ℕ) : Line :=
  { Line.ofString s with
    cpuCells := fun x => { CPUCell.zero with chOrIdx := (s.toList.getD x ' ').toNat, hyperlinkId := ids.getD x 0 } }

def linkPool (key : String) : ℕ → Option (List ℕ) :=
  fun h => if h = 1 then some (key.toList.map Char.toNat) else none

def poolBuf (key : String) : ANSIBuf := { ANSIBuf.empty with hyperlinkPool := some (linkPool key) }

/-- **Hyperlinks across `as_text_generic`.** Take lines whose cells hold no
`ESC` and whose ids resolve to keys OSC 8 carries intact, a buffer with the
pool, and a `TEXT_SIZE_CODE` other than 8. A reader replaying what
`as_text_generic(as_ansi = true)` hands the callback (1) has each cell's link
open where the cell's text starts, (2) after every piece but the SGR resets,
has open the link named by the buffer's active id when the piece was handed
over, and (3) has no link open at the end. -/
theorem asTextGeneric_links (E : Env) (htsc : E.textSizeCode ≠ 8) {pool : ℕ → Option (List ℕ)}
    (ls : List Line) (hls : ∀ l ∈ ls, l.LinksOk pool) (o : ANSIBuf) (hp : o.hyperlinkPool = some pool)
    (insertWrapMarkers addTrailingNewline : Bool) (g : UnicodeBuf) :
    (∀ y (hy : y < ls.length), ∀ p ∈ lineAsAnsiPasses E ls[y]
        ((ls.take y).foldl (asTextLine E true insertWrapMarkers) (asTextStart o g)).out none 0 ls[y].xnum 0,
      (LinkReader.init.run (streamBeforeText E
        ((ls.take y).foldl (asTextLine E true insertWrapMarkers) (asTextStart o g)) ls[y] ++
          (ansiCellEscapes E ls[y] p.1 p.2).out.text)).link = cellLink pool (ls[y].cpuCells p.1).hyperlinkId) ∧
    Replays pool LinkReader.init (asTextGeneric E true insertWrapMarkers addTrailingNewline ls o g).pieces ∧
    (LinkReader.init.run (streamOf (asTextGeneric E true insertWrapMarkers addTrailingNewline ls o g).pieces)).link =
      none := by
  obtain ⟨hcells, hst⟩ := foldl_asTextLine_synced htsc insertWrapMarkers ls _ hls (asTextStart_synced hp g)
  refine ⟨hcells, ?_⟩
  unfold asTextGeneric
  generalize ls.foldl (asTextLine E true insertWrapMarkers) (asTextStart o g) = st at hst
  dsimp only
  -- the trailing newline keeps the state in step
  have hnl : (if st.needNewline && addTrailingNewline then
      { st with pieces := st.pieces ++ [([10], st.out.activeHyperlinkId)] } else st).Synced pool := by
    split
    · obtain ⟨h1, h2⟩ := replays_plain (t := [10]) (by decide) hst.reader
      exact ⟨hst.hasPool, (replays_append _ _ _ _).2 ⟨hst.replays, h1⟩, by simpa using h2⟩
    · exact hst
  generalize (if st.needNewline && addTrailingNewline then
    { st with pieces := st.pieces ++ [([10], st.out.activeHyperlinkId)] } else st) = st' at hnl ⊢
  split
  · -- `ESC ] 8 ; ; ESC \` closes the link still open
    have h : (LinkReader.init.run (streamOf st'.pieces)).run closeHyperlink =
        ⟨.ground, ['8'.toNat, ';'.toNat, ';'.toNat], none⟩ :=
      hnl.reader.quiet.run_osc (p := ['8'.toNat, ';'.toNat, ';'.toNat]) (by decide) (by decide)
    simp only [replays_append, streamOf_append, streamOf_singleton, LinkReader.run_append, h]
    exact ⟨⟨hnl.replays, fun _ => by rw [h]; rfl, trivial⟩, trivial⟩
  · -- no link is active, and none is open
    rename_i h0
    exact ⟨hnl.replays, hnl.reader.link.trans (by rw [not_not.1 h0]; rfl)⟩

theorem asTextGeneric_links_across_lines :
    (∀ y (hy : y < [Line.withLinks "ab" [0, 1], Line.withLinks "cd" [1]].length),
      ∀ p ∈ lineAsAnsiPasses Env.sample [Line.withLinks "ab" [0, 1], Line.withLinks "cd" [1]][y]
        (([Line.withLinks "ab" [0, 1], Line.withLinks "cd" [1]].take y).foldl (asTextLine Env.sample true false)
          (asTextStart (poolBuf "x:k") UnicodeBuf.empty)).out none 0
        [Line.withLinks "ab" [0, 1], Line.withLinks "cd" [1]][y].xnum 0,
      (LinkReader.init.run (streamBeforeText Env.sample
        (([Line.withLinks "ab" [0, 1], Line.withLinks "cd" [1]].take y).foldl (asTextLine Env.sample true false)
          (asTextStart (poolBuf "x:k") UnicodeBuf.empty)) [Line.withLinks "ab" [0, 1], Line.withLinks "cd" [1]][y] ++
        (ansiCellEscapes Env.sample [Line.withLinks "ab" [0, 1], Line.withLinks "cd" [1]][y] p.1 p.2).out.text)).link =
        cellLink (linkPool "x:k")
          ([Line.withLinks "ab" [0, 1], Line.withLinks "cd" [1]][y].cpuCells p.1).hyperlinkId) ∧
    Replays (linkPool "x:k") LinkReader.init (asTextGeneric Env.sample true false true
      [Line.withLinks "ab" [0, 1], Line.withLinks "cd" [1]] (poolBuf "x:k") UnicodeBuf.empty).pieces ∧
    (LinkReader.init.run (streamOf (asTextGeneric Env.sample true false true
      [Line.withLinks "ab" [0, 1], Line.withLinks "cd" [1]] (poolBuf "x:k") UnicodeBuf.empty).pieces)).link =
      none :=
  asTextGeneric_links Env.sample (by decide) _ (by decide) (poolBuf "x:k") rfl false true UnicodeBuf.empty

/-- Two ways the unamended reading fails, on the one-cell line `b` in the
hyperlink 1. With the key `x:k`, the callback is handed the line's SGR reset
first, with the active id 1, while a reader of it has no link open. With the
key `x:` (an empty URI), the reader has no link open where the cell's text
starts, though the cell's link is `(x, "")`. -/
theorem asTextGeneric_reset_ahead :
    ((asTextGeneric Env.sample true false false [Line.withLinks "b" [1]] (poolBuf "x:k")
        UnicodeBuf.empty).pieces.head? = some (sgrReset, 1) ∧
      (LinkReader.init.run sgrReset).link ≠ cellLink (linkPool "x:k") 1) ∧
    ∃ p ∈ lineAsAnsiPasses Env.sample (Line.withLinks "b" [1]) (asTextStart (poolBuf "x:") UnicodeBuf.empty).out
        none 0 (Line.withLinks "b" [1]).xnum 0,
      (LinkReader.init.run (streamBeforeText Env.sample (asTextStart (poolBuf "x:") UnicodeBuf.empty)
        (Line.withLinks "b" [1]) ++ (ansiCellEscapes Env.sample (Line.withLinks "b" [1]) p.1 p.2).out.text)).link ≠
        cellLink (linkPool "x:") ((Line.withLinks "b" [1]).cpuCells p.1).hyperlinkId := by
  decide

end KittyLine

