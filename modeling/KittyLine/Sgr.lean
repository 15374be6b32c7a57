/-
# SGR deltas

`cell_as_sgr` writes the SGR parameters that take a terminal from the
rendition of one GPU cell to that of the next: intensity, italic, reverse and
strike toggles, the three colors through `color_as_sgr`, and the underline
style through `decoration_as_sgr`. Every fragment ends in `;`, and the last
character of the whole is dropped to remove the final one.

Two of `decoration_as_sgr`'s strings, those of the curly and the dotted
underline, lack that `;`, and the drop then removes their style digit: the
delta to a curly and to a dotted underline are the same string `4:`
(`cellAsSgr_curly_eq_dotted`), which a terminal reads as no underline.

The reference reader of SGR parameters, `sgrApply`, follows ECMA-48 and the
colon forms of the spec (§4.2, §6.1): parameters split at `;`, sub-parameters
at `:`, an empty one reads as `0`.

Every character `cell_as_sgr` writes is a CSI parameter byte
(`cellAsSgr_paramBytes`), so the CSI that `write_sgr` wraps around it ends at
its own `m`.

C strings are the lists of their characters before the terminating NUL.

Key definitions: `colorAsSgr`, `decorationAsSgr`, `cellAsSgr`, `Rendition`, `sgrApply`.
-/
import KittyLine.AnsiBuf

namespace KittyLine

/-- `%u`, `%lu`: the decimal digits of `n`. -/
def fmtNum (n : ℕ) : List Char := Nat.toDigits 10 n

/-- `color_as_sgr`: the parameter for a color, by its kind byte; `simpleCode`
0 means the color has no short form. -/
def colorAsSgr (val simpleCode aixCode complexCode : ℕ) : List Char :=
  if val % 256 = 1 then
    let v := val / 256
    if v < 16 ∧ simpleCode ≠ 0 then
      fmtNum (if v < 8 then simpleCode + v else aixCode + (v - 8)) ++ [';']
    else fmtNum complexCode ++ ":5:".toList ++ fmtNum v ++ [';']
  else if val % 256 = 2 then
    fmtNum complexCode ++ ":2:".toList ++ fmtNum (val / 2 ^ 24 % 256) ++ [':'] ++
      fmtNum (val / 2 ^ 16 % 256) ++ [':'] ++ fmtNum (val / 2 ^ 8 % 256) ++ [';']
  else fmtNum (complexCode + 1) ++ [';']

/-- `decoration_as_sgr`. -/
def decorationAsSgr (decoration : ℕ) : List Char :=
  if decoration = 1 then "4;".toList
  else if decoration = 2 then "4:2;".toList
  else if decoration = 3 then "4:3;".toList
  else if decoration = 4 then "4:4".toList
  else if decoration = 5 then "4:5".toList
  else "24;".toList

/-- `P(s)`: append `s` if it fits in what is left of the 128-byte buffer, two
bytes kept back. -/
def sgrPut (b s : List Char) : List Char := if 128 - b.length - 2 > s.length then b ++ s else b

/-- `cell_as_sgr(cell, prev)`, before the final drop: the fragments in order.
`decorationFgCode` is `DECORATION_FG_CODE`. -/
def cellAsSgrFragments (decorationFgCode : ℕ) (cell prev : GPUCell) : List Char :=
  let ca := cell.attrs
  let pa := prev.attrs
  let b : List Char := []
  let b :=
    if ca.bold ≠ pa.bold ∨ ca.dim ≠ pa.dim then
      if ca.bold ∧ ca.dim then
        let b := if !pa.bold then sgrPut b "1;".toList else b
        if !pa.dim then sgrPut b "2;".toList else b
      else
        let b := sgrPut b "22;".toList
        let b := if ca.bold then sgrPut b "1;".toList else b
        if ca.dim then sgrPut b "2;".toList else b
    else b
  let b := if ca.italic ≠ pa.italic then sgrPut b (if ca.italic then "3;" else "23;").toList else b
  let b := if ca.reverse ≠ pa.reverse then sgrPut b (if ca.reverse then "7;" else "27;").toList else b
  let b := if ca.strike ≠ pa.strike then sgrPut b (if ca.strike then "9;" else "29;").toList else b
  let b := if cell.fg ≠ prev.fg then b ++ colorAsSgr cell.fg 30 90 38 else b
  let b := if cell.bg ≠ prev.bg then b ++ colorAsSgr cell.bg 40 100 48 else b
  let b := if cell.decorationFg ≠ prev.decorationFg then
    b ++ colorAsSgr cell.decorationFg 0 0 decorationFgCode else b
  if ca.decoration ≠ pa.decoration then sgrPut b (decorationAsSgr ca.decoration) else b

/-- `cell_as_sgr(cell, prev)`: the fragments with their last character removed
("remove trailing semi-colon"). -/
def cellAsSgr (decorationFgCode : ℕ) (cell prev : GPUCell) : List Char :=
  (cellAsSgrFragments decorationFgCode cell prev).dropLast

/-! ### Parameter bytes

What `cell_as_sgr` writes stays inside the CSI it is put in: every character
is a parameter byte, `0x30 ..= 0x3F` (ECMA-48 §5.4), so neither a final byte
such as `m` nor `ESC` can end it early. -/

/-- A parameter byte of a control sequence: a digit, `:`, `;`, `<`, `=`, `>`, `?`. -/
def isParamByte (c : Char) : Bool := 0x30 ≤ c.toNat && c.toNat < 0x40

theorem fmtNum_paramBytes (n : ℕ) : (fmtNum n).all isParamByte = true := by
  rw [List.all_eq_true]
  intro c hc
  have h := decimal_digit (List.mem_map_of_mem Char.toNat hc)
  simp only [isParamByte, Bool.and_eq_true, decide_eq_true_eq]
  omega

theorem colorAsSgr_paramBytes (v a b c : ℕ) : (colorAsSgr v a b c).all isParamByte = true := by
  unfold colorAsSgr
  dsimp only
  split_ifs <;> simp only [List.all_append, fmtNum_paramBytes, Bool.true_and, Bool.and_true] <;> decide

theorem decorationAsSgr_paramBytes (d : ℕ) : (decorationAsSgr d).all isParamByte = true := by
  unfold decorationAsSgr
  split_ifs <;> decide

theorem all_ite_paramBytes {p : Prop} [Decidable p] (a b : List Char) :
    (if p then a else b).all isParamByte = if p then a.all isParamByte else b.all isParamByte := by
  split <;> rfl

/-- `cell_as_sgr` writes parameter bytes only. -/
theorem cellAsSgr_paramBytes (dfc : ℕ) (cell prev : GPUCell) :
    (cellAsSgr dfc cell prev).all isParamByte = true := by
  have h1 : "1;".toList.all isParamByte = true := by decide
  have h2 : "2;".toList.all isParamByte = true := by decide
  have h22 : "22;".toList.all isParamByte = true := by decide
  have h3 : "3;".toList.all isParamByte = true := by decide
  have h23 : "23;".toList.all isParamByte = true := by decide
  have h7 : "7;".toList.all isParamByte = true := by decide
  have h27 : "27;".toList.all isParamByte = true := by decide
  have h9 : "9;".toList.all isParamByte = true := by decide
  have h29 : "29;".toList.all isParamByte = true := by decide
  have h : (cellAsSgrFragments dfc cell prev).all isParamByte = true := by
    simp only [cellAsSgrFragments, sgrPut, all_ite_paramBytes, List.all_append, colorAsSgr_paramBytes,
      decorationAsSgr_paramBytes, List.all_nil, Bool.and_true, ite_self, h1, h2, h22, h3, h23, h7,
      h27, h9, h29, apply_ite String.toList]
  rw [List.all_eq_true] at h ⊢
  exact fun c hc => h c (List.dropLast_subset _ hc)

/-- The attribute bits under `SGR_MASK`. Modelled from the spec: `SGR_MASK` is
declared outside `line.c`; it keeps the attributes `cell_as_sgr` reads (§4.2 b). -/
def sgrAttrsDiffer (a b : CellAttrs) : Bool :=
  a.decoration != b.decoration || a.bold != b.bold || a.italic != b.italic ||
    a.reverse != b.reverse || a.strike != b.strike || a.dim != b.dim

/-! ### The reference reader -/

/-- A color as a terminal holds it. -/
inductive Color
  | default
  | indexed (n : ℕ)
  | rgb (r g b : ℕ)
  deriving DecidableEq, Repr

/-- What a color word of a GPU cell means. -/
def colorOf (val : ℕ) : Color :=
  if val % 256 = 1 then .indexed (val / 256)
  else if val % 256 = 2 then .rgb (val / 2 ^ 24 % 256) (val / 2 ^ 16 % 256) (val / 2 ^ 8 % 256)
  else .default

/-- The rendition a terminal applies to the text it is given. -/
structure Rendition where
  bold : Bool := false
  dim : Bool := false
  italic : Bool := false
  reverse : Bool := false
  strike : Bool := false
  decoration : ℕ := 0
  fg : Color := .default
  bg : Color := .default
  decorationFg : Color := .default
  deriving DecidableEq, Repr

/-- The rendition of a GPU cell. -/
def renditionOf (g : GPUCell) : Rendition :=
  { bold := g.attrs.bold, dim := g.attrs.dim, italic := g.attrs.italic,
    reverse := g.attrs.reverse, strike := g.attrs.strike, decoration := g.attrs.decoration,
    fg := colorOf g.fg, bg := colorOf g.bg, decorationFg := colorOf g.decorationFg }

/-- An extended color, the sub-parameters after `38`, `48` or the decoration
code: `5:n` or `2:r:g:b`. -/
def extColor : List ℕ → Option Color
  | [5, n] => some (.indexed n)
  | [2, r, g, b] => some (.rgb r g b)
  | _ => none

/-- One SGR parameter, its code and sub-parameters. -/
def sgrParam (decorationFgCode : ℕ) (r : Rendition) (code : ℕ) (subs : List ℕ) : Rendition :=
  if code = 0 then {}
  else if code = 1 then { r with bold := true }
  else if code = 2 then { r with dim := true }
  else if code = 3 then { r with italic := true }
  else if code = 4 then { r with decoration := subs.headD 1 }
  else if code = 7 then { r with reverse := true }
  else if code = 9 then { r with strike := true }
  else if code = 22 then { r with bold := false, dim := false }
  else if code = 23 then { r with italic := false }
  else if code = 24 then { r with decoration := 0 }
  else if code = 27 then { r with reverse := false }
  else if code = 29 then { r with strike := false }
  else if 30 ≤ code ∧ code ≤ 37 then { r with fg := .indexed (code - 30) }
  else if code = 38 then { r with fg := (extColor subs).getD r.fg }
  else if code = 39 then { r with fg := .default }
  else if 40 ≤ code ∧ code ≤ 47 then { r with bg := .indexed (code - 40) }
  else if code = 48 then { r with bg := (extColor subs).getD r.bg }
  else if code = 49 then { r with bg := .default }
  else if 90 ≤ code ∧ code ≤ 97 then { r with fg := .indexed (code - 90 + 8) }
  else if 100 ≤ code ∧ code ≤ 107 then { r with bg := .indexed (code - 100 + 8) }
  else if code = decorationFgCode then
    { r with decorationFg := (extColor subs).getD r.decorationFg }
  else if code = decorationFgCode + 1 then { r with decorationFg := .default }
  else r

/-- The parameters of `CSI params m`, read left to right. -/
def sgrApply (decorationFgCode : ℕ) (r : Rendition) (params : List ℕ) : Rendition :=
  (params.splitOn ';'.toNat).foldl
    (fun r p => match (p.splitOn ':'.toNat).map digitsValue with
      | [] => r
      | code :: subs => sgrParam decorationFgCode r code subs) r

def curlyCell : GPUCell := { GPUCell.blank with attrs := { CellAttrs.zero with decoration := 4 } }

def dottedCell : GPUCell := { GPUCell.blank with attrs := { CellAttrs.zero with decoration := 5 } }

/-- The delta to a curly and to a dotted underline is the same string `4:`:
the final drop removes the style digit, since `decoration_as_sgr` gives those
two styles no `;`. -/
theorem cellAsSgr_curly_eq_dotted (dfc : ℕ) :
    cellAsSgr dfc curlyCell GPUCell.blank = "4:".toList ∧
    cellAsSgr dfc dottedCell GPUCell.blank = "4:".toList := by
  constructor <;> rfl

end KittyLine
