/-
# Where a URL starts

`line_url_start_at(x)` looks for a URL `<prefix>://<url-chars>` around column
`x`. `find_colon_slash` scans cells backward from a column with a three-state
recognizer (`ANY`, `FIRST_SLASH`, `SECOND_SLASH`) and stops at the first `:`
it meets in `SECOND_SLASH`, or gives up (0) at a cell that is not a hostname
character; `has_url_beyond_colon_slash` checks the cells after the `://`, and
`has_url_prefix_at` the configured prefixes before it, in their configured
order. The search runs first from `x + max_prefix_len + 3`, keeping only
prefixes that reach back to `x`, then from `x` itself.

Key definitions: `findColonSlash`, `prefixMatches`, `hasUrlPrefixAt`,
`hasUrlBeyondColonSlash`, `lineUrlStartAt`.
-/
import KittyLine.Cell
import Mathlib.Data.List.GetD

namespace KittyLine

/-- `MIN_URL_LEN`. -/
def minUrlLen : ℕ := 5

/-- `is_hostname_char`. -/
def isHostnameChar (E : Env) (ch : ℕ) : Bool := ch == '['.toNat || ch == ']'.toNat || E.isUrlChar ch

/-- `is_hostname_lc`. -/
def isHostnameLc (E : Env) (lc : List ℕ) : Bool := lc.all (isHostnameChar E)

/-- `is_url_lc`. -/
def isUrlLc (E : Env) (lc : List ℕ) : Bool := lc.all E.isUrlChar

def hostnameAt (E : Env) (l : Line) (pos : ℕ) : Bool :=
  isHostnameLc E (textInCell (l.cpuCells pos) l.textCache).chars

/-- `enum URL_PARSER_STATES`. -/
inductive UrlParserState
  | any
  | firstSlash
  | secondSlash
  deriving DecidableEq, Repr

/-- The bootstrap of `find_colon_slash` at `pos == x`: a `:` followed by
`//`, or a `/` followed by `/`, sets the state. -/
def urlParserStart (l : Line) (pos : ℕ) (st : UrlParserState) : UrlParserState :=
  if cellIsChar (l.cpuCells pos) ':'.toNat then
    if pos + 2 < l.xnum ∧ cellIsChar (l.cpuCells (pos + 1)) '/'.toNat ∧
        cellIsChar (l.cpuCells (pos + 2)) '/'.toNat then .secondSlash
    else st
  else if cellIsChar (l.cpuCells pos) '/'.toNat then
    if pos + 1 < l.xnum ∧ cellIsChar (l.cpuCells (pos + 1)) '/'.toNat then .firstSlash else st
  else st

/-- The `switch` of `find_colon_slash` on cell `c`: the next state, or `none`
for the `:` that ends the search. -/
def urlParserStep (c : CPUCell) : UrlParserState → Option UrlParserState
  | .any => some (if cellIsChar c '/'.toNat then .firstSlash else .any)
  | .firstSlash => some (if cellIsChar c '/'.toNat then .secondSlash else .any)
  | .secondSlash =>
    if cellIsChar c ':'.toNat then none
    else some (if cellIsChar c '/'.toNat then .secondSlash else .any)

/-- The `do ... while (pos >= limit)` loop of `find_colon_slash(self, x, limit)`
from `pos` down, with one pass of fuel per column. -/
def findColonSlashLoop (E : Env) (l : Line) (x limit : ℕ) : ℕ → ℕ → UrlParserState → ℕ
  | 0, _, _ => 0
  | fuel + 1, pos, st =>
    if hostnameAt E l pos then
      match urlParserStep (l.cpuCells pos) (if pos = x then urlParserStart l pos st else st) with
      | none => pos
      | some st' => if limit ≤ pos - 1 then findColonSlashLoop E l x limit fuel (pos - 1) st' else 0
    else 0

/-- `find_colon_slash(self, x, limit)`: the column of the `:` of a `://` at or
before `x`, or 0. -/
def findColonSlash (E : Env) (l : Line) (x limit : ℕ) : ℕ :=
  let pos := min x (l.xnum - 1)
  let limit := max 2 limit
  if pos < limit then 0 else findColonSlashLoop E l x limit (pos - limit + 1) pos .any

/-- The loop of `prefix_matches` from cell `p`: each cell holds the next code
point of the prefix, and the prefix ends before the line does. -/
def prefixLoop (l : Line) : ℕ → List ℕ → Bool
  | _, [] => true
  | p, ch :: rest => p < l.xnum && cellIsChar (l.cpuCells p) ch && prefixLoop l (p + 1) rest

/-- `prefix_matches(self, at, prefix, prefix_len)`. -/
def prefixMatches (l : Line) (pos : ℕ) (pre : List ℕ) : Bool :=
  if pre.length > pos then false else prefixLoop l (pos - pre.length) pre

/-- `has_url_prefix_at(self, at, min_prefix_len, &ans)`: the start of the
first configured prefix, in the table's order, that is at least
`min_prefix_len` long and ends at `at`. -/
def hasUrlPrefixAt (l : Line) (prefixes : List (List ℕ)) (pos minPrefixLen : ℕ) : Option ℕ :=
  (prefixes.find? fun pre =>
    !(pos < pre.length || pre.length < minPrefixLen) && prefixMatches l pos pre).map
    fun pre => pos - pre.length

/-- The loop of `has_url_beyond_colon_slash` from cell `i`, `k` slashes seen:
hostname cells until the third lone `/`, URL cells after. -/
def urlBeyondLoop (E : Env) (l : Line) (stop : ℕ) : ℕ → ℕ → ℕ → Bool
  | 0, _, _ => true
  | fuel + 1, i, k =>
    if i < stop then
      let cs := (textInCell (l.cpuCells i) l.textCache).chars
      if k < 3 then
        isHostnameLc E cs && urlBeyondLoop E l stop fuel (i + 1) (if cs = ['/'.toNat] then k + 1 else k)
      else isUrlLc E cs && urlBeyondLoop E l stop fuel (i + 1) k
    else true

/-- `has_url_beyond_colon_slash(self, x)`: the `MIN_URL_LEN + 3` cells from
`x` on (or up to the end of the line). -/
def hasUrlBeyondColonSlash (E : Env) (l : Line) (x : ℕ) : Bool :=
  urlBeyondLoop E l (min (x + minUrlLen + 3) l.xnum) (minUrlLen + 3) x 0

/-- Modelled from the spec: `max_prefix_len`, the summary of the prefix table,
the length of its longest prefix (§4.3). -/
def maxPrefixLen (prefixes : List (List ℕ)) : ℕ := (prefixes.map List.length).foldr max 0

/-- The first search of `line_url_start_at`, from `x + max_prefix_len + 3`
down to `x - 2`: the start of a prefix at least long enough to reach back to
`x`. -/
def urlStartAhead (E : Env) (prefixes : List (List ℕ)) (l : Line) (x : ℕ) : Option ℕ :=
  let ds := findColonSlash E l (x + maxPrefixLen prefixes + 3) (if x < 2 then 0 else x - 2)
  if ds ≠ 0 ∧ hasUrlBeyondColonSlash E l ds then
    hasUrlPrefixAt l prefixes ds (if ds > x then ds - x else 0)
  else none

/-- The second search of `line_url_start_at`, from `x` down: the start of any
prefix, or `xnum`. -/
def urlStartBehind (E : Env) (prefixes : List (List ℕ)) (l : Line) (x : ℕ) : ℕ :=
  let ds := findColonSlash E l x 0
  if ds = 0 ∨ l.xnum < ds + minUrlLen + 3 ∨ !hasUrlBeyondColonSlash E l ds then l.xnum
  else (hasUrlPrefixAt l prefixes ds 0).getD l.xnum

/-- `line_url_start_at(self, x)`: the column a URL around `x` starts at, or
`xnum`. -/
def lineUrlStartAt (E : Env) (prefixes : List (List ℕ)) (l : Line) (x : ℕ) : ℕ :=
  if x ≥ l.xnum ∨ l.xnum ≤ minUrlLen + 3 then l.xnum
  else (urlStartAhead E prefixes l x).getD (urlStartBehind E prefixes l x)

/-- `url_start_at(x)`: the column as `PyLong_AsUnsignedLong` reads it,
converted to `index_type`, 32 bits. -/
def urlStartAt (E : Env) (prefixes : List (List ℕ)) (l : Line) (x : ℕ) : ℕ :=
  lineUrlStartAt E prefixes l (x % 2 ^ 32)

/-- The prefix table of the `url_prefixes` option's words. -/
def prefixTable (words : List String) : List (List ℕ) := words.map fun w => w.toList.map Char.toNat

/-! ### The recognizer -/

/-- A `://` starts at column `p`, inside the line. -/
def colonSlashAt (l : Line) (p : ℕ) : Bool :=
  decide (p + 2 < l.xnum) && cellIsChar (l.cpuCells p) ':'.toNat &&
    cellIsChar (l.cpuCells (p + 1)) '/'.toNat && cellIsChar (l.cpuCells (p + 2)) '/'.toNat

/-- What the state before cell `pos` says of the cells after it. -/
def UrlParserState.Sound (l : Line) (pos : ℕ) : UrlParserState → Prop
  | .any => True
  | .firstSlash => pos + 1 < l.xnum ∧ cellIsChar (l.cpuCells (pos + 1)) '/'.toNat
  | .secondSlash => pos + 2 < l.xnum ∧ cellIsChar (l.cpuCells (pos + 1)) '/'.toNat ∧
      cellIsChar (l.cpuCells (pos + 2)) '/'.toNat

theorem UrlParserState.Sound.slash {l : Line} {pos : ℕ} {st : UrlParserState} (h : st.Sound l pos)
    (hst : st ≠ .any) : pos + 1 < l.xnum ∧ cellIsChar (l.cpuCells (pos + 1)) '/'.toNat := by
  cases st with
  | any => exact absurd rfl hst
  | firstSlash => exact h
  | secondSlash => exact ⟨Nat.lt_of_succ_lt h.1, h.2.1⟩

theorem urlParserStart_sound {l : Line} {pos : ℕ} {st : UrlParserState} (h : st.Sound l pos) :
    (urlParserStart l pos st).Sound l pos := by
  unfold urlParserStart
  split_ifs with _ h2 _ h4
  · exact h2
  · exact h
  · exact h4
  · exact h
  · exact h

theorem urlParserStart_ite_sound {l : Line} {pos x : ℕ} {st : UrlParserState} (h : st.Sound l pos) :
    (if pos = x then urlParserStart l pos st else st).Sound l pos := by
  split
  · exact urlParserStart_sound h
  · exact h

theorem urlParserStep_eq_none {c : CPUCell} {st : UrlParserState} (h : urlParserStep c st = none) :
    st = .secondSlash ∧ cellIsChar c ':'.toNat := by
  cases st <;> simp only [urlParserStep] at h <;> split_ifs at h with hc
  · exact ⟨rfl, hc⟩

theorem urlParserStep_eq_some {c : CPUCell} {st st' : UrlParserState}
    (h : urlParserStep c st = some st') :
    st' = .any ∨ cellIsChar c '/'.toNat ∧ (st' = .firstSlash ∨ st ≠ .any ∧ st' = .secondSlash) := by
  cases st <;> simp only [urlParserStep] at h <;> split_ifs at h <;> cases h <;> simp_all

theorem UrlParserState.Sound.step {l : Line} {q pos : ℕ} {st st' : UrlParserState}
    (hqp : q + 1 = pos) (hq : pos < l.xnum) (hs : st.Sound l pos)
    (h : urlParserStep (l.cpuCells pos) st = some st') : st'.Sound l q := by
  subst hqp
  rcases urlParserStep_eq_some h with rfl | ⟨hc, rfl | ⟨hne, rfl⟩⟩
  · trivial
  · exact ⟨hq, hc⟩
  · exact ⟨(hs.slash hne).1, hc, (hs.slash hne).2⟩

/-- **What the backward scan finds.** A column the loop returns holds `://`,
lies in `[limit, pos]`, and every cell from it up to `pos` passed the
hostname check. -/
theorem findColonSlashLoop_sound {E : Env} {l : Line} {x limit r : ℕ} (hlim : 0 < limit) :
    ∀ {fuel pos : ℕ} {st : UrlParserState}, pos < l.xnum → limit ≤ pos → st.Sound l pos →
      findColonSlashLoop E l x limit fuel pos st = r → r ≠ 0 →
      colonSlashAt l r ∧ limit ≤ r ∧ r ≤ pos ∧ ∀ i, r ≤ i → i ≤ pos → hostnameAt E l i
  | 0, _, _, _, _, _, h, hr => absurd h.symm hr
  | fuel + 1, pos, st, hpos, hlp, hs, h, hr => by
    simp only [findColonSlashLoop] at h
    by_cases hh : hostnameAt E l pos = true
    swap
    · rw [if_neg hh] at h
      exact absurd h.symm hr
    rw [if_pos hh] at h
    have hs' := urlParserStart_ite_sound (x := x) hs
    cases hc : urlParserStep (l.cpuCells pos) (if pos = x then urlParserStart l pos st else st) with
    | none =>
      rw [hc] at h
      dsimp only at h
      subst h
      obtain ⟨h2, hcol⟩ := urlParserStep_eq_none hc
      rw [h2] at hs'
      refine ⟨?_, hlp, le_rfl, fun i h1 h2 => by rwa [show i = pos by omega]⟩
      simp only [colonSlashAt, hs'.1, hcol, hs'.2.1, hs'.2.2, decide_True, Bool.and_self]
    | some st' =>
      rw [hc] at h
      dsimp only at h
      by_cases hl : limit ≤ pos - 1
      swap
      · rw [if_neg hl] at h
        exact absurd h.symm hr
      rw [if_pos hl] at h
      obtain ⟨hcs, hlr, hrp, hhost⟩ :=
        findColonSlashLoop_sound hlim (by omega) hl (hs'.step (by omega) hpos hc) h hr
      refine ⟨hcs, hlr, by omega, fun i h1 h2 => ?_⟩
      rcases Nat.lt_or_ge i pos with h3 | h3
      · exact hhost i h1 (by omega)
      · rwa [show i = pos by omega]

theorem urlParserStep_of_slash {c : CPUCell} {st : UrlParserState} (hc : cellIsChar c '/'.toNat) :
    urlParserStep c st = some (if st = .any then .firstSlash else .secondSlash) := by
  have hn : cellIsChar c ':'.toNat = false := cellIsChar_eq_false_of_ne hc (by decide)
  cases st <;> simp only [urlParserStep, hc, hn, if_true, if_false, reduceCtorEq, Bool.false_eq_true]

theorem urlParserStep_of_colon {c : CPUCell} (hc : cellIsChar c ':'.toNat) :
    urlParserStep c .secondSlash = none := by
  simp only [urlParserStep, hc, if_true]

theorem colonSlashAt_iff {l : Line} {p : ℕ} :
    colonSlashAt l p ↔ p + 2 < l.xnum ∧ cellIsChar (l.cpuCells p) ':'.toNat ∧
      cellIsChar (l.cpuCells (p + 1)) '/'.toNat ∧ cellIsChar (l.cpuCells (p + 2)) '/'.toNat := by
  simp only [colonSlashAt, Bool.and_eq_true, decide_eq_true_eq, and_assoc]

/-- The scan from `pos` in state `st` is on course for the `://` at `p`:
`p` lies two cells below or more, or one below in a slash state, or at `pos`
in `SECOND_SLASH`. -/
def UrlParserState.ReadyFor (p pos : ℕ) (st : UrlParserState) : Prop :=
  p + 2 ≤ pos ∨ (p + 1 = pos ∧ st ≠ .any) ∨ (p = pos ∧ st = .secondSlash)

theorem UrlParserState.ReadyFor.step {l : Line} {p pos : ℕ} {st st' : UrlParserState}
    (hp : colonSlashAt l p) (hr : st.ReadyFor p pos) (hlt : p < pos)
    (h : urlParserStep (l.cpuCells pos) st = some st') : st'.ReadyFor p (pos - 1) := by
  obtain ⟨-, -, hc1, hc2⟩ := colonSlashAt_iff.1 hp
  rcases hr with h2 | ⟨rfl, hne⟩ | ⟨rfl, -⟩
  · by_cases h3 : p + 2 ≤ pos - 1
    · exact .inl h3
    · obtain rfl : pos = p + 2 := by omega
      rw [urlParserStep_of_slash hc2, Option.some.injEq] at h
      subst h
      exact .inr (.inl ⟨rfl, by split <;> simp⟩)
  · rw [urlParserStep_of_slash hc1, Option.some.injEq, if_neg hne] at h
    exact .inr (.inr ⟨rfl, h.symm⟩)
  · omega

/-- **The scan does not pass a `://`.** From a state on course for the `://`
at `p`, with enough fuel and hostname cells down to `p`, the loop returns `p`
or a column above it. -/
theorem findColonSlashLoop_complete {E : Env} {l : Line} {x limit p : ℕ} (hp : colonSlashAt l p)
    (hlp : limit ≤ p) :
    ∀ {fuel pos : ℕ} {st : UrlParserState}, pos - limit < fuel → p ≤ pos → pos ≤ x →
      (∀ i, p ≤ i → i ≤ pos → hostnameAt E l i) →
      (if pos = x then urlParserStart l pos st else st).ReadyFor p pos →
      p ≤ findColonSlashLoop E l x limit fuel pos st
  | 0, _, _, hf, _, _, _, _ => absurd hf (Nat.not_lt_zero _)
  | fuel + 1, pos, st, hf, hpp, hpx, hhost, hready => by
    simp only [findColonSlashLoop, if_pos (hhost pos hpp le_rfl)]
    generalize (if pos = x then urlParserStart l pos st else st) = st₀ at hready ⊢
    cases hc : urlParserStep (l.cpuCells pos) st₀ with
    | none => exact hpp
    | some st' =>
      dsimp only
      have hlt : p < pos := by
        rcases hready with h2 | ⟨h1, -⟩ | ⟨rfl, rfl⟩
        · omega
        · omega
        · rw [urlParserStep_of_colon (colonSlashAt_iff.1 hp).2.1] at hc
          cases hc
      rw [if_pos (by omega)]
      refine findColonSlashLoop_complete hp hlp (by omega) (by omega) (by omega)
        (fun i h1 h2 => hhost i h1 (by omega)) ?_
      rw [if_neg (by omega)]
      exact hready.step hp hlt hc

theorem readyFor_start {l : Line} {p pos x : ℕ} (hp : colonSlashAt l p) (hpp : p ≤ pos)
    (hpx : pos ≠ x → p + 2 ≤ pos) :
    (if pos = x then urlParserStart l pos .any else .any).ReadyFor p pos := by
  obtain ⟨h2, hc0, hc1, hc2⟩ := colonSlashAt_iff.1 hp
  by_cases hx : pos = x
  · rw [if_pos hx]
    by_cases h3 : p + 2 ≤ pos
    · exact .inl h3
    · unfold urlParserStart
      rcases (by omega : pos = p + 1 ∨ pos = p) with rfl | rfl
      · have hn : cellIsChar (l.cpuCells (p + 1)) ':'.toNat = false :=
          cellIsChar_eq_false_of_ne hc1 (by decide)
        rw [if_neg (by rw [hn]; exact Bool.false_ne_true), if_pos hc1, if_pos ⟨h2, hc2⟩]
        exact .inr (.inl ⟨rfl, by decide⟩)
      · rw [if_pos hc0, if_pos ⟨h2, hc1, hc2⟩]
        exact .inr (.inr ⟨rfl, rfl⟩)
  · rw [if_neg hx]
    exact .inl (hpx hx)

/-- **`find_colon_slash` is sound.** A nonzero result holds `://`, lies
between `max 2 limit` and `min x (xnum - 1)`, and every cell from it up to
`min x (xnum - 1)` passed the hostname check. -/
theorem findColonSlash_sound {E : Env} {l : Line} {x limit r : ℕ}
    (h : findColonSlash E l x limit = r) (hr : r ≠ 0) :
    colonSlashAt l r ∧ max 2 limit ≤ r ∧ r ≤ min x (l.xnum - 1) ∧
      ∀ i, r ≤ i → i ≤ min x (l.xnum - 1) → hostnameAt E l i := by
  unfold findColonSlash at h
  dsimp only at h
  split_ifs at h with hlt
  · exact absurd h.symm hr
  · exact findColonSlashLoop_sound (by omega) (by omega) (by omega)
      (show UrlParserState.any.Sound l _ from trivial) h hr

/-- **`find_colon_slash` is complete.** A `://` in its range whose cells up to
`min x (xnum - 1)` are hostname cells is found, or one above it is. -/
theorem findColonSlash_complete {E : Env} {l : Line} {x limit p : ℕ} (hp : colonSlashAt l p)
    (hlp : max 2 limit ≤ p) (hpx : p ≤ min x (l.xnum - 1))
    (hhost : ∀ i, p ≤ i → i ≤ min x (l.xnum - 1) → hostnameAt E l i) :
    p ≤ findColonSlash E l x limit := by
  have h2 := (colonSlashAt_iff.1 hp).1
  unfold findColonSlash
  rw [if_neg (by omega)]
  exact findColonSlashLoop_complete hp (by omega) (by omega) hpx (by omega) hhost
    (readyFor_start hp hpx (by omega))

theorem findColonSlash_eq_of_le {E : Env} {l : Line} {x limit r p : ℕ}
    (h : findColonSlash E l x limit = r) (hr : r ≠ 0) (hp : colonSlashAt l p) (hrp : r ≤ p)
    (hpx : p ≤ min x (l.xnum - 1)) : r = p := by
  obtain ⟨-, hlr, -, hhost⟩ := findColonSlash_sound h hr
  have : p ≤ findColonSlash E l x limit :=
    findColonSlash_complete hp (by omega) hpx fun i h1 h2 => hhost i (by omega) h2
  omega

/-! ### Prefixes -/

theorem prefixLoop_iff {l : Line} : ∀ {p : ℕ} {pre : List ℕ}, prefixLoop l p pre = true ↔
    ∀ i < pre.length, p + i < l.xnum ∧ cellIsChar (l.cpuCells (p + i)) (pre.getD i 0)
  | p, [] => by simp [prefixLoop]
  | p, ch :: rest => by
    simp only [prefixLoop, Bool.and_eq_true, decide_eq_true_eq, prefixLoop_iff, List.length_cons]
    constructor
    · rintro ⟨⟨h1, h2⟩, h3⟩ i hi
      cases i with
      | zero => exact ⟨h1, h2⟩
      | succ i => simpa [Nat.add_right_comm, Nat.add_assoc] using h3 i (by omega)
    · intro h
      refine ⟨h 0 (by omega), fun i hi => ?_⟩
      simpa [Nat.add_right_comm, Nat.add_assoc] using h (i + 1) (by omega)

/-- What `has_url_prefix_at` returns: the start `t` of a prefix of the table,
at least `min_prefix_len` long, spelled by the cells from `t` up to `at`. -/
theorem hasUrlPrefixAt_eq_some {l : Line} {ps : List (List ℕ)} {pos m t : ℕ}
    (h : hasUrlPrefixAt l ps pos m = some t) :
    ∃ P ∈ ps, m ≤ P.length ∧ t + P.length = pos ∧
      ∀ i < P.length, cellIsChar (l.cpuCells (t + i)) (P.getD i 0) := by
  unfold hasUrlPrefixAt at h
  obtain ⟨P, hf, rfl⟩ := Option.map_eq_some'.1 h
  have hp := List.find?_some hf
  simp only [Bool.and_eq_true, Bool.not_eq_true', Bool.or_eq_false_iff, decide_eq_false_iff_not,
    not_lt, prefixMatches] at hp
  obtain ⟨⟨h1, h2⟩, h3⟩ := hp
  rw [if_neg (by omega)] at h3
  exact ⟨P, List.mem_of_find?_eq_some hf, h2, by omega, fun i hi => (prefixLoop_iff.1 h3 i hi).2⟩

/-! ### `line_url_start_at` -/

/-- **What `line_url_start_at` found.** A result `s` other than `xnum` comes
from a `://` at `p`, found by the search ahead, or by the search behind with
`MIN_URL_LEN + 3` cells from `p` inside the line; the first prefix of the
table that ends at `p` and is long enough starts at `s`. -/
theorem lineUrlStartAt_found {E : Env} {ps : List (List ℕ)} {l : Line} {x s : ℕ}
    (h : lineUrlStartAt E ps l x = s) (hs : s ≠ l.xnum) :
    x < l.xnum ∧ minUrlLen + 3 < l.xnum ∧ ∃ p, p ≠ 0 ∧ hasUrlBeyondColonSlash E l p ∧
      ((findColonSlash E l (x + maxPrefixLen ps + 3) (if x < 2 then 0 else x - 2) = p ∧
          hasUrlPrefixAt l ps p (if p > x then p - x else 0) = some s) ∨
        (findColonSlash E l x 0 = p ∧ p + minUrlLen + 3 ≤ l.xnum ∧
          hasUrlPrefixAt l ps p 0 = some s)) := by
  unfold lineUrlStartAt at h
  split_ifs at h with h0
  · exact absurd h.symm hs
  refine ⟨by omega, by omega, ?_⟩
  cases ha : urlStartAhead E ps l x with
  | some t =>
    rw [ha, Option.getD_some] at h
    subst h
    unfold urlStartAhead at ha
    generalize findColonSlash E l (x + maxPrefixLen ps + 3) (if x < 2 then 0 else x - 2) = ds at ha ⊢
    by_cases hd : ds ≠ 0 ∧ hasUrlBeyondColonSlash E l ds = true
    · rw [if_pos hd] at ha
      exact ⟨ds, hd.1, hd.2, .inl ⟨rfl, ha⟩⟩
    · rw [if_neg hd] at ha
      cases ha
  | none =>
    rw [ha, Option.getD_none] at h
    unfold urlStartBehind at h
    dsimp only at h
    split_ifs at h with hb
    · exact absurd h.symm hs
    cases hp : hasUrlPrefixAt l ps (findColonSlash E l x 0) 0 with
    | none =>
      rw [hp, Option.getD_none] at h
      exact absurd h.symm hs
    | some t =>
      rw [hp, Option.getD_some] at h
      subst h
      simp only [not_or, not_lt, Bool.not_eq_true', Bool.not_eq_false] at hb
      exact ⟨_, hb.1, hb.2.2, .inr ⟨rfl, hb.2.1, hp⟩⟩

/-- A URL of the table starts at column `s`: the cells from `s` spell a prefix
`P` of the table, one plain code point each, and `://` follows at `s + |P|`,
where `has_url_beyond_colon_slash` accepts. -/
structure UrlAt (E : Env) (ps : List (List ℕ)) (l : Line) (s : ℕ) (P : List ℕ) : Prop where
  mem : P ∈ ps
  spells : ∀ i < P.length, cellIsChar (l.cpuCells (s + i)) (P.getD i 0)
  colonSlash : colonSlashAt l (s + P.length)
  beyond : hasUrlBeyondColonSlash E l (s + P.length)

theorem urlAt_of_found {E : Env} {ps : List (List ℕ)} {l : Line} {X lim p m s : ℕ}
    (hf : findColonSlash E l X lim = p) (hp : p ≠ 0) (hb : hasUrlBeyondColonSlash E l p)
    (hpre : hasUrlPrefixAt l ps p m = some s) :
    ∃ P, UrlAt E ps l s P ∧ s + P.length = p ∧ m ≤ P.length ∧ p ≤ min X (l.xnum - 1) ∧
      ∀ i, p ≤ i → i ≤ min X (l.xnum - 1) → hostnameAt E l i := by
  obtain ⟨hcs, -, hpX, hhost⟩ := findColonSlash_sound hf hp
  obtain ⟨P, hmem, hm, hsp, hspell⟩ := hasUrlPrefixAt_eq_some hpre
  subst hsp
  exact ⟨P, ⟨hmem, hspell, hcs, hb⟩, rfl, hm, hpX, hhost⟩

/-- **A URL start is a URL.** When `line_url_start_at(x)` returns `s ≠ xnum`,
`s ≤ x`, the cells from `s` spell a configured prefix `P` followed by `://`
that `has_url_beyond_colon_slash` accepts, and every cell from the `:` through
`x` is a hostname cell. -/
theorem lineUrlStartAt_sound {E : Env} {ps : List (List ℕ)} {l : Line} {x s : ℕ}
    (h : lineUrlStartAt E ps l x = s) (hs : s ≠ l.xnum) :
    s ≤ x ∧ ∃ P, UrlAt E ps l s P ∧ ∀ i, s + P.length ≤ i → i ≤ x → hostnameAt E l i := by
  obtain ⟨hx, -, p, hp, hb, ⟨hf, hpre⟩ | ⟨hf, -, hpre⟩⟩ := lineUrlStartAt_found h hs
  · obtain ⟨P, hu, hsp, hm, -, hhost⟩ := urlAt_of_found hf hp hb hpre
    refine ⟨?_, P, hu, fun i h1 h2 => hhost i (by omega) (by omega)⟩
    split_ifs at hm <;> omega
  · obtain ⟨P, hu, hsp, -, hpx, hhost⟩ := urlAt_of_found hf hp hb hpre
    exact ⟨by omega, P, hu, fun i h1 h2 => hhost i (by omega) (by omega)⟩

theorem lineUrlStartAt_sound_visit :
    6 ≤ 12 ∧ ∃ P, UrlAt Env.sample (prefixTable ["http", "https"])
      (Line.ofString "visit https://example.com/x now") 6 P ∧ ∀ i, 6 + P.length ≤ i → i ≤ 12 →
        hostnameAt Env.sample (Line.ofString "visit https://example.com/x now") i :=
  lineUrlStartAt_sound (by decide) (by decide)

theorem length_le_maxPrefixLen {ps : List (List ℕ)} {P : List ℕ} (h : P ∈ ps) :
    P.length ≤ maxPrefixLen ps := by
  induction ps with
  | nil => cases h
  | cons Q ps ih =>
    simp only [maxPrefixLen, List.map_cons, List.foldr_cons] at ih ⊢
    rcases List.mem_cons.1 h with rfl | h
    · exact le_max_left _ _
    · exact (ih h).trans (le_max_right _ _)

theorem findColonSlash_eq_of_no_colon {E : Env} {l : Line} {X lim r p : ℕ}
    (h : findColonSlash E l X lim = r) (hr : r ≠ 0) (hp : colonSlashAt l p)
    (hpX : p ≤ min X (l.xnum - 1)) (hno : ∀ q < X + 1, p < q → colonSlashAt l q = false) : r = p := by
  obtain ⟨hcs, -, hrX, -⟩ := findColonSlash_sound h hr
  refine findColonSlash_eq_of_le h hr hp ?_ hpX
  by_contra hlt
  rw [hno r (by omega) (by omega)] at hcs
  cases hcs

theorem lineUrlStartAt_of_ahead {E : Env} {ps : List (List ℕ)} {l : Line} {y p s : ℕ}
    (hy : y < l.xnum) (h8 : minUrlLen + 3 < l.xnum)
    (hf : findColonSlash E l (y + maxPrefixLen ps + 3) (if y < 2 then 0 else y - 2) = p)
    (hp : p ≠ 0) (hpy : p ≤ y) (hb : hasUrlBeyondColonSlash E l p)
    (hpre : hasUrlPrefixAt l ps p 0 = some s) : lineUrlStartAt E ps l y = s := by
  unfold lineUrlStartAt urlStartAhead
  rw [if_neg (by omega), hf, if_pos ⟨hp, hb⟩, if_neg (by omega), hpre, Option.getD_some]

theorem lineUrlStartAt_of_behind {E : Env} {ps : List (List ℕ)} {l : Line} {y p s : ℕ}
    (hy : y < l.xnum) (h8 : minUrlLen + 3 < l.xnum)
    (hf0 : findColonSlash E l (y + maxPrefixLen ps + 3) (if y < 2 then 0 else y - 2) = 0)
    (hf : findColonSlash E l y 0 = p) (hp : p ≠ 0) (hroom : p + minUrlLen + 3 ≤ l.xnum)
    (hb : hasUrlBeyondColonSlash E l p) (hpre : hasUrlPrefixAt l ps p 0 = some s) :
    lineUrlStartAt E ps l y = s := by
  unfold lineUrlStartAt urlStartAhead urlStartBehind
  have hc : ¬(p = 0 ∨ l.xnum < p + minUrlLen + 3 ∨ (!hasUrlBeyondColonSlash E l p) = true) := by
    simp only [hb, Bool.not_true, Bool.false_eq_true, or_false, not_or, not_lt]
    exact ⟨hp, hroom⟩
  simp only [hf0, hf, ne_eq, not_true_eq_false, false_and, if_false, Option.getD_none]
  rw [if_neg (by omega), if_neg hc, hpre, Option.getD_some]

/-- **URL starts agree over the URL's hostname.** Let `line_url_start_at(x)`
return `s ≠ xnum` and let `p ≥ s` hold a `://`. For every `y` from `p` to `x`
before which no other `://` begins up to `y + max_prefix_len + 3`,
`line_url_start_at(y) = s`. -/
theorem lineUrlStartAt_eq_of_colon_le {E : Env} {ps : List (List ℕ)} {l : Line} {x s p y : ℕ}
    (h : lineUrlStartAt E ps l x = s) (hs : s ≠ l.xnum) (hp : colonSlashAt l p) (hsp : s ≤ p)
    (hpy : p ≤ y) (hyx : y ≤ x)
    (hno : ∀ q < y + maxPrefixLen ps + 4, p < q → colonSlashAt l q = false) :
    lineUrlStartAt E ps l y = s := by
  obtain ⟨hx, h8, p₀, hp₀, hb, hpath⟩ := lineUrlStartAt_found h hs
  -- the `://` the search from `x` used is the one at `p`
  have hcolon : ∀ {X lim m}, findColonSlash E l X lim = p₀ → hasUrlPrefixAt l ps p₀ m = some s →
      x ≤ X → p₀ = p := by
    intro X lim m hf hpre hxX
    obtain ⟨P, hu, hsp₀, -, -, -⟩ := urlAt_of_found hf hp₀ hb hpre
    have hP := length_le_maxPrefixLen hu.mem
    refine findColonSlash_eq_of_le hf hp₀ hp ?_ (by omega)
    by_contra hlt
    have hc := hu.colonSlash
    rw [hsp₀, hno p₀ (by omega) (by omega)] at hc
    cases hc
  have hno' : ∀ q < y + 1, p < q → colonSlashAt l q = false := fun q hq => hno q (by omega)
  have hyp : findColonSlash E l (y + maxPrefixLen ps + 3) (if y < 2 then 0 else y - 2) ≠ 0 →
      findColonSlash E l (y + maxPrefixLen ps + 3) (if y < 2 then 0 else y - 2) = p :=
    fun hne => findColonSlash_eq_of_no_colon rfl hne hp (by omega) hno
  rcases hpath with ⟨hf, hpre⟩ | ⟨hf, hroom, hpre⟩
  · -- found ahead of `x`: the search ahead of `y` reaches the same `://`
    obtain rfl := hcolon hf hpre (by omega)
    rw [if_neg (by omega)] at hpre
    obtain ⟨-, hlim, hpX, hhost⟩ := findColonSlash_sound hf hp₀
    have hge : p₀ ≤ findColonSlash E l (y + maxPrefixLen ps + 3) (if y < 2 then 0 else y - 2) :=
      findColonSlash_complete hp (by split_ifs at hlim ⊢ <;> omega) (by omega)
        (fun i h1 h2 => hhost i h1 (by omega))
    exact lineUrlStartAt_of_ahead (by omega) h8 (hyp (by omega)) hp₀ hpy hb hpre
  · -- found behind `x`: the search from `y` finds it ahead or behind
    obtain rfl := hcolon hf hpre le_rfl
    by_cases h0 : findColonSlash E l (y + maxPrefixLen ps + 3) (if y < 2 then 0 else y - 2) = 0
    · obtain ⟨-, hlim, -, hhost⟩ := findColonSlash_sound hf hp₀
      have hge : p₀ ≤ findColonSlash E l y 0 :=
        findColonSlash_complete hp (by omega) (by omega) (fun i h1 h2 => hhost i h1 (by omega))
      exact lineUrlStartAt_of_behind (by omega) h8 h0
        (findColonSlash_eq_of_no_colon rfl (by omega) hp (by omega) hno') hp₀ hroom hb hpre
    · exact lineUrlStartAt_of_ahead (by omega) h8 (hyp h0) hp₀ hpy hb hpre

theorem lineUrlStartAt_eq_of_colon_le_http :
    lineUrlStartAt Env.sample (prefixTable ["http", "mailto"]) (Line.ofString "http://aaaaa bbb") 6 = 0 :=
  lineUrlStartAt_eq_of_colon_le (x := 8) (p := 4) (by decide) (by decide) (by decide) (by decide)
    (by decide) (by decide) (by decide)

/-- The start found from a column depends on the column within one URL: in
`http://aaaaa bbb`, column 4 (the `:`) finds the URL at 0 but column 3, on the
prefix, finds none, since its search ahead stops at the space and its search
behind starts before the `:`; in `http://http://aaaaa aaaa`, column 10 finds
the URL at 0 but column 7 the second `http` at 7. -/
theorem lineUrlStartAt_differs_within_url :
    (lineUrlStartAt Env.sample (prefixTable ["http", "mailto"]) (Line.ofString "http://aaaaa bbb") 4 = 0 ∧
      lineUrlStartAt Env.sample (prefixTable ["http", "mailto"]) (Line.ofString "http://aaaaa bbb") 3 = 16) ∧
    (lineUrlStartAt Env.sample (prefixTable ["http", "mailto"])
        (Line.ofString "http://http://aaaaa aaaa") 10 = 0 ∧
      lineUrlStartAt Env.sample (prefixTable ["http", "mailto"])
        (Line.ofString "http://http://aaaaa aaaa") 7 = 7) := by
  decide

/-! ### The order of the prefix table -/

theorem prefixMatches_iff {l : Line} {pos : ℕ} {pre : List ℕ} :
    prefixMatches l pos pre = true ↔ pre.length ≤ pos ∧
      ∀ i < pre.length, pos - pre.length + i < l.xnum ∧
        cellIsChar (l.cpuCells (pos - pre.length + i)) (pre.getD i 0) := by
  unfold prefixMatches
  split_ifs with h
  · simp only [Bool.false_eq_true, false_iff, not_and]
    intro h'
    omega
  · rw [prefixLoop_iff]
    exact ⟨fun h' => ⟨by omega, h'⟩, fun h' => h'.2⟩

theorem isSuffix_of_prefixMatches {l : Line} {pos : ℕ} {P Q : List ℕ}
    (hP : prefixMatches l pos P) (hQ : prefixMatches l pos Q) (hle : P.length ≤ Q.length) :
    P <:+ Q := by
  obtain ⟨hPp, hPc⟩ := prefixMatches_iff.1 hP
  obtain ⟨hQp, hQc⟩ := prefixMatches_iff.1 hQ
  have hdrop : P = Q.drop (Q.length - P.length) := by
    refine List.ext_getElem (by simp only [List.length_drop]; omega) fun i h1 h2 => ?_
    have e1 := (cellIsChar_eq_true.1 (hPc i h1).2).2
    have e2 := (cellIsChar_eq_true.1 (hQc (Q.length - P.length + i) (by omega)).2).2
    rw [show pos - Q.length + (Q.length - P.length + i) = pos - P.length + i by omega, e1] at e2
    rw [List.getElem_drop, ← List.getD_eq_getElem P 0 h1, e2, List.getD_eq_getElem Q 0 (by omega)]
  rw [hdrop]
  exact List.drop_suffix _ _

theorem find?_map_eq_of_perm {α β : Type} {p : α → Bool} {f : α → β} {l₁ l₂ : List α}
    (hl : l₁.Perm l₂) (hf : ∀ a ∈ l₁, ∀ b ∈ l₁, p a → p b → f a = f b) :
    (l₁.find? p).map f = (l₂.find? p).map f := by
  cases h₁ : l₁.find? p with
  | none =>
    rw [List.find?_eq_none.2 fun b hb => List.find?_eq_none.1 h₁ b (hl.symm.mem_iff.1 hb)]
  | some a =>
    have ha := List.mem_of_find?_eq_some h₁
    cases h₂ : l₂.find? p with
    | none => exact absurd (List.find?_some h₁) (List.find?_eq_none.1 h₂ a (hl.mem_iff.1 ha))
    | some b =>
      exact congrArg some (hf a ha b (hl.mem_iff.2 (List.mem_of_find?_eq_some h₂))
        (List.find?_some h₁) (List.find?_some h₂))

theorem maxPrefixLen_perm {ps qs : List (List ℕ)} (h : ps.Perm qs) :
    maxPrefixLen ps = maxPrefixLen qs :=
  (h.map List.length).foldr_eq' (fun _ _ _ _ _ => by omega) 0

/-- In a table where no prefix is a proper suffix of another,
`has_url_prefix_at` does not depend on the table's order. -/
theorem hasUrlPrefixAt_perm {l : Line} {ps qs : List (List ℕ)} {pos m : ℕ} (h : ps.Perm qs)
    (hsuf : ∀ P ∈ ps, ∀ Q ∈ ps, P <:+ Q → P = Q) :
    hasUrlPrefixAt l ps pos m = hasUrlPrefixAt l qs pos m := by
  refine find?_map_eq_of_perm h fun P hP Q hQ hpP hpQ => ?_
  simp only [Bool.and_eq_true] at hpP hpQ
  rcases le_total P.length Q.length with hle | hle
  · rw [hsuf P hP Q hQ (isSuffix_of_prefixMatches hpP.2 hpQ.2 hle)]
  · rw [hsuf Q hQ P hP (isSuffix_of_prefixMatches hpQ.2 hpP.2 hle)]

/-- **The order of a suffix-free table does not matter.** Two tables with the
same prefixes in any order, no prefix a proper suffix of another, give
`line_url_start_at` the same result everywhere. -/
theorem lineUrlStartAt_perm {E : Env} {l : Line} {ps qs : List (List ℕ)} (h : ps.Perm qs)
    (hsuf : ∀ P ∈ ps, ∀ Q ∈ ps, P <:+ Q → P = Q) (x : ℕ) :
    lineUrlStartAt E ps l x = lineUrlStartAt E qs l x := by
  simp only [lineUrlStartAt, urlStartAhead, urlStartBehind, maxPrefixLen_perm h,
    hasUrlPrefixAt_perm (l := l) h hsuf]

theorem lineUrlStartAt_perm_sftp :
    lineUrlStartAt Env.sample (prefixTable ["sftp", "https"]) (Line.ofString "sftp://abcdefgh") 4 =
      lineUrlStartAt Env.sample (prefixTable ["https", "sftp"]) (Line.ofString "sftp://abcdefgh") 4 :=
  lineUrlStartAt_perm (by decide) (by decide) 4

/-- The order of a table with a prefix that is a suffix of another matters:
at the `:` of `sftp://abcdefgh`, the table `ftp, sftp` gives 1 and
`sftp, ftp` gives 0. -/
theorem lineUrlStartAt_table_order :
    (prefixTable ["ftp", "sftp"]).Perm (prefixTable ["sftp", "ftp"]) ∧
    lineUrlStartAt Env.sample (prefixTable ["ftp", "sftp"]) (Line.ofString "sftp://abcdefgh") 4 = 1 ∧
    lineUrlStartAt Env.sample (prefixTable ["sftp", "ftp"]) (Line.ofString "sftp://abcdefgh") 4 = 0 := by
  decide

end KittyLine
