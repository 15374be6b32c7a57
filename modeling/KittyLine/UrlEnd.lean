/-
# Where a URL ends

`line_url_end_at(x)` scans forward from `x` while the cells pass the scan
condition (inside the line, not the sentinel, a hostname cell up to
`last_hostname_char_pos` when `in_hostname` is set and a URL cell otherwise),
steps back to the last passing cell, and strips trailing cells that
`can_strip_from_end_of_url` accepts, unless the run reaches the end of the
line and the next line goes on with URL characters.

When the scan condition holds at `x`, the result is the end of the run,
stripped, and never below `x` (`lineUrlEndAt_of_scanOk`). When it fails at
`x`, the scan does not move, and `if (ans) ans--` still steps back: the result
is `x - 1`, where `url_end_at` documents 0 for "not found"
(`urlEndAt_fails_at_space`).

Key definitions: `isPosOkForUrl`, `urlScanOk`, `lineUrlEndAt`, `urlEndAt`.
Key theorems: `lineUrlEndAt_of_scanOk`, `lineUrlEndAt_of_not_scanOk`.
-/
import KittyLine.UrlStart

namespace KittyLine

/-- `is_pos_ok_for_url(self, x, in_hostname, last_hostname_char_pos, lc)`. -/
def isPosOkForUrl (E : Env) (l : Line) (x : ℕ) (inHostname : Bool) (lastHostnameCharPos : ℕ) : Bool :=
  if x ≥ l.xnum then false
  else
    let lc := (textInCell (l.cpuCells x) l.textCache).chars
    if inHostname ∧ x ≤ lastHostnameCharPos then isHostnameLc E lc else isUrlLc E lc

/-- The condition of the scan loop of `line_url_end_at` at column `i`: not the
sentinel (when there is one), and `pos_ok(i)`. -/
def urlScanOk (E : Env) (l : Line) (sentinel : ℕ) (inHostname : Bool) (lastHostnameCharPos i : ℕ) :
    Bool :=
  (sentinel == 0 || !cellIsChar (l.cpuCells i) sentinel) &&
    isPosOkForUrl E l i inHostname lastHostnameCharPos

/-- The scan loop, `while (ans < xnum && ...) ans++;`, with fuel. -/
def urlScanLoop (E : Env) (l : Line) (sentinel : ℕ) (inHostname : Bool) (lastHostnameCharPos : ℕ) :
    ℕ → ℕ → ℕ
  | 0, ans => ans
  | fuel + 1, ans =>
    if ans < l.xnum ∧ urlScanOk E l sentinel inHostname lastHostnameCharPos ans then
      urlScanLoop E l sentinel inHostname lastHostnameCharPos fuel (ans + 1)
    else ans

/-- A cell the strip loop removes: a plain code point that
`can_strip_from_end_of_url` accepts. -/
def strippableAt (E : Env) (l : Line) (i : ℕ) : Bool :=
  !(l.cpuCells i).chIsIdx && E.canStripFromEndOfUrl (l.cpuCells i).chOrIdx

/-- The strip loop, `while (ans > x && ...) ans--;`, with fuel. -/
def urlStripLoop (E : Env) (l : Line) (x : ℕ) : ℕ → ℕ → ℕ
  | 0, ans => ans
  | fuel + 1, ans => if x < ans ∧ strippableAt E l ans then urlStripLoop E l x fuel (ans - 1) else ans

/-- `line_url_end_at(self, x, check_short, sentinel,
next_line_starts_with_url_chars, in_hostname, last_hostname_char_pos)`. -/
def lineUrlEndAt (E : Env) (l : Line) (x : ℕ) (checkShort : Bool) (sentinel : ℕ)
    (nextLineStartsWithUrlChars inHostname : Bool) (lastHostnameCharPos : ℕ) : ℕ :=
  if x ≥ l.xnum ∨ (checkShort ∧ l.xnum ≤ minUrlLen + 3) then 0
  else
    let ans := urlScanLoop E l sentinel inHostname lastHostnameCharPos (l.xnum - x) x
    let ans := if ans ≠ 0 then ans - 1 else ans
    if ans < l.xnum - 1 ∨ !nextLineStartsWithUrlChars then urlStripLoop E l x ans ans else ans

/-- `url_end_at(x, sentinel, next_line_starts_with_url_chars)`, the Python
method: "the end cell number for a URL containing x or 0 if not found". -/
def urlEndAt (E : Env) (l : Line) (x sentinel : ℕ) (nextLineStartsWithUrlChars : Bool) : ℕ :=
  lineUrlEndAt E l x true sentinel nextLineStartsWithUrlChars false l.xnum

/-- `line_startswith_url_chars(self, in_hostname)`. -/
def lineStartswithUrlChars (E : Env) (l : Line) (inHostname : Bool) : Bool :=
  let lc := (textInCell (l.cpuCells 0) l.textCache).chars
  if inHostname then isHostnameLc E lc else isUrlLc E lc

theorem lineStartswithUrlChars_eq (E : Env) (l : Line) (h : 0 < l.xnum) (inHostname : Bool) :
    lineStartswithUrlChars E l inHostname = urlScanOk E l 0 inHostname 0 0 := by
  simp [lineStartswithUrlChars, urlScanOk, isPosOkForUrl, Nat.not_le.2 h]

/-! ### The two loops -/

section
variable {E : Env} {l : Line} {sentinel : ℕ} {inHostname : Bool} {last : ℕ}

/-- **The scan stops at the end of the run.** From `ans` with every cell of
`[x, ans)` passing, the scan ends at some `f ≥ ans` inside the line, every
cell of `[x, f)` passes, and the cell at `f` fails or `f = xnum`. -/
theorem urlScanLoop_spec {x : ℕ} : ∀ {fuel ans f : ℕ}, x ≤ ans → ans ≤ l.xnum → l.xnum - ans ≤ fuel →
    (∀ i, x ≤ i → i < ans → urlScanOk E l sentinel inHostname last i) →
    urlScanLoop E l sentinel inHostname last fuel ans = f →
    ans ≤ f ∧ f ≤ l.xnum ∧ (∀ i, x ≤ i → i < f → urlScanOk E l sentinel inHostname last i) ∧
      (f < l.xnum → urlScanOk E l sentinel inHostname last f = false)
  | 0, ans, f, _, h2, h3, h4, hf => by
    simp only [urlScanLoop] at hf
    subst hf
    exact ⟨le_rfl, h2, h4, fun h => by omega⟩
  | fuel + 1, ans, f, h1, h2, h3, h4, hf => by
    simp only [urlScanLoop] at hf
    split_ifs at hf with hc
    · obtain ⟨f1, f2, f3, f4⟩ := urlScanLoop_spec (by omega) (by omega) (by omega)
        (fun i hi1 hi2 => (Nat.lt_succ_iff_lt_or_eq.1 hi2).elim (h4 i hi1) fun e => e ▸ hc.2) hf
      exact ⟨by omega, f2, f3, f4⟩
    · subst hf
      exact ⟨le_rfl, h2, h4, fun h => by simpa [h] using hc⟩

/-- **The strip loop removes strippable cells, down to `x` at most.** It ends
at `e` with `x ≤ e ≤ ans`, every cell of `(e, ans]` strippable, and `e = x` or
the cell at `e` not strippable. -/
theorem urlStripLoop_spec {x : ℕ} : ∀ {fuel ans e : ℕ}, x ≤ ans → ans - x ≤ fuel →
    urlStripLoop E l x fuel ans = e →
    x ≤ e ∧ e ≤ ans ∧ (∀ i, e < i → i ≤ ans → strippableAt E l i) ∧
      (e = x ∨ strippableAt E l e = false)
  | 0, ans, e, h1, h2, he => by
    simp only [urlStripLoop] at he
    subst he
    exact ⟨h1, le_rfl, fun i h h' => by omega, .inl (by omega)⟩
  | fuel + 1, ans, e, h1, h2, he => by
    simp only [urlStripLoop] at he
    split_ifs at he with hc
    · obtain ⟨e1, e2, e3, e4⟩ := urlStripLoop_spec (by omega) (by omega) he
      refine ⟨e1, by omega, fun i hi1 hi2 => ?_, e4⟩
      rcases Nat.lt_or_ge i ans with h | h
      · exact e3 i hi1 (by omega)
      · exact (show i = ans by omega) ▸ hc.2
    · subst he
      refine ⟨h1, le_rfl, fun i h h' => by omega, ?_⟩
      by_cases hx : ans = x
      · exact .inl hx
      · exact .inr (by simpa [show x < ans by omega] using hc)

theorem urlStripLoop_of_le {x fuel ans : ℕ} (h : ans ≤ x) : urlStripLoop E l x fuel ans = ans := by
  cases fuel with
  | zero => rfl
  | succ fuel => simp [urlStripLoop, Nat.not_lt.2 h]

end

/-! ### `line_url_end_at` -/

/-- **The end of a URL.** When `x` is inside a long enough line and its cell
passes the scan condition, the maximal passing run is `[x, f)`, and the
result `e` lies in `[x, f)`: `f - 1`, shortened by the trailing strippable
cells, not below `x`, when the run stops before the last column or the next
line does not go on with URL characters. -/
theorem lineUrlEndAt_of_scanOk (E : Env) (l : Line) {x : ℕ} {checkShort : Bool} {sentinel : ℕ}
    {next inHostname : Bool} {last e : ℕ} (hx : x < l.xnum)
    (hshort : ¬(checkShort ∧ l.xnum ≤ minUrlLen + 3))
    (hok : urlScanOk E l sentinel inHostname last x)
    (he : lineUrlEndAt E l x checkShort sentinel next inHostname last = e) :
    ∃ f, x < f ∧ f ≤ l.xnum ∧ (∀ i, x ≤ i → i < f → urlScanOk E l sentinel inHostname last i) ∧
      (f < l.xnum → urlScanOk E l sentinel inHostname last f = false) ∧
      x ≤ e ∧ e < f ∧ (∀ i, e < i → i < f → strippableAt E l i) ∧
      ((f - 1 < l.xnum - 1 ∨ next = false) → e = x ∨ strippableAt E l e = false) ∧
      (¬(f - 1 < l.xnum - 1 ∨ next = false) → e = f - 1) := by
  generalize hf : urlScanLoop E l sentinel inHostname last (l.xnum - x) x = f
  obtain ⟨f1, f2, f3, f4⟩ := urlScanLoop_spec le_rfl hx.le le_rfl
    (fun i h1 h2 => absurd h2 (by omega)) hf
  have hxf : x < f := by
    by_contra h
    have h' := f4 (by omega)
    rw [show f = x by omega, hok] at h'
    cases h'
  unfold lineUrlEndAt at he
  dsimp only at he
  rw [if_neg (not_or.2 ⟨by omega, hshort⟩), hf, if_pos (by omega : f ≠ 0)] at he
  refine ⟨f, hxf, f2, f3, f4, ?_⟩
  by_cases hs : f - 1 < l.xnum - 1 ∨ next = false
  · rw [if_pos (by simpa using hs)] at he
    obtain ⟨e1, e2, e3, e4⟩ := urlStripLoop_spec (show x ≤ f - 1 by omega) (Nat.sub_le _ _) he
    exact ⟨e1, by omega, fun i h1 h2 => e3 i h1 (by omega), fun _ => e4, fun h => absurd hs h⟩
  · rw [if_neg (by simpa using hs)] at he
    subst he
    exact ⟨by omega, by omega, fun i h1 h2 => absurd h2 (by omega), fun h => absurd h hs,
      fun _ => rfl⟩

theorem lineUrlEndAt_of_scanOk_paren :
    ∃ f, 1 < f ∧ f ≤ (Line.ofString "(a.b/c). z").xnum ∧
      (∀ i, 1 ≤ i → i < f → urlScanOk Env.sample (Line.ofString "(a.b/c). z") 0 false 10 i) ∧
      (f < (Line.ofString "(a.b/c). z").xnum →
        urlScanOk Env.sample (Line.ofString "(a.b/c). z") 0 false 10 f = false) ∧
      1 ≤ 5 ∧ 5 < f ∧ (∀ i, 5 < i → i < f → strippableAt Env.sample (Line.ofString "(a.b/c). z") i) ∧
      ((f - 1 < (Line.ofString "(a.b/c). z").xnum - 1 ∨ false = false) →
        5 = 1 ∨ strippableAt Env.sample (Line.ofString "(a.b/c). z") 5 = false) ∧
      (¬(f - 1 < (Line.ofString "(a.b/c). z").xnum - 1 ∨ false = false) → 5 = f - 1) :=
  @lineUrlEndAt_of_scanOk Env.sample _ 1 true 0 false false 10 5 (by decide) (by decide) (by decide)
    (by decide)

/-- When the cell at `x` fails the scan condition, `line_url_end_at` returns
`x - 1`: the scan does not move and the step back still happens. -/
theorem lineUrlEndAt_of_not_scanOk (E : Env) (l : Line) {x : ℕ} {checkShort : Bool}
    {sentinel : ℕ} {next inHostname : Bool} {last : ℕ} (hx : x < l.xnum)
    (hshort : ¬(checkShort ∧ l.xnum ≤ minUrlLen + 3))
    (hok : urlScanOk E l sentinel inHostname last x = false) :
    lineUrlEndAt E l x checkShort sentinel next inHostname last = x - 1 := by
  have hscan : urlScanLoop E l sentinel inHostname last (l.xnum - x) x = x := by
    obtain ⟨k, hk⟩ : ∃ k, l.xnum - x = k + 1 := ⟨l.xnum - x - 1, by omega⟩
    simp [hk, urlScanLoop, hok]
  unfold lineUrlEndAt
  dsimp only
  have hx0 : (if x ≠ 0 then x - 1 else x) = x - 1 := by split_ifs <;> omega
  rw [if_neg (not_or.2 ⟨by omega, hshort⟩), hscan, hx0]
  split_ifs
  · exact urlStripLoop_of_le (by omega)
  · rfl

/-- In `ab cdefghij`, the space at column 2 ends no URL, yet `url_end_at(2)`
returns 1. -/
theorem urlEndAt_fails_at_space :
    urlScanOk Env.sample (Line.ofString "ab cdefghij") 0 false 11 2 = false ∧
      urlEndAt Env.sample (Line.ofString "ab cdefghij") 2 0 false = 1 := by
  decide

end KittyLine
