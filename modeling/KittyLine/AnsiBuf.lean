/-
# The output buffer and its writers

`ANSIBuf` is a growable array of code points with a length: what the
serializers produced is `buf[0 .. len)`, and a write at or past `len` that
does not move `len` lands in memory nobody reads as output. The model keeps
the whole array as a function of the position, so that every write of the code
(`buf[len++] = c`, `buf[i] = c`, `len--`) is written as it is; `ensure_space_for`
only reserves room, and the model's array has room everywhere.

`nonnegative_integer_as_utf32` counts the digits of a number in one loop and
writes them from the right in another; `nonnegativeIntegerAsUtf32_spec` says
that it appends the decimal digits of the number and returns their count, and
`nonnegativeIntegerAsUtf32_buf` that it writes no position outside them.

Key definitions: `ANSIBuf`, `ANSIBuf.text`, `decimal`, `nonnegativeIntegerAsUtf32`.
Key theorems: `ANSIBuf.text_eq_append`, `nonnegativeIntegerAsUtf32_buf`,
`nonnegativeIntegerAsUtf32_spec`, `decimal_eq_digits`.
-/
import KittyLine.Cell
import Mathlib.Data.List.GetD
import Mathlib.Data.Nat.Digits

namespace KittyLine

/-- `ANSIBuf`: the array `buf`, its length `len`, the hyperlink `line_as_ansi`
last opened and the hyperlink pool it resolves ids in (keys as byte strings). -/
structure ANSIBuf where
  buf : ℕ → ℕ
  len : ℕ
  activeHyperlinkId : ℕ
  hyperlinkPool : Option (ℕ → Option (List ℕ))

/-- The first `n + |ys|` code points of a buffer that keeps the first `n` of
`f₀` and holds `ys` from `n` on. -/
theorem range_map_append {f f₀ : ℕ → ℕ} {n : ℕ} {ys : List ℕ} (h₀ : ∀ j < n, f j = f₀ j)
    (h : ∀ k < ys.length, f (n + k) = ys.getD k 0) :
    (List.range (n + ys.length)).map f = (List.range n).map f₀ ++ ys := by
  rw [List.range_add, List.map_append, List.map_map]
  congr 1
  · exact List.map_congr_left fun j hj => h₀ j (List.mem_range.1 hj)
  · refine List.ext_getElem (by simp) fun k h1 h2 => ?_
    simp only [List.getElem_map, List.getElem_range, Function.comp_apply]
    rw [h k (by simpa using h1), List.getD_eq_getElem _ _ (by simpa using h1)]

namespace ANSIBuf

/-- `ANSIBuf output = {0}`: nothing written, no hyperlink pool. -/
def empty : ANSIBuf := ⟨fun _ => 0, 0, 0, none⟩

/-- The code points written, `buf[0 .. len)`. -/
def text (o : ANSIBuf) : List ℕ := (List.range o.len).map o.buf

/-- `buf[len++] = c`. -/
def push (o : ANSIBuf) (c : ℕ) : ANSIBuf :=
  { o with buf := Function.update o.buf o.len c, len := o.len + 1 }

/-- `buf[i] = c`. -/
def set (o : ANSIBuf) (i c : ℕ) : ANSIBuf := { o with buf := Function.update o.buf i c }

/-- `buf[len++] = c` for each `c` of `cs` in turn. -/
def pushAll (o : ANSIBuf) (cs : List ℕ) : ANSIBuf := cs.foldl push o

@[simp] theorem push_len (o : ANSIBuf) (c : ℕ) : (o.push c).len = o.len + 1 := rfl

@[simp] theorem push_activeHyperlinkId (o : ANSIBuf) (c : ℕ) :
    (o.push c).activeHyperlinkId = o.activeHyperlinkId := rfl

@[simp] theorem push_hyperlinkPool (o : ANSIBuf) (c : ℕ) :
    (o.push c).hyperlinkPool = o.hyperlinkPool := rfl

@[simp] theorem set_len (o : ANSIBuf) (i c : ℕ) : (o.set i c).len = o.len := rfl

@[simp] theorem set_activeHyperlinkId (o : ANSIBuf) (i c : ℕ) :
    (o.set i c).activeHyperlinkId = o.activeHyperlinkId := rfl

@[simp] theorem set_hyperlinkPool (o : ANSIBuf) (i c : ℕ) :
    (o.set i c).hyperlinkPool = o.hyperlinkPool := rfl

@[simp] theorem text_withActive (o : ANSIBuf) (a : ℕ) :
    ({ o with activeHyperlinkId := a } : ANSIBuf).text = o.text := rfl

@[simp] theorem text_length (o : ANSIBuf) : o.text.length = o.len := by simp [text]

/-- Only `buf[0 .. len)` is read as text. -/
theorem text_congr {o o' : ANSIBuf} (hl : o'.len = o.len) (hb : ∀ i < o.len, o'.buf i = o.buf i) :
    o'.text = o.text := by
  simp only [text, hl]
  exact List.map_congr_left fun i hi => hb i (List.mem_range.mp hi)

/-- A buffer that kept the first `len` code points of `o` and holds `ds` after
them has the text of `o` followed by `ds`. -/
theorem text_eq_append {o o' : ANSIBuf} {ds : List ℕ} (hl : o'.len = o.len + ds.length)
    (h₀ : ∀ j < o.len, o'.buf j = o.buf j) (h : ∀ k < ds.length, o'.buf (o.len + k) = ds.getD k 0) :
    o'.text = o.text ++ ds := by
  rw [text, hl, range_map_append h₀ h]
  rfl

@[simp] theorem text_push (o : ANSIBuf) (c : ℕ) : (o.push c).text = o.text ++ [c] := by
  have h : ((List.range o.len).map fun i => Function.update o.buf o.len c i) = o.text :=
    List.map_congr_left fun i hi => Function.update_noteq (List.mem_range.mp hi).ne _ _
  simp [text, push, List.range_succ, h]

/-- A write at or past `len` leaves the text. -/
theorem text_set_of_le (o : ANSIBuf) {i : ℕ} (c : ℕ) (h : o.len ≤ i) : (o.set i c).text = o.text :=
  text_congr rfl fun j hj => Function.update_noteq (by omega) _ _

/-- A write rewrites the code point of the text at its position, if any. -/
theorem text_set (o : ANSIBuf) (i c : ℕ) : (o.set i c).text = o.text.set i c := by
  refine List.ext_getElem (by simp) fun j h1 h2 => ?_
  simp only [text, set, List.getElem_map, List.getElem_range, List.getElem_set, Function.update_apply]
  by_cases hj : i = j
  · subst hj; simp
  · simp [hj, Ne.symm hj]

/-- Moving `len` back drops the end of the text. -/
theorem text_shrink (o : ANSIBuf) (k : ℕ) : ({ o with len := o.len - k } : ANSIBuf).text = o.text.take (o.len - k) := by
  simp [text, ← List.map_take, List.take_range]

theorem buf_get (o : ANSIBuf) {i : ℕ} (h : i < o.len) : o.buf i = o.text.getD i 0 := by
  simp [text, List.getD_eq_getElem?_getD, h]

@[simp] theorem pushAll_nil (o : ANSIBuf) : o.pushAll [] = o := rfl

@[simp] theorem pushAll_cons (o : ANSIBuf) (c : ℕ) (cs : List ℕ) :
    o.pushAll (c :: cs) = (o.push c).pushAll cs := rfl

theorem pushAll_append (o : ANSIBuf) (cs ds : List ℕ) :
    o.pushAll (cs ++ ds) = (o.pushAll cs).pushAll ds := by simp [pushAll, List.foldl_append]

@[simp] theorem pushAll_text (o : ANSIBuf) (cs : List ℕ) : (o.pushAll cs).text = o.text ++ cs := by
  induction cs generalizing o with
  | nil => simp
  | cons c cs ih => simp [ih]

@[simp] theorem pushAll_len (o : ANSIBuf) (cs : List ℕ) : (o.pushAll cs).len = o.len + cs.length := by
  induction cs generalizing o with
  | nil => simp
  | cons c cs ih => simp [ih]; omega

@[simp] theorem pushAll_activeHyperlinkId (o : ANSIBuf) (cs : List ℕ) :
    (o.pushAll cs).activeHyperlinkId = o.activeHyperlinkId := by
  induction cs generalizing o with
  | nil => rfl
  | cons c cs ih => simp [ih]

@[simp] theorem pushAll_hyperlinkPool (o : ANSIBuf) (cs : List ℕ) :
    (o.pushAll cs).hyperlinkPool = o.hyperlinkPool := by
  induction cs generalizing o with
  | nil => rfl
  | cons c cs ih => simp [ih]

end ANSIBuf

/-! ### Decimal numbers -/

/-- The decimal digits of `n` as code points, most significant first, `"0"`
for `0`. -/
def decimal (n : ℕ) : List ℕ := (Nat.toDigits 10 n).map Char.toNat

theorem toDigitsCore_append (f n : ℕ) (ds : List Char) :
    Nat.toDigitsCore 10 f n ds = Nat.toDigitsCore 10 f n [] ++ ds := by
  induction f generalizing n ds with
  | zero => rfl
  | succ f ih =>
    simp only [Nat.toDigitsCore]
    split
    · rfl
    · rw [ih, ih _ [_]]; simp

theorem toDigitsCore_fuel (f g n : ℕ) (hf : n < f) (hg : n < g) :
    Nat.toDigitsCore 10 f n [] = Nat.toDigitsCore 10 g n [] := by
  induction f generalizing g n with
  | zero => omega
  | succ f ih =>
    obtain ⟨g, rfl⟩ : ∃ g', g = g' + 1 := ⟨g - 1, by omega⟩
    simp only [Nat.toDigitsCore]
    split
    · rfl
    · rw [toDigitsCore_append f, toDigitsCore_append g, ih g _ (by omega) (by omega)]

theorem digitChar_toNat {d : ℕ} (h : d < 10) : (Nat.digitChar d).toNat = 48 + d := by
  revert d; decide

/-- The last digit comes off the end. -/
theorem decimal_eq (n : ℕ) :
    decimal n = (if n < 10 then [] else decimal (n / 10)) ++ [48 + n % 10] := by
  have h : Nat.toDigits 10 n =
      (if n < 10 then [] else Nat.toDigits 10 (n / 10)) ++ [Nat.digitChar (n % 10)] := by
    unfold Nat.toDigits
    rw [Nat.toDigitsCore]
    split
    · rw [if_pos (by omega)]; rfl
    · rw [if_neg (by omega), toDigitsCore_append,
        toDigitsCore_fuel n (n / 10 + 1) _ (by omega) (by omega)]
  rw [decimal, h]
  split <;> simp [decimal, digitChar_toNat (Nat.mod_lt n (show 10 > 0 by omega))]

theorem decimal_of_lt {n : ℕ} (h : n < 10) : decimal n = [48 + n] := by
  rw [decimal_eq, if_pos h, Nat.mod_eq_of_lt h]; rfl

theorem decimal_of_ge {n : ℕ} (h : 10 ≤ n) : decimal n = decimal (n / 10) ++ [48 + n % 10] := by
  rw [decimal_eq, if_neg (by omega)]

theorem decimal_ne_nil (n : ℕ) : decimal n ≠ [] := by
  rw [decimal_eq]; simp

theorem decimal_length_le (n : ℕ) : (decimal n).length ≤ n + 1 := by
  induction n using Nat.strong_induction_on with
  | _ n ih =>
    rw [decimal_eq]
    split
    · simp
    · have := ih (n / 10) (by omega); simp; omega

/-- Every code point of `decimal n` is a digit. -/
theorem decimal_digit {n c : ℕ} (h : c ∈ decimal n) : 48 ≤ c ∧ c < 58 := by
  induction n using Nat.strong_induction_on with
  | _ n ih =>
    rw [decimal_eq] at h
    simp only [List.mem_append, List.mem_singleton] at h
    rcases h with h | rfl
    · split at h
      · simp at h
      · exact ih (n / 10) (by omega) h
    · omega

/-- The value of a run of decimal digits given as code points; the empty run
is `0`. -/
def digitsValue (s : List ℕ) : ℕ := s.foldl (fun v c => 10 * v + (c - 48)) 0

theorem digitsValue_append_singleton (s : List ℕ) (c : ℕ) :
    digitsValue (s ++ [c]) = 10 * digitsValue s + (c - 48) := by
  simp [digitsValue, List.foldl_append]

/-- Reading `decimal n` back gives `n`. -/
theorem digitsValue_decimal (n : ℕ) : digitsValue (decimal n) = n := by
  induction n using Nat.strong_induction_on with
  | _ n ih =>
    rw [decimal_eq, digitsValue_append_singleton]
    split
    · simp [digitsValue]; omega
    · rw [ih (n / 10) (by omega)]; omega

/-! ### `nonnegative_integer_as_utf32` -/

/-- The digit-counting loop, `while (temp > 0) { temp /= 10; num_digits++; }`. -/
def countDigits : ℕ → ℕ → ℕ → ℕ
  | 0, _, k => k
  | fuel + 1, temp, k => if temp > 0 then countDigits fuel (temp / 10) (k + 1) else k

/-- The digit-writing loop with `result = buf + base`:
`do { result[i--] = '0' + num % 10; num /= 10; output->len++; } while (num > 0);` -/
def writeDigits (base : ℕ) : ℕ → ℕ → ℕ → ANSIBuf → ANSIBuf
  | 0, _, _, o => o
  | fuel + 1, num, i, o =>
    let o' : ANSIBuf := { o.set (base + i) (48 + num % 10) with len := o.len + 1 }
    if num / 10 > 0 then writeDigits base fuel (num / 10) (i - 1) o' else o'

/-- `nonnegative_integer_as_utf32`: the digit count it returns, and the buffer. -/
def nonnegativeIntegerAsUtf32 (num : ℕ) (o : ANSIBuf) : ℕ × ANSIBuf :=
  let numDigits := if num = 0 then 1 else countDigits (num + 1) num 0
  if num = 0 then (numDigits, o.push 48)
  else (numDigits, writeDigits o.len (num + 1) num (numDigits - 1) o)

theorem countDigits_eq (fuel temp k : ℕ) (h : temp < fuel) (h0 : 0 < temp) :
    countDigits fuel temp k = k + (decimal temp).length := by
  induction fuel generalizing temp k with
  | zero => omega
  | succ fuel ih =>
    rw [countDigits, if_pos h0]
    by_cases h10 : temp < 10
    · rw [decimal_of_lt h10, Nat.div_eq_of_lt h10]
      cases fuel <;> simp [countDigits]
    · rw [ih (temp / 10) (k + 1) (by omega) (by omega), decimal_of_ge (n := temp) (by omega)]
      simp; omega

/-- What the writing loop leaves: it advanced `len` by `i + 1` and wrote the
digits of `num` at `base .. base + i`, nowhere else. -/
theorem writeDigits_spec (base : ℕ) : ∀ (fuel num i : ℕ) (o : ANSIBuf),
    (decimal num).length = i + 1 → i < fuel →
    (writeDigits base fuel num i o).len = o.len + i + 1 ∧
    (writeDigits base fuel num i o).activeHyperlinkId = o.activeHyperlinkId ∧
    (writeDigits base fuel num i o).hyperlinkPool = o.hyperlinkPool ∧
    ∀ p, (writeDigits base fuel num i o).buf p =
      if base ≤ p ∧ p ≤ base + i then (decimal num).getD (p - base) 0 else o.buf p
  | 0, _, _, _, _, h => by omega
  | fuel + 1, num, i, o, hd, hf => by
    by_cases h10 : num < 10
    · have hi : i = 0 := by rw [decimal_of_lt h10] at hd; simpa using hd.symm
      subst hi
      have hw : writeDigits base (fuel + 1) num 0 o =
          { o.set base (48 + num) with len := o.len + 1 } := by
        simp [writeDigits, Nat.div_eq_of_lt h10, Nat.mod_eq_of_lt h10]
      rw [hw, decimal_of_lt h10]
      refine ⟨rfl, rfl, rfl, fun p => ?_⟩
      by_cases hp : p = base
      · subst hp; simp [ANSIBuf.set]
      · simp [ANSIBuf.set, Function.update_noteq hp, show ¬ (base ≤ p ∧ p ≤ base) by omega]
    · have hd' : (decimal (num / 10)).length = i := by
        rw [decimal_of_ge (n := num) (by omega)] at hd; simpa using hd
      have hi : 0 < i := hd' ▸ List.length_pos.mpr (decimal_ne_nil _)
      have hw : writeDigits base (fuel + 1) num i o = writeDigits base fuel (num / 10) (i - 1)
          { o.set (base + i) (48 + num % 10) with len := o.len + 1 } := by
        simp [writeDigits, show 0 < num / 10 by omega]
      obtain ⟨h1, h2, h3, h4⟩ := writeDigits_spec base fuel (num / 10) (i - 1)
        { o.set (base + i) (48 + num % 10) with len := o.len + 1 } (by omega) (by omega)
      rw [hw]
      refine ⟨by rw [h1]; show o.len + 1 + (i - 1) + 1 = _; omega, h2, h3, fun p => ?_⟩
      rw [h4, decimal_of_ge (n := num) (by omega)]
      simp only [ANSIBuf.set, Function.update_apply]
      by_cases hp : p = base + i
      · subst hp
        rw [if_neg (by omega), if_pos rfl, if_pos (by omega),
          List.getD_append_right _ _ _ _ (by omega)]
        simp [hd']
      · rw [if_neg hp]
        by_cases hr : base ≤ p ∧ p ≤ base + (i - 1)
        · rw [if_pos hr, if_pos ⟨hr.1, by omega⟩, List.getD_append _ _ _ _ (by omega)]
        · rw [if_neg hr, if_neg (by omega)]

theorem nonnegativeIntegerAsUtf32_fst (num : ℕ) (o : ANSIBuf) :
    (nonnegativeIntegerAsUtf32 num o).1 = (decimal num).length := by
  by_cases h0 : num = 0
  · subst h0; rfl
  · simp [nonnegativeIntegerAsUtf32, h0, countDigits_eq (num + 1) num 0 (by omega) (by omega)]

/-- What `nonnegative_integer_as_utf32` does to the buffer: `len` moves by the
digit count `d`, and of `buf` only `[len, len + d)` changes, to the digits. -/
theorem nonnegativeIntegerAsUtf32_buf (num : ℕ) (o : ANSIBuf) :
    (nonnegativeIntegerAsUtf32 num o).2.len = o.len + (decimal num).length ∧
    (nonnegativeIntegerAsUtf32 num o).2.activeHyperlinkId = o.activeHyperlinkId ∧
    (nonnegativeIntegerAsUtf32 num o).2.hyperlinkPool = o.hyperlinkPool ∧
    ∀ p, (nonnegativeIntegerAsUtf32 num o).2.buf p =
      if o.len ≤ p ∧ p < o.len + (decimal num).length then (decimal num).getD (p - o.len) 0
      else o.buf p := by
  by_cases h0 : num = 0
  · subst h0
    refine ⟨rfl, rfl, rfl, fun p => ?_⟩
    rw [decimal_of_lt (by omega)]
    by_cases hp : p = o.len
    · subst hp; simp [nonnegativeIntegerAsUtf32, ANSIBuf.push]
    · simp [nonnegativeIntegerAsUtf32, ANSIBuf.push, Function.update_noteq hp,
        show ¬ (o.len ≤ p ∧ p < o.len + 1) by omega]
  · have hc : countDigits (num + 1) num 0 = (decimal num).length := by
      rw [countDigits_eq (num + 1) num 0 (by omega) (by omega), Nat.zero_add]
    have hlen := List.length_pos.mpr (decimal_ne_nil num)
    obtain ⟨h1, h2, h3, h4⟩ := writeDigits_spec o.len (num + 1) num ((decimal num).length - 1) o
      (by omega) (by have := decimal_length_le num; omega)
    simp only [nonnegativeIntegerAsUtf32, h0, if_false, hc]
    exact ⟨by rw [h1]; omega, h2, h3, fun p => by rw [h4]; exact if_congr (by omega) rfl rfl⟩

/-- **`nonnegative_integer_as_utf32` appends the decimal digits of `num`** and
returns their count. -/
theorem nonnegativeIntegerAsUtf32_spec (num : ℕ) (o : ANSIBuf) :
    (nonnegativeIntegerAsUtf32 num o).1 = (decimal num).length ∧
    (nonnegativeIntegerAsUtf32 num o).2.text = o.text ++ decimal num ∧
    (nonnegativeIntegerAsUtf32 num o).2.len = o.len + (decimal num).length ∧
    (nonnegativeIntegerAsUtf32 num o).2.activeHyperlinkId = o.activeHyperlinkId ∧
    (nonnegativeIntegerAsUtf32 num o).2.hyperlinkPool = o.hyperlinkPool := by
  obtain ⟨h1, h2, h3, h4⟩ := nonnegativeIntegerAsUtf32_buf num o
  refine ⟨nonnegativeIntegerAsUtf32_fst num o, ANSIBuf.text_eq_append h1 (fun j hj => ?_)
    (fun k hk => ?_), h1, h2, h3⟩
  · rw [h4, if_neg (by omega)]
  · rw [h4, if_pos (by omega), Nat.add_sub_cancel_left]

/-- `decimal` is the decimal representation: the digits `Nat.digits 10` gives,
most significant first, as code points, and `0` for zero. -/
theorem decimal_eq_digits (n : ℕ) :
    decimal n = if n = 0 then ['0'.toNat] else (Nat.digits 10 n).reverse.map ('0'.toNat + ·) := by
  induction n using Nat.strong_induction_on with
  | _ n ih =>
    split_ifs with h0
    · subst h0; rfl
    · by_cases h10 : n < 10
      · rw [decimal_of_lt h10, Nat.digits_of_lt 10 n h0 h10]; rfl
      · rw [decimal_of_ge (by omega), ih (n / 10) (by omega), if_neg (by omega),
          Nat.digits_def' (by norm_num : 1 < 10) (show 0 < n by omega)]
        simp

/-- **The two loops of `nonnegative_integer_as_utf32` agree.** It returns the
number `d` of decimal digits of `num`, moves `len` by `d`, and writes the
decimal representation of `num` at `[len, len + d)` and nowhere else. -/
theorem nonnegativeIntegerAsUtf32_writes (num : ℕ) (o : ANSIBuf) :
    (nonnegativeIntegerAsUtf32 num o).1 = (decimal num).length ∧
    (nonnegativeIntegerAsUtf32 num o).2.len = o.len + (decimal num).length ∧
    (∀ p, (nonnegativeIntegerAsUtf32 num o).2.buf p =
      if o.len ≤ p ∧ p < o.len + (decimal num).length then (decimal num).getD (p - o.len) 0
      else o.buf p) ∧
    decimal num = if num = 0 then ['0'.toNat] else (Nat.digits 10 num).reverse.map ('0'.toNat + ·) :=
  ⟨nonnegativeIntegerAsUtf32_fst num o, (nonnegativeIntegerAsUtf32_buf num o).1,
    (nonnegativeIntegerAsUtf32_buf num o).2.2.2, decimal_eq_digits num⟩

end KittyLine
