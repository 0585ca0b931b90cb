import Mathlib.Data.Nat.Digits.Lemmas

/-!
# Numbers as texts

The digits of a number to a base, the highest first (`numeral`), and the number
that digits stand for (`ofNumeral`). A numeral has no leading zero
(`head_numeral`) and stands for its number (`ofNumeral_numeral`). With a symbol
for each digit it is a text, which is parsed to its number again
(`parseNumeral_numeralText`).
-/

namespace Ydx

/-- The digits of `n` to the base `b`, the highest first. The number 0 has one. -/
def numeral (b n : Nat) : List Nat := if n = 0 then [0] else (Nat.digits b n).reverse

/-- The number that digits stand for, the highest first. -/
def ofNumeral (b : Nat) (ds : List Nat) : Nat := Nat.ofDigits b ds.reverse

section

variable {b n d k : Nat}

theorem numeral_of_lt (h : n < b) : numeral b n = [n] := by
  by_cases h0 : n = 0
  · rw [numeral, if_pos h0, h0]
  · rw [numeral, if_neg h0, Nat.digits_of_lt b n h0 h, List.reverse_singleton]

/-- The last digit is the remainder, the others are those of the quotient. -/
theorem numeral_of_le (hb : 1 < b) (h : b ≤ n) : numeral b n = numeral b (n / b) ++ [n % b] := by
  have h0 : n ≠ 0 := by omega
  have hq : n / b ≠ 0 := Nat.ne_of_gt (Nat.div_pos h (by omega))
  rw [numeral, if_neg h0, numeral, if_neg hq, Nat.digits_eq_cons_digits_div hb h0, List.reverse_cons]

theorem numeral_ne_nil (b n : Nat) : numeral b n ≠ [] := by
  by_cases h0 : n = 0
  · rw [numeral, if_pos h0]
    exact List.cons_ne_nil _ _
  · rw [numeral, if_neg h0]
    exact fun h => h0 (Nat.digits_eq_nil_iff_eq_zero.mp (List.reverse_eq_nil_iff.mp h))

theorem lt_of_mem_numeral (hb : 1 < b) (hd : d ∈ numeral b n) : d < b := by
  by_cases h0 : n = 0
  · rw [numeral, if_pos h0, List.mem_singleton] at hd
    omega
  · rw [numeral, if_neg h0, List.mem_reverse] at hd
    exact Nat.digits_lt_base hb hd

theorem ofNumeral_numeral (b n : Nat) : ofNumeral b (numeral b n) = n := by
  by_cases h0 : n = 0
  · rw [numeral, if_pos h0, h0]
    rfl
  · rw [numeral, if_neg h0, ofNumeral, List.reverse_reverse, Nat.ofDigits_digits]

/-- No numeral but that of 0 begins with a zero. -/
theorem head_numeral (h : (numeral b n).head? = some 0) : numeral b n = [0] := by
  by_cases h0 : n = 0
  · rw [numeral, if_pos h0]
  · rw [numeral, if_neg h0, List.head?_reverse] at h
    have hne : Nat.digits b n ≠ [] := Nat.digits_ne_nil_iff_ne_zero.mpr h0
    rw [List.getLast?_eq_some_getLast hne, Option.some.injEq] at h
    exact absurd h (Nat.getLast_digit_ne_zero b h0)

/-- Digits without a leading zero are the numeral of their number. -/
theorem numeral_ofNumeral {ds : List Nat} (hb : 1 < b) (hd : ∀ d ∈ ds, d < b) (hne : ds ≠ [])
    (hz : ds.head? = some 0 → ds = [0]) : numeral b (ofNumeral b ds) = ds := by
  by_cases h0 : ds = [0]
  · rw [h0, ofNumeral, List.reverse_singleton, Nat.ofDigits_singleton, numeral_of_lt (by omega)]
  · have hdigits : Nat.digits b (ofNumeral b ds) = ds.reverse := by
      refine Nat.digits_ofDigits b hb _ (fun d h => hd d (List.mem_reverse.mp h)) fun h hlast => h0 (hz ?_)
      rw [← List.getLast?_reverse, List.getLast?_eq_some_getLast h, hlast]
    have hn : ofNumeral b ds ≠ 0 := by
      rw [← Nat.digits_ne_nil_iff_ne_zero , hdigits]
      exact fun h => hne (List.reverse_eq_nil_iff.mp h)
    rw [numeral, if_neg hn, hdigits, List.reverse_reverse]

theorem length_numeral_le (hb : 1 < b) (hk : 0 < k) (h : n < b ^ k) : (numeral b n).length ≤ k := by
  by_cases h0 : n = 0
  · rw [numeral, if_pos h0, List.length_singleton]
    exact hk
  · rw [numeral, if_neg h0, List.length_reverse]
    exact (Nat.digits_length_le_iff hb n).mpr h

end

section

variable {α : Type*} (symbol : Nat → α) (value : α → Option Nat) {b n : Nat}

/-- The numeral with a symbol for each digit. -/
def numeralText (b n : Nat) : List α := (numeral b n).map symbol

/-- The number that symbols stand for, if each of them stands for a digit. -/
def parseNumeral (b : Nat) (text : List α) : Option Nat :=
  if text.isEmpty then none else (text.mapM value).map (ofNumeral b)

variable {symbol value}

theorem mapM_map_symbol {ds : List Nat} (h : ∀ d ∈ ds, value (symbol d) = some d) :
    (ds.map symbol).mapM value = some ds := by
  induction ds with
  | nil => rfl
  | cons d ds ih =>
    rw [List.map_cons, List.mapM_cons, h d List.mem_cons_self, ih fun e he => h e (List.mem_cons_of_mem d he)]
    rfl

/-- A numeral is parsed to its number. -/
theorem parseNumeral_numeralText (hb : 1 < b) (h : ∀ d < b, value (symbol d) = some d) :
    parseNumeral value b (numeralText symbol b n) = some n := by
  have hne : ¬ (numeralText symbol b n).isEmpty := by
    rw [List.isEmpty_iff, numeralText, List.map_eq_nil_iff]
    exact numeral_ne_nil b n
  rw [parseNumeral, if_neg hne, numeralText, mapM_map_symbol fun d hd => h d (lt_of_mem_numeral hb hd), Option.map_some,
    ofNumeral_numeral]

theorem map_symbol_of_mapM {text : List α} {ds : List Nat} (hv : ∀ c d, value c = some d → d < b ∧ symbol d = c)
    (h : text.mapM value = some ds) : (∀ d ∈ ds, d < b) ∧ ds.map symbol = text := by
  induction text generalizing ds with
  | nil =>
    rw [← Option.some.inj h]
    exact ⟨fun d hd => absurd hd List.not_mem_nil, rfl⟩
  | cons c cs ih =>
    rw [List.mapM_cons] at h
    obtain ⟨d, hd, h⟩ := Option.bind_eq_some_iff.mp h
    obtain ⟨es, hes, h⟩ := Option.bind_eq_some_iff.mp h
    have htail := ih hes
    rw [← Option.some.inj h]
    refine ⟨fun e he => ?_, ?_⟩
    · obtain rfl | he := List.mem_cons.mp he
      · exact (hv c e hd).1
      · exact htail.1 e he
    · rw [List.map_cons, (hv c d hd).2, htail.2]

/-- A text without a leading zero that is parsed to a number is the numeral of that number. -/
theorem eq_numeralText (hb : 1 < b) (hv : ∀ c d, value c = some d → d < b ∧ symbol d = c) {text : List α}
    (h : parseNumeral value b text = some n) (hz : text.head? = some (symbol 0) → text = [symbol 0])
    (h0 : value (symbol 0) = some 0) : text = numeralText symbol b n := by
  rw [parseNumeral] at h
  split at h
  · cases h
  rename_i hne
  obtain ⟨ds, hds, hn⟩ := Option.map_eq_some_iff.mp h
  obtain ⟨hlt, hmap⟩ := map_symbol_of_mapM hv hds
  have hnil : ds ≠ [] := by
    rintro rfl
    exact hne (List.isEmpty_iff.mpr hmap.symm)
  have hzero : ds.head? = some 0 → ds = [0] := by
    intro hd
    have htext : text = [symbol 0] := hz (by rw [← hmap, List.head?_map, hd]; rfl)
    rw [htext, List.mapM_cons, h0] at hds
    exact (Option.some.inj hds).symm
  rw [numeralText, ← hn, numeral_ofNumeral hb hlt hnil hzero, hmap]

/-- A text of a numeral has no leading zero. -/
theorem head_numeralText (hb : 1 < b) (h : ∀ d < b, value (symbol d) = some d)
    (hz : (numeralText symbol b n).head? = some (symbol 0)) : numeralText symbol b n = [symbol 0] := by
  have h0 : (numeral b n).head? = some 0 := by
    rw [numeralText, List.head?_map] at hz
    obtain ⟨d, hd, hs⟩ := Option.map_eq_some_iff.mp hz
    have hlt := lt_of_mem_numeral hb (List.mem_of_head? hd)
    have := h d hlt
    rw [hs, h 0 (by omega), Option.some.injEq] at this
    rw [hd, this]
  rw [numeralText, head_numeral h0, List.map_singleton]

theorem length_numeralText_le {k : Nat} (hb : 1 < b) (hk : 0 < k) (h : n < b ^ k) :
    (numeralText symbol b n).length ≤ k := by
  rw [numeralText, List.length_map]
  exact length_numeral_le hb hk h

end

end Ydx
