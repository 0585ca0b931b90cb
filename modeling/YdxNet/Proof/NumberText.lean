import YdxNet.Impl.LogStream
import YdxNet.Spec.LogText

/-!
# Numbers in a log line

`convert` takes the digits off a number from the lowest on, with truncated
remainders, and turns them round: what it leaves is the decimal text of the
number (`convert_eq`). The minimum of a signed type needs no case of its own,
since no number is negated. `convertHex` does the same with 16 (`convertHex_eq`).
-/

namespace Ydx

open Spec (digitSymbol minus integerText hexText IsDecimal IsHex)

/-- The table is centred on zero, so that the sign of a remainder does not matter. -/
theorem zero_tmod (v : Int) : zero (v.tmod 10) = digitSymbol (v.natAbs % 10) := by
  have hsymbol : ∀ d < 10, zero (d : Nat) = digitSymbol d ∧ zero (-(d : Nat)) = digitSymbol d := by decide
  have hd : v.natAbs % 10 < 10 := Nat.mod_lt _ (by decide)
  have habs : (v.tmod 10).natAbs = v.natAbs % 10 := Int.natAbs_tmod v 10
  obtain h | h : v.tmod 10 = (v.natAbs % 10 : Nat) ∨ v.tmod 10 = -(v.natAbs % 10 : Nat) := by omega
  · rw [h]
    exact (hsymbol _ hd).1
  · rw [h]
    exact (hsymbol _ hd).2

open Integral in
/-- The loop puts the digits of a number, the lowest first, behind what is there. -/
theorem convertLoop_eq {T : Type} [Integral T] (i : T) (p : List Byte) :
    convertLoop i p = p ++ (numeralText digitSymbol 10 (val i).natAbs).reverse := by
  fun_induction convertLoop i p with
  | case1 i p lsd q h ih =>
    have hq : (val (div10 i)).natAbs = (val i).natAbs / 10 := by
      rw [val_div10]
      exact Int.natAbs_tdiv _ 10
    have h10 : 10 ≤ (val i).natAbs := by omega
    have hlsd : zero lsd = digitSymbol ((val i).natAbs % 10) := by rw [← zero_tmod, ← val_mod10]
    rw [ih, hq, numeralText, numeralText, numeral_of_le (by decide) h10, List.map_append, List.reverse_append,
      ← List.append_assoc]
    show p ++ [zero lsd] ++ _ = _
    rw [hlsd]
    rfl
  | case2 i p lsd q h =>
    have hq : (val (div10 i)).natAbs = (val i).natAbs / 10 := by
      rw [val_div10]
      exact Int.natAbs_tdiv _ 10
    have h10 : (val i).natAbs < 10 := by omega
    have hlsd : zero lsd = digitSymbol ((val i).natAbs % 10) := by rw [← zero_tmod, ← val_mod10]
    rw [numeralText, numeral_of_lt h10]
    show p ++ [zero lsd] = _
    rw [hlsd, Nat.mod_eq_of_lt h10]
    rfl

/-- The text of the number, and a NUL. -/
theorem convert_eq {T : Type} [Integral T] (value : T) :
    convert value = ⟨integerText (Integral.val value) ++ [0], (integerText (Integral.val value)).length⟩ := by
  have e : (if Integral.val value < 0 then convertLoop value [] ++ textBytes "-" else convertLoop value []).reverse =
      integerText (Integral.val value) := by
    rw [convertLoop_eq, List.nil_append, integerText]
    split
    · rw [List.reverse_append, List.reverse_reverse]
      rfl
    · rw [List.reverse_reverse]
  rw [convert, ← e, List.length_reverse]

theorem convertHexLoop_eq (i : UInt64) (p : List Byte) :
    convertHexLoop i p = p ++ (hexText i.toNat).reverse := by
  have hdigits : ∀ d < 16, digitsHex.getD d 0 = digitSymbol d := by decide
  have hmod (i : UInt64) : digitsHex.getD (i % 16).toNat 0 = digitSymbol (i.toNat % 16) := by
    rw [hdigits _ (by rw [UInt64.toNat_mod]; exact Nat.mod_lt _ (by decide)), UInt64.toNat_mod]
    rfl
  have hdiv (i : UInt64) : (i / 16).toNat = i.toNat / 16 := by rw [UInt64.toNat_div]; rfl
  fun_induction convertHexLoop i p with
  | case1 i p lsd q h ih =>
    have h16 : 16 ≤ i.toNat := by
      have h0 : (i / 16).toNat ≠ 0 := fun h0 => h (UInt64.toNat_inj.mp h0)
      rw [hdiv] at h0
      omega
    rw [ih, hdiv, hexText, hexText, numeralText, numeralText, numeral_of_le (by decide) h16, List.map_append,
      List.reverse_append, ← List.append_assoc]
    show p ++ [digitsHex.getD (i % 16).toNat 0] ++ _ = _
    rw [hmod]
    rfl
  | case2 i p lsd q h =>
    have h16 : i.toNat < 16 := by
      have h0 : (i / 16).toNat = 0 := congrArg UInt64.toNat (not_ne_iff.mp h)
      rw [hdiv] at h0
      omega
    rw [hexText, numeralText, numeral_of_lt h16]
    show p ++ [digitsHex.getD (i % 16).toNat 0] = _
    rw [hmod, Nat.mod_eq_of_lt h16]
    rfl

theorem convertHex_eq (value : UInt64) :
    convertHex value = ⟨hexText value.toNat ++ [0], (hexText value.toNat).length⟩ := by
  have e : (convertHexLoop value []).reverse = hexText value.toNat := by
    rw [convertHexLoop_eq, List.nil_append, List.reverse_reverse]
  rw [convertHex, ← e, List.length_reverse]

/-- At `buf` lies the only text of this kind, and a NUL behind it; the length of the text is returned. -/
def Formatted.Writes (r : Formatted) (IsText : List Byte → Prop) : Prop :=
  ∃ text, r.bytes = text ++ [0] ∧ r.len = text.length ∧ ∀ t, IsText t ↔ t = text

theorem convert_writes {T : Type} [Integral T] (value : T) :
    (convert value).Writes (IsDecimal · (Integral.val value)) := by
  rw [convert_eq]
  exact ⟨_, rfl, rfl, fun _ => Spec.isDecimal_iff⟩

/-- Every value of every type that `formatInteger` is used with is written as its
decimal text, and every address as its hexadecimal one. -/
theorem number_formatting_exact :
    (∀ value : Int32, (convert value).Writes (IsDecimal · value.toInt)) ∧
      (∀ value : UInt32, (convert value).Writes (IsDecimal · value.toNat)) ∧
      (∀ value : Int64, (convert value).Writes (IsDecimal · value.toInt)) ∧
      (∀ value : UInt64, (convert value).Writes (IsDecimal · value.toNat)) ∧
      (∀ value : UInt64, (convertHex value).Writes (IsHex · value.toNat)) := by
  refine ⟨fun value => convert_writes value, fun value => convert_writes value, fun value => convert_writes value,
    fun value => convert_writes value, fun value => ?_⟩
  rw [convertHex_eq]
  exact ⟨_, rfl, rfl, fun _ => Spec.isHex_iff⟩

end Ydx
