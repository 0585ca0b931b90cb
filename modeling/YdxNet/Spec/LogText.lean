import YdxNet.Framework.Bytes
import YdxNet.Framework.Numeral

/-!
# Texts in a log

What a log stream is for: pieces are put one behind the other, each as a whole or
not at all (`accepted`). Numbers are put as their decimal texts (`integerText`),
which `IsDecimal` tells from all other texts (`isDecimal_iff`): they are parsed to
the number, have a minus only for a negative one, and no leading zero.
-/

namespace Ydx.Spec

/-- The symbol of a digit, in upper case. -/
def digitSymbol (d : Nat) : Byte := UInt8.ofNat (if d < 10 then 48 + d else 55 + d)

/-- The digit to the base `b` that a symbol stands for. -/
def digitValue (b : Nat) (c : Byte) : Option Nat :=
  let d := if c.toNat < 65 then c.toNat - 48 else c.toNat - 55
  if d < b ∧ digitSymbol d = c then some d else none

/-- The minus sign. -/
def minus : Byte := 45

/-- A number in decimal. -/
def integerText (v : Int) : List Byte :=
  if v < 0 then minus :: numeralText digitSymbol 10 v.natAbs else numeralText digitSymbol 10 v.natAbs

/-- A number in hexadecimal. -/
def hexText (n : Nat) : List Byte := numeralText digitSymbol 16 n

/-- The number that a decimal text stands for. -/
def parseInteger : List Byte → Option Int
  | [] => none
  | c :: cs =>
    if c = minus then (parseNumeral (digitValue 10) 10 cs).map fun n : Nat => -(n : Int)
    else (parseNumeral (digitValue 10) 10 (c :: cs)).map fun n : Nat => (n : Int)

/-- The digits of a decimal text begin with a zero only if there are no others. -/
def NoLeadingZero (digits : List Byte) : Prop := digits.head? = some (digitSymbol 0) → digits = [digitSymbol 0]

/-- The text is the decimal one of the number. -/
structure IsDecimal (text : List Byte) (v : Int) : Prop where
  parses : parseInteger text = some v
  sign : text.head? = some minus ↔ v < 0
  lead : ∀ digits, text = digits ∨ text = minus :: digits → NoLeadingZero digits

/-- The text is the hexadecimal one of the number. -/
structure IsHex (text : List Byte) (n : Nat) : Prop where
  parses : parseNumeral (digitValue 16) 16 text = some n
  lead : NoLeadingZero text

/-- A piece: a text, with the count of bytes that is tested, or a number. -/
inductive Piece
  | text (bytes : List Byte) (len : Nat)
  | number (bytes : List Byte)
  deriving DecidableEq, Repr

/-- The whole text of a piece. -/
def Piece.bytes : Piece → List Byte
  | .text bytes _ | .number bytes => bytes

/-- The piece is accepted when there is this room. -/
def Piece.Fits (room : Nat) : Piece → Prop
  | .text _ len => len < room
  | .number _ => 32 ≤ room

instance (room : Nat) : ∀ p : Piece, Decidable (p.Fits room)
  | .text _ len => inferInstanceAs (Decidable (len < room))
  | .number _ => inferInstanceAs (Decidable (32 ≤ room))

/-- The pieces that are accepted where `used` bytes of `cap` are taken. -/
def accepted (cap : Nat) : Nat → List Piece → List Piece
  | _, [] => []
  | used, p :: ps =>
    if p.Fits (cap - used) then p :: accepted cap (used + p.bytes.length) ps else accepted cap used ps

/-- Their texts, one behind the other. -/
def acceptedText (cap used : Nat) (ps : List Piece) : List Byte := (accepted cap used ps).flatMap Piece.bytes

/-! ## Digits -/

theorem digitValue_symbol {b d : Nat} (hb : b ≤ 16) (hd : d < b) : digitValue b (digitSymbol d) = some d := by
  have h16 : ∀ d < 16,
      (if (digitSymbol d).toNat < 65 then (digitSymbol d).toNat - 48 else (digitSymbol d).toNat - 55) = d := by
    decide
  simp only [digitValue, h16 d (by omega), hd, and_self, if_true]

theorem digitSymbol_ne_minus {d : Nat} (hd : d < 16) : digitSymbol d ≠ minus := by
  revert d
  decide

theorem head_numeralText_ne_minus (n : Nat) : (numeralText digitSymbol 10 n).head? ≠ some minus := by
  intro h
  rw [numeralText, List.head?_map] at h
  obtain ⟨d, hd, hs⟩ := Option.map_eq_some_iff.mp h
  have hlt : d < 10 := lt_of_mem_numeral (by decide) (List.mem_of_head? hd)
  exact digitSymbol_ne_minus (by omega) hs

theorem noLeadingZero_numeralText {b : Nat} (hb : 1 < b) (h16 : b ≤ 16) (n : Nat) :
    NoLeadingZero (numeralText digitSymbol b n) :=
  head_numeralText hb fun _ hd => digitValue_symbol h16 hd

theorem isDecimal_integerText (v : Int) : IsDecimal (integerText v) v := by
  have hparse : parseNumeral (digitValue 10) 10 (numeralText digitSymbol 10 v.natAbs) = some v.natAbs :=
    parseNumeral_numeralText (by decide) fun _ hd => digitValue_symbol (by decide) hd
  have hlead : NoLeadingZero (numeralText digitSymbol 10 v.natAbs) := noLeadingZero_numeralText (by decide) (by decide) _
  have hhead := head_numeralText_ne_minus v.natAbs
  by_cases hneg : v < 0
  · have e : integerText v = minus :: numeralText digitSymbol 10 v.natAbs := if_pos hneg
    refine ⟨?_, ?_, ?_⟩
    · rw [e, parseInteger, if_pos rfl, hparse, Option.map_some, Option.some.injEq]
      omega
    · rw [e]
      exact iff_of_true rfl hneg
    · rw [e]
      rintro digits (rfl | h)
      · intro hz
        exact absurd (Option.some.inj hz).symm (digitSymbol_ne_minus (by decide))
      · rw [← (List.cons.inj h).2]
        exact hlead
  · have e : integerText v = numeralText digitSymbol 10 v.natAbs := if_neg hneg
    refine ⟨?_, ?_, ?_⟩
    · rw [e]
      cases hd : numeralText digitSymbol 10 v.natAbs with
      | nil =>
        rw [hd] at hparse
        cases hparse
      | cons c cs =>
        have hc : c ≠ minus := fun hc => hhead (by rw [hd, hc]; rfl)
        rw [parseInteger, if_neg hc, ← hd, hparse, Option.map_some, Option.some.injEq]
        omega
    · rw [e]
      exact iff_of_false hhead hneg
    · rw [e]
      rintro digits (rfl | h)
      · exact hlead
      · exact absurd (by rw [h]; rfl) hhead

theorem digitValue_some {b d : Nat} {c : Byte} (h : digitValue b c = some d) : d < b ∧ digitSymbol d = c := by
  obtain ⟨hd, h⟩ := Option.ite_none_right_eq_some.mp h
  rw [← Option.some.inj h]
  exact hd

theorem eq_numeralText_of_parse {b n : Nat} {text : List Byte} (hb : 1 < b) (h16 : b ≤ 16)
    (h : parseNumeral (digitValue b) b text = some n) (hz : NoLeadingZero text) : text = numeralText digitSymbol b n :=
  eq_numeralText hb (fun _ _ => digitValue_some) h hz (digitValue_symbol h16 (by omega))

/-- No other text is the decimal one of the number. -/
theorem IsDecimal.eq_integerText {text : List Byte} {v : Int} (h : IsDecimal text v) : text = integerText v := by
  have hparse := h.parses
  cases text with
  | nil => cases hparse
  | cons c cs =>
    by_cases hc : c = minus
    · have hneg : v < 0 := h.sign.mp (by rw [hc]; rfl)
      rw [parseInteger, if_pos hc] at hparse
      obtain ⟨n, hn, hv⟩ := Option.map_eq_some_iff.mp hparse
      rw [integerText, if_pos hneg, hc, show v.natAbs = n by omega]
      exact congrArg (minus :: ·) (eq_numeralText_of_parse (by decide) (by decide) hn (h.lead cs (.inr (by rw [hc]))))
    · have hpos : ¬ v < 0 := fun hneg => hc (Option.some.inj (h.sign.mpr hneg))
      rw [parseInteger, if_neg hc] at hparse
      obtain ⟨n, hn, hv⟩ := Option.map_eq_some_iff.mp hparse
      rw [integerText, if_neg hpos, show v.natAbs = n by omega]
      exact eq_numeralText_of_parse (by decide) (by decide) hn (h.lead _ (.inl rfl))

theorem isDecimal_iff {text : List Byte} {v : Int} : IsDecimal text v ↔ text = integerText v :=
  ⟨IsDecimal.eq_integerText, fun h => h ▸ isDecimal_integerText v⟩

theorem isHex_hexText (n : Nat) : IsHex (hexText n) n where
  parses := parseNumeral_numeralText (by decide) fun _ hd => digitValue_symbol (Nat.le_refl 16) hd
  lead := noLeadingZero_numeralText (by decide) (Nat.le_refl 16) n

theorem isHex_iff {text : List Byte} {n : Nat} : IsHex text n ↔ text = hexText n :=
  ⟨fun h => eq_numeralText_of_parse (by decide) (Nat.le_refl 16) h.parses h.lead, fun h => h ▸ isHex_hexText n⟩

/-! ## Pieces -/

theorem acceptedText_cons (cap used : Nat) (p : Piece) (ps : List Piece) :
    acceptedText cap used (p :: ps) =
      if p.Fits (cap - used) then p.bytes ++ acceptedText cap (used + p.bytes.length) ps
      else acceptedText cap used ps := by
  rw [acceptedText, accepted]
  split
  · rfl
  · rfl

theorem acceptedText_append (cap : Nat) (ps qs : List Piece) (used : Nat) :
    acceptedText cap used (ps ++ qs) =
      acceptedText cap used ps ++ acceptedText cap (used + (acceptedText cap used ps).length) qs := by
  induction ps generalizing used with
  | nil => rfl
  | cons p ps ih =>
    rw [List.cons_append, acceptedText_cons, acceptedText_cons]
    split
    · rw [ih, List.append_assoc, List.length_append, Nat.add_assoc]
    · exact ih used

end Ydx.Spec
