import YdxNet.Proof.ConnectionNames

/-!
# Addresses as texts

`inet_pton` accepts exactly the texts that `inet_ntop` writes, and gives the address back
(`inetPton_eq_some_iff`): what it has read at any time are the numbers before, each with its
dot, and the digits of the one it is at (`Reads`). So an `InetAddress` and its texts can be made
from each other, except that a text which is no address gives `0.0.0.0` (`texts_ok`).
-/

namespace Ydx

namespace InetPton

variable {s s' : InetPton} {text : List Char} {ch : Char}

/-- Numbers, each with its dot. -/
def dotted (ns : List Nat) : List Char := ns.flatMap fun n => Nat.toDigits 10 n ++ ['.']

/-- What has been read. -/
structure Reads (s : InetPton) (text : List Char) : Prop where
  text : text = dotted s.before ++ if s.sawDigit then Nat.toDigits 10 s.tp else []
  before : ∀ n ∈ s.before, n ≤ 255
  tp : s.tp ≤ 255
  octets : s.octets ≤ 4
  fresh : s.sawDigit = false → s.tp = 0

/-! ## What is accepted -/

theorem digitChar_of_isDigit (h : ch.isDigit = true) : ch.toNat - '0'.toNat < 10 ∧ Nat.digitChar (ch.toNat - '0'.toNat) = ch := by
  have hle : 48 ≤ ch.toNat ∧ ch.toNat ≤ 57 := by
    simp only [Char.isDigit, Bool.and_eq_true, decide_eq_true_eq] at h
    exact h
  have hchar : ∀ d < 10, Nat.digitChar d = Char.ofNat (48 + d) := by decide
  have hzero : '0'.toNat = 48 := rfl
  refine ⟨by omega, ?_⟩
  rw [hchar _ (by omega), hzero, show 48 + (ch.toNat - 48) = ch.toNat by omega, Char.ofNat_toNat]

/-- A digit more. -/
theorem toDigits_snoc {n d : Nat} (hn : n ≠ 0) (hd : d < 10) :
    Nat.toDigits 10 (n * 10 + d) = Nat.toDigits 10 n ++ [Nat.digitChar d] := by
  rw [Nat.toDigits_of_base_le (by decide) (by omega), show (n * 10 + d) / 10 = n by omega,
    show (n * 10 + d) % 10 = d by omega]

theorem Reads.next (h : Reads s text) (hs : s.next ch = some s') : Reads s' (text ++ [ch]) := by
  have htext := h.text
  unfold InetPton.next at hs
  split at hs
  · rename_i hdigit
    obtain ⟨hd, hch⟩ := digitChar_of_isDigit hdigit
    dsimp only at hs
    split at hs
    · cases hs
    rename_i hlead
    split at hs
    · cases hs
    rename_i hbig
    split at hs
    · cases hs
    rename_i hmany
    cases hs
    refine ⟨?_, h.before, by simpa using hbig, ?_, fun hf => absurd hf Bool.noConfusion⟩
    · rw [htext, List.append_assoc, List.append_cancel_left_eq]
      cases hsaw : s.sawDigit with
      | true =>
        have hne : s.tp ≠ 0 := by simpa [hsaw] using hlead
        rw [if_pos rfl, if_pos rfl, toDigits_snoc hne hd, hch]
      | false =>
        have hzero : s.tp = 0 := h.fresh hsaw
        rw [if_neg Bool.false_ne_true, if_pos rfl, hzero, Nat.zero_mul, Nat.zero_add, Nat.toDigits_of_lt_base hd, hch]
        rfl
    · have hold := h.octets
      simp only [InetPton.octets] at hold hmany ⊢
      cases hsaw : s.sawDigit with
      | true => simpa [hsaw] using hold
      | false => simpa [hsaw] using hmany
  · split at hs
    · rename_i hdot
      obtain ⟨hch, hsaw⟩ := Bool.and_eq_true_iff.mp hdot
      split at hs
      · cases hs
      · rename_i hfour
        cases hs
        have hold := h.octets
        rw [if_pos hsaw] at htext
        refine ⟨?_, ?_, Nat.zero_le _, ?_, fun _ => rfl⟩
        · rw [htext, eq_of_beq hch]
          simp [dotted]
        · intro n hn
          rcases List.mem_append.mp hn with hn | hn
          · exact h.before n hn
          · rw [List.mem_singleton.mp hn]
            exact h.tp
        · simp only [InetPton.octets, hsaw, if_true, List.length_append, List.length_singleton] at hold hfour ⊢
          simp only [Bool.false_eq_true, if_false]
          omega
    · cases hs

theorem Reads.fold (h : Reads s text) {more : List Char} (hs : more.foldlM InetPton.next s = some s') :
    Reads s' (text ++ more) := by
  induction more generalizing s text with
  | nil =>
    rw [List.foldlM_nil] at hs
    cases hs
    rw [List.append_nil]
    exact h
  | cons ch more ih =>
    rw [List.foldlM_cons] at hs
    obtain ⟨s₁, hs₁, hs⟩ := Option.bind_eq_some_iff.mp hs
    have hrest := ih (h.next hs₁) hs
    rw [List.append_assoc] at hrest
    exact hrest

/-! ## What is written is accepted -/

theorem next_digitChar {d : Nat} (hd : d < 10) (hlead : s.sawDigit = true → s.tp ≠ 0) (hbig : s.tp * 10 + d ≤ 255)
    (hmany : s.sawDigit = false → s.octets < 4) :
    s.next (Nat.digitChar d) = some { s with tp := s.tp * 10 + d, sawDigit := true } := by
  have hchar : ∀ d < 10, (Nat.digitChar d).isDigit = true ∧ (Nat.digitChar d).toNat - '0'.toNat = d := by decide
  obtain ⟨hdigit, hvalue⟩ := hchar d hd
  unfold InetPton.next
  rw [if_pos hdigit]
  dsimp only
  rw [hvalue]
  cases hsaw : s.sawDigit with
  | true =>
    rw [if_neg (by simp [hlead hsaw]), if_neg (by omega)]
    rfl
  | false =>
    have hroom := hmany hsaw
    have hfew : ¬ (!false && decide (s.octets + 1 > 4)) = true := by
      simp only [Bool.not_false, Bool.true_and, decide_eq_true_eq]
      omega
    rw [if_neg (by simp), if_neg (by omega), if_neg hfew]

/-- The digits of a number are read to the number. -/
theorem fold_toDigits {before : List Nat} (hb : before.length < 4) {n : Nat} (hn : n ≤ 255) :
    (Nat.toDigits 10 n).foldlM InetPton.next ⟨before, 0, false⟩ = some ⟨before, n, true⟩ := by
  induction n using Nat.strong_induction_on with
  | _ n ih =>
    by_cases hlt : n < 10
    · have hnext := next_digitChar (s := ⟨before, 0, false⟩) hlt (by simp) (by dsimp only; omega) fun _ => hb
      rw [Nat.toDigits_of_lt_base hlt, List.foldlM_cons, hnext]
      simp
    · have hq : n / 10 ≠ 0 := by omega
      rw [Nat.toDigits_of_base_le (by decide) (by omega), List.foldlM_append, ih (n / 10) (by omega) (by omega)]
      have hnext := next_digitChar (s := ⟨before, n / 10, true⟩) (d := n % 10) (Nat.mod_lt n (by decide)) (fun _ => hq)
        (by dsimp only; omega) (by simp)
      simp only [Option.bind_eq_bind, Option.bind_some, List.foldlM_cons, hnext, List.foldlM_nil, Option.pure_def,
        Option.some.injEq, InetPton.mk.injEq, and_true, true_and]
      omega

/-- A dot ends a number. -/
theorem next_dot {before : List Nat} (hb : before.length < 3) (n : Nat) :
    InetPton.next ⟨before, n, true⟩ '.' = some ⟨before ++ [n], 0, false⟩ := by
  unfold InetPton.next
  rw [if_neg (by decide), if_pos (by simp), if_neg]
  simp only [InetPton.octets, if_true]
  omega

end InetPton

open InetPton

/-- The text of an address, number by number. -/
theorem toList_inetNtop (a : InAddr) : (inetNtop a).toList =
    Nat.toDigits 10 a.b₀.toNat ++ '.' :: (Nat.toDigits 10 a.b₁.toNat ++ '.' :: (Nat.toDigits 10 a.b₂.toNat ++
      '.' :: Nat.toDigits 10 a.b₃.toNat)) := by
  have hs : ∀ n : Nat, (toString n).toList = Nat.toDigits 10 n := fun n => Nat.toList_repr
  have hdot : ".".toList = ['.'] := rfl
  simp only [inetNtop, String.toList_append, hs, hdot, List.append_assoc, List.cons_append, List.nil_append]

theorem inetPton_inetNtop (a : InAddr) : inetPton (inetNtop a) = some a := by
  have hb : ∀ b : UInt8, b.toNat ≤ 255 := fun b => Nat.le_of_lt_succ b.toNat_lt
  have hfold : (inetNtop a).toList.foldlM InetPton.next ⟨[], 0, false⟩ =
      some ⟨[a.b₀.toNat, a.b₁.toNat, a.b₂.toNat], a.b₃.toNat, true⟩ := by
    simp only [toList_inetNtop, List.foldlM_append, List.foldlM_cons, fold_toDigits, next_dot, hb, Option.bind_eq_bind,
      Option.bind_some, List.length_nil, List.length_cons, List.nil_append, List.cons_append, Nat.reduceAdd, Nat.reduceLT]
  rw [inetPton, hfold]
  simp

/-- `inet_pton` accepts the texts that `inet_ntop` writes, and no others. -/
theorem inetPton_eq_some_iff {text : String} {a : InAddr} : inetPton text = some a ↔ text = inetNtop a := by
  refine ⟨fun h => ?_, fun h => h ▸ inetPton_inetNtop a⟩
  unfold inetPton at h
  split at h
  · rename_i b₀ b₁ b₂ b₃ hfold
    have hstart : Reads ⟨[], 0, false⟩ [] := ⟨rfl, by simp, by decide, by decide, fun _ => rfl⟩
    have hread := hstart.fold hfold
    have h₀ := hread.before b₀ (by simp)
    have h₁ := hread.before b₁ (by simp)
    have h₂ := hread.before b₂ (by simp)
    have h₃ : b₃ ≤ 255 := hread.tp
    have hnat : ∀ n ≤ 255, (UInt8.ofNat n).toNat = n := fun n hn => UInt8.toNat_ofNat_of_lt' (Nat.lt_succ_of_le hn)
    cases h
    rw [← String.toList_inj, toList_inetNtop]
    dsimp only
    rw [hnat b₀ h₀, hnat b₁ h₁, hnat b₂ h₂, hnat b₃ h₃]
    have htext := hread.text
    simpa [dotted] using htext
  · cases h

namespace InetAddress

/-- Nothing is cut off. -/
theorem toIpPort_eq (addr : InetAddress) : addr.toIpPort = addr.toIp ++ ":" ++ toString addr.toPort.toNat := by
  obtain ⟨⟨b₀, b₁, b₂, b₃⟩, port⟩ := addr
  have h8 : ∀ b : UInt8, (toString b.toNat).length ≤ 3 := fun b =>
    length_toString_le (by decide) (Nat.lt_of_lt_of_le b.toNat_lt (by decide))
  have hp : (toString port.toNat).length ≤ 5 :=
    length_toString_le (by decide) (Nat.lt_of_lt_of_le port.toNat_lt (by decide))
  have h₀ := h8 b₀; have h₁ := h8 b₁; have h₂ := h8 b₂; have h₃ := h8 b₃
  have hdot : ".".length = 1 := rfl
  have hcolon : ":".length = 1 := rfl
  have htake : (":" ++ toString port.toNat).toList.length ≤ 32 - (inetNtop ⟨b₀, b₁, b₂, b₃⟩).length - 1 := by
    simp only [inetNtop, String.length_append, String.length_toList]
    omega
  rw [toIpPort, toIpPortIn, snprintf]
  dsimp only
  rw [List.take_of_length_le htake, String.ofList_toList, String.append_assoc]
  rfl

/-- Digits and dots only. -/
theorem colon_notMem_inetNtop (a : InAddr) : ':' ∉ (inetNtop a).toList := by
  have hdigits : ∀ n, ':' ∉ Nat.toDigits 10 n := by
    intro n hm
    have := Nat.isDigit_of_mem_toDigits (by decide) (by decide) hm
    revert this
    decide
  rw [toList_inetNtop]
  simp [hdigits]

theorem toIpPort_injective {addr addr' : InetAddress} (h : addr.toIpPort = addr'.toIpPort) : addr = addr' := by
  have htext : ∀ addr : InetAddress,
      addr.toIpPort.toList = (inetNtop addr.sin_addr).toList ++ ':' :: Nat.toDigits 10 addr.sin_port.toNat := by
    intro addr
    have hport : (toString addr.toPort.toNat).toList = Nat.toDigits 10 addr.sin_port.toNat := Nat.toList_repr
    have hcolon : ":".toList = [':'] := rfl
    rw [toIpPort_eq, String.toList_append, String.toList_append, hport, hcolon, List.append_assoc]
    rfl
  have hbefore : ∀ addr : InetAddress, addr.toIpPort.toList.takeWhile (· ≠ ':') = (inetNtop addr.sin_addr).toList := by
    intro addr
    have hno : ∀ c ∈ (inetNtop addr.sin_addr).toList, decide (c ≠ ':') = true := fun c hc =>
      decide_eq_true fun he => colon_notMem_inetNtop _ (he ▸ hc)
    rw [htext, List.takeWhile_append_of_pos hno, List.takeWhile_cons_of_neg (by simp), List.append_nil]
  have hip : inetNtop addr.sin_addr = inetNtop addr'.sin_addr := by
    rw [← String.toList_inj, ← hbefore, ← hbefore, h]
  have haddr : addr.sin_addr = addr'.sin_addr := by
    have hread := inetPton_inetNtop addr.sin_addr
    rw [hip, inetPton_inetNtop] at hread
    exact (Option.some.inj hread).symm
  have hport : addr.sin_port = addr'.sin_port := by
    have hdigits := (htext addr).symm.trans ((congrArg String.toList h).trans (htext addr'))
    rw [hip, List.append_cancel_left_eq, List.cons.injEq] at hdigits
    exact UInt16.toNat_inj.mp (toDigits_injective hdigits.2)
  cases addr
  cases addr'
  cases haddr
  cases hport
  rfl

/-- An address and its texts. Made from its own text it is the same address; two addresses with the same text are the
same; and one that is made from any text has that text, if it is the text of an address, and `0.0.0.0` if it is none. -/
theorem texts_ok :
    (∀ addr : InetAddress, fromIpPort addr.toIp addr.toPort = addr) ∧
      (∀ addr addr' : InetAddress, addr.toIpPort = addr'.toIpPort → addr = addr') ∧
      ∀ (ip : String) (port : UInt16),
        (∃ a, ip = inetNtop a) ∧ (fromIpPort ip port).toIpPort = ip ++ ":" ++ toString port.toNat ∨
          (¬ ∃ a, ip = inetNtop a) ∧ (fromIpPort ip port).toIpPort = "0.0.0.0:" ++ toString port.toNat := by
  refine ⟨fun addr => ?_, fun addr addr' => toIpPort_injective, fun ip port => ?_⟩
  · rw [fromIpPort, toIp, inetPton_inetNtop]
    rfl
  · rw [toIpPort_eq]
    cases hread : inetPton ip with
    | some a =>
      have hip := inetPton_eq_some_iff.mp hread
      refine .inl ⟨⟨a, hip⟩, ?_⟩
      rw [fromIpPort, hread, hip]
      rfl
    | none =>
      refine .inr ⟨fun ⟨a, hip⟩ => ?_, ?_⟩
      · rw [hip, inetPton_inetNtop] at hread
        cases hread
      · have hzero : inetNtop ⟨0, 0, 0, 0⟩ ++ ":" = "0.0.0.0:" := by decide
        simp only [fromIpPort, toIp, toPort, hread, Option.getD_none, hzero]

example : fromIpPort "192.168.10.1" 80 = ⟨⟨192, 168, 10, 1⟩, 80⟩ ∧ inetPton "192.168.010.1" = none := by decide

end InetAddress

end Ydx
