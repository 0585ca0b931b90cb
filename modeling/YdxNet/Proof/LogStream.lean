import YdxNet.Proof.NumberText

/-!
# Streaming into a log line

What is inserted goes behind what is there as a whole, or not at all
(`insert_puts`): a text when it is shorter than the room, a number when there is
room for the longest of them. Nothing is written outside of the array, since no
number with its NUL is longer than 32 bytes.
-/

namespace Ydx

open Spec (Piece accepted acceptedText digitSymbol integerText hexText)

namespace FixedBuffer

variable {SIZE : Nat} {b : FixedBuffer SIZE} {buf : List Byte}

/-- A line that fits goes behind what is there. -/
theorem content_append (h : b.avail > buf.length) : (b.append buf).content = b.content ++ buf := by
  have hle := b.cur_le; have hlen := b.length_data
  have hfit : b.cur_ + buf.length ≤ b.data_.length := by
    unfold avail at h
    omega
  have hcur : (b.data_.take b.cur_).length = b.cur_ := by
    rw [List.length_take]
    omega
  rw [append, dif_pos h]
  show (memcpy b.data_ b.cur_ buf).take (b.cur_ + buf.length) = b.data_.take b.cur_ ++ buf
  rw [memcpy_of_le hfit, List.take_left']
  rw [List.length_append, hcur]

@[simp] theorem content_new (mem : Nat → Byte) : (new SIZE mem).content = [] := List.take_zero

@[simp] theorem content_bzero_new (mem : Nat → Byte) : (new SIZE mem).bzero.content = [] := List.take_zero

@[simp] theorem content_reset (b : FixedBuffer SIZE) : b.reset.content = [] := List.take_zero

theorem content_of_some {spare : FixedBuffer SIZE} (hc : spare.content = []) (h : some spare = some b) :
    b.content = [] := by
  rw [← Option.some.inj h]
  exact hc

/-- An empty buffer has room for every line shorter than it. -/
theorem avail_of_content_nil (h : b.content = []) : b.avail = SIZE := by
  have hle := b.cur_le; have hlen := b.length_data
  have hcur := congrArg List.length h
  rw [content, List.length_take, List.length_nil] at hcur
  unfold avail
  omega

theorem length_content (b : FixedBuffer SIZE) : b.content.length = b.cur_ := by
  have hle := b.cur_le; have hlen := b.length_data
  rw [content, List.length_take]
  omega

theorem avail_eq (b : FixedBuffer SIZE) : b.avail = SIZE - b.content.length := by rw [length_content, avail]

/-- Bytes are written inside the array, and the first of them are added. -/
theorem write_add {bytes : List Byte} {n : Nat} (hw : b.cur_ + bytes.length ≤ SIZE) (hn : n ≤ bytes.length) :
    ∃ b', (b.write bytes).bind (fun b => b.add n) = some b' ∧ b'.content = b.content ++ bytes.take n := by
  have hlen := b.length_data
  have hcur : (b.data_.take b.cur_).length = b.cur_ := b.length_content
  rw [write, if_pos hw]
  simp only [Option.bind_some]
  rw [add, dif_pos (show b.cur_ + n ≤ SIZE by omega)]
  refine ⟨_, rfl, ?_⟩
  show (memcpy b.data_ b.cur_ bytes).take (b.cur_ + n) = b.data_.take b.cur_ ++ bytes.take n
  rw [memcpy_of_le (by omega), List.append_assoc, List.take_append, hcur, Nat.add_sub_cancel_left,
    List.take_append_of_le_length hn, List.take_of_length_le (by omega)]

end FixedBuffer

/-! ## Insertions -/

namespace Insertion

/-- As many bytes lie at a pointer as the length given with it says. -/
def Valid : Insertion → Prop
  | .stringPiece v => 0 ≤ v.length_.toInt → v.length_.toInt ≤ v.ptr_.length
  | .append data len => 0 ≤ len.toInt → len.toInt ≤ data.length
  | _ => True

instance : ∀ x : Insertion, Decidable x.Valid
  | .stringPiece v => inferInstanceAs (Decidable (0 ≤ v.length_.toInt → v.length_.toInt ≤ v.ptr_.length))
  | .append data len => inferInstanceAs (Decidable (0 ≤ len.toInt → len.toInt ≤ data.length))
  | .bool _ | .char _ | .cstr _ | .string _ | .buffer _ | .short _ | .ushort _ | .int _ | .uint _ | .long _
  | .ulonglong _ | .ptr _ => .isTrue trivial

/-- What is inserted: its whole text. -/
def piece : Insertion → Piece
  | .bool v => .text (textBytes (if v then "1" else "0")) 1
  | .char v => .text [v] 1
  | .cstr (some str) => .text (str.takeWhile (· ≠ 0)) (strlen str)
  | .cstr none => .text (textBytes "(null)") 6
  | .string v => .text v v.length
  | .stringPiece v => .text (v.ptr_.take (sizeT v.length_).toNat) (sizeT v.length_).toNat
  | .buffer v => .text v.content v.content.length
  | .short v => .number (integerText v.toInt)
  | .ushort v => .number (integerText v.toNat)
  | .int v => .number (integerText v.toInt)
  | .uint v => .number (integerText v.toNat)
  | .long v => .number (integerText v.toInt)
  | .ulonglong v => .number (integerText v.toNat)
  | .ptr p => .number (textBytes "0x" ++ hexText p.toNat)
  | .append data len => .text (data.take (sizeT len).toNat) (sizeT len).toNat

end Insertion

namespace LogStream

variable {s : LogStream}

/-- The piece has been put as a whole if it fits, and not at all otherwise. The last
byte of the array stays free. -/
def Puts (s : LogStream) (r : Option LogStream) (p : Piece) : Prop :=
  ∃ s', r = some s' ∧ (s'.buffer_.content = s.buffer_.content ++ if p.Fits s.buffer_.avail then p.bytes else []) ∧
    (s.buffer_.content.length < kSmallBuffer → s'.buffer_.content.length < kSmallBuffer)

theorem puts_of_not_fits {p : Piece} (h : ¬ p.Fits s.buffer_.avail) : s.Puts (some s) p := by
  refine ⟨s, rfl, ?_, id⟩
  rw [if_neg h, List.append_nil]

theorem puts_of_fits {p : Piece} {b : FixedBuffer kSmallBuffer} (h : p.Fits s.buffer_.avail)
    (hc : b.content = s.buffer_.content ++ p.bytes) (hl : p.bytes.length < s.buffer_.avail) : s.Puts (some ⟨b⟩) p := by
  refine ⟨⟨b⟩, rfl, ?_, fun _ => ?_⟩
  · rw [if_pos h]
    exact hc
  · rw [FixedBuffer.avail_eq] at hl
    show b.content.length < kSmallBuffer
    rw [hc, List.length_append]
    omega

theorem appendLen_puts {buf text : List Byte} {len : Nat} (ht : buf.take len = text)
    (hl : len < kSmallBuffer → text.length = len) : s.Puts (s.appendLen buf len) (.text text len) := by
  by_cases hfit : s.buffer_.avail > len
  · have hle := s.buffer_.cur_le
    have hroom : s.buffer_.cur_ + len < kSmallBuffer := by
      unfold FixedBuffer.avail at hfit
      omega
    have hlen : (buf.take len).length = len := by
      rw [ht]
      exact hl (by omega)
    have hinside : s.buffer_.cur_ + (buf.take len).length ≤ kSmallBuffer := by omega
    obtain ⟨b, hb, hc⟩ := s.buffer_.write_add hinside hlen.ge
    rw [appendLen, FixedBuffer.appendLen, if_pos hfit, hb]
    rw [List.take_take, Nat.min_self, ht] at hc
    rw [ht] at hlen
    exact puts_of_fits hfit hc (Nat.lt_of_le_of_lt hlen.le hfit)
  · have e : s.appendLen buf len = some s := by
      rw [appendLen, FixedBuffer.appendLen, if_neg hfit]
      rfl
    rw [e]
    exact puts_of_not_fits hfit

/-- A text with a NUL behind it is written where there is room for the longest number. -/
theorem format_puts {r : Formatted} {text : List Byte} (hb : r.bytes = text ++ [0]) (hl : r.len = text.length)
    (h32 : text.length < 32) (hfit : 32 ≤ s.buffer_.avail) : s.Puts (s.format r) (.number text) := by
  have hle := s.buffer_.cur_le
  have hlen : r.bytes.length = text.length + 1 := by rw [hb, List.length_append, List.length_singleton]
  have hroom : s.buffer_.cur_ + 32 ≤ kSmallBuffer := by
    unfold FixedBuffer.avail at hfit
    omega
  have hinside : s.buffer_.cur_ + r.bytes.length ≤ kSmallBuffer := by omega
  have hadded : r.len ≤ r.bytes.length := by omega
  obtain ⟨b, hw, hc⟩ := s.buffer_.write_add hinside hadded
  obtain ⟨b₁, hb₁, hadd⟩ := Option.bind_eq_some_iff.mp hw
  rw [format, hb₁, Option.bind_some, hadd]
  rw [hb, hl, List.take_left] at hc
  exact puts_of_fits hfit hc (Nat.lt_of_lt_of_le h32 hfit)

/-- A number of 64 bits has 20 digits at most. -/
theorem length_integerText_le {v : Int} (h : v.natAbs < 2 ^ 64) : (integerText v).length ≤ 21 := by
  have hdigits : (numeralText digitSymbol 10 v.natAbs).length ≤ 20 :=
    length_numeralText_le (by decide) (by decide) (Nat.lt_trans h (by decide))
  rw [integerText]
  split
  · rw [List.length_cons]
    omega
  · omega

theorem natAbs_toInt_lt (v : Int32) : v.toInt.natAbs < 2 ^ 64 := by
  have := v.le_toInt; have := v.toInt_lt
  omega

theorem natAbs_toInt64_lt (v : Int64) : v.toInt.natAbs < 2 ^ 64 := by
  have := v.le_toInt; have := v.toInt_lt
  omega

theorem formatInteger_puts {T : Type} [Integral T] {v : T} (h : (Integral.val v).natAbs < 2 ^ 64) :
    s.Puts (s.formatInteger v) (.number (integerText (Integral.val v))) := by
  by_cases hfit : s.buffer_.avail ≥ kMaxNumericSize
  · have hlen := length_integerText_le h
    rw [formatInteger, if_pos hfit, convert_eq]
    exact format_puts rfl rfl (by omega) hfit
  · rw [formatInteger, if_neg hfit]
    exact puts_of_not_fits hfit

theorem formatPtr_puts {p : UInt64} : s.Puts (s.formatPtr p) (.number (textBytes "0x" ++ hexText p.toNat)) := by
  by_cases hfit : s.buffer_.avail ≥ kMaxNumericSize
  · have hlen : (hexText p.toNat).length ≤ 16 := length_numeralText_le (by decide) (by decide) p.toNat_lt
    have htext : (textBytes "0x" ++ hexText p.toNat).length = (hexText p.toNat).length + 2 := by
      rw [List.length_append, Nat.add_comm]
      rfl
    rw [formatPtr, if_pos hfit, convertHex_eq]
    exact format_puts (List.append_assoc _ _ _).symm htext.symm (by omega) hfit
  · rw [formatPtr, if_neg hfit]
    exact puts_of_not_fits hfit

/-- A negative length is more than any room as a `size_t`. -/
theorem length_take_sizeT {data : List Byte} {len : Int32} (hv : 0 ≤ len.toInt → len.toInt ≤ data.length)
    (h : (sizeT len).toNat < kSmallBuffer) : (data.take (sizeT len).toNat).length = (sizeT len).toNat := by
  have hb := len.le_toInt
  have h0 : 0 ≤ len.toInt := by
    by_contra hneg
    have := sizeT_of_neg (not_le.mp hneg)
    unfold kSmallBuffer at h
    omega
  have := hv h0
  have := sizeT_of_nonneg h0
  rw [List.length_take]
  omega

/-- Each insertion puts its piece, inside the array. -/
theorem insert_puts {x : Insertion} (hv : x.Valid) : s.Puts (s.insert x) x.piece := by
  cases x with
  | bool v =>
    refine appendLen_puts ?_ fun _ => ?_
    · cases v <;> rfl
    · cases v <;> rfl
  | char v => exact appendLen_puts rfl fun _ => rfl
  | cstr str =>
    cases str with
    | none => exact appendLen_puts rfl fun _ => rfl
    | some str => exact appendLen_puts (List.prefix_iff_eq_take.mp (List.takeWhile_prefix _)).symm fun _ => rfl
  | string v => exact appendLen_puts List.take_length fun _ => rfl
  | stringPiece v => exact appendLen_puts rfl (length_take_sizeT hv)
  | buffer v =>
    have hle := v.cur_le
    have e : (sizeT (lenInt v.cur_)).toNat = v.content.length := by
      rw [v.length_content]
      exact sizeT_lenInt (Nat.lt_of_le_of_lt hle (by decide))
    show s.Puts (s.appendLen v.data_ (sizeT (lenInt v.cur_)).toNat) (.text v.content v.content.length)
    rw [e]
    exact appendLen_puts (by rw [v.length_content]; rfl) fun _ => rfl
  | short v =>
    have h := formatInteger_puts (s := s) (v := v.toInt32) (natAbs_toInt_lt _)
    show s.Puts (s.formatInteger v.toInt32) (.number (integerText v.toInt))
    rw [← Int16.toInt_toInt32]
    exact h
  | ushort v =>
    have h := formatInteger_puts (s := s) (v := v.toUInt32) (Nat.lt_trans v.toUInt32.toNat_lt (by decide))
    show s.Puts (s.formatInteger v.toUInt32) (.number (integerText v.toNat))
    rw [← UInt16.toNat_toUInt32]
    exact h
  | int v => exact formatInteger_puts (natAbs_toInt_lt v)
  | uint v => exact formatInteger_puts (Nat.lt_trans v.toNat_lt (by decide))
  | long v => exact formatInteger_puts (natAbs_toInt64_lt v)
  | ulonglong v => exact formatInteger_puts v.toNat_lt
  | ptr p => exact formatPtr_puts
  | append data len => exact appendLen_puts rfl (length_take_sizeT hv)

/-- The pieces that are accepted lie behind what was there, in order. -/
theorem insertAll_ok {xs : List Insertion} (hv : ∀ x ∈ xs, x.Valid) (hs : s.buffer_.content.length < kSmallBuffer) :
    ∃ s', s.insertAll xs = some s' ∧ s'.buffer_.content.length < kSmallBuffer ∧
      s'.buffer_.content =
        s.buffer_.content ++ acceptedText kSmallBuffer s.buffer_.content.length (xs.map Insertion.piece) := by
  induction xs generalizing s with
  | nil => exact ⟨s, rfl, hs, (List.append_nil _).symm⟩
  | cons x xs ih =>
    obtain ⟨s₁, h₁, hc, hl⟩ := insert_puts (s := s) (hv x List.mem_cons_self)
    obtain ⟨s', h', hl', hc'⟩ := ih (fun y hy => hv y (List.mem_cons_of_mem x hy)) (hl hs)
    refine ⟨s', ?_, hl', ?_⟩
    · rw [insertAll, h₁]
      exact h'
    · rw [hc', hc, List.map_cons, Spec.acceptedText_cons, FixedBuffer.avail_eq]
      split
      · rw [List.length_append, List.append_assoc]
      · rw [List.append_nil]

/-- After any insertions the stream holds the whole texts of those pieces that were
accepted, in order, and the next one is put as a whole or not at all. No byte has been
written outside of the array, and the last byte of the array is free. -/
theorem insertions_whole (mem : Nat → Byte) (xs : List Insertion) (hv : ∀ x ∈ xs, x.Valid) :
    ∃ s, (LogStream.new mem).insertAll xs = some s ∧
      s.buffer_.content = acceptedText kSmallBuffer 0 (xs.map Insertion.piece) ∧
      s.buffer_.content.length = s.buffer_.cur_ ∧ s.buffer_.cur_ ≤ 3999 ∧
      ∀ x : Insertion, x.Valid → ∃ s', s.insert x = some s' ∧
        s'.buffer_.content = s.buffer_.content ++ if x.piece.Fits s.buffer_.avail then x.piece.bytes else [] := by
  have hnew : (LogStream.new mem).buffer_.content = [] := FixedBuffer.content_new mem
  obtain ⟨s, h, hl, hc⟩ := insertAll_ok hv (s := .new mem) (by rw [hnew]; decide)
  rw [hnew] at hc
  have hcur := s.buffer_.length_content
  refine ⟨s, h, hc, hcur, ?_, fun x hx => ?_⟩
  · rw [← hcur]
    exact Nat.le_of_lt_succ hl
  · obtain ⟨s', h', hc', -⟩ := insert_puts (s := s) hx
    exact ⟨s', h', hc'⟩

theorem insertions_whole_mixed : ∃ s,
    (LogStream.new fun _ => 0).insertAll [.cstr none, .int (-105), .append (textBytes "abc") 2] = some s ∧
    s.buffer_.content = textBytes "(null)-105ab" := by
  obtain ⟨s, h, hc, -⟩ := insertions_whole (fun _ => 0) [.cstr none, .int (-105), .append (textBytes "abc") 2] (by decide)
  refine ⟨s, h, hc.trans ?_⟩
  decide

end LogStream

end Ydx
