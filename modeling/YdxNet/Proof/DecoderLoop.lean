import YdxNet.Impl.Receiver

/-!
# The loop of the decoder

A turn of `Receiver::onMessage` that hands something over takes
`sizeof(int) + message_len` bytes from the buffer. The sum is zero for a length
of -4 only, and this length passes the loop's test like every negative one
(`turn_lt_iff`). A frame of that length holds the loop forever
(`outOfFuel_of_stalls`); on every other input each turn takes something, and the
loop ends (`ends_of_not_stalls`).
-/

namespace Ydx.Receiver

open Buffer

/-- The loop does not break: something is readable, and its first four bytes are
an `int` that is not more than the count of the bytes behind them. -/
def GoesOn (buf : Buffer) : Prop :=
  buf.readableBytes ≠ 0 ∧ ¬ buf.peek.length < 4 ∧ ¬ payloadBytes buf < int32OfBytes buf.peek

instance (buf : Buffer) : Decidable (GoesOn buf) := inferInstanceAs (Decidable (_ ∧ _ ∧ _))

/-- The buffer after a turn of the loop. -/
def turn (buf : Buffer) : Buffer := buf.retrieve (sizeofInt + sizeT (int32OfBytes buf.peek)).toNat

/-- The buffers that the loop tests when it starts with `buf`. -/
inductive Met (buf : Buffer) : Buffer → Prop
  | start : Met buf buf
  | turn {b : Buffer} : Met buf b → GoesOn b → Met buf (turn b)

/-- Behind some frames, a frame of length -4. -/
inductive Stalls : Buffer → Prop
  | here {b : Buffer} : GoesOn b → (int32OfBytes b.peek).toInt = -4 → Stalls b
  | later {b : Buffer} : GoesOn b → Stalls (turn b) → Stalls b

variable {b : Buffer}

/-- `sizeof(int) + message_len` is zero for one of the 2³² lengths. -/
theorem toNat_frameLen_eq_zero_iff (n : Int32) : (sizeofInt + sizeT n).toNat = 0 ↔ n.toInt = -4 := by
  have hlo := n.le_toInt; have hhi := n.toInt_lt
  rw [UInt64.toNat_add, show sizeofInt.toNat = 4 from rfl]
  by_cases h0 : 0 ≤ n.toInt
  · rw [sizeT_of_nonneg h0]
    omega
  · have hn := sizeT_of_neg (n := n) (by omega)
    omega

theorem retrieve_lt_iff (h0 : b.readableBytes ≠ 0) (len : Nat) :
    (b.retrieve len).readableBytes < b.readableBytes ↔ len ≠ 0 := by
  unfold retrieve
  split
  · simp only [readableBytes] at *
    omega
  · show headSpace - headSpace < b.readableBytes ↔ len ≠ 0
    simp only [headSpace]
    omega

/-- A turn takes something from the buffer unless the length is -4. -/
theorem turn_lt_iff (h : GoesOn b) : (turn b).readableBytes < b.readableBytes ↔ (int32OfBytes b.peek).toInt ≠ -4 := by
  rw [turn, retrieve_lt_iff h.1]
  exact not_congr (toNat_frameLen_eq_zero_iff _)

/-- A frame of length -4 is met again. -/
theorem turn_eq (h : GoesOn b) (hl : (int32OfBytes b.peek).toInt = -4) : turn b = b := by
  rw [turn, (toNat_frameLen_eq_zero_iff _).mpr hl, retrieve, if_pos (Nat.pos_of_ne_zero h.1)]
  rfl

/-- A turn of the loop. -/
theorem onMessage_goesOn (h : GoesOn b) (fuel : Nat) (r : Receiver) :
    ∃ r₁ c, onMessage (fuel + 1) r b =
      match onMessage fuel r₁ (turn b) with
      | .error e => .error e
      | .ok d => .ok { d with calls := c :: d.calls } := by
  obtain ⟨h0, h4, hl⟩ := h
  rw [onMessage, if_neg h0, if_neg h4]
  simp only [hl, if_false]
  exact ⟨_, _, rfl⟩

/-- The loop breaks. -/
theorem onMessage_not_goesOn (h : ¬ GoesOn b) (fuel : Nat) (r : Receiver) :
    onMessage (fuel + 1) r b = .ok ⟨[], r, b⟩ ∨ onMessage (fuel + 1) r b = .error .outOfBounds := by
  rw [onMessage]
  by_cases h0 : b.readableBytes = 0
  · exact .inl (if_pos h0)
  · by_cases h4 : b.peek.length < 4
    · rw [if_neg h0, if_pos h4]
      exact .inr rfl
    · have hl : payloadBytes b < int32OfBytes b.peek := by
        by_contra hl
        exact h ⟨h0, h4, hl⟩
      rw [if_neg h0, if_neg h4]
      simp only [hl, if_true]
      exact .inl trivial

theorem outOfFuel_of_stalls {b : Buffer} (h : Stalls b) (fuel : Nat) (r : Receiver) :
    onMessage fuel r b = .error .outOfFuel := by
  induction fuel generalizing r b with
  | zero => rfl
  | succ fuel ih =>
    have hgo : GoesOn b ∧ Stalls (turn b) := by
      cases h with
      | here hgo hl =>
        refine ⟨hgo, ?_⟩
        rw [turn_eq hgo hl]
        exact .here hgo hl
      | later hgo hs => exact ⟨hgo, hs⟩
    obtain ⟨r₁, c, e⟩ := onMessage_goesOn hgo.1 fuel r
    rw [e, ih hgo.2]

/-- As many turns as there are bytes, and one more, are enough. -/
theorem ends_of_not_stalls {b : Buffer} (h : ¬ Stalls b) {fuel : Nat} (hf : b.readableBytes < fuel) (r : Receiver) :
    onMessage fuel r b ≠ .error .outOfFuel := by
  induction fuel generalizing r b with
  | zero => exact absurd hf (Nat.not_lt_zero _)
  | succ fuel ih =>
    by_cases hgo : GoesOn b
    · have hlt := (turn_lt_iff hgo).mpr fun hl => h (.here hgo hl)
      obtain ⟨r₁, c, e⟩ := onMessage_goesOn hgo fuel r
      have hne := ih (fun hs => h (.later hgo hs)) (by omega) r₁
      rw [e]
      intro hx
      cases hm : onMessage fuel r₁ (turn b) with
      | error s =>
        rw [hm] at hx hne
        exact hne hx
      | ok d =>
        rw [hm] at hx
        cases hx
    · rcases onMessage_not_goesOn hgo fuel r with e | e
      · rw [e]
        intro hx
        cases hx
      · rw [e]
        intro hx
        cases hx

/-- What holds the loop at a buffer it meets holds it from the start. -/
theorem Met.stalls {buf : Buffer} (h : Met buf b) : Stalls b → Stalls buf := by
  induction h with
  | start => exact id
  | turn _ hgo ih => exact fun hs => ih (.later hgo hs)

theorem Stalls.met {buf : Buffer} (h : Stalls b) :
    Met buf b → ∃ b', Met buf b' ∧ GoesOn b' ∧ (int32OfBytes b'.peek).toInt = -4 := by
  induction h with
  | here hgo hl => exact fun hm => ⟨_, hm, hgo, hl⟩
  | later hgo _ ih => exact fun hm => ih (hm.turn hgo)

/-- For every state of the receiver, and whatever the buffer holds, the loop ends
exactly if it does not meet a frame of length -4, and so every turn that does
not break takes something from the buffer. A turn whose four bytes lie outside
the vector counts as the end of the loop (`outOfBounds`): what it reads is not
known. -/
theorem decoder_ends_iff (r : Receiver) (buf : Buffer) :
    ((∃ fuel, onMessage fuel r buf ≠ .error .outOfFuel) ↔ ¬ Stalls buf) ∧
    ((∀ b, Met buf b → GoesOn b → (turn b).readableBytes < b.readableBytes) ↔ ¬ Stalls buf) := by
  refine ⟨⟨fun ⟨fuel, he⟩ hs => he (outOfFuel_of_stalls hs fuel r), fun hs => ?_⟩, fun hd hs => ?_, fun hs b hm hgo => ?_⟩
  · exact ⟨_, ends_of_not_stalls hs (Nat.lt_succ_self _) r⟩
  · obtain ⟨b, hm, hgo, hl⟩ := hs.met .start
    exact (turn_lt_iff hgo).mp (hd b hm hgo) hl
  · exact (turn_lt_iff hgo).mpr fun hl => hs (hm.stalls (.here hgo hl))

/-- Four bytes, the `int` -4. -/
theorem decoder_never_ends :
    let buf : Buffer := ⟨[252, 255, 255, 255], 0, 4⟩
    buf.readableBytes = 4 ∧ turn buf = buf ∧
      ∀ fuel, onMessage fuel ⟨(StreamBuffer.alloc (fun n => some (List.replicate n 0)) .new 16).2, 0, 0⟩ buf =
        .error .outOfFuel := by
  intro buf
  have hgo : GoesOn buf := by decide
  have hl : (int32OfBytes buf.peek).toInt = -4 := by decide
  exact ⟨rfl, turn_eq hgo hl, fun fuel => outOfFuel_of_stalls (.here hgo hl) fuel _⟩

end Ydx.Receiver
