import YdxNet.Impl.Receiver
import YdxNet.Proof.Buffer
import YdxNet.Proof.StreamFifo

/-!
# The decoder of the receiver

`Receiver::onMessage` on a buffer whose readable bytes begin a sequence of
frames: it hands over the messages whose frames its test for a complete
message lets pass, and leaves the rest (`onMessage_ends`). Two things can
mislead the test. With one to three bytes of a length field readable it takes
the missing bytes from behind the readable ones, where the vector keeps what
an earlier message left. And it takes the count of the bytes behind the length
field for an `int`, which wraps beyond 2³¹ - 1, so that complete messages may
wait for a later chunk. `Unstale` says that the first does no harm and that
the last chunk leaves no message waiting; exactly then the messages handed over
do not depend on how the stream is cut into chunks (`decoder_ok`).
-/

namespace Ydx.Receiver

open Spec Buffer

/-- How many of `t` bytes of the frames of `msgs` lie behind the last
complete frame. -/
def tailLen : List Message → Nat → Nat
  | [], t => t
  | m :: msgs, t => if 4 + m.length ≤ t then tailLen msgs (t - (4 + m.length)) else t

/-- The call that hands over a message. -/
def call (m : Message) : WriteCall := ⟨lenInt m.length, m⟩

theorem tailLen_append (done rest : List Message) (n : Nat) :
    tailLen (done ++ rest) (framesSize done + n) = tailLen rest n := by
  induction done with
  | nil => simp [framesSize]
  | cons m done ih =>
    rw [List.cons_append, tailLen, framesSize_cons, if_pos (by omega),
      show 4 + m.length + framesSize done + n - (4 + m.length) = framesSize done + n by omega, ih]

/-- The messages whose frames are not among the first `t` bytes. -/
def behind : List Message → Nat → List Message
  | [], _ => []
  | m :: msgs, t => if 4 + m.length ≤ t then behind msgs (t - (4 + m.length)) else m :: msgs

theorem behind_append (done rest : List Message) : behind (done ++ rest) (framesSize done) = rest := by
  induction done with
  | nil =>
    cases rest with
    | nil => rfl
    | cons m rest => rw [List.nil_append, behind, if_neg (by simp [framesSize])]
  | cons m done ih =>
    rw [List.cons_append, behind, framesSize_cons, if_pos (by omega), Nat.add_sub_cancel_left, ih]

/-- The test lets the frame of `m` pass, at the beginning of `n` readable
bytes: it is complete, and what the test takes for the count of the bytes
behind the length field, modulo 2³², is not less than the length. -/
def Passes (m : Message) (n : Nat) : Prop :=
  4 + m.length ≤ n ∧ (m.length : Int) ≤ ((n : Int) - 4).bmod (2 ^ 32)

instance (m : Message) (n : Nat) : Decidable (Passes m n) := inferInstanceAs (Decidable (_ ∧ _))

/-- How many of `n` readable bytes, with which the frames of `msgs` begin, the
test leaves. -/
def leftLen : List Message → Nat → Nat
  | [], n => n
  | m :: msgs, n => if Passes m n then leftLen msgs (n - (4 + m.length)) else n

/-- The test lets the frames of all of `msgs` pass, one after the other. -/
def AllPass : List Message → Nat → Prop
  | [], _ => True
  | m :: msgs, n => Passes m n ∧ AllPass msgs (n - (4 + m.length))

instance : ∀ (msgs : List Message) (n : Nat), Decidable (AllPass msgs n)
  | [], _ => isTrue trivial
  | m :: msgs, n =>
    have := instDecidableAllPass msgs (n - (4 + m.length))
    inferInstanceAs (Decidable (_ ∧ _))

theorem allPass_append {done rest : List Message} {n : Nat} :
    AllPass (done ++ rest) n ↔ AllPass done n ∧ AllPass rest (n - framesSize done) := by
  induction done generalizing n with
  | nil => simp [AllPass, framesSize]
  | cons m done ih =>
    rw [List.cons_append, AllPass, AllPass, framesSize_cons, ih, and_assoc, Nat.sub_sub]

/-- The count does not wrap. -/
theorem bmod_count {n : Nat} (hn : n ≤ 2 ^ 31 + 3) : ((n : Int) - 4).bmod (2 ^ 32) = (n : Int) - 4 := by
  rw [Int.bmod_def]
  split <;> omega

theorem passes_iff {m : Message} {n : Nat} (hn : n ≤ 2 ^ 31 + 3) : Passes m n ↔ 4 + m.length ≤ n := by
  rw [Passes, bmod_count hn]
  omega

theorem leftLen_eq_tailLen : ∀ (rest : List Message) {n : Nat}, n ≤ 2 ^ 31 + 3 → leftLen rest n = tailLen rest n
  | [], _, _ => rfl
  | m :: rest, n, hn => by
    rw [leftLen, tailLen, leftLen_eq_tailLen rest (by omega : n - (4 + m.length) ≤ 2 ^ 31 + 3)]
    simp only [passes_iff hn]

theorem leftLen_pos {rest : List Message} {n : Nat} (h : 0 < leftLen rest n) : 0 < n := by
  rcases Nat.eq_zero_or_pos n with h0 | h0
  · rw [h0] at h
    cases rest <;> simp [leftLen, Passes] at h
  · exact h0

/-- The last `k` readable bytes of `b` are not taken for a complete message:
the four bytes found there are inside the vector and, as an `int`, more than
`k - 4`. -/
def HeaderOk (b : Buffer) (k : Nat) : Prop :=
  4 ≤ (b.buffer_.drop (b.writer_index_ - k)).length ∧
    (k : Int) - 4 < (int32OfBytes (b.buffer_.drop (b.writer_index_ - k))).toInt

instance (b : Buffer) (k : Nat) : Decidable (HeaderOk b k) := inferInstanceAs (Decidable (_ ∧ _))

/-- Where the test leaves a part of a length field of the `n` readable bytes, it
does not take it for a complete message. -/
def CutOk (b : Buffer) (msgs : List Message) (n : Nat) : Prop :=
  0 < leftLen msgs n → leftLen msgs n < 4 → HeaderOk b (leftLen msgs n)

instance (b : Buffer) (msgs : List Message) (n : Nat) : Decidable (CutOk b msgs n) :=
  inferInstanceAs (Decidable (_ → _ → _))

variable {b : Buffer} {x : List Byte}

/-- `(int)(readable_bytes() - sizeof(int))` is the difference, also below
zero, modulo 2³². -/
theorem toInt_payloadBytes (b : Buffer) : (payloadBytes b).toInt = ((b.readableBytes : Int) - 4).bmod (2 ^ 32) := by
  have hn : (UInt64.ofNat b.readableBytes - sizeofInt).toNat =
      (2 ^ 64 - 4 + b.readableBytes % 2 ^ 64) % 2 ^ 64 := by
    rw [UInt64.toNat_sub, UInt64.toNat_ofNat']
    rfl
  rw [payloadBytes, toInt_toInt32, UInt64.toNat_toUInt32, hn, Int.bmod_def]
  split <;> split <;> omega

/-- The length field of the frame that begins the readable bytes. -/
theorem peek_frame {m : Message} {y z : List Byte} (h : Rep b x) (hx : x ++ y = frame m ++ z) (h4 : 4 ≤ x.length) :
    ¬ b.peek.length < 4 ∧ int32OfBytes b.peek = lenInt m.length := by
  obtain ⟨back, hp, -⟩ := h.peek
  have ht : x.take 4 = int32Bytes (lenInt m.length) := by
    have := congrArg (List.take 4) hx
    rwa [List.take_append_of_le_length h4, frame, List.append_assoc, List.take_left' (by simp)] at this
  refine ⟨by rw [hp, List.length_append]; omega, ?_⟩
  rw [← int32OfBytes_take, hp, List.take_append_of_le_length h4, ht]
  exact (congrArg int32OfBytes (List.append_nil _)).symm.trans (int32OfBytes_int32Bytes _ [])

/-- A turn of the loop that ends it. -/
theorem onMessage_break {r : Receiver} {fuel : Nat} (h0 : b.readableBytes ≠ 0) (h4 : ¬ b.peek.length < 4)
    (hl : ((b.readableBytes : Int) - 4).bmod (2 ^ 32) < (int32OfBytes b.peek).toInt) :
    onMessage (fuel + 1) r b = .ok ⟨[], r, b⟩ := by
  have : payloadBytes b < int32OfBytes b.peek := by
    rw [Int32.lt_iff_toInt_lt, toInt_payloadBytes]; exact hl
  rw [onMessage, if_neg h0, if_neg h4]
  simp only [this, ite_true]

/-- A turn of the loop that hands over a message. -/
theorem onMessage_next (r : Receiver) (fuel : Nat) {m : Message} {rest : List Byte}
    (h : Rep b (frame m ++ rest)) (hm : m.length ≤ 2 ^ 31 - 5) (hpass : Passes m b.readableBytes) :
    ∃ r', onMessage (fuel + 1) r b =
      match onMessage fuel r' (b.retrieve (4 + m.length)) with
      | .error e => .error e
      | .ok d => .ok { d with calls := call m :: d.calls } := by
  have hr := h.readableBytes
  rw [List.length_append, length_frame] at hr
  obtain ⟨back, hp, -⟩ := h.peek
  have hlen : int32OfBytes b.peek = lenInt m.length := by
    rw [hp, frame, List.append_assoc, List.append_assoc]; exact int32OfBytes_int32Bytes _ _
  have hlt : ¬ payloadBytes b < lenInt m.length := by
    rw [Int32.lt_iff_toInt_lt, toInt_payloadBytes, toInt_lenInt (by omega)]
    exact not_lt.mpr hpass.2
  have hn : (sizeofInt + sizeT (lenInt m.length)).toNat = 4 + m.length := by
    rw [UInt64.toNat_add, sizeT_lenInt (by omega), StreamBuffer.toNat_sizeofInt]; omega
  have hpay : (b.peek.drop 4).take m.length = m := by
    rw [hp, frame, List.append_assoc, List.append_assoc, List.drop_left' (by simp), List.take_left]
  refine ⟨r.deliver (b.peek.drop 4) (lenInt m.length), ?_⟩
  rw [onMessage, if_neg (by omega), if_neg (by rw [hp]; simp; omega)]
  simp only [hlen, hlt, ite_false, hn, toInt_lenInt (by omega : m.length < 2 ^ 31), Int.toNat_natCast, hpay]
  rfl

/-- What is left of the frames of `rest` when `p` has arrived: `p` begins the
next frame. -/
def Begins (p : List Byte) : List Message → Prop
  | [] => p = []
  | m :: _ => p.length < 4 + m.length

theorem begins_nil (rest : List Message) : Begins [] rest := by
  cases rest with
  | nil => rfl
  | cons m rest => exact Nat.add_pos_left (by decide) _

/-- What the test leaves of the frames of `rest` when `p` has arrived: it does
not let the next frame pass. -/
def Ends (p : List Byte) : List Message → Prop
  | [] => p = []
  | m :: _ => ¬ Passes m p.length

theorem Ends.begins {p : List Byte} {rest : List Message} (h : Ends p rest) (hp : p.length ≤ 2 ^ 31 + 3) :
    Begins p rest := by
  cases rest with
  | nil => exact h
  | cons m rest => exact not_le.mp (mt (passes_iff hp).mpr h)

/-- A frame that has arrived in full. -/
theorem frame_complete {m : Message} {x y z : List Byte} (hx : x ++ y = frame m ++ z) (hc : 4 + m.length ≤ x.length) :
    ∃ x₁, x = frame m ++ x₁ ∧ x₁ ++ y = z := by
  rcases List.append_eq_append_iff.mp hx with ⟨z', hz, hy⟩ | ⟨z', hz, hy⟩
  · have hl := congrArg List.length hz
    rw [length_frame, List.length_append] at hl
    have : z' = [] := List.eq_nil_of_length_eq_zero (by omega)
    subst this
    exact ⟨[], by rw [hz, List.append_nil, List.append_nil], by rw [hy]; rfl⟩
  · exact ⟨z', hz, hy.symm⟩

/-- A turn of the loop with a frame that passes: the rest of the frames are to be
decoded from the rest of the bytes, and the bytes behind them stay. -/
theorem onMessage_frame (r : Receiver) (fuel : Nat) {m : Message} {rest : List Message} {y : List Byte} (h : Rep b x)
    (hx : x ++ y = frame m ++ rest.flatMap frame) (hm : m.length ≤ 2 ^ 31 - 5) (hpass : Passes m x.length) :
    ∃ r₁ x₁, x = frame m ++ x₁ ∧ x₁ ++ y = rest.flatMap frame ∧ Rep (b.retrieve (4 + m.length)) x₁ ∧
      x.length - (4 + m.length) = x₁.length ∧
      (0 < leftLen rest x₁.length → ∀ k, HeaderOk (b.retrieve (4 + m.length)) k ↔ HeaderOk b k) ∧
      onMessage (fuel + 1) r b =
        match onMessage fuel r₁ (b.retrieve (4 + m.length)) with
        | .error e => .error e
        | .ok d => .ok { d with calls := call m :: d.calls } := by
  have hr := h.readableBytes
  obtain ⟨x₁, rfl, hx₁⟩ := frame_complete hx hpass.1
  obtain ⟨r₁, e⟩ := onMessage_next r fuel h hm (by rw [hr]; exact hpass)
  have hret : Rep (b.retrieve (4 + m.length)) x₁ := by
    have := retrieve_ok h (frame m).length
    rwa [List.drop_left, length_frame] at this
  refine ⟨r₁, x₁, rfl, hx₁, hret, ?_, ?_, e⟩
  · rw [List.length_append, length_frame, Nat.add_sub_cancel_left]
  · intro h0 k
    have hne := leftLen_pos h0
    rw [List.length_append, length_frame] at hr
    rw [retrieve, hr, if_pos (by omega)]
    exact Iff.rfl

/-- The bytes of the vector from the first readable one on. -/
theorem drop_writer_eq_peek (h : Rep b x) : b.buffer_.drop (b.writer_index_ - x.length) = b.peek := by
  have hr := h.readableBytes
  have hg := h.good.1
  rw [Buffer.peek]
  congr 1
  simp only [readableBytes] at hr
  omega

/-- A frame that does not pass is longer than the test takes the readable
bytes for. -/
theorem bmod_lt {m : Message} {n : Nat} (hm : m.length ≤ 2 ^ 31 - 5) (h : ¬ Passes m n) :
    ((n : Int) - 4).bmod (2 ^ 32) < m.length := by
  by_cases hc : 4 + m.length ≤ n
  · exact not_le.mp fun hle => h ⟨hc, hle⟩
  · rw [bmod_count (by omega)]
    omega

/-- `onMessage` on the first bytes `x` of some frames. -/
theorem onMessage_ends : ∀ (rest : List Message) (fuel : Nat) (r : Receiver) (b : Buffer) (x y : List Byte),
    Rep b x → x ++ y = rest.flatMap frame → (∀ m ∈ rest, m.length ≤ 2 ^ 31 - 5) → x.length < fuel →
    CutOk b rest x.length →
    ∃ done rest' p r' b', rest = done ++ rest' ∧ x = done.flatMap frame ++ p ∧ AllPass done x.length ∧
      Ends p rest' ∧ onMessage fuel r b = .ok ⟨done.map call, r', b'⟩ ∧ Rep b' p
  | rest, 0, _, _, _, _, _, _, _, hf, _ => absurd hf (Nat.not_lt_zero _)
  | [], fuel + 1, r, b, x, y, h, hx, _, _, _ => by
    have : x = [] := (List.append_eq_nil_iff.mp hx).1
    subst this
    have hr : b.readableBytes = 0 := h.readableBytes
    refine ⟨[], [], [], r, b, rfl, rfl, trivial, rfl, ?_, h⟩
    rw [onMessage, if_pos hr]; rfl
  | m :: rest, fuel + 1, r, b, x, y, h, hx, hm, hf, hh => by
    have hr := h.readableBytes
    have hm0 := hm m List.mem_cons_self
    rw [List.flatMap_cons] at hx
    rw [CutOk, leftLen] at hh
    by_cases hpass : Passes m x.length
    · -- The frame of `m` passes.
      obtain ⟨r₁, x₁, rfl, hx₁, hret, hl, hhead, e⟩ := onMessage_frame r fuel h hx hm0 hpass
      rw [if_pos hpass, hl] at hh
      rw [List.length_append, length_frame] at hf
      obtain ⟨done, rest', p, r', b', rfl, rfl, ha, he, e', hp⟩ := onMessage_ends rest fuel r₁ _ x₁ y hret hx₁
        (fun m' hm' => hm m' (List.mem_cons_of_mem _ hm')) (by omega) (fun h₁ h₂ => (hhead h₁ _).mpr (hh h₁ h₂))
      refine ⟨m :: done, rest', p, r', b', rfl, by simp, ⟨hpass, by rw [hl]; exact ha⟩, he, ?_, hp⟩
      rw [e, e']; rfl
    · -- It does not, and the loop ends.
      rw [if_neg hpass] at hh
      refine ⟨[], m :: rest, x, r, b, rfl, rfl, trivial, hpass, ?_, h⟩
      rcases Nat.eq_zero_or_pos x.length with h0 | h0
      · rw [onMessage, if_pos (by omega)]; rfl
      by_cases h4 : x.length < 4
      · obtain ⟨hin, hlen⟩ := hh h0 h4
        rw [drop_writer_eq_peek h] at hin hlen
        exact onMessage_break (by omega) (by omega) (by rw [hr, bmod_count (by omega)]; exact hlen)
      · obtain ⟨hin, hlen⟩ := peek_frame h hx (by omega)
        exact onMessage_break (by omega) hin (by rw [hr, hlen, toInt_lenInt (by omega)]; exact bmod_lt hm0 hpass)

/-- `onMessage` on the first bytes `x` of some frames, whose count does not
wrap. -/
theorem onMessage_ok (rest : List Message) (fuel : Nat) (r : Receiver) (b : Buffer) (x y : List Byte) (h : Rep b x)
    (hx : x ++ y = rest.flatMap frame) (hm : ∀ m ∈ rest, m.length ≤ 2 ^ 31 - 5) (h31 : x.length ≤ 2 ^ 31 + 3)
    (hf : x.length < fuel)
    (hh : 0 < tailLen rest x.length → tailLen rest x.length < 4 → HeaderOk b (tailLen rest x.length)) :
    ∃ done rest' p r' b', rest = done ++ rest' ∧ x = done.flatMap frame ++ p ∧ Begins p rest' ∧
      onMessage fuel r b = .ok ⟨done.map call, r', b'⟩ ∧ Rep b' p := by
  rw [← leftLen_eq_tailLen rest h31] at hh
  obtain ⟨done, rest', p, r', b', hrest, rfl, -, he, e, hp⟩ := onMessage_ends rest fuel r b x y h hx hm hf hh
  rw [List.length_append] at h31
  exact ⟨done, rest', p, r', b', hrest, rfl, he.begins (by omega), e, hp⟩

/-- `onMessage` when the bytes behind the readable ones mislead it: it reads out
of bounds, or hands over a message of negative length. -/
theorem onMessage_misled : ∀ (rest : List Message) (fuel : Nat) (r : Receiver) (b : Buffer) (x y : List Byte),
    Rep b x → x ++ y = rest.flatMap frame → (∀ m ∈ rest, m.length ≤ 2 ^ 31 - 5) → ¬ CutOk b rest x.length →
    (∃ e, onMessage fuel r b = .error e) ∨ ∃ d, onMessage fuel r b = .ok d ∧ ∃ w ∈ d.calls, w.len.toInt < 0
  | rest, 0, r, b, _, _, _, _, _, _ => .inl ⟨_, rfl⟩
  | [], fuel + 1, r, b, x, y, h, hx, _, hh => by
    have : x = [] := (List.append_eq_nil_iff.mp hx).1
    subst this
    exact absurd (fun h0 => absurd h0 (Nat.lt_irrefl 0)) hh
  | m :: rest, fuel + 1, r, b, x, y, h, hx, hm, hh => by
    have hr := h.readableBytes
    rw [List.flatMap_cons] at hx
    rw [CutOk, leftLen] at hh
    by_cases hpass : Passes m x.length
    · obtain ⟨r₁, x₁, rfl, hx₁, hret, hl, hhead, e⟩ := onMessage_frame r fuel h hx (hm m List.mem_cons_self) hpass
      rw [if_pos hpass, hl] at hh
      have hcut : ¬ CutOk (b.retrieve (4 + m.length)) rest x₁.length := fun hcut =>
        hh fun h0 h4 => (hhead h0 _).mp (hcut h0 h4)
      rcases onMessage_misled rest fuel r₁ _ x₁ y hret hx₁ (fun m' hm' => hm m' (List.mem_cons_of_mem _ hm')) hcut with
        ⟨e', he'⟩ | ⟨d, hd, w, hw, hneg⟩
      · exact .inl ⟨e', by rw [e, he']⟩
      · exact .inr ⟨_, by rw [e, hd], w, List.mem_cons_of_mem _ hw, hneg⟩
    · rw [if_neg hpass] at hh
      simp only [Classical.not_imp] at hh
      obtain ⟨h0, h4, hh⟩ := hh
      rw [HeaderOk, drop_writer_eq_peek h] at hh
      by_cases hin : b.peek.length < 4
      · left
        refine ⟨.outOfBounds, ?_⟩
        rw [onMessage, if_neg (by omega), if_pos hin]
      · have hlen : (int32OfBytes b.peek).toInt ≤ (x.length : Int) - 4 := by
          by_contra hlt
          exact hh ⟨by omega, by omega⟩
        have hlt : ¬ payloadBytes b < int32OfBytes b.peek := by
          rw [Int32.lt_iff_toInt_lt, toInt_payloadBytes, bmod_count (by omega)]
          omega
        rw [onMessage, if_neg (by omega), if_neg hin]
        simp only [hlt, if_false]
        split
        · rename_i e _
          exact .inl ⟨e, rfl⟩
        · exact .inr ⟨_, rfl, _, List.mem_cons_self, by dsimp only; omega⟩

/-! ## Runs -/

/-- A connection of the receiver: its input buffer, and how many bytes have
arrived. -/
structure Decoder where
  receiver : Receiver
  inputBuffer_ : Buffer
  arrived : Nat
  stopped : Option Stop

/-- `handleRead` with one chunk after another: the calls of `write_buffer`. -/
def decoder (fuel : Nat) : Machine Decoder (List Byte) (List WriteCall) where
  step s chunk :=
    match s.stopped with
    | some _ => (s, [])
    | none =>
      match s.receiver.handleRead fuel s.inputBuffer_ chunk with
      | .error e => ({ s with stopped := some e }, [])
      | .ok d => (⟨d.receiver, d.buf, s.arrived + chunk.length, none⟩, d.calls)

/-- A connection of `r` on which nothing has arrived. -/
def Decoder.start (r : Receiver) : Decoder := ⟨r, Buffer.new initSpace, 0, none⟩

/-- A chunk that does not mislead the decoder: where it cuts a length field, the
bytes of the vector behind it do not make that field negative enough to pass
for a complete message; and with the last chunk the test lets all the messages
pass that are not handed over. -/
def Unstale (msgs : List Message) (s : Decoder) (chunk : List Byte) : Prop :=
  let b := (s.inputBuffer_.readFd (.ok chunk)).2.2
  let rest := behind msgs (s.arrived - s.inputBuffer_.readableBytes)
  CutOk b rest b.readableBytes ∧ (s.arrived + chunk.length = framesSize msgs → AllPass rest b.readableBytes)

instance (msgs : List Message) (s : Decoder) (chunk : List Byte) : Decidable (Unstale msgs s chunk) :=
  inferInstanceAs (Decidable (_ ∧ (_ → _)))

theorem handleRead_eq (fuel : Nat) (r : Receiver) (b : Buffer) {chunk : List Byte} (hc : chunk ≠ []) :
    r.handleRead fuel b chunk = r.onMessage fuel (b.readFd (.ok chunk)).2.2 := by
  have hl : 0 < chunk.length := List.length_pos_iff.mpr hc
  rw [handleRead]
  simp only [readFd_count]
  rw [if_pos (by omega)]

/-- The messages `done` have been handed over, and `p` begins the frames of `rest`,
which `y` will complete. -/
structure Between (done rest : List Message) (p y : List Byte) (s : Decoder) : Prop where
  running : s.stopped = none
  arrived : s.arrived = framesSize done + p.length
  rep : Rep s.inputBuffer_ p
  frames : p ++ y = rest.flatMap frame
  lengths : ∀ m ∈ rest, m.length ≤ 2 ^ 31 - 5

variable {fuel : Nat} {s : Decoder} {done rest : List Message} {p y c : List Byte}

/-- What a chunk must not do, in terms of what is left of the frames. -/
theorem Between.unstale_iff (h : Between done rest p (c ++ y) s) :
    Unstale (done ++ rest) s c ↔
      CutOk (s.inputBuffer_.readFd (.ok c)).2.2 rest (p ++ c).length ∧ (y = [] → AllPass rest (p ++ c).length) := by
  have hlast : s.arrived + c.length = framesSize (done ++ rest) ↔ y = [] := by
    have hl := congrArg List.length h.frames
    have ha := h.arrived
    rw [List.length_append, List.length_append] at hl
    rw [← List.length_eq_zero_iff]
    simp only [framesSize, List.flatMap_append, List.length_append] at ha ⊢
    omega
  simp only [Unstale, (readFd_ok h.rep c).readableBytes, h.rep.readableBytes, h.arrived, Nat.add_sub_cancel,
    behind_append]
  rw [← h.arrived, hlast]

/-- At the end of the stream nothing is left. -/
theorem Between.finished (h : Between done rest [] [] s) : rest = [] := by
  cases rest with
  | nil => rfl
  | cons m rest =>
    have hl := congrArg List.length h.frames
    rw [List.nil_append, List.length_nil, List.flatMap_cons, List.length_append, length_frame] at hl
    omega

/-- A chunk that does not cut a length field so that it misleads the decoder. -/
theorem Between.step (h : Between done rest p (c ++ y) s) (hc : c ≠ []) (hf : framesSize rest < fuel)
    (hu : CutOk (s.inputBuffer_.readFd (.ok c)).2.2 rest (p ++ c).length) :
    ∃ done' rest' p', rest = done' ++ rest' ∧ ((decoder fuel).step s c).2 = done'.map call ∧
      (p ++ c).length - framesSize done' = p'.length ∧ AllPass done' (p ++ c).length ∧ Ends p' rest' ∧
      Between (done ++ done') rest' p' y ((decoder fuel).step s c).1 := by
  have hread := readFd_ok h.rep c
  have hp := h.frames
  rw [← List.append_assoc] at hp
  have hfl : framesSize rest = (p ++ c).length + y.length := by rw [framesSize, ← hp, List.length_append]
  obtain ⟨done', rest', p', r', b', rfl, hx, hall, hends, e, hp'⟩ :=
    onMessage_ends rest fuel s.receiver _ (p ++ c) y hread hp h.lengths (by omega) hu
  have hstep : (decoder fuel).step s c = (⟨r', b', s.arrived + c.length, none⟩, done'.map call) := by
    simp only [decoder, h.running, handleRead_eq fuel s.receiver s.inputBuffer_ hc, e]
  have hsz := congrArg List.length hx
  have ha := h.arrived
  rw [List.length_append, List.length_append] at hsz
  rw [hx, List.flatMap_append, List.append_assoc, List.append_cancel_left_eq] at hp
  refine ⟨done', rest', p', rfl, by rw [hstep], ?_, hall, hends, ?_⟩
  · rw [hx, List.length_append, framesSize, Nat.add_sub_cancel_left]
  · rw [hstep]
    refine ⟨rfl, ?_, hp', hp, fun m hm => h.lengths m (List.mem_append_right _ hm)⟩
    simp only [framesSize, List.flatMap_append, List.length_append] at ha ⊢
    omega

/-- Where the frames of all the messages pass, none is left. -/
theorem ends_allPass {done' rest' : List Message} {p' : List Byte} {n : Nat} (ha : AllPass (done' ++ rest') n)
    (hn : n - framesSize done' = p'.length) (he : Ends p' rest') : p' = [] := by
  cases rest' with
  | nil => exact he
  | cons m rest' =>
    have hp := (allPass_append.mp ha).2
    rw [hn] at hp
    exact absurd hp.1 he

/-- A chunk that does stops it, or makes it hand over a message of negative length. -/
theorem Between.misled (h : Between done rest p (c ++ y) s) (fuel : Nat) (hc : c ≠ [])
    (hh : ¬ CutOk (s.inputBuffer_.readFd (.ok c)).2.2 rest (p ++ c).length) :
    ((decoder fuel).step s c).1.stopped ≠ none ∨ ∃ w ∈ ((decoder fuel).step s c).2, w.len.toInt < 0 := by
  have hread := readFd_ok h.rep c
  have hp := h.frames
  rw [← List.append_assoc] at hp
  simp only [decoder, h.running, handleRead_eq fuel s.receiver s.inputBuffer_ hc]
  rcases onMessage_misled rest fuel s.receiver _ (p ++ c) y hread hp h.lengths hh with
    ⟨e, he⟩ | ⟨d, hd, w, hw', hneg⟩
  · left
    rw [he]
    exact Option.some_ne_none e
  · right
    rw [hd]
    exact ⟨w, hw', hneg⟩

/-- A decoder that has stopped stays stopped. -/
theorem stopped_final : ∀ (chunks : List (List Byte)) (s : Decoder), s.stopped ≠ none →
    ((decoder fuel).final s chunks).stopped ≠ none
  | [], _, h => h
  | c :: chunks, s, h => by
    obtain ⟨e, he⟩ := Option.ne_none_iff_exists'.mp h
    have hstep : ((decoder fuel).step s c).1 = s := by simp only [decoder, he]
    rw [Machine.final, hstep]
    exact stopped_final chunks s h

/-- The messages `rest` are handed over in their order, and nothing is left. -/
def Decodes (fuel : Nat) (s : Decoder) (chunks : List (List Byte)) (rest : List Message) : Prop :=
  ((decoder fuel).outputs s chunks).flatten = rest.map call ∧ ((decoder fuel).final s chunks).stopped = none ∧
    ((decoder fuel).final s chunks).inputBuffer_.readableBytes = 0

theorem framesSize_rest {done' rest' : List Message} (h : framesSize (done' ++ rest') < fuel) : framesSize rest' < fuel := by
  simp only [framesSize, List.flatMap_append, List.length_append] at h ⊢
  omega

theorem Between.decodes : ∀ (chunks : List (List Byte)) {done rest : List Message} {p : List Byte} {s : Decoder},
    Between done rest p chunks.flatten s → (∀ c ∈ chunks, c ≠ []) → framesSize rest < fuel →
    (chunks.flatten = [] → p = []) → (decoder fuel).Along (Unstale (done ++ rest)) s chunks → Decodes fuel s chunks rest
  | [], _, rest, p, s, h, _, _, hl, _ => by
    obtain rfl := hl rfl
    obtain rfl := h.finished
    exact ⟨rfl, h.running, h.rep.readableBytes⟩
  | c :: chunks, done, rest, p, s, h, hc, hf, _, ⟨hu, hrun⟩ => by
    obtain ⟨hhead, hlast⟩ := h.unstale_iff.mp hu
    obtain ⟨done', rest', p', rfl, ho, hn, -, hends, h'⟩ := h.step (hc c List.mem_cons_self) hf hhead
    rw [← List.append_assoc] at hrun
    obtain ⟨ho', hst, hrd⟩ := Between.decodes chunks h' (fun c' hc' => hc c' (List.mem_cons_of_mem _ hc'))
      (framesSize_rest hf) (fun hy => ends_allPass (hlast hy) hn hends) hrun
    refine ⟨?_, hst, hrd⟩
    rw [Machine.outputs, List.flatten_cons, ho, ho', List.map_append]

/-- No message has a negative length. -/
theorem len_call_nonneg {m : Message} (h : m.length ≤ 2 ^ 31 - 5) : ¬ (call m).len.toInt < 0 := by
  rw [call, toInt_lenInt (by omega)]
  omega

theorem Between.unstale : ∀ (chunks : List (List Byte)) {done rest : List Message} {p : List Byte} {s : Decoder},
    Between done rest p chunks.flatten s → (∀ c ∈ chunks, c ≠ []) → framesSize rest < fuel →
    Decodes fuel s chunks rest → (decoder fuel).Along (Unstale (done ++ rest)) s chunks
  | [], _, _, _, _, _, _, _, _ => trivial
  | c :: chunks, done, rest, p, s, h, hc, hf, ⟨ho, hst, hrd⟩ => by
    rw [Machine.outputs, List.flatten_cons] at ho
    have hhead : CutOk (s.inputBuffer_.readFd (.ok c)).2.2 rest (p ++ c).length := by
      by_contra hh
      rcases h.misled fuel (hc c List.mem_cons_self) hh with hs | ⟨w, hw, hneg⟩
      · exact stopped_final chunks _ hs hst
      · have hm : w ∈ rest.map call := by
          rw [← ho]
          exact List.mem_append_left _ hw
        obtain ⟨m, hm', rfl⟩ := List.mem_map.mp hm
        exact len_call_nonneg (h.lengths m hm') hneg
    obtain ⟨done', rest', p', rfl, ho', hn, hall, -, h'⟩ := h.step (hc c List.mem_cons_self) hf hhead
    rw [ho', List.map_append, List.append_cancel_left_eq] at ho
    refine ⟨h.unstale_iff.mpr ⟨hhead, fun hy => ?_⟩, ?_⟩
    · -- Nothing comes behind the last chunk, so all have been handed over.
      have hnil : chunks = [] := by
        cases chunks with
        | nil => rfl
        | cons c' chunks =>
          exact absurd (List.append_eq_nil_iff.mp hy).1 (hc c' (List.mem_cons_of_mem _ List.mem_cons_self))
      subst hnil
      have hr : rest' = [] := List.map_eq_nil_iff.mp ho.symm
      rw [hr, List.append_nil]
      exact hall
    · have := Between.unstale chunks h' (fun c' hc' => hc c' (List.mem_cons_of_mem _ hc')) (framesSize_rest hf)
        ⟨ho, hst, hrd⟩
      rwa [List.append_assoc] at this

/-- However the frames of some messages are cut into chunks, the payloads passed
to `write_buffer` are the messages in their order, and the input buffer is
empty in the end, exactly when no chunk misleads the decoder. -/
theorem decoder_ok (r : Receiver) (msgs : List Message) (hm : ∀ m ∈ msgs, m.length ≤ 2 ^ 31 - 5)
    (chunks : List (List Byte)) (hne : ∀ c ∈ chunks, c ≠ []) (hc : chunks.flatten = msgs.flatMap frame)
    (fuel : Nat) (hf : framesSize msgs < fuel) :
    (decoder fuel).Along (Unstale msgs) (Decoder.start r) chunks ↔ Decodes fuel (Decoder.start r) chunks msgs := by
  have h : Between [] msgs [] chunks.flatten (Decoder.start r) := ⟨rfl, rfl, new_ok initSpace, hc, hm⟩
  exact ⟨h.decodes chunks hne hf fun _ => rfl, h.unstale chunks hne hf⟩

/-- The receiver as its constructor leaves it, with a ring of 16 MB. -/
def fresh : Receiver :=
  ⟨(StreamBuffer.alloc StreamBuffer.mallocZeroed StreamBuffer.new (16 * 1048576)).2, 0, 0⟩

/-- Two messages cut inside both length fields, in a vector without stale
bytes. -/
theorem decoder_ok_fresh :
    ((decoder 100).outputs (Decoder.start fresh) [[2, 0, 0], [0, 1, 2, 0, 0], [0, 0]]).flatten =
      [call [1, 2], call []] :=
  ((decoder_ok fresh [[1, 2], []] (by decide) [[2, 0, 0], [0, 1, 2, 0, 0], [0, 0]] (by decide)
    (by decide) 100 (by decide)).mp (by decide +kernel)).1

/-- A message of four bytes `0xff` arrives, then an empty message and the
first byte of the length of a third: the bytes behind it, left by the first
message, make that length negative, the decoder passes it to `write_buffer`
and drops the byte. -/
theorem decoder_stale :
    let msgs : List Message := [[255, 255, 255, 255], [], [170]]
    let chunks : List (List Byte) := [[4, 0, 0, 0, 255, 255, 255, 255], [0, 0, 0, 0, 1], [0, 0, 0, 170]]
    chunks.flatten = msgs.flatMap frame ∧
      ((decoder 100).final (Decoder.start fresh) chunks).stopped = none ∧
      ((decoder 100).outputs (Decoder.start fresh) chunks).flatten ≠ msgs.map call := by
  decide +kernel

end Ydx.Receiver
