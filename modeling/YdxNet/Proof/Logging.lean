import YdxNet.Impl.Logging
import YdxNet.Proof.LogStream

/-!
# Whether a log record ends its line

The end of the line is the last of five pieces that the destructor puts, and it is
dropped like every other piece when there is no room. What the record ends with
depends on how full the array was (`record_ends_line_iff`): a string of 3974
characters is enough to lose the end of the line.
-/

namespace Ydx

open Spec (Piece acceptedText integerText)

/-- `'\n'`. -/
def newline : Byte := 10

namespace Logger

/-- The constructors, with the arguments that only they have. -/
inductive Construction
  | plain
  | func (level : LogLevel) (func : Option (List Byte))
  | level (level : LogLevel)
  | abort (toAbort : Bool)

/-- The constructor is called. -/
def Construction.make (mem : Nat → Byte) (time : List Byte) (file : SourceFile) (line : Int32) :
    Construction → Option Logger
  | .plain => Logger.new mem time file line
  | .func l f => newFunc mem time file line l f
  | .level l => newLevel mem time file line l
  | .abort b => newAbort mem time file line b

section

variable (mem : Nat → Byte) (time : List Byte) (file : SourceFile) (line : Int32)

theorem construct_ok {s : LogStream} (hs : s.buffer_.content.length < kSmallBuffer) (level : LogLevel) :
    ∃ l, construct s time file line level = some l ∧ l.stream_.buffer_.content.length < kSmallBuffer ∧
      l.basename_ = file ∧
      l.stream_.buffer_.content = s.buffer_.content ++ acceptedText kSmallBuffer s.buffer_.content.length
        [.text time time.length, (Insertion.cstr (some (LogLevelName level))).piece] := by
  have hv : ∀ x ∈ [Insertion.string time, .cstr (some (LogLevelName level))], x.Valid := by
    intro x hx
    simp only [List.mem_cons, List.not_mem_nil, or_false] at hx
    obtain rfl | rfl := hx
    · trivial
    · trivial
  obtain ⟨s', h, hl, hc⟩ := LogStream.insertAll_ok hv hs
  exact ⟨_, by rw [construct, h]; rfl, hl, rfl, hc⟩

theorem content_new_lt : (LogStream.new mem).buffer_.content.length < kSmallBuffer := by
  rw [show (LogStream.new mem).buffer_.content = [] from FixedBuffer.content_new mem]
  decide

theorem Construction.make_ok (c : Construction) :
    ∃ l, c.make mem time file line = some l ∧ l.stream_.buffer_.content.length < kSmallBuffer ∧ l.basename_ = file := by
  have hlevel {s : LogStream} (hs : s.buffer_.content.length < kSmallBuffer) (level : LogLevel) :
      ∃ l, construct s time file line level = some l ∧ l.stream_.buffer_.content.length < kSmallBuffer ∧
        l.basename_ = file := by
    obtain ⟨l, h, hl, hf, -⟩ := construct_ok time file line hs level
    exact ⟨l, h, hl, hf⟩
  cases c with
  | plain => exact hlevel (content_new_lt mem) _
  | func l f =>
    have hv : ∀ x ∈ [Insertion.cstr f, .char 32], x.Valid := by
      intro x hx
      simp only [List.mem_cons, List.not_mem_nil, or_false] at hx
      obtain rfl | rfl := hx
      · trivial
      · trivial
    obtain ⟨s, h, hl, -⟩ := LogStream.insertAll_ok hv (content_new_lt mem)
    obtain ⟨l₁, h', hl'⟩ := hlevel hl l
    exact ⟨l₁, by rw [Construction.make, newFunc, h]; exact h', hl'⟩
  | level l => exact hlevel (content_new_lt mem) _
  | abort b => exact hlevel (content_new_lt mem) _

end

/-! ## The pieces of the destructor -/

theorem trailer_valid (l : Logger) : ∀ x ∈ l.trailer, x.Valid := by
  intro x hx
  simp only [trailer, List.mem_cons, List.not_mem_nil, or_false] at hx
  obtain rfl | rfl | rfl | rfl | rfl := hx
  · trivial
  · exact l.basename_.size_le
  · trivial
  · trivial
  · trivial

/-- The text in front of the base name. -/
def separator : Piece := .text (textBytes " - ") 3

/-- The base name. -/
def basePiece (file : SourceFile) : Piece := .text (file.data_.take (sizeT file.size_).toNat) (sizeT file.size_).toNat

/-- What comes behind it. -/
def lineEnd (line : Int32) : List Piece := [.text [58] 1, .number (integerText line.toInt), .text [newline] 1]

theorem map_trailer (l : Logger) :
    l.trailer.map Insertion.piece = [separator, basePiece l.basename_] ++ lineEnd l.line_ := by
  rfl

/-- The end of the line is put where two bytes are free besides the last one. -/
theorem lineEnd_fits {used : Nat} (h : used < 3998) (line : Int32) :
    ∃ text, acceptedText kSmallBuffer used (lineEnd line) = text ++ [newline] := by
  have hlen := LogStream.length_integerText_le (LogStream.natAbs_toInt_lt line)
  have hcolon : (Piece.text [58] 1).Fits (kSmallBuffer - used) := by
    show 1 < 4000 - used
    omega
  have hnl {used : Nat} (h : used < 3999) : acceptedText kSmallBuffer used [.text [newline] 1] = [newline] := by
    have hfit : (Piece.text [newline] 1).Fits (kSmallBuffer - used) := by
      show 1 < 4000 - used
      omega
    rw [Spec.acceptedText_cons, if_pos hfit]
    rfl
  have hlen1 : used + (Piece.text [58] 1).bytes.length = used + 1 := rfl
  rw [lineEnd, Spec.acceptedText_cons, if_pos hcolon, hlen1, Spec.acceptedText_cons]
  split
  · rename_i hfit
    have h32 : 32 ≤ 4000 - (used + 1) := hfit
    have hend := hnl (show used + 1 + (Piece.number (integerText line.toInt)).bytes.length < 3999 by
      show used + 1 + (integerText line.toInt).length < 3999
      omega)
    exact ⟨[58] ++ integerText line.toInt, by rw [hend]; exact (List.append_assoc _ _ _).symm⟩
  · exact ⟨[58], by rw [hnl (by omega)]; rfl⟩

theorem lineEnd_3998 (line : Int32) : acceptedText kSmallBuffer 3998 (lineEnd line) = [58] := rfl

theorem lineEnd_3999 (line : Int32) : acceptedText kSmallBuffer 3999 (lineEnd line) = [] := rfl

/-! ## The record -/

/-- The text ends with a newline. -/
def EndsLine (text : List Byte) : Prop := text.getLast? = some newline

instance (text : List Byte) : Decidable (EndsLine text) := inferInstanceAs (Decidable (text.getLast? = some newline))

/-- How many bytes of the array are taken when a text of this length has been inserted. -/
def filled (used len : Nat) : Nat := if used + len < kSmallBuffer then used + len else used

/-- Behind the base name two bytes are free besides the last one; or no byte is, and the
last byte that was put happens to be a newline. -/
def LineEndFits (before : List Byte) (file : SourceFile) : Prop :=
  filled (filled before.length 3) (sizeT file.size_).toNat + 2 < kSmallBuffer ∨
    (filled before.length 3 + (sizeT file.size_).toNat = 3999 ∧ EndsLine (file.data_.take (sizeT file.size_).toNat)) ∨
    (before.length = 3999 ∧ EndsLine before)

theorem filled_lt {used : Nat} (h : used < kSmallBuffer) (len : Nat) : filled used len < kSmallBuffer := by
  unfold filled
  split
  · assumption
  · exact h

theorem acceptedText_text {bytes : List Byte} {len : Nat} (h : len < kSmallBuffer → bytes.length = len) (used : Nat)
    (ps : List Piece) :
    acceptedText kSmallBuffer used (.text bytes len :: ps) =
      (if used + len < kSmallBuffer then bytes else []) ++ acceptedText kSmallBuffer (filled used len) ps := by
  have hfits : (Piece.text bytes len).Fits (kSmallBuffer - used) ↔ used + len < kSmallBuffer := Nat.lt_sub_iff_add_lt'
  rw [Spec.acceptedText_cons, filled]
  by_cases hlt : used + len < kSmallBuffer
  · rw [if_pos (hfits.mpr hlt), if_pos hlt, if_pos hlt]
    show bytes ++ acceptedText kSmallBuffer (used + bytes.length) ps = _
    rw [h (by omega)]
  · rw [if_neg (mt hfits.mp hlt), if_neg hlt, if_neg hlt, List.nil_append]

theorem add_length_text {bytes : List Byte} {len : Nat} (h : len < kSmallBuffer → bytes.length = len) (used : Nat) :
    used + (if used + len < kSmallBuffer then bytes else []).length = filled used len := by
  unfold filled
  split
  · rw [h (by omega)]
  · rfl

/-- What the destructor puts in front of the end of the line. -/
def front (used : Nat) (file : SourceFile) : List Byte := acceptedText kSmallBuffer used [separator, basePiece file]

theorem front_eq (used : Nat) (file : SourceFile) :
    front used file = (if used + 3 < kSmallBuffer then textBytes " - " else []) ++
      if filled used 3 + (sizeT file.size_).toNat < kSmallBuffer then file.data_.take (sizeT file.size_).toNat
      else [] := by
  have hsep : 3 < kSmallBuffer → (textBytes " - ").length = 3 := fun _ => rfl
  rw [front, separator, basePiece, acceptedText_text hsep, acceptedText_text (LogStream.length_take_sizeT file.size_le)]
  exact congrArg _ (List.append_nil _)

theorem add_length_front (used : Nat) (file : SourceFile) :
    used + (front used file).length = filled (filled used 3) (sizeT file.size_).toNat := by
  have hsep : 3 < kSmallBuffer → (textBytes " - ").length = 3 := fun _ => rfl
  rw [front_eq, List.length_append, ← Nat.add_assoc, add_length_text hsep,
    add_length_text (LogStream.length_take_sizeT file.size_le)]

/-- What lies last where a text has been put behind another one. -/
theorem endsLine_append_iff (xs ys : List Byte) : EndsLine (xs ++ ys) ↔ EndsLine ys ∨ (ys = [] ∧ EndsLine xs) := by
  unfold EndsLine
  rw [List.getLast?_append]
  cases h : ys.getLast? with
  | none => simp [List.getLast?_eq_none_iff.mp h]
  | some c =>
    have hne : ys ≠ [] := by
      rintro rfl
      cases h
    simp [hne]

theorem not_endsLine_separator : ¬ EndsLine (textBytes " - ") := by decide

/-- Where the last byte of the array alone is free behind the base name, the record ends
with what was put last. -/
theorem endsLine_full {before : List Byte} {file : SourceFile}
    (hfull : before.length + (front before.length file).length = 3999) :
    EndsLine (before ++ front before.length file) ↔ LineEndFits before file := by
  have hm : (sizeT file.size_).toNat < kSmallBuffer →
      (file.data_.take (sizeT file.size_).toNat).length = (sizeT file.size_).toNat :=
        LogStream.length_take_sizeT file.size_le
  have hk : kSmallBuffer = 4000 := rfl
  rw [add_length_front] at hfull
  unfold LineEndFits
  rw [front_eq, hfull]
  generalize (sizeT file.size_).toNat = m at *
  by_cases hsep : before.length + 3 < kSmallBuffer
  · have hfilled : filled before.length 3 = before.length + 3 := if_pos hsep
    rw [hfilled] at hfull ⊢
    rw [if_pos hsep]
    by_cases hbase : before.length + 3 + m < kSmallBuffer
    · have hsum : before.length + 3 + m = 3999 := (if_pos hbase).symm.trans hfull
      have hne : textBytes " - " ++ file.data_.take m ≠ [] := List.append_ne_nil_of_left_ne_nil (by decide) _
      rw [if_pos hbase, endsLine_append_iff, endsLine_append_iff]
      simp only [hne, not_endsLine_separator, and_false, false_and, or_false]
      refine ⟨fun h => .inr (.inl ⟨hsum, h⟩), ?_⟩
      rintro (h | ⟨-, h⟩ | ⟨h, -⟩)
      · omega
      · exact h
      · omega
    · have hsum : before.length + 3 = 3999 := (if_neg hbase).symm.trans hfull
      have hne : textBytes " - " ≠ [] := by decide
      rw [if_neg hbase, List.append_nil, endsLine_append_iff]
      simp only [hne, not_endsLine_separator, false_and, or_false, false_iff]
      omega
  · have hfilled : filled before.length 3 = before.length := if_neg hsep
    rw [hfilled] at hfull ⊢
    rw [if_neg hsep, List.nil_append]
    by_cases hbase : before.length + m < kSmallBuffer
    · have hsum : before.length + m = 3999 := (if_pos hbase).symm.trans hfull
      have hm0 : file.data_.take m = [] ↔ before.length = 3999 := by
        rw [← List.length_eq_zero_iff, hm (by omega)]
        omega
      rw [if_pos hbase, endsLine_append_iff, hm0]
      simp only [hsum, true_and, hk]
      refine ⟨.inr, ?_⟩
      rintro (h | h)
      · omega
      · exact h
    · have hsum : before.length = 3999 := (if_neg hbase).symm.trans hfull
      rw [if_neg hbase, List.append_nil]
      refine ⟨fun h => .inr (.inr ⟨hsum, h⟩), ?_⟩
      rintro (h | ⟨h, -⟩ | ⟨-, h⟩)
      · omega
      · omega
      · exact h

theorem endsLine_record {before : List Byte} (hb : before.length < kSmallBuffer) (file : SourceFile) (line : Int32) :
    EndsLine (before ++ acceptedText kSmallBuffer before.length ([separator, basePiece file] ++ lineEnd line)) ↔
      LineEndFits before file := by
  have hk : kSmallBuffer = 4000 := rfl
  have hlen := add_length_front before.length file
  have hlt : filled (filled before.length 3) (sizeT file.size_).toNat < kSmallBuffer := filled_lt (filled_lt hb 3) _
  rw [Spec.acceptedText_append, ← List.append_assoc]
  show EndsLine (before ++ front before.length file ++
    acceptedText kSmallBuffer (before.length + (front before.length file).length) _) ↔ _
  obtain h | h | h : before.length + (front before.length file).length < 3998 ∨
      before.length + (front before.length file).length = 3998 ∨
      before.length + (front before.length file).length = 3999 := by omega
  · obtain ⟨text, htext⟩ := lineEnd_fits h line
    rw [htext, ← List.append_assoc]
    exact iff_of_true ((endsLine_append_iff _ _).mpr (.inl rfl)) (.inl (by omega))
  · rw [h, lineEnd_3998, endsLine_append_iff]
    refine iff_of_false ?_ ?_
    · rintro (h | ⟨h, -⟩)
      · cases h
      · cases h
    · rintro (h' | ⟨h', -⟩ | ⟨h', -⟩)
      · omega
      · rw [filled, if_pos (by omega)] at hlen
        omega
      · rw [front_eq] at h
        omega
  · rw [h, lineEnd_3999, List.append_nil]
    exact endsLine_full h

theorem stream_ok {l : Logger} {xs : List Insertion} (hv : ∀ x ∈ xs, x.Valid)
    (hl : l.stream_.buffer_.content.length < kSmallBuffer) :
    ∃ l', l.stream xs = some l' ∧ l'.stream_.buffer_.content.length < kSmallBuffer ∧ l'.basename_ = l.basename_ ∧
      l'.stream_.buffer_.content =
        l.stream_.buffer_.content ++
          acceptedText kSmallBuffer l.stream_.buffer_.content.length (xs.map Insertion.piece) := by
  obtain ⟨s, h, hs, hc⟩ := LogStream.insertAll_ok hv hl
  exact ⟨{ l with stream_ := s }, by rw [stream, h]; rfl, hs, rfl, hc⟩

theorem destroy_ok {l : Logger} (hl : l.stream_.buffer_.content.length < kSmallBuffer) :
    ∃ record rest, l.destroy = some (.output record :: rest) ∧
      (EndsLine record ↔ LineEndFits l.stream_.buffer_.content l.basename_) := by
  obtain ⟨s, h, -, hc⟩ := LogStream.insertAll_ok l.trailer_valid hl
  rw [map_trailer] at hc
  refine ⟨_, _, by rw [destroy, h]; rfl, ?_⟩
  rw [hc]
  exact endsLine_record hl l.basename_ l.line_

/-- Whatever has been streamed, the record ends with a newline if and only if the
destructor has found the array so that its end of the line fits. -/
theorem record_ends_line_iff (mem : Nat → Byte) (time : List Byte) (file : SourceFile) (line : Int32) (c : Construction)
    (xs : List Insertion) (hv : ∀ x ∈ xs, x.Valid) :
    ∃ l₀ l record rest, c.make mem time file line = some l₀ ∧ l₀.stream xs = some l ∧
      l.destroy = some (.output record :: rest) ∧ (EndsLine record ↔ LineEndFits l.stream_.buffer_.content file) := by
  obtain ⟨l₀, h₀, hl₀, hf₀⟩ := c.make_ok mem time file line
  obtain ⟨l, h, hl, hf, -⟩ := stream_ok hv hl₀
  obtain ⟨record, rest, hd, hend⟩ := destroy_ok hl
  rw [hf, hf₀] at hend
  exact ⟨l₀, l, record, rest, h₀, h, hd, hend⟩

theorem record_ends_line_iff_short : ∃ l₀ l record rest,
    Construction.plain.make (fun _ => 0) (textBytes "2024-05-01 12:00:00") (.ofArray (literal "src/a.cpp")) 42 = some l₀ ∧
      l₀.stream [.string (textBytes "x"), .append (textBytes "yz") 1] = some l ∧
      l.destroy = some (.output record :: rest) ∧
      (EndsLine record ↔ LineEndFits l.stream_.buffer_.content (.ofArray (literal "src/a.cpp"))) :=
  record_ends_line_iff _ _ _ _ _ _ (by decide)

/-- A string of 3974 characters fits behind the time and the level, and nothing fits behind it. -/
theorem record_without_newline : ∃ l₀ l record rest,
    Construction.plain.make (fun _ => 0) (textBytes "2024-05-01 12:00:00") (.ofArray (literal "src/a.cpp")) 42 = some l₀ ∧
      l₀.stream [.string (List.replicate 3974 120)] = some l ∧ l.destroy = some (.output record :: rest) ∧
      ¬ EndsLine record := by
  obtain ⟨l₀, h₀, hl₀, hf₀, hc₀⟩ := construct_ok (textBytes "2024-05-01 12:00:00") (.ofArray (literal "src/a.cpp")) 42
    (content_new_lt fun _ => 0) .INFO
  have hv : ∀ x ∈ [Insertion.string (List.replicate 3974 120)], x.Valid := by
    intro x hx
    rw [List.mem_singleton.mp hx]
    trivial
  obtain ⟨l, h, hl, hf, hc⟩ := stream_ok hv hl₀
  obtain ⟨record, rest, hd, hend⟩ := destroy_ok hl
  have htext : l₀.stream_.buffer_.content = textBytes "2024-05-01 12:00:00[INFO]" := by
    rw [hc₀, show (LogStream.new fun _ => 0).buffer_.content = [] from FixedBuffer.content_new _]
    decide
  have hfull : l.stream_.buffer_.content = textBytes "2024-05-01 12:00:00[INFO]" ++ List.replicate 3974 120 := by
    have hlen : (textBytes "2024-05-01 12:00:00[INFO]").length + (List.replicate 3974 (120 : Byte)).length <
        kSmallBuffer := by
      rw [List.length_replicate]
      decide
    rw [hc, htext]
    show _ ++ acceptedText _ _ [.text _ _] = _
    rw [acceptedText_text fun _ => rfl, if_pos hlen]
    exact congrArg _ (List.append_nil _)
  have hlen : l.stream_.buffer_.content.length = 3999 := by
    rw [hfull, List.length_append, List.length_replicate]
    decide
  have hlast : ¬ EndsLine l.stream_.buffer_.content := by
    rw [hfull, EndsLine, List.getLast?_append, List.getLast?_replicate]
    decide
  have hsize : (sizeT (SourceFile.ofArray (literal "src/a.cpp")).size_).toNat = 5 := by decide
  refine ⟨l₀, l, record, rest, h₀, h, hd, fun h => ?_⟩
  have hfits := hend.mp h
  rw [hf, hf₀, LineEndFits, hsize, hlen] at hfits
  obtain h | ⟨h, -⟩ | ⟨-, h⟩ := hfits
  · exact absurd h (by decide)
  · exact absurd h (by decide)
  · exact hlast h

end Logger

end Ydx
