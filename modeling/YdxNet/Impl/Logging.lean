import YdxNet.Impl.LogStream

/-!
# `logging.h`, `logging.cpp`

A `Logger` lives while one record is streamed: its constructors put the time and
the level, its destructor puts the source file, the line and the end of the line,
and hands the record over. The text of `ctime_.Format` is an argument.
-/

namespace Ydx

/-- `strrchr(s, c)`, as the offset of what is found. -/
def strrchr (s : List Byte) (c : Byte) : Option Nat :=
  let t := s.takeWhile (· ≠ 0)
  if c ∈ t then some (t.length - 1 - t.reverse.idxOf c) else none

/-- The memory of a string literal. -/
def literal (text : String) : List Byte := textBytes text ++ [0]

/-- `class SourceFile`. As many bytes lie at `data_` as `size_` says. -/
structure SourceFile where
  data_ : List Byte
  size_ : Int32
  size_le : 0 ≤ size_.toInt → size_.toInt ≤ data_.length

namespace SourceFile

/-- Where the base name begins: behind the last slash, if there is one. -/
def baseOffset (s : List Byte) : Nat :=
  match strrchr s 47 with
  | some slash => slash + 1
  | none => 0

theorem baseOffset_le (s : List Byte) : baseOffset s ≤ s.length := by
  have hle : (s.takeWhile (· ≠ 0)).length ≤ s.length := (List.takeWhile_sublist _).length_le
  unfold baseOffset strrchr
  split
  · rename_i slash h
    obtain ⟨hmem, h⟩ := Option.ite_none_right_eq_some.mp h
    have hpos := List.length_pos_of_mem hmem
    have := Option.some.inj h
    omega
  · omega

/-- A length as an `int` is not more than the length, unless it is negative. -/
theorem bmod_le {x : Int} (h : -1 ≤ x) : 0 ≤ x.bmod Int32.size → x.bmod Int32.size ≤ x := by
  rw [Int.bmod_def, Int32.size]
  split <;> omega

theorem ofArray_size_le (arr : List Byte) : 0 ≤ (lenInt (arr.length - 1) - lenInt (baseOffset arr)).toInt →
    (lenInt (arr.length - 1) - lenInt (baseOffset arr)).toInt ≤ (arr.drop (baseOffset arr)).length := by
  have hoff := baseOffset_le arr
  have hsize : (lenInt (arr.length - 1) - lenInt (baseOffset arr)).toInt =
      (((arr.length - 1 : Nat) : Int) - (baseOffset arr : Nat)).bmod Int32.size := by
    rw [Int32.toInt_sub, lenInt, lenInt, Int32.toInt_ofNat', Int32.toInt_ofNat']
    exact (Int.bmod_sub_bmod ..).trans (Int.sub_bmod_bmod ..)
  rw [hsize, List.length_drop]
  intro h
  have := bmod_le (by omega) h
  omega

theorem ofFilename_size_le (data : List Byte) :
    0 ≤ (lenInt (strlen data)).toInt → (lenInt (strlen data)).toInt ≤ data.length := by
  have hle : strlen data ≤ data.length := (List.takeWhile_sublist _).length_le
  rw [lenInt, Int32.toInt_ofNat']
  intro h
  have := bmod_le (by omega) h
  omega

/-- `SourceFile(const char (&arr)[N])`. -/
def ofArray (arr : List Byte) : SourceFile where
  data_ := arr.drop (baseOffset arr)
  size_ := lenInt (arr.length - 1) - lenInt (baseOffset arr)
  size_le := ofArray_size_le arr

/-- `SourceFile(const char* filename)`. -/
def ofFilename (filename : List Byte) : SourceFile where
  data_ := filename.drop (baseOffset filename)
  size_ := lenInt (strlen (filename.drop (baseOffset filename)))
  size_le := ofFilename_size_le _

end SourceFile

/-- `enum LogLevel`. -/
inductive LogLevel
  | TRACE
  | DEBUG
  | INFO
  | WARN
  | ERROR
  | FATAL
  deriving DecidableEq, Repr

/-- `LogLevelName[level]`. -/
def LogLevelName : LogLevel → List Byte
  | .TRACE => literal "[TRACE]"
  | .DEBUG => literal "[DEBUG]"
  | .INFO => literal "[INFO]"
  | .WARN => literal "[WARN]"
  | .ERROR => literal "[ERROR]"
  | .FATAL => literal "[FATAL]"

/-- `class Logger`. -/
structure Logger where
  stream_ : LogStream
  basename_ : SourceFile
  level_ : LogLevel
  line_ : Int32

/-- What a destructor does with the rest of the program. -/
inductive LogEffect
  /-- `g_output(msg, len)`. -/
  | output (msg : List Byte)
  /-- `g_flush()`. -/
  | flush
  | abort
  deriving DecidableEq, Repr

namespace Logger

/-- The end of each constructor: the time and the level go behind what is there. -/
def construct (s : LogStream) (time : List Byte) (file : SourceFile) (line : Int32) (level : LogLevel) : Option Logger :=
  (s.insertAll [.string time, .cstr (some (LogLevelName level))]).map fun s => ⟨s, file, level, line⟩

/-- `Logger(file, line)`. -/
def new (mem : Nat → Byte) (time : List Byte) (file : SourceFile) (line : Int32) : Option Logger :=
  construct (.new mem) time file line .INFO

/-- `Logger(file, line, level, func)`. -/
def newFunc (mem : Nat → Byte) (time : List Byte) (file : SourceFile) (line : Int32) (level : LogLevel)
    (func : Option (List Byte)) : Option Logger :=
  ((LogStream.new mem).insertAll [.cstr func, .char 32]).bind fun s => construct s time file line level

/-- `Logger(file, line, level)`. -/
def newLevel (mem : Nat → Byte) (time : List Byte) (file : SourceFile) (line : Int32)
    (level : LogLevel) : Option Logger :=
  construct (.new mem) time file line level

/-- `Logger(file, line, toAbort)`. -/
def newAbort (mem : Nat → Byte) (time : List Byte) (file : SourceFile) (line : Int32) (toAbort : Bool) : Option Logger :=
  construct (.new mem) time file line (if toAbort then .FATAL else .ERROR)

/-- `stream() << ...`. -/
def stream (l : Logger) (xs : List Insertion) : Option Logger :=
  (l.stream_.insertAll xs).map fun s => { l with stream_ := s }

/-- What `~Logger` puts. -/
def trailer (l : Logger) : List Insertion :=
  [.cstr (some (literal " - ")), .stringPiece ⟨l.basename_.data_, l.basename_.size_⟩, .char 58, .int l.line_, .char 10]

/-- `~Logger`. -/
def destroy (l : Logger) : Option (List LogEffect) :=
  (l.stream_.insertAll l.trailer).map fun s =>
    .output s.buffer_.content :: if l.level_ = .FATAL then [.flush, .abort] else []

end Logger

end Ydx
