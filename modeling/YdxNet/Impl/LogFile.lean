import YdxNet.Framework.Machine
import YdxNet.Framework.Bytes

/-!
# `log_file.h`, `log_file.cpp`, `file_util.cpp`

Lines are appended to a file until it is large or its day is over, and then a file
is opened whose name has the second of the roll in it, in local time. `fopen` is
called with `"ae"`: it makes a file that is not there, and goes on behind the end of one
that is. What a stream has in its buffer counts as written; `flush` changes nothing then.

What the code asks the system for are functions: the clock by the count of its
readings, local time as a text, and how many of the bytes given to it `fwrite_unlocked`
accepts.
-/

namespace Ydx

/-- What the system gives. -/
structure Host where
  /-- The readings of `time(NULL)`, one after another. -/
  time : Nat → Int
  /-- `localtime_r`, and `strftime` with `".%Y%m%d-%H%M%S"`. -/
  localtime : Int → String
  /-- How many of these bytes `fwrite_unlocked` accepts. -/
  fwrite : List Byte → Nat

/-- What the calls have left behind. -/
structure Disk where
  /-- How often the clock has been read. -/
  readings : Nat
  /-- The names and the bytes of the files, in the order in which they were made. -/
  files : List (String × List Byte)
  /-- The names that `fopen` was called with. -/
  opened : List String
  deriving DecidableEq, Repr

namespace Disk

/-- `fopen(name, "ae")`. -/
def fopen (d : Disk) (name : String) : Disk :=
  { d with
    files := if name ∈ d.files.map Prod.fst then d.files else d.files ++ [(name, [])]
    opened := d.opened ++ [name] }

/-- Bytes go to the end of the file. -/
def put (d : Disk) (name : String) (bytes : List Byte) : Disk :=
  { d with files := d.files.map fun f => if f.1 = name then (f.1, f.2 ++ bytes) else f }

end Disk

/-- `class AppendFile`. -/
structure AppendFile where
  /-- The name of the file that `fp_` writes to. -/
  fp_ : String
  writtenBytes_ : UInt64
  deriving DecidableEq, Repr

namespace AppendFile

/-- The constructor. -/
def new (d : Disk) (filename : String) : AppendFile × Disk := (⟨filename, 0⟩, d.fopen filename)

/-- `write(logline, len)`: how many bytes were accepted, and the disk. -/
def write (h : Host) (d : Disk) (f : AppendFile) (logline : List Byte) : Nat × Disk :=
  let n := min (h.fwrite logline) logline.length
  (n, d.put f.fp_ (logline.take n))

/-- The `while` loop of `append`, with the `remain` bytes that are left. -/
def writeRemain (h : Host) (d : Disk) (f : AppendFile) (remain : List Byte) : Disk :=
  if remain.length > 0 then
    let x := min (h.fwrite remain) remain.length
    if _hx : x = 0 then (f.write h d remain).2 else writeRemain h (f.write h d remain).2 f (remain.drop x)
  else d
termination_by remain.length
decreasing_by
  rw [List.length_drop]
  omega

/-- `append(logline, len)`. -/
def append (h : Host) (d : Disk) (f : AppendFile) (logline : List Byte) : AppendFile × Disk :=
  let r := f.write h d logline
  ({ f with writtenBytes_ := f.writtenBytes_ + UInt64.ofNat logline.length }, writeRemain h r.2 f (logline.drop r.1))

end AppendFile

/-- `class LogFile`. -/
structure LogFile where
  basename_ : String
  rollSize_ : UInt64
  flushInterval_ : Int32
  checkEveryN_ : Int32
  count_ : Int32
  startOfPeriod_ : Int
  lastRoll_ : Int
  lastFlush_ : Int
  file_ : Option AppendFile
  deriving DecidableEq, Repr

namespace LogFile

/-- `kRollPerSeconds_`. -/
def kRollPerSeconds_ : Int := 60 * 60 * 24

/-- `now / kRollPerSeconds_ * kRollPerSeconds_`. -/
def period (now : Int) : Int := now.tdiv kRollPerSeconds_ * kRollPerSeconds_

/-- `time(NULL)`. -/
def now (h : Host) (d : Disk) : Int × Disk := (h.time d.readings, { d with readings := d.readings + 1 })

/-- `getLogFileName(basename, &now)`: the name, and the time. -/
def getLogFileName (h : Host) (d : Disk) (basename : String) : String × Int × Disk :=
  let r := now h d
  (basename ++ h.localtime r.1 ++ ".log", r)

/-- `rollFile()`. -/
def rollFile (h : Host) (d : Disk) (l : LogFile) : Bool × LogFile × Disk :=
  let (filename, now, d) := getLogFileName h d l.basename_
  let start := period now
  if now > l.lastRoll_ then
    let r := AppendFile.new d filename
    (true, { l with lastRoll_ := now, lastFlush_ := now, startOfPeriod_ := start, file_ := some r.1 }, r.2)
  else (false, l, d)

/-- The constructor. `basename` is what `basename_` is set to: the name of the program where
the argument is empty. -/
def new (h : Host) (d : Disk) (rollSize : UInt64) (basename : String)
    (flushInterval checkEveryN : Int32) : LogFile × Disk :=
  (rollFile h d
    { basename_ := basename, rollSize_ := rollSize, flushInterval_ := flushInterval, checkEveryN_ := checkEveryN
      count_ := 0, startOfPeriod_ := 0, lastRoll_ := 0, lastFlush_ := 0, file_ := none }).2

/-- The branch of `append_unlocked` that counts. -/
def check (h : Host) (d : Disk) (l : LogFile) : LogFile × Disk :=
  let l := { l with count_ := l.count_ + 1 }
  if l.count_ ≥ l.checkEveryN_ then
    let l := { l with count_ := 0 }
    let (now, d) := now h d
    if period now ≠ l.startOfPeriod_ then (l.rollFile h d).2
    else if now - l.lastFlush_ > l.flushInterval_.toInt then ({ l with lastFlush_ := now }, d)
    else (l, d)
  else (l, d)

/-- `append_unlocked(logline, len)`, `none` where `file_` is null. -/
def appendUnlocked (h : Host) (d : Disk) (l : LogFile) (logline : List Byte) : Option (LogFile × Disk) :=
  match l.file_ with
  | none => none
  | some file =>
    let r := file.append h d logline
    let l := { l with file_ := some r.1 }
    if r.1.writtenBytes_ > l.rollSize_ then some (l.rollFile h r.2).2 else some (l.check h r.2)

end LogFile

end Ydx
