import YdxNet.Impl.LogFile

/-!
# The order of the lines in rolled log files

Whatever the sizes and times are, each line is whole in one file, and the bound on
the file and the second of its roll are as they should be (`Kept`, `append_ok`).
The lines are in order over the files if a roll never opens a file again that another
one has followed (`Behind`). Seconds of local time come twice when clocks are set back:
`LogFile` then goes on behind an hour of lines that other files should have followed.
-/

namespace Ydx

/-- A log file, the disk, and the lines that have been appended. -/
structure LogRun where
  log : LogFile
  disk : Disk
  lines : List (List Byte)

namespace LogFile

/-- Calls of `append`, one after another. -/
def machine (h : Host) : Machine (Option LogRun) (List Byte) Unit where
  step s line := (s.bind fun r => (r.log.appendUnlocked h r.disk line).map fun q => ⟨q.1, q.2, r.lines ++ [line]⟩, ())

/-- The state behind the constructor, in a directory with no files. -/
def start (h : Host) (rollSize : UInt64) (basename : String) (flushInterval checkEveryN : Int32) : Option LogRun :=
  let r := LogFile.new h ⟨0, [], []⟩ rollSize basename flushInterval checkEveryN
  some ⟨r.1, r.2, []⟩

/-- The lines of each file. -/
abbrev Parts := List (String × List (List Byte))

/-- The bytes of files with these lines. -/
def Parts.files (ps : Parts) : List (String × List Byte) := ps.map fun p => (p.1, p.2.flatten)

/-- All lines, file by file. -/
def Parts.lines (ps : Parts) : List (List Byte) := ps.flatMap Prod.snd

/-- The name of the file of a second. -/
def fileName (h : Host) (l : LogFile) (now : Int) : String := l.basename_ ++ h.localtime now ++ ".log"

variable {h : Host} {d d' : Disk} {l l' : LogFile} {file : AppendFile} {line : List Byte}

/-! ## The steps -/

/-- The clock is positive, and does not go back. -/
structure Clock (h : Host) : Prop where
  pos : 0 < h.time 0
  step : ∀ n, h.time n ≤ h.time (n + 1)

theorem Clock.le (hc : Clock h) {i j : Nat} (hij : i ≤ j) : h.time i ≤ h.time j := by
  induction hij with
  | refl => exact Int.le_refl _
  | step _ ih => exact Int.le_trans ih (hc.step _)

/-- `fwrite` accepts everything. -/
def Accepts (h : Host) : Prop := ∀ bytes, h.fwrite bytes = bytes.length

theorem file_append_eq (hw : Accepts h) : file.append h d line =
    ({ file with writtenBytes_ := file.writtenBytes_ + UInt64.ofNat line.length }, d.put file.fp_ line) := by
  have hrest : AppendFile.writeRemain h (d.put file.fp_ line) file [] = d.put file.fp_ line := by
    rw [AppendFile.writeRemain, if_neg (by decide)]
  simp only [AppendFile.append, AppendFile.write, hw line, Nat.min_self, List.take_length, List.drop_length, hrest]

theorem rollFile_new (hnow : h.time d.readings > l.lastRoll_) : (l.rollFile h d).2 =
    ({ l with
        lastRoll_ := h.time d.readings
        lastFlush_ := h.time d.readings
        startOfPeriod_ := period (h.time d.readings)
        file_ := some ⟨fileName h l (h.time d.readings), 0⟩ },
      { d with readings := d.readings + 1 }.fopen (fileName h l (h.time d.readings))) := by
  exact congrArg Prod.snd (if_pos hnow)

theorem rollFile_refused (hnow : ¬ h.time d.readings > l.lastRoll_) :
    (l.rollFile h d).2 = (l, { d with readings := d.readings + 1 }) := by
  exact congrArg Prod.snd (if_neg hnow)

/-- The line has been written, and no file has been opened. -/
structure Wrote (l : LogFile) (d : Disk) (file : AppendFile) (line : List Byte) (l' : LogFile) (d' : Disk) : Prop where
  file_eq : l'.file_ = some { file with writtenBytes_ := file.writtenBytes_ + UInt64.ofNat line.length }
  roll : l'.lastRoll_ = l.lastRoll_
  period : l'.startOfPeriod_ = l.startOfPeriod_
  basename : l'.basename_ = l.basename_
  size : l'.rollSize_ = l.rollSize_
  files : d'.files = (d.put file.fp_ line).files
  opened : d'.opened = d.opened
  readings : d.readings ≤ d'.readings

/-- The file is large enough for a roll with the line in it. -/
def Large (l : LogFile) (file : AppendFile) (line : List Byte) : Prop :=
  file.writtenBytes_ + UInt64.ofNat line.length > l.rollSize_

instance (l : LogFile) (file : AppendFile) (line : List Byte) : Decidable (Large l file line) :=
  inferInstanceAs (Decidable (_ > _))

/-- It is time to look at the clock, and another day than that of the file. -/
def DayOver (h : Host) (d : Disk) (l : LogFile) : Prop :=
  l.count_ + 1 ≥ l.checkEveryN_ ∧ period (h.time d.readings) ≠ l.startOfPeriod_

instance (h : Host) (d : Disk) (l : LogFile) : Decidable (DayOver h d l) := inferInstanceAs (Decidable (_ ∧ _))

theorem check_cases :
    DayOver h d l ∧ l.check h d = (rollFile h { d with readings := d.readings + 1 } { l with count_ := 0 }).2 ∨
    ∃ count time readings, d.readings ≤ readings ∧
      l.check h d = ({ l with count_ := count, lastFlush_ := time }, { d with readings := readings }) := by
  by_cases hcount : l.count_ + 1 ≥ l.checkEveryN_
  · by_cases hperiod : period (h.time d.readings) ≠ l.startOfPeriod_
    · refine .inl ⟨⟨hcount, hperiod⟩, ?_⟩
      exact (if_pos hcount).trans (if_pos hperiod)
    · refine .inr ?_
      by_cases hflush : h.time d.readings - l.lastFlush_ > l.flushInterval_.toInt
      · refine ⟨0, h.time d.readings, d.readings + 1, Nat.le_succ _, ?_⟩
        exact (if_pos hcount).trans ((if_neg hperiod).trans (if_pos hflush))
      · refine ⟨0, l.lastFlush_, d.readings + 1, Nat.le_succ _, ?_⟩
        exact (if_pos hcount).trans ((if_neg hperiod).trans (if_neg hflush))
  · exact .inr ⟨l.count_ + 1, l.lastFlush_, d.readings, Nat.le_refl _, if_neg hcount⟩

/-- What a call can do: it writes the line, and may roll the file behind it. -/
theorem append_cases (hw : Accepts h) (hf : l.file_ = some file) (d : Disk) (line : List Byte) :
    ∃ l₁ d₁, Wrote l d file line l₁ d₁ ∧ (¬ Large l file line ∧ l.appendUnlocked h d line = some (l₁, d₁) ∨
      l.appendUnlocked h d line = some (l₁.rollFile h d₁).2 ∧
        (Large l file line ∧ d₁.readings = d.readings ∨
          ¬ Large l file line ∧ DayOver h d l ∧ d₁.readings = d.readings + 1)) := by
  let l₁ : LogFile :=
    { l with file_ := some { file with writtenBytes_ := file.writtenBytes_ + UInt64.ofNat line.length } }
  have e : l.appendUnlocked h d line =
      if file.writtenBytes_ + UInt64.ofNat line.length > l.rollSize_ then some (rollFile h (d.put file.fp_ line) l₁).2
      else some (check h (d.put file.fp_ line) l₁) := by
    simp only [appendUnlocked, hf, file_append_eq hw]
    rfl
  rw [e]
  by_cases hlarge : file.writtenBytes_ + UInt64.ofNat line.length > l.rollSize_
  · rw [if_pos hlarge]
    exact ⟨l₁, d.put file.fp_ line, ⟨rfl, rfl, rfl, rfl, rfl, rfl, rfl, Nat.le_refl _⟩, .inr ⟨rfl, .inl ⟨hlarge, rfl⟩⟩⟩
  · rw [if_neg hlarge]
    obtain ⟨hday, hc⟩ | ⟨count, time, readings, hle, hc⟩ := check_cases (h := h) (d := d.put file.fp_ line) (l := l₁)
    · rw [hc]
      exact ⟨{ l₁ with count_ := 0 }, { d.put file.fp_ line with readings := d.readings + 1 },
        ⟨rfl, rfl, rfl, rfl, rfl, rfl, rfl, Nat.le_succ _⟩, .inr ⟨rfl, .inr ⟨hlarge, hday, rfl⟩⟩⟩
    · rw [hc]
      exact ⟨{ l₁ with count_ := count, lastFlush_ := time }, { d.put file.fp_ line with readings := readings },
        ⟨rfl, rfl, rfl, rfl, rfl, rfl, rfl, hle⟩, .inl ⟨hlarge, rfl⟩⟩

/-! ## The lines of the files -/

/-- A change to what one file holds keeps the names. -/
theorem map_fst_update {α : Type} (name : String) (g : α → α) (files : List (String × α)) :
    (files.map fun f => if f.1 = name then (f.1, g f.2) else f).map Prod.fst = files.map Prod.fst := by
  rw [List.map_map]
  refine List.map_congr_left fun f _ => ?_
  show (if f.1 = name then (f.1, g f.2) else f).1 = f.1
  split
  · rfl
  · rfl

theorem names_put (d : Disk) (name : String) (bytes : List Byte) :
    (d.put name bytes).files.map Prod.fst = d.files.map Prod.fst :=
  map_fst_update name (· ++ bytes) d.files

namespace Parts

variable {ps : Parts} {name : String}

/-- The names of the files. -/
def names (ps : Parts) : List String := ps.map Prod.fst

/-- The line goes behind the others of the file. -/
def put (ps : Parts) (name : String) (line : List Byte) : Parts :=
  ps.map fun p => if p.1 = name then (p.1, p.2 ++ [line]) else p

/-- The file is there, with no lines if it was not. -/
def fopen (ps : Parts) (name : String) : Parts := if name ∈ ps.names then ps else ps ++ [(name, [])]

theorem names_files (ps : Parts) : ps.files.map Prod.fst = ps.names := by
  rw [files, List.map_map]
  rfl

theorem names_eq (hd : d.files = ps.files) : d.files.map Prod.fst = ps.names := by
  rw [hd, names_files]

theorem names_put (ps : Parts) (name : String) (line : List Byte) : (ps.put name line).names = ps.names :=
  map_fst_update name (· ++ [line]) ps

theorem files_put (hd : d.files = ps.files) (name : String) (line : List Byte) :
    (d.put name line).files = (ps.put name line).files := by
  show d.files.map _ = _
  rw [hd, files, files, put, List.map_map, List.map_map]
  refine List.map_congr_left fun p _ => ?_
  show (if p.1 = name then (p.1, p.2.flatten ++ line) else (p.1, p.2.flatten)) = _
  simp only [Function.comp]
  split
  · rw [List.flatten_append, List.flatten_singleton]
  · rfl

theorem put_of_not_mem (h : name ∉ ps.names) (line : List Byte) : ps.put name line = ps := by
  have hput : ps.put name line = ps.map id := by
    refine List.map_congr_left fun p hp => if_neg ?_
    rintro rfl
    exact h (List.mem_map_of_mem hp)
  rw [hput, List.map_id]

theorem put_cons (p : String × List (List Byte)) (ps : Parts) (name : String) (line : List Byte) :
    put (p :: ps) name line = (if p.1 = name then (p.1, p.2 ++ [line]) else p) :: ps.put name line := rfl

theorem lines_cons (p : String × List (List Byte)) (ps : Parts) : lines (p :: ps) = p.2 ++ ps.lines := rfl

/-- No line is lost, or written twice. -/
theorem lines_put_perm (hn : ps.names.Nodup) (hmem : name ∈ ps.names) (line : List Byte) :
    (ps.put name line).lines.Perm (ps.lines ++ [line]) := by
  induction ps with
  | nil => cases hmem
  | cons p ps ih =>
    obtain ⟨hp, hn⟩ := List.nodup_cons.mp hn
    rw [put_cons, lines_cons, lines_cons, List.append_assoc]
    by_cases he : p.1 = name
    · rw [if_pos he, put_of_not_mem (by rwa [← he]), List.append_assoc]
      exact List.perm_append_comm.append_left _
    · rw [if_neg he]
      have hmem' : name ∈ names ps := (List.mem_cons.mp hmem).resolve_left fun e => he e.symm
      exact (ih hn hmem').append_left _

/-- Behind the lines of the last file comes the end of all lines. -/
theorem lines_put_last (hn : ps.names.Nodup) (hlast : ps.names.getLast? = some name) (line : List Byte) :
    (ps.put name line).lines = ps.lines ++ [line] := by
  rw [names, List.getLast?_map] at hlast
  obtain ⟨p, hp, rfl⟩ := Option.map_eq_some_iff.mp hlast
  obtain ⟨front, rfl⟩ := List.getLast?_eq_some_iff.mp hp
  have hfront : p.1 ∉ names front := by
    rw [names, List.map_append, List.nodup_append] at hn
    exact fun h => hn.2.2 _ h _ (List.mem_singleton_self _) rfl
  have hput : put (front ++ [p]) p.1 line = front ++ [(p.1, p.2 ++ [line])] := by
    rw [put, List.map_append]
    refine congrArg₂ _ (put_of_not_mem hfront line) ?_
    rw [List.map_singleton, if_pos rfl]
  rw [hput, lines, lines, List.flatMap_append, List.flatMap_append, List.flatMap_singleton, List.flatMap_singleton,
    List.append_assoc]

theorem files_fopen (hd : d.files = ps.files) (name : String) : (d.fopen name).files = (ps.fopen name).files := by
  show (if name ∈ d.files.map Prod.fst then d.files else d.files ++ [(name, [])]) = _
  rw [names_eq hd, hd, fopen]
  split
  · rfl
  · rw [files, files, List.map_append]
    rfl

theorem lines_fopen (ps : Parts) (name : String) : (ps.fopen name).lines = ps.lines := by
  rw [fopen]
  split
  · rfl
  · rw [lines, List.flatMap_append]
    exact List.append_nil _

theorem flatten_files (ps : Parts) : (ps.files.map Prod.snd).flatten = ps.lines.flatten := by
  rw [files, lines, List.map_map, List.flatMap_def, List.flatten_flatten, List.map_map]
  rfl

theorem mem_names_fopen (ps : Parts) (name : String) : name ∈ (ps.fopen name).names := by
  rw [fopen]
  split
  · assumption
  · rw [names, List.map_append]
    exact List.mem_append_right _ (List.mem_singleton_self _)

theorem nodup_names_fopen (hn : ps.names.Nodup) (name : String) : (ps.fopen name).names.Nodup := by
  rw [fopen]
  split
  · exact hn
  · rename_i hnew
    rw [names, List.map_append]
    refine hn.append (List.nodup_singleton _) fun a ha ha' => ?_
    have he : a = name := List.mem_singleton.mp ha'
    exact hnew (he ▸ ha)

/-- The file that is opened is the last one, unless files have followed it. -/
theorem getLast_names_fopen (h : name ∉ ps.names ∨ ps.names.getLast? = some name) :
    (ps.fopen name).names.getLast? = some name := by
  rw [fopen]
  split
  · rename_i hmem
    exact h.resolve_left fun hnew => hnew hmem
  · rw [names, List.map_append]
    exact List.getLast?_concat

end Parts

/-! ## What every step keeps -/

variable {r r' : LogRun}

/-- Each line is whole in one file, the day is that of the last roll, and the last roll was
at a second that the clock has shown. -/
structure Kept (h : Host) (r : LogRun) : Prop where
  file : ∃ file, r.log.file_ = some file ∧ file.fp_ ∈ r.disk.files.map Prod.fst
  nodup : (r.disk.files.map Prod.fst).Nodup
  whole : ∃ ps : Parts, r.disk.files = ps.files ∧ ps.lines.Perm r.lines
  period : r.log.startOfPeriod_ = period r.log.lastRoll_
  clock : ∃ i < r.disk.readings, r.log.lastRoll_ = h.time i

/-- The lines of the files in the order of the files are the lines in the order of the calls. -/
structure Ordered (r : LogRun) : Prop where
  last : ∃ file, r.log.file_ = some file ∧ (r.disk.files.map Prod.fst).getLast? = some file.fp_
  whole : ∃ ps : Parts, r.disk.files = ps.files ∧ ps.lines = r.lines

theorem Kept.write {lines : List (List Byte)} (hk : Kept h ⟨l, d, lines⟩) (hf : l.file_ = some file)
    (hwr : Wrote l d file line l' d') : Kept h ⟨l', d', lines ++ [line]⟩ := by
  obtain ⟨ps, hfiles, hperm⟩ := hk.whole
  have hmem : file.fp_ ∈ ps.names := by
    obtain ⟨file', hf', hmem⟩ := hk.file
    rw [← Parts.names_eq hfiles, show file = file' from Option.some.inj (hf.symm.trans hf')]
    exact hmem
  have hn : ps.names.Nodup := Parts.names_eq hfiles ▸ hk.nodup
  have hfiles' : d'.files = (ps.put file.fp_ line).files := hwr.files.trans (Parts.files_put hfiles _ _)
  have hnames : d'.files.map Prod.fst = ps.names := (Parts.names_eq hfiles').trans (ps.names_put _ _)
  obtain ⟨i, hi, hclock⟩ := hk.clock
  refine ⟨⟨_, hwr.file_eq, ?_⟩, ?_, ⟨_, hfiles', ?_⟩, ?_, i, Nat.lt_of_lt_of_le hi hwr.readings, hwr.roll.trans hclock⟩
  · show file.fp_ ∈ d'.files.map Prod.fst
    rw [hnames]
    exact hmem
  · show (d'.files.map Prod.fst).Nodup
    rw [hnames]
    exact hn
  · exact (Parts.lines_put_perm hn hmem line).trans (hperm.append_right _)
  · show l'.startOfPeriod_ = LogFile.period l'.lastRoll_
    rw [hwr.period, hwr.roll]
    exact hk.period

theorem Kept.roll {lines : List (List Byte)} (hk : Kept h ⟨l, d, lines⟩) :
    Kept h ⟨(l.rollFile h d).2.1, (l.rollFile h d).2.2, lines⟩ := by
  by_cases hnow : h.time d.readings > l.lastRoll_
  · rw [rollFile_new hnow]
    obtain ⟨ps, hfiles, hperm⟩ := hk.whole
    have hn : ps.names.Nodup := Parts.names_eq hfiles ▸ hk.nodup
    have hfiles' := Parts.files_fopen (d := { d with readings := d.readings + 1 }) hfiles
      (fileName h l (h.time d.readings))
    refine ⟨⟨_, rfl, ?_⟩, ?_, ⟨_, hfiles', ?_⟩, rfl, d.readings, Nat.lt_succ_self _, rfl⟩
    · rw [Parts.names_eq hfiles']
      exact Parts.mem_names_fopen _ _
    · rw [Parts.names_eq hfiles']
      exact Parts.nodup_names_fopen hn _
    · rw [Parts.lines_fopen]
      exact hperm
  · rw [rollFile_refused hnow]
    obtain ⟨i, hi, hclock⟩ := hk.clock
    exact ⟨hk.file, hk.nodup, hk.whole, hk.period, i, Nat.lt_succ_of_lt hi, hclock⟩

theorem Ordered.write {lines : List (List Byte)} (ho : Ordered ⟨l, d, lines⟩) (hn : (d.files.map Prod.fst).Nodup)
    (hf : l.file_ = some file) (hwr : Wrote l d file line l' d') : Ordered ⟨l', d', lines ++ [line]⟩ := by
  obtain ⟨ps, hfiles, hlines⟩ := ho.whole
  have hnames := Parts.names_eq hfiles
  have hlast : ps.names.getLast? = some file.fp_ := by
    obtain ⟨file', hf', hlast⟩ := ho.last
    rw [← hnames, show file = file' from Option.some.inj (hf.symm.trans hf')]
    exact hlast
  rw [hnames] at hn
  have hfiles' : d'.files = (ps.put file.fp_ line).files := hwr.files.trans (Parts.files_put hfiles _ _)
  refine ⟨⟨_, hwr.file_eq, ?_⟩, _, hfiles', ?_⟩
  · show (d'.files.map Prod.fst).getLast? = some file.fp_
    rw [Parts.names_eq hfiles', Parts.names_put]
    exact hlast
  · rw [Parts.lines_put_last hn hlast]
    exact congrArg (· ++ [line]) hlines

/-- A roll opens a file again that another one has followed. -/
def Behind (h : Host) (l : LogFile) (d : Disk) : Prop :=
  h.time d.readings > l.lastRoll_ ∧ fileName h l (h.time d.readings) ∈ d.files.map Prod.fst ∧
    (d.files.map Prod.fst).getLast? ≠ some (fileName h l (h.time d.readings))

instance (h : Host) (l : LogFile) (d : Disk) : Decidable (Behind h l d) := inferInstanceAs (Decidable (_ ∧ _ ∧ _))

theorem Ordered.roll {lines : List (List Byte)} (ho : Ordered ⟨l, d, lines⟩) (hb : ¬ Behind h l d) :
    Ordered ⟨(l.rollFile h d).2.1, (l.rollFile h d).2.2, lines⟩ := by
  by_cases hnow : h.time d.readings > l.lastRoll_
  · rw [rollFile_new hnow]
    obtain ⟨ps, hfiles, hlines⟩ := ho.whole
    have hfiles' := Parts.files_fopen (d := { d with readings := d.readings + 1 }) hfiles
      (fileName h l (h.time d.readings))
    refine ⟨⟨_, rfl, ?_⟩, _, hfiles', ?_⟩
    · rw [Parts.names_eq hfiles']
      refine Parts.getLast_names_fopen ?_
      rw [← Parts.names_eq hfiles]
      by_contra hne
      obtain ⟨hmem, hlast⟩ := not_or.mp hne
      exact hb ⟨hnow, not_not.mp hmem, hlast⟩
    · rw [Parts.lines_fopen]
      exact hlines
  · rw [rollFile_refused hnow]
    exact ⟨ho.last, ho.whole⟩

/-! ## A call -/

/-- No file has been opened, or one with a later second than the last. -/
def NewFile (r r' : LogRun) : Prop :=
  r'.disk.opened = r.disk.opened ∧ r'.log.lastRoll_ = r.log.lastRoll_ ∨
    ∃ name, r'.disk.opened = r.disk.opened ++ [name] ∧ r.log.lastRoll_ < r'.log.lastRoll_

/-- The file is not too large, or it was opened in the second that the call has just seen. -/
def SizeBound (h : Host) (rollSize : UInt64) (r r' : LogRun) : Prop :=
  ∃ file, r'.log.file_ = some file ∧ (file.writtenBytes_ ≤ rollSize ∨
    r.disk.readings < r'.disk.readings ∧ r'.log.lastRoll_ = h.time (r'.disk.readings - 1))

/-- The call opens a file again that another one has followed: when the file is large, or
when its day is over. -/
def Reopens (h : Host) (r : LogRun) (line : List Byte) : Prop :=
  ∃ file ∈ r.log.file_, Large r.log file line ∧ Behind h r.log r.disk ∨
    ¬ Large r.log file line ∧ DayOver h r.disk r.log ∧ Behind h r.log { r.disk with readings := r.disk.readings + 1 }

instance (h : Host) (r : LogRun) (line : List Byte) : Decidable (Reopens h r line) :=
  inferInstanceAs (Decidable (∃ file ∈ r.log.file_, _))

theorem roll_newFile (lines lines' : List (List Byte)) :
    NewFile ⟨l, d, lines⟩ ⟨(l.rollFile h d).2.1, (l.rollFile h d).2.2, lines'⟩ := by
  by_cases hnow : h.time d.readings > l.lastRoll_
  · rw [rollFile_new hnow]
    exact .inr ⟨_, rfl, hnow⟩
  · rw [rollFile_refused hnow]
    exact .inl ⟨rfl, rfl⟩

theorem rollSize_roll (h : Host) (d : Disk) (l : LogFile) : (l.rollFile h d).2.1.rollSize_ = l.rollSize_ := by
  by_cases hnow : h.time d.readings > l.lastRoll_
  · rw [rollFile_new hnow]
  · rw [rollFile_refused hnow]

/-- Writing the line does not change what a roll behind it does. -/
theorem Wrote.behind (hwr : Wrote l d file line l' d') (hb : Behind h l' d') :
    Behind h l { d with readings := d'.readings } := by
  obtain ⟨hnow, hmem, hlast⟩ := hb
  have hname : fileName h l' (h.time d'.readings) = fileName h l (h.time d'.readings) := by
    rw [fileName, hwr.basename, fileName]
  have hnames : d'.files.map Prod.fst = d.files.map Prod.fst := by rw [hwr.files, names_put]
  rw [hname, hnames] at hmem hlast
  rw [hwr.roll] at hnow
  exact ⟨hnow, hmem, hlast⟩

theorem Kept.roll_sizeBound {lines : List (List Byte)} (hc : Clock h) (hk : Kept h ⟨l, d, lines⟩) (rollSize : UInt64)
    (hr : r.disk.readings ≤ d.readings) : SizeBound h rollSize r ⟨(l.rollFile h d).2.1, (l.rollFile h d).2.2, lines⟩ := by
  by_cases hnow : h.time d.readings > l.lastRoll_
  · rw [rollFile_new hnow]
    exact ⟨_, rfl, .inl (UInt64.zero_le)⟩
  · rw [rollFile_refused hnow]
    obtain ⟨file, hf, -⟩ := hk.file
    obtain ⟨i, hi, hclock⟩ := hk.clock
    have hle : h.time i ≤ h.time d.readings := hc.le (Nat.le_of_lt hi)
    have hlast : l.lastRoll_ = h.time d.readings := by
      have hroll : l.lastRoll_ = h.time i := hclock
      omega
    exact ⟨file, hf, .inr ⟨Nat.lt_succ_of_le hr, hlast⟩⟩

/-- What one call keeps and does. -/
theorem append_ok (hw : Accepts h) (hc : Clock h) (hk : Kept h r) (line : List Byte) :
    ∃ r', ((machine h).step (some r) line).1 = some r' ∧ r'.lines = r.lines ++ [line] ∧
      r'.log.rollSize_ = r.log.rollSize_ ∧ Kept h r' ∧ NewFile r r' ∧ SizeBound h r.log.rollSize_ r r' ∧
      (Ordered r → ¬ Reopens h r line → Ordered r') := by
  obtain ⟨l, d, lines⟩ := r
  obtain ⟨file, hf, -⟩ := hk.file
  obtain ⟨l₁, d₁, hwr, ⟨hlarge, e⟩ | ⟨e, hroll⟩⟩ := append_cases hw hf d line
  · refine ⟨⟨l₁, d₁, lines ++ [line]⟩, ?_, rfl, hwr.size, hk.write hf hwr, .inl ⟨hwr.opened, hwr.roll⟩, ?_, ?_⟩
    · show (l.appendUnlocked h d line).map _ = _
      rw [e]
      rfl
    · exact ⟨_, hwr.file_eq, .inl (UInt64.not_lt.mp hlarge)⟩
    · exact fun ho _ => ho.write hk.nodup hf hwr
  · have hk₁ := hk.write hf hwr
    refine ⟨⟨(l₁.rollFile h d₁).2.1, (l₁.rollFile h d₁).2.2, lines ++ [line]⟩, ?_, rfl, ?_, hk₁.roll, ?_, ?_, ?_⟩
    · show (l.appendUnlocked h d line).map _ = _
      rw [e]
      rfl
    · exact (rollSize_roll h d₁ l₁).trans hwr.size
    · have hnew := roll_newFile (h := h) (d := d₁) (l := l₁) [] (lines ++ [line])
      unfold NewFile at hnew ⊢
      rw [hwr.opened, hwr.roll] at hnew
      exact hnew
    · exact hk₁.roll_sizeBound hc _ hwr.readings
    · intro ho hre
      refine (ho.write hk.nodup hf hwr).roll fun hb => hre ⟨file, hf, ?_⟩
      have hb' := hwr.behind hb
      obtain ⟨hlarge, hreadings⟩ | ⟨hlarge, hday, hreadings⟩ := hroll
      · rw [hreadings] at hb'
        exact .inl ⟨hlarge, hb'⟩
      · rw [hreadings] at hb'
        exact .inr ⟨hlarge, hday, hb'⟩

/-! ## Runs -/

/-- No call opens a file again that another one has followed. -/
def NeverReopens (h : Host) (s : Option LogRun) (line : List Byte) : Prop := ∀ r ∈ s, ¬ Reopens h r line

instance (h : Host) (s : Option LogRun) (line : List Byte) : Decidable (NeverReopens h s line) :=
  inferInstanceAs (Decidable (∀ r ∈ s, _))

/-- The call opens no file or one with a later second, and the file is not too large behind it. -/
def Rolls (h : Host) (rollSize : UInt64) (s : Option LogRun) (line : List Byte) : Prop :=
  ∃ r r', s = some r ∧ ((machine h).step s line).1 = some r' ∧ NewFile r r' ∧ SizeBound h rollSize r r'

theorem run_ok (hw : Accepts h) (hc : Clock h) (lines : List (List Byte)) (hk : Kept h r) :
    (machine h).Along (Rolls h r.log.rollSize_) (some r) lines ∧
    ∃ r', (machine h).final (some r) lines = some r' ∧ r'.lines = r.lines ++ lines ∧ Kept h r' ∧
      (Ordered r → (machine h).Along (NeverReopens h) (some r) lines → Ordered r') := by
  induction lines generalizing r with
  | nil => exact ⟨trivial, r, rfl, (List.append_nil _).symm, hk, fun ho _ => ho⟩
  | cons line lines ih =>
    obtain ⟨r₁, hstep, hlines, hsize, hk₁, hnew, hbound, hord⟩ := append_ok hw hc hk line
    obtain ⟨halong, r', hfinal, hlines', hk', hord'⟩ := ih hk₁
    rw [← hstep] at halong hfinal hord'
    rw [hsize] at halong
    refine ⟨⟨⟨r, r₁, rfl, hstep, hnew, hbound⟩, halong⟩, r', hfinal, ?_, hk', fun ho hre => ?_⟩
    · rw [hlines', hlines, List.append_assoc]
      rfl
    · exact hord' (hord ho (hre.1 r rfl)) hre.2

theorem start_ok (hpos : 0 < h.time 0) (rollSize : UInt64) (basename : String) (flushInterval checkEveryN : Int32) :
    ∃ r, start h rollSize basename flushInterval checkEveryN = some r ∧ r.lines = [] ∧
      r.log.rollSize_ = rollSize ∧ Kept h r ∧ Ordered r := by
  let l : LogFile := ⟨basename, rollSize, flushInterval, checkEveryN, 0, 0, 0, 0, none⟩
  have hnow : h.time (Disk.mk 0 [] []).readings > l.lastRoll_ := hpos
  have hfiles : ({ readings := 1, files := [], opened := [] } : Disk).files = Parts.files [] := rfl
  have hopen := Parts.files_fopen hfiles (fileName h l (h.time 0))
  refine ⟨⟨(l.rollFile h ⟨0, [], []⟩).2.1, (l.rollFile h ⟨0, [], []⟩).2.2, []⟩, rfl, rfl, rollSize_roll .., ?_, ?_⟩
  · rw [rollFile_new hnow]
    refine ⟨⟨_, rfl, ?_⟩, ?_, ⟨_, hopen, ?_⟩, rfl, 0, Nat.zero_lt_one, rfl⟩
    · rw [Parts.names_eq hopen]
      exact Parts.mem_names_fopen _ _
    · rw [Parts.names_eq hopen]
      exact Parts.nodup_names_fopen (show (Parts.names []).Nodup from List.nodup_nil) _
    · rw [Parts.lines_fopen]
      exact List.Perm.nil
  · rw [rollFile_new hnow]
    refine ⟨⟨_, rfl, ?_⟩, _, hopen, Parts.lines_fopen _ _⟩
    rw [Parts.names_eq hopen]
    exact Parts.getLast_names_fopen (.inl List.not_mem_nil)

theorem period_eq {now : Int} (h0 : 0 ≤ now) : period now = now / 86400 * 86400 := by
  rw [period, Int.tdiv_eq_ediv_of_nonneg h0]
  rfl

/-- With a positive clock that does not go back, and an `fwrite` that accepts everything,
each line is whole in one file after any calls of `append`, the period begins at the
start of the day of the last roll, every new file has a later second, and a file that is too
large is the one of the second just seen. The files, one after another, hold the lines in
order if no call opens a file again that another one has followed. -/
theorem rolling_keeps_order (h : Host) (hw : Accepts h) (hc : Clock h) (rollSize : UInt64)
    (basename : String) (flushInterval checkEveryN : Int32) (lines : List (List Byte)) :
    let s := start h rollSize basename flushInterval checkEveryN
    (machine h).Along (Rolls h rollSize) s lines ∧
    ∃ r, (machine h).final s lines = some r ∧
      r.log.startOfPeriod_ = r.log.lastRoll_ / 86400 * 86400 ∧
      (∃ ps : Parts, r.disk.files = ps.files ∧ ps.lines.Perm lines) ∧
      ((machine h).Along (NeverReopens h) s lines → ∃ ps : Parts, r.disk.files = ps.files ∧ ps.lines = lines) := by
  intro s
  obtain ⟨r₀, hs, hnil, hsize, hk, ho⟩ := start_ok hc.pos rollSize basename flushInterval checkEveryN
  obtain ⟨halong, r, hfinal, hlines, hk', hord⟩ := run_ok hw hc lines hk
  rw [hnil, List.nil_append] at hlines
  rw [hsize] at halong
  rw [show s = some r₀ from hs]
  refine ⟨halong, r, hfinal, ?_, ?_, fun hre => ?_⟩
  · obtain ⟨i, -, hclock⟩ := hk'.clock
    rw [hk'.period, period_eq]
    rw [hclock]
    exact Int.le_of_lt (Int.lt_of_lt_of_le hc.pos (hc.le (Nat.zero_le i)))
  · rw [← hlines]
    exact hk'.whole
  · rw [← hlines]
    exact (hord ho hre).whole

/-! ## When clocks are set back -/

/-- The time in New York on 3 November 2024, where clocks are set back at 06:00:00 UTC. -/
def newYork (now : Int) : String :=
  let t := ((now - if now < 1730613600 then 14400 else 18000) % 86400).toNat
  let two (n : Nat) : String := (if n < 10 then "0" else "") ++ toString n
  ".20241103-" ++ two (t / 3600) ++ two (t / 60 % 60) ++ two (t % 60)

/-- The clock shows 01:30:00, a second later 01:30:01, and an hour later 01:30:00 again. -/
def setBack : Host where
  time n := if n = 0 then 1730611800 else if n = 1 then 1730611801 else 1730615400
  localtime := newYork
  fwrite := List.length

theorem clock_setBack : Clock setBack := by
  refine ⟨by decide, fun n => ?_⟩
  show (if n = 0 then 1730611800 else if n = 1 then 1730611801 else (1730615400 : Int)) ≤
    if n + 1 = 0 then 1730611800 else if n + 1 = 1 then 1730611801 else 1730615400
  split <;> split <;> omega

example : newYork 1730611800 = ".20241103-013000" ∧ newYork 1730611801 = ".20241103-013001" ∧
    newYork 1730615400 = ".20241103-013000" := by
  decide

/-- Two lines, with a roll in between: nothing is opened again. -/
theorem rolling_keeps_order_two :
    let s := start setBack 4 "log" 3 10000
    (machine setBack).Along (Rolls setBack 4) s [textBytes "abc", textBytes "de"] ∧
    ∃ r, (machine setBack).final s [textBytes "abc", textBytes "de"] = some r ∧
      ∃ ps : Parts, r.disk.files = ps.files ∧ ps.lines = [textBytes "abc", textBytes "de"] := by
  intro s
  obtain ⟨halong, r, hfinal, -, -, hord⟩ := rolling_keeps_order setBack (fun _ => rfl) clock_setBack 4 "log" 3 10000
    [textBytes "abc", textBytes "de"]
  exact ⟨halong, r, hfinal, hord (by decide +kernel)⟩

/-- Each of the first two is followed by a roll. -/
def threeLines : List (List Byte) := [textBytes "first", textBytes "second", textBytes "third"]

/-- The third line goes into the first file, behind which the second one is. -/
theorem order_lost_when_set_back :
    Accepts setBack ∧ Clock setBack ∧
    ∃ r, (machine setBack).final (start setBack 4 "log" 3 10000) threeLines = some r ∧
      r.disk.files =
        [("log.20241103-013000.log", textBytes "firstthird"), ("log.20241103-013001.log", textBytes "second")] ∧
      ¬ ∃ ps : Parts, r.disk.files = ps.files ∧ ps.lines = threeLines := by
  have hrun : ((machine setBack).final (start setBack 4 "log" 3 10000) threeLines).map (fun r => r.disk.files) =
        some [("log.20241103-013000.log", textBytes "firstthird"), ("log.20241103-013001.log", textBytes "second")] := by
    decide +kernel
  obtain ⟨r, hr, hfiles⟩ := Option.map_eq_some_iff.mp hrun
  refine ⟨fun _ => rfl, clock_setBack, r, hr, hfiles, ?_⟩
  rintro ⟨ps, hps, hlines⟩
  have hbytes := ps.flatten_files
  rw [← hps, hfiles, hlines] at hbytes
  exact absurd hbytes (by decide)

end LogFile

end Ydx
