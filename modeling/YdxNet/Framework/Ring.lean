import YdxNet.Framework.Bytes

/-!
# Circular buffers

A ring is a block of memory whose last cell is followed by its first.
`window mem o n` is its `n` cells from `o` on. Reading a window in two
straight parts (`readWrapped_eq`) and writing one in two straight copies
(`window_writeWrapped`) go wrong nowhere around the wrap point: the window
after a write is the one before it followed by what was written.
-/

namespace Ydx.RingBuf

variable {α : Type*}

/-- The `n` cells of the ring `mem` from `o` on. -/
def window (mem : List α) (o n : Nat) : List α := (mem.rotate o).take n

/-- A window read in two parts: the cells up to the end of the block, then
the rest from its start. -/
def readWrapped (mem : List α) (o n : Nat) : List α :=
  let l := min n (mem.length - o)
  (mem.drop o).take l ++ mem.take (n - l)

/-- A window written in two parts. -/
def writeWrapped (mem : List α) (o : Nat) (src : List α) : List α :=
  let l := min src.length (mem.length - o)
  memcpy (memcpy mem o (src.take l)) 0 (src.drop l)

theorem length_window {mem : List α} {o n : Nat} (h : n ≤ mem.length) : (window mem o n).length = n := by
  simp only [window, List.length_take, List.length_rotate]; omega

@[simp] theorem window_zero (mem : List α) (o : Nat) : window mem o 0 = [] := by
  simp [window]

/-- A window, cell by cell. -/
theorem window_getElem? {mem : List α} {o n i : Nat} (hn : n ≤ mem.length) (hi : i < n) :
    (window mem o n)[i]? = mem[(o + i) % mem.length]? := by
  rw [window, List.getElem?_take_of_lt hi, List.getElem?_rotate (by omega), Nat.add_comm]

theorem window_mod (mem : List α) (o n : Nat) : window mem (o % mem.length) n = window mem o n := by
  rw [window, List.rotate_mod, window]

/-- A window is its first cells followed by the window behind them. -/
theorem window_add {mem : List α} {o m n : Nat} (h : m + n ≤ mem.length) :
    window mem o (m + n) = window mem o m ++ window mem (o + m) n := by
  have hl : (mem.rotate o).length = mem.length := List.length_rotate ..
  simp only [window, List.take_add, ← List.rotate_rotate]
  rw [List.rotate_eq_drop_append_take (n := m) (by omega), List.take_append_of_le_length
    (by rw [List.length_drop]; omega)]

/-- Reading in two parts reads the window. -/
theorem readWrapped_eq {mem : List α} {o n : Nat} (ho : o ≤ mem.length) (hn : n ≤ mem.length) :
    readWrapped mem o n = window mem o n := by
  simp only [readWrapped, window, List.rotate_eq_drop_append_take ho, List.take_append,
    List.length_drop, List.take_take]
  by_cases h : n ≤ mem.length - o
  · rw [Nat.min_eq_left h, show n - (mem.length - o) = 0 by omega]; simp
  · rw [Nat.min_eq_right (by omega), List.take_of_length_le (i := mem.length - o) (by rw [List.length_drop]),
      List.take_of_length_le (i := n) (by rw [List.length_drop]; omega),
      Nat.min_eq_left (by omega)]

@[simp] theorem length_writeWrapped (mem : List α) (o : Nat) (src : List α) :
    (writeWrapped mem o src).length = mem.length := by
  simp only [writeWrapped, length_memcpy]

/-- A ring after a write, cell by cell: the cells of the window written hold
the source, the others are unchanged. -/
theorem writeWrapped_getElem? {mem : List α} {o : Nat} {src : List α} (ho : o < mem.length)
    (hs : src.length ≤ mem.length) (j : Nat) (hj : j < mem.length) :
    (writeWrapped mem o src)[(o + j) % mem.length]? =
      if j < src.length then src[j]? else mem[(o + j) % mem.length]? := by
  have hl : ∀ l, l ≤ src.length → (src.take l).length = l := fun l h => by rw [List.length_take]; omega
  rw [writeWrapped, memcpy_getElem? (by rw [length_memcpy, List.length_drop]; omega), List.length_drop,
    memcpy_getElem? (by rw [hl _ (by omega)]; omega), hl _ (by omega)]
  -- The cell lies in front of the wrap point or behind it.
  by_cases hw : o + j < mem.length
  · rw [Nat.mod_eq_of_lt hw]
    by_cases hjs : j < src.length
    · rw [if_neg (by omega), if_pos (by omega), if_pos hjs, List.getElem?_take_of_lt (by omega)]
      congr 1; omega
    · rw [if_neg (by omega), if_neg (by omega), if_neg hjs]
  · rw [Nat.mod_eq_sub_mod (by omega), Nat.mod_eq_of_lt (by omega)]
    by_cases hjs : j < src.length
    · rw [if_pos (by omega), if_pos hjs, List.getElem?_drop]
      congr 1; omega
    · rw [if_neg (by omega), if_neg (by omega), if_neg hjs]

/-- Writing behind a window of `n` cells appends to it. -/
theorem window_writeWrapped {mem : List α} {o n : Nat} {src : List α} (ho : o < mem.length)
    (h : n + src.length ≤ mem.length) :
    window (writeWrapped mem ((o + n) % mem.length) src) o (n + src.length) =
      window mem o n ++ src := by
  have hi : (o + n) % mem.length < mem.length := Nat.mod_lt _ (by omega)
  have hL : (writeWrapped mem ((o + n) % mem.length) src).length = mem.length := length_writeWrapped ..
  apply List.ext_getElem?
  intro i
  by_cases hin : i < n + src.length
  · rw [window_getElem? (by omega) hin, hL]
    -- Cell `i` of the window is cell `j` counted from the place written to.
    obtain ⟨j, hj, e⟩ : ∃ j < mem.length, (o + i) % mem.length = ((o + n) % mem.length + j) % mem.length ∧
        (if i < n then j + n = i + mem.length else j + n = i) := by
      by_cases hlt : i < n
      · refine ⟨i + mem.length - n, by omega, ?_, by rw [if_pos hlt]; omega⟩
        rw [Nat.mod_add_mod, show o + n + (i + mem.length - n) = o + i + mem.length by omega,
          Nat.add_mod_right]
      · refine ⟨i - n, by omega, ?_, by rw [if_neg hlt]; omega⟩
        rw [Nat.mod_add_mod, show o + n + (i - n) = o + i by omega]
    rw [e.1, writeWrapped_getElem? hi (by omega) j hj, ← e.1]
    by_cases hlt : i < n
    · rw [if_pos hlt] at e
      rw [if_neg (by omega), List.getElem?_append_left (by rw [length_window (by omega)]; exact hlt),
        window_getElem? (by omega) hlt]
    · rw [if_neg hlt] at e
      rw [if_pos (by omega), List.getElem?_append_right (by rw [length_window (by omega)]; omega),
        length_window (by omega)]
      congr 1; omega
  · rw [List.getElem?_eq_none (by rw [length_window (by omega)]; omega), List.getElem?_eq_none]
    rw [List.length_append, length_window (by omega)]; omega

/-- Writing one cell. -/
theorem writeWrapped_singleton {mem : List α} {o : Nat} (ho : o < mem.length) (x : α) :
    writeWrapped mem o [x] = mem.set o x := by
  have hl : min [x].length (mem.length - o) = 1 := by
    rw [List.length_singleton]
    omega
  have hcell : memcpy mem o [x] = mem.set o x := by
    rw [memcpy_of_le (by rw [List.length_singleton]; omega), List.set_eq_take_append_cons_drop, if_pos ho]
    simp
  simp only [writeWrapped, hl, List.take_succ_cons, List.take_zero, List.drop_succ_cons, List.drop_nil, hcell]
  rw [memcpy_of_le (by simp)]
  simp

/-- Setting the cell behind a window of `n` cells appends to it. -/
theorem window_set {mem : List α} {o n : Nat} (ho : o < mem.length) (hn : n < mem.length) (x : α) :
    window (mem.set ((o + n) % mem.length) x) o (n + 1) = window mem o n ++ [x] := by
  rw [← writeWrapped_singleton (Nat.mod_lt _ (by omega))]
  exact window_writeWrapped ho (by rw [List.length_singleton]; omega)

end Ydx.RingBuf
