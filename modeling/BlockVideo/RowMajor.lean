/-!
# Row-major numbering

Cells in rows of `n` are numbered row by row: cell `col` of row `row` has number `row * n + col`.
The number determines the cell. `cells` lists what the cells of a grid hold in that order.
-/

namespace BlockVideo.RowMajor

variable {n rows row col row' col' : Nat}

theorem number_lt (hr : row < rows) (hc : col < n) : row * n + col < rows * n := by
  have := Nat.mul_le_mul_right n (Nat.succ_le_of_lt hr)
  rw [Nat.succ_mul] at this
  omega

theorem number_lt_mul (hr : row < rows) (hc : col < n) : row * n + col < n * rows :=
  Nat.mul_comm n rows ▸ number_lt hr hc

theorem pred_mul_add (h : 1 ≤ rows) : (rows - 1) * n + n = n * rows := by
  rw [← Nat.succ_mul, Nat.succ_eq_add_one, Nat.sub_add_cancel h, Nat.mul_comm]

theorem div_eq (row : Nat) (hc : col < n) : (row * n + col) / n = row := by
  rw [Nat.mul_comm, Nat.mul_add_div (by omega), Nat.div_eq_of_lt hc, Nat.add_zero]

theorem mod_eq (row : Nat) (hc : col < n) : (row * n + col) % n = col := by
  rw [Nat.mul_comm, Nat.mul_add_mod, Nat.mod_eq_of_lt hc]

theorem inj (hc : col < n) (hc' : col' < n) (h : row * n + col = row' * n + col') :
    row = row' ∧ col = col' := by
  constructor
  · rw [← div_eq row hc, h, div_eq row' hc']
  · rw [← mod_eq row hc, h, mod_eq row' hc']

theorem mem_run_iff {start length : Nat} (hc : col < n) (h : start + length ≤ n) :
    row' * n + start ≤ row * n + col ∧ row * n + col < row' * n + start + length ↔
      row = row' ∧ start ≤ col ∧ col < start + length := by
  constructor
  · intro hm
    have e : row = row' := by
      rcases Nat.lt_trichotomy row row' with hlt | e | hlt
      · have := Nat.mul_le_mul_right n (Nat.succ_le_of_lt hlt)
        rw [Nat.succ_mul] at this
        omega
      · exact e
      · have := Nat.mul_le_mul_right n (Nat.succ_le_of_lt hlt)
        rw [Nat.succ_mul] at this
        omega
    subst e
    omega
  · rintro ⟨rfl, hl, hu⟩
    omega

/-! ## All cells -/

section Cells

variable {α β γ : Type} {f : Nat → Nat → Nat → α} {g : Nat → Nat → Nat → β} {h : α → β → γ}

/-- What `rows` rows of `n` cells hold, row by row; `f` is given the number, the column and the row
of a cell. -/
def cells (n rows : Nat) (f : Nat → Nat → Nat → α) : List α :=
  (List.range (n * rows)).map fun i => f i (i % n) (i / n)

theorem length_cells : (cells n rows f).length = n * rows := by
  rw [cells, List.length_map, List.length_range]

theorem getElem?_cells (hc : col < n) (hr : row < rows) :
    (cells n rows f)[row * n + col]? = some (f (row * n + col) col row) := by
  rw [cells, List.getElem?_map, List.getElem?_range (number_lt_mul hr hc), Option.map_some,
    mod_eq row hc, div_eq row hc]

theorem lt_of_number_lt {i : Nat} (hi : i < n * rows) : i % n < n ∧ i / n < rows :=
  ⟨Nat.mod_lt i (Nat.pos_of_mul_pos_right (Nat.zero_lt_of_lt hi)), Nat.div_lt_of_lt_mul hi⟩

theorem mem_cells {a : α} (mem : a ∈ cells n rows f) :
    ∃ i col row, col < n ∧ row < rows ∧ a = f i col row := by
  obtain ⟨i, hi, rfl⟩ := List.mem_map.1 mem
  obtain ⟨hc, hr⟩ := lt_of_number_lt (List.mem_range.1 hi)
  exact ⟨i, _, _, hc, hr, rfl⟩

theorem map_cells {k : α → β} :
    (cells n rows f).map k = cells n rows fun i col row => k (f i col row) := by
  rw [cells, List.map_map]
  rfl

theorem zipWith_cells :
    List.zipWith h (cells n rows f) (cells n rows g) =
      cells n rows fun i col row => h (f i col row) (g i col row) := by
  rw [cells, cells, List.zipWith_map, List.zipWith_self]
  rfl

end Cells

end BlockVideo.RowMajor
