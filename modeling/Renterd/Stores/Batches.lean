import Renterd.Stores.Objects

/-!
# `FindInBatches`

GORM's `FindInBatches` reads a query in batches. It adds the primary key to the query's order,
and every batch after the first reads the rows whose primary key is greater than that of the
last row of the batch before. Under a `Limit` it stops once it has read that many rows, and
shrinks the last batch to what the limit leaves. The version is GORM 1.24's, where a limit of
`0` or less is none.
-/

namespace Renterd.Stores

/-- `gorm.ErrPrimaryKeyRequired`. -/
def ErrPrimaryKeyRequired : String := "primary key required"

/-- GORM's `FindInBatches` over the rows of an ordered query, from the batch after the row with
primary key `after`: a batch is the rows with a greater key, in the query's order, at most
`size` of them. The loop stops after a short batch, or once `total` rows were read when the
query has a `Limit` (`total` is `0` when it has none); before the last batch it shrinks `size`
to what the limit leaves. The next batch starts after the key of this batch's last row. The
rows of every batch, in order; `fuel` only bounds the loop. -/
def findInBatches {α : Type} (key : α → Nat) (rows : List α) (total : Nat) :
    (fuel : Nat) → (after : Option Nat) → (size batch read : Nat) → Except Failure (List α)
  | 0, _, _, _, _ => .ok []
  | fuel + 1, after, size, batch, read =>
      let found := (rows.filter fun row => after.all (· < key row)).take size
      let read := read + found.length
      let batch := batch + 1
      if found.length < size ∨ (0 < total ∧ total ≤ read) then .ok found
      else
        let size := if 0 < total ∧ total / size = batch then total % size else size
        match found.getLast? with
        | none => .error (.panic "reflect: slice index out of range")
        | some last =>
            if key last = 0 then .error (.error ErrPrimaryKeyRequired)
            else (findInBatches key rows total fuel (some (key last)) size batch read).map (found ++ ·)

section Batches

variable {α : Type} {key : α → Nat} {rows : List α} {total : Nat}

/-- Every row the batches return is a row of the query. -/
theorem findInBatches_subset :
    ∀ {fuel : Nat} {after : Option Nat} {size batch read : Nat} {found : List α},
      findInBatches key rows total fuel after size batch read = .ok found → ∀ row ∈ found, row ∈ rows
  | 0, _, _, _, _, _, h => by cases h; exact fun _ mem => absurd mem (List.not_mem_nil _)
  | fuel + 1, after, size, batch, read, found, h => by
      have taken : ∀ row ∈ (rows.filter fun row => after.all (· < key row)).take size, row ∈ rows :=
        fun row mem => List.mem_of_mem_filter (List.mem_of_mem_take mem)
      rw [findInBatches] at h
      split at h
      · cases h; exact taken
      · generalize (if 0 < total ∧ total / size = batch + 1 then total % size else size) = next at h
        split at h
        · cases h
        · split at h
          · cases h
          · obtain ⟨rest, restOk, rfl⟩ := map_eq_ok.mp h
            intro row mem
            rcases List.mem_append.mp mem with first | later
            · exact taken row first
            · exact findInBatches_subset restOk row later

/-- After a full batch that leaves rows under the limit, the next batch size is positive and
still fits: it is the same size while whole batches fit, and then what the limit leaves. -/
theorem resize_fits {read size batch : Nat} (sizePos : 0 < size)
    (fits : 0 < total → read = batch * size ∧ read + size ≤ total ∨ read + size = total)
    (more : ¬ (0 < total ∧ total ≤ read + size)) :
    let next := if 0 < total ∧ total / size = batch + 1 then total % size else size
    0 < next ∧ (0 < total →
      read + size = (batch + 1) * next ∧ read + size + next ≤ total ∨ read + size + next = total) := by
  dsimp only
  by_cases limited : 0 < total
  · have split := Nat.div_add_mod total size
    have mod := Nat.mod_lt total sizePos
    have succ : (batch + 1) * size = batch * size + size := Nat.succ_mul batch size
    obtain ⟨rfl, -⟩ : read = batch * size ∧ read + size ≤ total := by
      rcases fits limited with fit | fit
      · exact fit
      · exact absurd ⟨limited, fit.ge⟩ more
    split_ifs with last
    · rw [last.2, Nat.mul_comm, succ] at split
      omega
    · have below : batch < total / size := Nat.lt_of_mul_lt_mul_right
        (show batch * size < total / size * size by rw [Nat.mul_comm (total / size)]; omega)
      have room := Nat.mul_le_mul_right size (show batch + 2 ≤ total / size by omega)
      rw [Nat.add_mul, Nat.mul_comm (total / size)] at room
      omega
  · rw [if_neg fun last => limited last.1]
    exact ⟨sizePos, fun limited' => absurd limited' limited⟩

/-! ## The loop ends on every query

The rows a batch can read are those after its start key. A full batch moves the key to its last
row, which was one of them, so fewer are left: the loop ends after at most one batch more than
there are such rows, whatever the order of the query and its keys. -/

/-- A batch that goes on leaves fewer rows after the key it moves to. -/
theorem filter_after_lt {after : Option Nat} {size : Nat} {last : α}
    (found : ((rows.filter fun row => after.all (· < key row)).take size).getLast? = some last) :
    (rows.filter fun row => (some (key last)).all (· < key row)).length <
      (rows.filter fun row => after.all (· < key row)).length := by
  have mem := List.mem_of_mem_take (List.mem_of_getLast?_eq_some found)
  have past : rows.filter (fun row => (some (key last)).all (· < key row)) =
      (rows.filter fun row => after.all (· < key row)).filter
        fun row => (some (key last)).all (· < key row) := by
    rw [List.filter_filter]
    refine List.filter_congr fun row _ => ?_
    cases after with
    | none => simp
    | some start =>
        have : start < key last := by simpa using (List.mem_filter.mp mem).2
        by_cases later : key last < key row <;> simp [later]
        omega
  rw [past]
  exact List.length_filter_lt_length_iff_exists.mpr ⟨last, mem, by simp⟩

/-- With more fuel than rows after the start key, one more unit of fuel changes nothing. -/
theorem findInBatches_succ :
    ∀ {fuel : Nat} {after : Option Nat} {size batch read : Nat},
      (rows.filter fun row => after.all (· < key row)).length < fuel →
      findInBatches key rows total (fuel + 1) after size batch read =
        findInBatches key rows total fuel after size batch read
  | 0, _, _, _, _, lt => absurd lt (Nat.not_lt_zero _)
  | fuel + 1, after, size, batch, read, lt => by
      conv_lhs => rw [findInBatches]
      conv_rhs => rw [findInBatches]
      dsimp only
      generalize (if 0 < total ∧ total / size = batch + 1 then total % size else size) = next
      split_ifs
      · rfl
      split
      · rfl
      · rename_i last found
        rw [findInBatches_succ (Nat.lt_of_lt_of_le (filter_after_lt found) (Nat.le_of_lt_succ lt))]

/-- `FindInBatches` ends on its own over any query, in any order, under any limit and batch size:
with more fuel than there are rows after its start key, any more fuel gives the same result. -/
theorem findInBatches_fuel_enough {fuel more : Nat} {after : Option Nat} {size batch read : Nat}
    (enough : (rows.filter fun row => after.all (· < key row)).length < fuel) :
    findInBatches key rows total (fuel + more) after size batch read =
      findInBatches key rows total fuel after size batch read := by
  induction more with
  | zero => rfl
  | succ more ih => rw [← Nat.add_assoc, findInBatches_succ (by omega), ih]

/-- Three rows out of key order, in batches of one: fuel past four changes nothing. -/
theorem unorderedKeys_fuel_enough :
    ([5, 1, 3].filter fun row => (none : Option Nat).all (· < id row)).length < 4 ∧
      findInBatches id [5, 1, 3] 0 (4 + 2) none 1 0 0 = findInBatches id [5, 1, 3] 0 4 none 1 0 0 :=
  ⟨by decide, findInBatches_fuel_enough (by decide)⟩

/-- Over positive keys, from a batch size that fits the limit, the loop never fails, and reads no
more rows than the limit leaves: whatever the order of the rows. -/
theorem findInBatches_within (pos : ∀ row ∈ rows, 0 < key row) :
    ∀ {fuel : Nat} {after : Option Nat} {size batch read : Nat}, 0 < size →
      (0 < total → read = batch * size ∧ read + size ≤ total ∨ read + size = total) →
      ∃ found, findInBatches key rows total fuel after size batch read = .ok found ∧
        (0 < total → read + found.length ≤ total)
  | 0, _, _, _, _, _, fits =>
      ⟨[], rfl, fun limited => by rcases fits limited with ⟨-, _⟩ | _ <;> simp <;> omega⟩
  | fuel + 1, after, size, batch, read, sizePos, fits => by
      have within : 0 < total → read + size ≤ total := fun limited => by
        rcases fits limited with ⟨-, fit⟩ | fit <;> omega
      have taken : ∀ row ∈ (rows.filter fun row => after.all (· < key row)).take size, row ∈ rows :=
        fun row mem => List.mem_of_mem_filter (List.mem_of_mem_take mem)
      have short := List.length_take_le size (rows.filter fun row => after.all (· < key row))
      rw [findInBatches]
      generalize (rows.filter fun row => after.all (· < key row)).take size = found at taken short
      dsimp only
      split
      · -- the last batch
        exact ⟨found, rfl, fun limited => by have := within limited; omega⟩
      · -- a full batch, and more rows under the limit
        rename_i stop
        have full : found.length = size := by omega
        obtain ⟨nextPos, nextFits⟩ := resize_fits sizePos fits (by omega)
        split
        · rename_i none
          rw [List.getLast?_eq_none_iff] at none
          rw [none, List.length_nil] at full
          omega
        · rename_i last isLast
          rw [if_neg (pos last (taken last (List.mem_of_getLast?_eq_some isLast))).ne', full]
          obtain ⟨rest, restOk, bound⟩ := findInBatches_within pos nextPos nextFits
          refine ⟨found ++ rest, by rw [restOk]; rfl, fun limited => ?_⟩
          have := bound limited
          rw [List.length_append]
          omega

end Batches

end Renterd.Stores
