import Mathlib.Data.List.Sort
import Mathlib.Data.List.Dedup
import Renterd.Stores.Batches
import Renterd.Stores.ContractSets

/-!
# Slab health

`UnhealthySlabs` counts, per slab, the distinct hosts of contracts in the set that hold the
sector of one of the slab's shards: the joins run from `shards` through `sectors`,
`contract_sectors` and `contracts` to `contract_set_contracts` and `contract_sets`. The joins to
the set are inner joins, so a slab with no such contract has no row to group. The groups are
ordered by their deficit and read by GORM's `FindInBatches`, which adds the primary key to the
order and reads each batch after the primary key of the last row of the batch before. The SQL
is SQLite's.

With fewer slabs than a batch holds, the query returns each slab with at least one and fewer
good sectors than shards once, worst first. A slab with no good sector has no row to group and
is never returned; and once a second batch is read, the batches read after the primary key of
a row that is not the greatest read so far, so they repeat rows and drop others.
-/

namespace Renterd.Stores

/-- `COUNT(DISTINCT(c.host_id))` of `UnhealthySlabs` for one slab. -/
def SQLStore.goodSectors (store : SQLStore) (set : String) (slabId : Nat) : Nat :=
  ((store.shards.rows.filter fun shard =>
      shard.2.slabId == slabId && store.sectors.rows.any fun sector => sector.1 == shard.2.sectorId).flatMap
    fun shard => (store.contracts.rows.filter fun c =>
      store.contractSectors.contains (c.1, shard.2.sectorId) &&
        store.sets.rows.any fun cs => cs.2.name == set && store.setContracts.contains (cs.1, c.1)).map
      fun c => c.2.hostId).dedup.length

/-! ## The query of `UnhealthySlabs` -/

/-- `c.host_id` of each row the joins give one slab: per shard of the slab whose sector exists,
per contract of the set that holds the sector. -/
def SQLStore.goodHosts (store : SQLStore) (set : String) (slabId : Nat) : List Nat :=
  (store.shards.rows.filter fun shard =>
      shard.2.slabId == slabId && store.sectors.rows.any fun sector => sector.1 == shard.2.sectorId).flatMap
    fun shard => (store.contracts.rows.filter fun c =>
      store.contractSectors.contains (c.1, shard.2.sectorId) &&
        store.sets.rows.any fun cs => cs.2.name == set && store.setContracts.contains (cs.1, c.1)).map
      fun c => c.2.hostId

theorem goodSectors_eq (store : SQLStore) (set : String) (slabId : Nat) :
    store.goodSectors set slabId = (store.goodHosts set slabId).dedup.length := rfl

/-- A group of the query: the slab's id and row, and `num_bad_sectors`. -/
structure UnhealthyRow where
  id : Nat
  slab : SlabRow
  bad : Nat
  deriving DecidableEq, Repr

/-- `GROUP BY slabs.id HAVING num_good_sectors < num_required_sectors`: a group for each slab with
a joined row, kept when its distinct hosts are fewer than its `TotalShards`. -/
def SQLStore.unhealthyGroups (store : SQLStore) (set : String) : List UnhealthyRow :=
  store.slabs.rows.filterMap fun slab =>
    let hosts := store.goodHosts set slab.1
    if !hosts.isEmpty && decide (hosts.dedup.length < slab.2.totalShards.toNat) then
      some ⟨slab.1, slab.2, slab.2.totalShards.toNat - hosts.dedup.length⟩
    else none

/-- `ORDER BY num_bad_sectors DESC`, then the primary key that `FindInBatches` orders by. -/
def UnhealthyRow.Before (a b : UnhealthyRow) : Prop :=
  b.bad < a.bad ∨ (a.bad = b.bad ∧ a.id ≤ b.id)

instance : DecidableRel UnhealthyRow.Before := fun a b =>
  inferInstanceAs (Decidable (b.bad < a.bad ∨ (a.bad = b.bad ∧ a.id ≤ b.id)))

/-- The groups in the order the query returns them. -/
def SQLStore.unhealthyOrdered (store : SQLStore) (set : String) : List UnhealthyRow :=
  (store.unhealthyGroups set).insertionSort UnhealthyRow.Before

def slabRetrievalBatchSize : Nat := 100

/-- `panic(err)` on an error of `convert`; a panic inside `convert` stays that panic. -/
def Failure.toPanic : Failure → Failure
  | .error msg => .panic msg
  | .panic msg => .panic msg

/-- The rows `UnhealthySlabs` reads: the query under `Limit(limit)` by `FindInBatches` in batches
of `slabRetrievalBatchSize`, or of the limit if it is smaller. -/
def SQLStore.unhealthyBatches (store : SQLStore) (set : String) (limit : Int) :
    Except Failure (List UnhealthyRow) :=
  let total := limit.toNat
  let size := if 0 < total ∧ total < slabRetrievalBatchSize then total else slabRetrievalBatchSize
  findInBatches UnhealthyRow.id (store.unhealthyOrdered set) total (store.slabs.rows.length + 1)
    none size 0 0

variable {Key : Type} (codec : KeyCodec Key)

/-- `UnhealthySlabs`: each row the batches read converted with its preloaded shards, a panic on
a conversion error. -/
def SQLStore.UnhealthySlabs (store : SQLStore) (set : String) (limit : Int) :
    Except Failure (List (Slab Key)) := do
  let rows ← store.unhealthyBatches set limit
  rows.mapM fun row => ((store.loadSlab (row.id, row.slab)).convert codec).mapError Failure.toPanic

/-! ## A renewal drops the sectors of the old contract -/

/-- Contract `7` holds the one shard of object `a`, and set `autopilot` is `{7}`. -/
def storedOnSeven : Except String SQLStore := do
  let (added, _) ← oneHost.AddContract contractSeven .zero 0
  let written ← added.UpdateObject byteCodec "a" oneShardObject usedSeven
  return written.SetContractSet "autopilot" [⟨7⟩]

/-- The renewal deletes contract `7` and its `contract_sectors` rows by cascade, and links no
sector to contract `8`: once the set holds `8` in place of `7`, the slab has no good sector. -/
theorem AddRenewedContract_drops_sector_links :
    ∃ store, storedOnSeven = .ok store ∧
      (1, 1) ∈ store.contractSectors ∧ store.goodSectors "autopilot" 1 = 1 ∧
      ∃ renewed added, store.AddRenewedContract contractEight .zero 0 ⟨7⟩ = .ok (renewed, added) ∧
        (∀ row ∈ renewed.contracts.rows, row.2.fcid = ⟨8⟩ → (row.1, 1) ∉ renewed.contractSectors) ∧
        (renewed.SetContractSet "autopilot" [⟨8⟩]).goodSectors "autopilot" 1 = 0 :=
  ⟨_, rfl, by decide, by decide, _, _, rfl, by decide, by decide⟩

/-! ## What the query returns -/

instance : IsTotal UnhealthyRow UnhealthyRow.Before :=
  ⟨fun a b => by unfold UnhealthyRow.Before; omega⟩

instance : IsTrans UnhealthyRow UnhealthyRow.Before :=
  ⟨fun a b c => by unfold UnhealthyRow.Before; omega⟩

section Query

variable {store : SQLStore} {set : String}

/-- A slab has a good sector exactly when the joins give it a row. -/
theorem goodSectors_pos {slabId : Nat} :
    0 < store.goodSectors set slabId ↔ store.goodHosts set slabId ≠ [] := by
  rw [goodSectors_eq, List.length_pos, Ne, Ne, List.dedup_eq_nil]

/-- A group is kept for exactly the stored slabs with a good sector and fewer good sectors than
shards, with their deficit. -/
theorem mem_unhealthyGroups {row : UnhealthyRow} :
    row ∈ store.unhealthyGroups set ↔ (row.id, row.slab) ∈ store.slabs.rows ∧
      0 < store.goodSectors set row.id ∧ store.goodSectors set row.id < row.slab.totalShards.toNat ∧
      row.bad = row.slab.totalShards.toNat - store.goodSectors set row.id := by
  simp only [SQLStore.unhealthyGroups, List.mem_filterMap]
  constructor
  · rintro ⟨slab, mem, kept⟩
    split_ifs at kept with unhealthy
    cases kept
    simp only [Bool.and_eq_true, Bool.not_eq_true', List.isEmpty_eq_false, decide_eq_true_eq] at unhealthy
    exact ⟨mem, goodSectors_pos.mpr unhealthy.1, unhealthy.2, rfl⟩
  · rintro ⟨mem, good, fewer, bad⟩
    refine ⟨(row.id, row.slab), mem, ?_⟩
    rw [if_pos (by simpa [List.isEmpty_eq_false] using And.intro (goodSectors_pos.mp good) fewer)]
    obtain ⟨id, slab, _⟩ := row
    dsimp only at bad
    subst bad
    rfl

theorem mem_unhealthyOrdered {row : UnhealthyRow} :
    row ∈ store.unhealthyOrdered set ↔ row ∈ store.unhealthyGroups set :=
  (List.perm_insertionSort _ _).mem_iff

end Query

/-! ## A slab with no good sector -/

/-- Object `a` is written with no contract in the store, so no contract holds the sector of its
one shard: the slab has no good sector, the worst health, yet `UnhealthySlabs` returns nothing. -/
theorem UnhealthySlabs_skips_unheld_slab :
    ∃ store, SQLStore.empty.UpdateObject byteCodec "a" oneShardObject usedSeven = .ok store ∧
      (∃ slab ∈ store.slabs.rows, store.goodSectors "autopilot" slab.1 = 0 ∧
        store.goodSectors "autopilot" slab.1 < slab.2.totalShards.toNat) ∧
      store.UnhealthySlabs byteCodec "autopilot" 1 = .ok [] :=
  ⟨_, rfl, ⟨_, List.mem_singleton_self _, by decide, by decide⟩, rfl⟩

/-! ## More unhealthy slabs than a batch -/

/-- A table of `n` rows with ids `1, ..., n`. -/
def Table.numbered {Row : Type} (n : Nat) (row : Nat → Row) : Table Row where
  rows := (List.range n).map fun i => (i + 1, row (i + 1))
  nextId := n + 1
  id_lt := by simp
  sorted := List.pairwise_map.mpr ((List.pairwise_lt_range n).imp Nat.succ_lt_succ)

/-- Of the numbered rows, a filter that keeps exactly the row with id `i` keeps that row. -/
theorem Table.numbered_filter {Row : Type} {n i : Nat} (row : Nat → Row) {keep : Nat × Row → Bool}
    (pos : 0 < i) (le : i ≤ n) (only : ∀ j, 0 < j → j ≤ n → keep (j, row j) = (j == i)) :
    (Table.numbered n row).rows.filter keep = [(i, row i)] := by
  have shifted : (List.range n).filter (keep ∘ fun j => (j + 1, row (j + 1))) =
      (List.range n).filter (· == i - 1) :=
    List.filter_congr fun j mem => by
      rw [Function.comp_apply, only (j + 1) j.succ_pos (List.mem_range.mp mem)]
      exact Bool.eq_iff_iff.mpr (by simp; omega)
  rw [Table.numbered, List.filter_map, shifted, List.filter_beq,
    List.count_eq_one_of_mem (List.nodup_range n) (List.mem_range.2 (by omega))]
  simp [Nat.sub_add_cancel pos]

/-- Sorting a sorted list with one more element that goes before all of it puts that element
first. -/
theorem insertionSort_append_singleton {α : Type} {r : α → α → Prop} [DecidableRel r] {x : α} :
    ∀ {l : List α}, l.Sorted r → (∀ a ∈ l, ¬ r a x) → (l ++ [x]).insertionSort r = x :: l
  | [], _, _ => rfl
  | a :: l, sorted, after => by
      have first := List.rel_of_sorted_cons sorted
      rw [List.cons_append, List.insertionSort,
        insertionSort_append_singleton sorted.of_cons fun b mem => after b (.tail _ mem),
        List.orderedInsert, if_neg (after a (.head _))]
      cases l with
      | nil => rfl
      | cons b l => rw [List.orderedInsert, if_pos (first b (.head _))]

/-- Slab `i` of `manySlabs`: three shards for slab `101`, two for the others. -/
def manySlab (i : Nat) : SlabRow := ⟨i, [UInt8.ofNat i], 1, if i = 101 then 3 else 2⟩

/-- 101 slabs with one shard each, all on the one sector, which contract `7` of set `autopilot`
holds. -/
def manySlabs : SQLStore :=
  { SQLStore.empty with
    contracts := Table.empty.insert ⟨⟨7⟩, 1, .zero, 0, .zero, .zero, .zero, .zero⟩
    sets := Table.empty.insert ⟨"autopilot"⟩
    setContracts := [(1, 1)]
    sectors := Table.empty.insert ⟨⟨1⟩, rootOnes.bytes⟩
    contractSectors := [(1, 1)]
    slabs := Table.numbered 101 manySlab
    shards := Table.numbered 101 fun i => ⟨i, 1⟩ }

theorem manySlabs_goodHosts {i : Nat} (pos : 0 < i) (le : i ≤ 101) :
    manySlabs.goodHosts "autopilot" i = [1] := by
  rw [SQLStore.goodHosts, show manySlabs.shards = Table.numbered 101 fun i => ⟨i, 1⟩ from rfl,
    Table.numbered_filter _ pos le fun j _ _ => Bool.and_true _]
  rfl

/-- The group of slab `i`: one good sector. -/
def manyGroup (i : Nat) : UnhealthyRow := ⟨i, manySlab i, (manySlab i).totalShards.toNat - 1⟩

theorem manySlabs_unhealthyGroups :
    manySlabs.unhealthyGroups "autopilot" = (List.range 101).map fun j => manyGroup (j + 1) := by
  rw [SQLStore.unhealthyGroups, show manySlabs.slabs = Table.numbered 101 manySlab from rfl,
    Table.numbered, List.filterMap_map, ← List.filterMap_eq_map]
  refine List.filterMap_congr fun j mem => ?_
  rw [Function.comp_apply, manySlabs_goodHosts j.succ_pos (List.mem_range.mp mem)]
  have single : [1].dedup = [1] := rfl
  by_cases last : j = 100 <;> simp [manySlab, manyGroup, last, single, UInt8.size]

/-- Slab `101` misses two shards, the others one: it comes first, then the others by id. -/
theorem manySlabs_unhealthyOrdered :
    manySlabs.unhealthyOrdered "autopilot" =
      manyGroup 101 :: (List.range 100).map fun j => manyGroup (j + 1) := by
  have sorted : ((List.range 100).map fun j => manyGroup (j + 1)).Sorted UnhealthyRow.Before :=
    List.pairwise_map.mpr <| (List.pairwise_lt_range 100).imp_of_mem fun mem mem' lt => by
      have := List.mem_range.mp mem; have := List.mem_range.mp mem'
      simp only [UnhealthyRow.Before, manyGroup, manySlab]; right; split_ifs <;> simp <;> omega
  rw [SQLStore.unhealthyOrdered, manySlabs_unhealthyGroups, List.range_succ, List.map_append]
  refine insertionSort_append_singleton sorted fun a mem => ?_
  obtain ⟨j, lt, rfl⟩ := List.mem_map.mp mem
  simp [UnhealthyRow.Before, manyGroup, manySlab, (List.mem_range.mp lt).ne, UInt8.size]

/-- Slab `i` as `convert` returns it. -/
def manySlabOf (i : Nat) : Slab UInt8 := ⟨UInt8.ofNat i, 1, [⟨⟨1⟩, rootOnes⟩]⟩

theorem manySlabs_convert {i : Nat} (pos : 0 < i) (le : i ≤ 101) :
    (manySlabs.loadSlab (i, manySlab i)).convert byteCodec = .ok (manySlabOf i) := by
  rw [SQLStore.loadSlab, show manySlabs.shards = Table.numbered 101 fun i => ⟨i, 1⟩ from rfl,
    Table.numbered_filter _ pos le fun j _ _ => rfl]
  rfl

/-- `UnhealthySlabs` on `manySlabs` returns the slabs of the rows its batches read. -/
theorem manySlabs_UnhealthySlabs {limit : Int} {ids : List Nat}
    (batches : manySlabs.unhealthyBatches "autopilot" limit = .ok (ids.map manyGroup))
    (bounds : ∀ i ∈ ids, 0 < i ∧ i ≤ 101) :
    manySlabs.UnhealthySlabs byteCodec "autopilot" limit = .ok (ids.map manySlabOf) :=
  bind_eq_ok.mpr ⟨_, batches, mapM_eq_ok <| List.forall₂_map_left_iff.mpr <|
    List.forall₂_map_right_iff.mpr <| List.forall₂_same.mpr fun i mem =>
      congrArg (Except.mapError Failure.toPanic) (manySlabs_convert (bounds i mem).1 (bounds i mem).2)⟩

/-- The query orders slab `101` first, then slabs `1` to `100`. With no limit, and with a limit of
the 101 unhealthy slabs, `UnhealthySlabs` returns slab `101` twice: the second batch reads the
rows with an id above `99`, the id of the first batch's last row, and slab `101` is one of them.
Under the limit the second batch is one row long, and slab `100` is never returned. -/
theorem UnhealthySlabs_repeats_slab :
    (manySlabs.unhealthyOrdered "autopilot").map UnhealthyRow.id =
        101 :: (List.range 100).map (· + 1) ∧
      manySlabs.UnhealthySlabs byteCodec "autopilot" (-1) =
        .ok ((101 :: (List.range 99).map (· + 1) ++ [101, 100]).map manySlabOf) ∧
      manySlabs.UnhealthySlabs byteCodec "autopilot" 101 =
        .ok ((101 :: (List.range 99).map (· + 1) ++ [101]).map manySlabOf) := by
  rw [manySlabs_unhealthyOrdered]
  refine ⟨rfl, manySlabs_UnhealthySlabs ?_ (by decide), manySlabs_UnhealthySlabs ?_ (by decide)⟩
  all_goals rw [SQLStore.unhealthyBatches, manySlabs_unhealthyOrdered]; rfl

end Renterd.Stores
