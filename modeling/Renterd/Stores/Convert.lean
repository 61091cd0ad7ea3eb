import Renterd.Stores.ReadBack
import Renterd.Stores.Health

/-!
# What `convert` reads

`dbSlab.convert` unmarshals the slab's key and turns each shard's root into a `types.Hash256`,
which panics on a root shorter than 32 bytes. The writes store only keys that `MarshalText` gave
and roots of `types.Hash256`s, so in every store they reach the conversion of a stored slab
succeeds, and `UnhealthySlabs` never reaches its panic on a conversion error.
-/

namespace Renterd.Stores

variable {Key : Type} (codec : KeyCodec Key)

/-- The slab and sector rows of a store are rows `convert` reads: every slab key is the text of
an encryption key, and every sector root is 32 bytes long. -/
structure Convertible (store : SQLStore) : Prop where
  keys : ∀ slab ∈ store.slabs.rows, ∃ key, codec.marshalText key = slab.2.key
  roots : ∀ sector ∈ store.sectors.rows, sector.2.root.length = 32

/-! ## The writes keep the rows convertible -/

section Writes

variable {codec} {store next tx : SQLStore} {used : ContractMap}

theorem Convertible.of_subset (inv : Convertible codec store)
    (slabs : ∀ slab ∈ next.slabs.rows, slab ∈ store.slabs.rows)
    (sectors : ∀ sector ∈ next.sectors.rows, sector ∈ store.sectors.rows) :
    Convertible codec next :=
  ⟨fun slab mem => inv.keys slab (slabs slab mem), fun sector mem => inv.roots sector (sectors sector mem)⟩

theorem Convertible.of_tables (inv : Convertible codec store) (slabs : next.slabs = store.slabs)
    (sectors : next.sectors = store.sectors) : Convertible codec next :=
  inv.of_subset (fun _ mem => slabs ▸ mem) (fun _ mem => sectors ▸ mem)

/-- An upsert gives a sector the shard's host, or inserts the shard's root. -/
theorem Convertible.upsertSector (inv : Convertible codec tx) (shard : Sector) :
    Convertible codec (upsertSector tx shard).1 := by
  refine ⟨fun slab mem => inv.keys slab (by rwa [upsertSector_slabs] at mem), fun sector mem => ?_⟩
  unfold Stores.upsertSector at mem
  split at mem
  · simp only [Table.update_rows, List.mem_map] at mem
    obtain ⟨row, rowMem, rfl⟩ := mem
    split_ifs
    exacts [inv.roots row rowMem, inv.roots row rowMem]
  · simp only [Table.insert_rows, List.mem_append, List.mem_singleton] at mem
    rcases mem with old | rfl
    · exact inv.roots sector old
    · exact shard.root.length_eq

theorem Convertible.foldl_addShard (slabId : Nat) (shards : List Sector)
    (inv : Convertible codec tx) : Convertible codec (shards.foldl (addShard used slabId) tx) :=
  foldl_invariant (fun tx shard inv =>
    have ⟨sectors, slabs, _⟩ := addShard_fields used slabId tx shard
    (inv.upsertSector shard).of_tables (slabs.trans (upsertSector_slabs tx shard).symm) sectors)
    inv

/-- A slice inserts its slab under the text of the slab's key. -/
theorem Convertible.addSlice {objectId : Nat} {ss : SlabSlice Key} (inv : Convertible codec tx)
    (h : addSlice codec used objectId tx ss = .ok next) : Convertible codec next := by
  obtain ⟨-, base, rfl, rfl⟩ := addSlice_ok codec h
  refine Convertible.foldl_addShard _ _ ⟨fun slab mem => ?_, inv.roots⟩
  simp only [Table.insert_rows, List.mem_append, List.mem_singleton] at mem
  rcases mem with old | rfl
  · exact inv.keys slab old
  · exact ⟨ss.slab.key, rfl⟩

theorem Convertible.deleteObjects (inv : Convertible codec store) (drop : Nat × ObjectRow → Bool) :
    Convertible codec (store.deleteObjects drop) :=
  inv.of_subset (fun _ mem => List.mem_of_mem_filter mem) fun _ mem => mem

theorem Convertible.UpdateObject {key : String} {o : Stores.Object Key}
    (inv : Convertible codec store) (h : store.UpdateObject codec key o used = .ok next) :
    Convertible codec next := by
  obtain ⟨-, -, -, slices⟩ := UpdateObject_ok codec h
  refine foldlM_invariant (fun _ _ _ _ inv added => inv.addSlice added) ?_ slices
  exact (inv.deleteObjects _).of_tables rfl rfl

theorem Convertible.RemoveObject {key : String} (inv : Convertible codec store)
    (h : store.RemoveObject key = .ok next) : Convertible codec next := by
  obtain ⟨-, rfl⟩ := removeObject_ok h
  exact inv.deleteObjects _

theorem Convertible.UpdateSlab {s : Slab Key} (inv : Convertible codec store)
    (h : store.UpdateSlab codec s used = .ok next) : Convertible codec next := by
  obtain ⟨snapshot, -, rfl⟩ := UpdateSlab_ok codec h
  exact foldl_invariant (fun tx shard inv =>
    have ⟨sectors, slabs, _⟩ := updateShard_fields snapshot used tx shard
    (inv.upsertSector shard).of_tables (slabs.trans (upsertSector_slabs tx shard).symm) sectors)
    inv

/-- Every store the writes reach has convertible rows. -/
theorem StoreReached.convertible (reached : StoreReached codec store) : Convertible codec store := by
  induction reached with
  | empty => exact ⟨nofun, nofun⟩
  | updateObject _ h inv => exact inv.UpdateObject h
  | removeObject _ h inv => exact inv.RemoveObject h
  | updateSlab _ h inv => exact inv.UpdateSlab h
  | @ledger before write _ ledger inv =>
      have same := write.apply_objectTables codec before ledger
      exact inv.of_tables same.slabs same.sectors

end Writes

/-! ## Conversion -/

section Conversion

variable {codec} {store : SQLStore}

/-- A 32-byte root converts. -/
theorem sectorRoot_of_length {root : List UInt8} (length : root.length = 32) :
    sectorRoot root = .ok ⟨root, length⟩ := by
  have own := Hash256.ofRoot?_bytes ⟨root, length⟩
  dsimp only at own
  rw [sectorRoot, own]

/-- `convert` reads every stored slab of a convertible store. -/
theorem Convertible.convert_loadSlab (inv : Convertible codec store) {slab : Nat × SlabRow}
    (mem : slab ∈ store.slabs.rows) : ∃ s, (store.loadSlab slab).convert codec = .ok s := by
  obtain ⟨key, marshal⟩ := inv.keys slab mem
  refine (mapM_ok_of_forall ?each).elim fun shards ⟨converted, _⟩ =>
    ⟨_, bind_eq_ok.mpr ⟨key, ?key, bind_eq_ok.mpr ⟨shards, converted, rfl⟩⟩⟩
  case key => rw [SQLStore.loadSlab, ← marshal, codec.unmarshalText_marshalText]; rfl
  case each =>
    intro sector mem
    obtain ⟨shard, -, rfl⟩ := List.mem_map.mp mem
    cases found : store.sectors.get? shard.2.sectorId with
    | none => exact ⟨_, rfl⟩
    | some sector =>
        have length : sector.root.length = 32 := inv.roots _ (store.sectors.mem_of_get? found)
        exact ⟨_, by dsimp only; rw [sectorRoot_of_length length]; rfl⟩

/-- `UnhealthySlabs` converts every row its batches read. -/
theorem Convertible.UnhealthySlabs_ok (inv : Convertible codec store) {set : String} {limit : Int}
    {rows : List UnhealthyRow} (batches : store.unhealthyBatches set limit = .ok rows) :
    ∃ slabs, store.UnhealthySlabs codec set limit = .ok slabs ∧ slabs.length = rows.length := by
  refine (mapM_ok_of_forall ?each).elim fun slabs ⟨converted, length⟩ =>
    ⟨slabs, bind_eq_ok.mpr ⟨rows, batches, converted⟩, length⟩
  intro row mem
  have stored := (mem_unhealthyGroups.mp (mem_unhealthyOrdered.mp
    (findInBatches_subset batches row mem))).1
  obtain ⟨s, ok⟩ := inv.convert_loadSlab stored
  exact ⟨s, by rw [ok]; rfl⟩

/-- In every store the writes reach, every slab key is the text of an encryption key and every
sector root is 32 bytes long. So `convert` reads every stored slab, and `UnhealthySlabs` converts
every row its batches read: its panic on a conversion error is never reached. -/
theorem StoreReached.slabs_convert (reached : StoreReached codec store) :
    Convertible codec store ∧
      (∀ slab ∈ store.slabs.rows, ∃ s, (store.loadSlab slab).convert codec = .ok s) ∧
      ∀ set limit rows, store.unhealthyBatches set limit = .ok rows →
        ∃ slabs, store.UnhealthySlabs codec set limit = .ok slabs ∧ slabs.length = rows.length :=
  have inv := reached.convertible
  ⟨inv, fun _ mem => inv.convert_loadSlab mem, fun _ _ _ batches => inv.UnhealthySlabs_ok batches⟩

theorem oneShardObject_slabs_convert :
    ∃ store, SQLStore.empty.UpdateObject byteCodec "a" oneShardObject usedSeven = .ok store ∧
      StoreReached byteCodec store ∧ Convertible byteCodec store ∧
      (∀ slab ∈ store.slabs.rows, ∃ s, (store.loadSlab slab).convert byteCodec = .ok s) ∧
      ∀ set limit rows, store.unhealthyBatches set limit = .ok rows →
        ∃ slabs, store.UnhealthySlabs byteCodec set limit = .ok slabs ∧ slabs.length = rows.length :=
  have ⟨store, h⟩ : ∃ store,
      SQLStore.empty.UpdateObject byteCodec "a" oneShardObject usedSeven = .ok store := ⟨_, rfl⟩
  have reached : StoreReached byteCodec store := .updateObject .empty h
  ⟨store, h, reached, StoreReached.slabs_convert reached⟩

end Conversion

/-! ## What `UnhealthySlabs` returns on any store -/

section Unhealthy

variable {codec} {store : SQLStore}

/-- The batches of `UnhealthySlabs` over positive slab ids: no failure, and no more rows than a
positive limit, in whatever order the query returns its groups. -/
theorem unhealthyBatches_within (pos : ∀ slab ∈ store.slabs.rows, 0 < slab.1) (set : String)
    (limit : Int) : ∃ rows, store.unhealthyBatches set limit = .ok rows ∧
      (0 < limit → rows.length ≤ limit.toNat) := by
  have ids : ∀ row ∈ store.unhealthyOrdered set, 0 < row.id := fun row mem =>
    pos _ (mem_unhealthyGroups.mp (mem_unhealthyOrdered.mp mem)).1
  have sized : 0 < (if 0 < limit.toNat ∧ limit.toNat < slabRetrievalBatchSize then limit.toNat
      else slabRetrievalBatchSize) ∧ (0 < limit.toNat → (if 0 < limit.toNat ∧
        limit.toNat < slabRetrievalBatchSize then limit.toNat else slabRetrievalBatchSize) ≤
          limit.toNat) := by
    unfold slabRetrievalBatchSize
    split_ifs <;> omega
  refine (findInBatches_within ids sized.1 fun limited =>
    .inl ⟨(Nat.zero_mul _).symm, by simpa using sized.2 limited⟩).elim fun rows ⟨ok, bound⟩ =>
      ⟨rows, ok, fun limited => by simpa using bound (by omega)⟩

/-- On a convertible store whose slab ids are positive, `UnhealthySlabs` succeeds for every set
and limit, returns no more slabs than a positive limit, and returns only stored slabs, converted,
that have a good sector and fewer good sectors than shards. -/
theorem Convertible.UnhealthySlabs_within (inv : Convertible codec store)
    (pos : ∀ slab ∈ store.slabs.rows, 0 < slab.1) (set : String) (limit : Int) :
    ∃ slabs, store.UnhealthySlabs codec set limit = .ok slabs ∧
      (0 < limit → slabs.length ≤ limit.toNat) ∧
      ∀ s ∈ slabs, ∃ slab ∈ store.slabs.rows, (store.loadSlab slab).convert codec = .ok s ∧
        0 < store.goodSectors set slab.1 ∧ store.goodSectors set slab.1 < slab.2.totalShards.toNat := by
  obtain ⟨rows, batches, bound⟩ := unhealthyBatches_within pos set limit
  obtain ⟨slabs, converted, length⟩ := inv.UnhealthySlabs_ok batches
  refine ⟨slabs, converted, fun limited => length ▸ bound limited, fun s mem => ?_⟩
  obtain ⟨rows', read, each⟩ := bind_eq_ok.mp converted
  cases batches.symm.trans read
  obtain ⟨row, mem, ok⟩ := mem_of_mapM_eq_ok each s mem
  obtain ⟨stored, good, bad, -⟩ :=
    mem_unhealthyGroups.mp (mem_unhealthyOrdered.mp (findInBatches_subset batches row mem))
  exact ⟨_, stored, mapError_eq_ok.mp ok, good, bad⟩

theorem oneShardObject_unhealthySlabs_within :
    ∃ store, SQLStore.empty.UpdateObject byteCodec "a" oneShardObject usedSeven = .ok store ∧
      Convertible byteCodec store ∧ (∀ slab ∈ store.slabs.rows, 0 < slab.1) ∧
      ∃ slabs, store.UnhealthySlabs byteCodec "autopilot" 1 = .ok slabs ∧
        (0 < (1 : Int) → slabs.length ≤ (1 : Int).toNat) ∧
        ∀ s ∈ slabs, ∃ slab ∈ store.slabs.rows, (store.loadSlab slab).convert byteCodec = .ok s ∧
          0 < store.goodSectors "autopilot" slab.1 ∧
          store.goodSectors "autopilot" slab.1 < slab.2.totalShards.toNat :=
  have ⟨store, h, pos⟩ : ∃ store,
      SQLStore.empty.UpdateObject byteCodec "a" oneShardObject usedSeven = .ok store ∧
        ∀ slab ∈ store.slabs.rows, 0 < slab.1 := ⟨_, rfl, by decide⟩
  have reached : StoreReached byteCodec store := .updateObject .empty h
  ⟨store, h, reached.convertible, pos, reached.convertible.UnhealthySlabs_within pos "autopilot" 1⟩

end Unhealthy

end Renterd.Stores
