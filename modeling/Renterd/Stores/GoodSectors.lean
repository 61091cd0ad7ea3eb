import Mathlib.Data.List.Perm.Subperm
import Renterd.Stores.Health
import Renterd.Stores.Integrity
import Renterd.Stores.Cascade

/-!
# What lowers a slab's good sectors

`goodSectors` of a slab, the count `UnhealthySlabs` compares with `TotalShards`, joins the slab's
shard rows, the sector rows, the contracts with their hosts, the sector links of the contracts,
and the contract sets with their members. The object writes only add shard rows, sectors and
links, and keep the shard rows of every slab they keep; a new contract and a spending record keep
every contract with its id and host. So only a write that deletes contracts (`RemoveContract`,
`AddRenewedContract`) or replaces a set's members (a statement of `SetContractSet`) can lower the
good sectors of a slab, in every interleaving of the writes: until one runs, a slab that has as many
good sectors as shards is not one `UnhealthySlabs` reads.
-/

namespace Renterd.Stores

/-- `next` keeps every row `goodSectors` joins for the slab `slabId` in `store`: the slab's shard
rows, the sector ids, each contract with its id and host, the contracts' sector links, the contract
sets and their members. -/
structure GoodGrows (store next : SQLStore) (slabId : Nat) : Prop where
  shards : ∀ row ∈ store.shards.rows, row.2.slabId = slabId → row ∈ next.shards.rows
  sectors : store.sectors.ids ⊆ next.sectors.ids
  contracts : ∀ c ∈ store.contracts.rows,
    ∃ c' ∈ next.contracts.rows, c'.1 = c.1 ∧ c'.2.hostId = c.2.hostId
  links : store.contractSectors ⊆ next.contractSectors
  sets : store.sets.rows ⊆ next.sets.rows
  members : store.setContracts ⊆ next.setContracts

namespace GoodGrows

variable {store mid next : SQLStore} {slabId : Nat}

theorem refl (store : SQLStore) (slabId : Nat) : GoodGrows store store slabId :=
  ⟨fun _ mem _ => mem, fun _ => id, fun c mem => ⟨c, mem, rfl, rfl⟩, fun _ => id, fun _ => id,
    fun _ => id⟩

theorem trans (first : GoodGrows store mid slabId) (second : GoodGrows mid next slabId) :
    GoodGrows store next slabId := by
  refine ⟨fun row mem own => second.shards row (first.shards row mem own) own,
    fun _ mem => second.sectors (first.sectors mem), fun c mem => ?_,
    fun _ mem => second.links (first.links mem), fun _ mem => second.sets (first.sets mem),
    fun _ mem => second.members (first.members mem)⟩
  obtain ⟨c', mem', id, host⟩ := first.contracts c mem
  obtain ⟨c'', mem'', id', host'⟩ := second.contracts c' mem'
  exact ⟨c'', mem'', id'.trans id, host'.trans host⟩

/-- The hosts `goodSectors` counts only grow, so their number does not drop. -/
theorem goodSectors_le (grows : GoodGrows store next slabId) (set : String) :
    store.goodSectors set slabId ≤ next.goodSectors set slabId := by
  have hosts : store.goodHosts set slabId ⊆ next.goodHosts set slabId := fun host mem => by
    simp only [SQLStore.goodHosts, List.mem_flatMap, List.mem_filter, List.mem_map, Bool.and_eq_true,
      beq_iff_eq, List.any_eq_true, List.elem_iff] at mem ⊢
    obtain ⟨shard, ⟨stored, own, sector, sectorMem, sectorId⟩, c, ⟨cMem, linked, cs, csMem, named,
      member⟩, rfl⟩ := mem
    obtain ⟨c', cMem', id, host⟩ := grows.contracts c cMem
    obtain ⟨sector', sectorMem', sectorId'⟩ :=
      List.mem_map.mp (grows.sectors (List.mem_map_of_mem Prod.fst sectorMem))
    exact ⟨shard, ⟨grows.shards shard stored own, own, sector', sectorMem', sectorId'.trans sectorId⟩,
      c', ⟨cMem', id ▸ grows.links linked, cs, grows.sets csMem, named, id ▸ grows.members member⟩,
      host⟩
  rw [goodSectors_eq, goodSectors_eq]
  exact ((List.nodup_dedup _).subperm fun host mem =>
    List.mem_dedup.mpr (hosts (List.mem_dedup.mp mem))).length_le

/-! ### The statements of the object writes -/

theorem upsertSector (tx : SQLStore) (shard : Sector) (slabId : Nat) :
    GoodGrows tx (upsertSector tx shard).1 slabId := by
  rw [upsertSector_eq]
  exact ⟨fun _ mem _ => mem, (upsertSector_ids tx shard).1, fun c mem => ⟨c, mem, rfl, rfl⟩,
    fun _ => id, fun _ => id, fun _ => id⟩

theorem insertShard (tx : SQLStore) (row : ShardRow) (slabId : Nat) :
    GoodGrows tx { tx with shards := tx.shards.insert row } slabId :=
  ⟨fun _ mem _ => List.mem_append_left _ mem, fun _ => id, fun c mem => ⟨c, mem, rfl, rfl⟩,
    fun _ => id, fun _ => id, fun _ => id⟩

theorem linkContract (tx : SQLStore) (pair : Nat × Nat) (slabId : Nat) :
    GoodGrows tx { tx with contractSectors := SQLStore.link tx.contractSectors pair } slabId :=
  ⟨fun _ mem _ => mem, fun _ => id, fun c mem => ⟨c, mem, rfl, rfl⟩,
    SQLStore.subset_link _ _, fun _ => id, fun _ => id⟩

theorem linkHost (tx : SQLStore) (pair : Nat × Nat) (slabId : Nat) :
    GoodGrows tx { tx with hostSectors := SQLStore.link tx.hostSectors pair } slabId :=
  ⟨fun _ mem _ => mem, fun _ => id, fun c mem => ⟨c, mem, rfl, rfl⟩, fun _ => id, fun _ => id,
    fun _ => id⟩

/-- A write that leaves every table `goodSectors` joins: one of the object, slice and slab
tables. -/
theorem of_tables (shards : next.shards = store.shards) (sectors : next.sectors = store.sectors)
    (contracts : next.contracts = store.contracts)
    (links : next.contractSectors = store.contractSectors) (sets : next.sets = store.sets)
    (members : next.setContracts = store.setContracts) : GoodGrows store next slabId :=
  ⟨fun _ mem _ => shards ▸ mem, sectors ▸ fun _ => id, fun c mem => ⟨c, contracts ▸ mem, rfl, rfl⟩,
    links ▸ fun _ => id, sets ▸ fun _ => id, members ▸ fun _ => id⟩

theorem addShard (used : ContractMap) (shardSlab : Nat) (tx : SQLStore) (shard : Sector)
    (slabId : Nat) : GoodGrows tx (Stores.addShard used shardSlab tx shard) slabId := by
  have row := (upsertSector tx shard slabId).trans
    (insertShard _ ⟨shardSlab, (Stores.upsertSector tx shard).2⟩ slabId)
  simp only [Stores.addShard]
  split
  · split
    · exact (row.trans (linkContract _ _ _)).trans (linkHost _ _ _)
    · exact row.trans (linkHost _ _ _)
  · split
    · exact row.trans (linkContract _ _ _)
    · exact row

theorem updateShard (snapshot : SlabSnapshot) (used : ContractMap) (tx : SQLStore) (shard : Sector)
    (slabId : Nat) : GoodGrows tx (Stores.updateShard snapshot used tx shard) slabId := by
  have sector := upsertSector tx shard slabId
  have row := sector.trans
    (insertShard _ ⟨snapshot.slabId, (Stores.upsertSector tx shard).2⟩ slabId)
  simp only [Stores.updateShard]
  split
  · split
    · split
      · exact (sector.trans (linkContract _ _ _)).trans (linkHost _ _ _)
      · exact (row.trans (linkContract _ _ _)).trans (linkHost _ _ _)
    · split
      · exact sector.trans (linkHost _ _ _)
      · exact row.trans (linkHost _ _ _)
  · split
    · split
      · exact sector.trans (linkContract _ _ _)
      · exact row.trans (linkContract _ _ _)
    · split
      · exact sector
      · exact row

section Writes

variable {Key : Type} (codec : KeyCodec Key)

theorem addSlice {used : ContractMap} {objectId : Nat} {ss : SlabSlice Key}
    (h : Stores.addSlice codec used objectId store ss = .ok next) (slabId : Nat) :
    GoodGrows store next slabId := by
  obtain ⟨-, base, rfl, rfl⟩ := addSlice_ok codec h
  exact foldl_invariant (P := fun s => GoodGrows store s slabId)
    (fun s shard grows => grows.trans (addShard _ _ s shard slabId)) (of_tables rfl rfl rfl rfl rfl rfl)

/-- The cascade of a delete keeps the rows `goodSectors` joins for a slab it keeps. -/
theorem deleteObjects {drop : Nat × ObjectRow → Bool} {slab : Nat × SlabRow}
    (before : slab ∈ store.slabs.rows) (kept : slab ∈ (store.deleteObjects drop).slabs.rows) :
    GoodGrows store (store.deleteObjects drop) slab.1 := by
  have live := (List.mem_filter.mp kept).2
  simp only [Bool.not_eq_true', decide_eq_false_iff_not] at live
  have gone := store.slabs.id_not_mem_filter (p := fun slab => decide (slab.2.sliceId ∈
    (store.slices.rows.filter fun slice =>
      slice.2.objectId ∈ (store.objects.rows.filter drop).map Prod.fst).map Prod.fst))
    fun other otherMem same => by
      rw [store.slabs.eq_of_id_eq otherMem before same]
      exact decide_eq_false live
  refine ⟨fun row mem own => List.mem_filter.mpr ⟨mem, ?_⟩, fun _ => id,
    fun c mem => ⟨c, mem, rfl, rfl⟩, fun _ => id, fun _ => id, fun _ => id⟩
  simp only [Bool.not_eq_true', decide_eq_false_iff_not, own]
  exact gone

theorem UpdateObject {key : String} {o : Stores.Object Key} {used : ContractMap}
    (h : store.UpdateObject codec key o used = .ok next) {slab : Nat × SlabRow}
    (before : slab ∈ store.slabs.rows) (after : slab ∈ next.slabs.rows) :
    GoodGrows store next slab.1 := by
  obtain ⟨-, -, -, written⟩ := UpdateObject_ok codec h
  obtain ⟨-, _, slabs', -, -, slabsEq, -, -, newSlabs, -⟩ :=
    foldlM_addSlice_rows codec o.slabs _ next written
  rw [slabsEq, List.mem_append] at after
  have kept : slab ∈ (store.deleteObjects fun row => row.2.objectId == key).slabs.rows :=
    after.resolve_right fun added =>
      Nat.not_le_of_lt (store.slabs.id_lt slab before) (newSlabs slab added).1
  refine foldlM_invariant (P := fun s => GoodGrows store s slab.1)
    (fun _ _ _ _ grows added => grows.trans (addSlice codec added slab.1)) ?_ written
  exact (deleteObjects before kept).trans (of_tables rfl rfl rfl rfl rfl rfl)

theorem updateSlabTx (snapshot : SlabSnapshot) (used : ContractMap) (shards : List Sector)
    (slabId : Nat) : GoodGrows store (Stores.updateSlabTx snapshot used store shards) slabId :=
  foldl_invariant (P := fun s => GoodGrows store s slabId)
    (fun s shard grows => grows.trans (updateShard snapshot used s shard slabId)) (refl _ _)

end Writes

/-! ### The writes of the contracts that delete none -/

theorem addContract {c : ContractRevision} {totalCost : Currency} {startHeight : Nat}
    {renewedFrom : FileContractID} {added : ContractRow}
    (h : Stores.addContract store c totalCost startHeight renewedFrom = .ok (next, added))
    (slabId : Nat) : GoodGrows store next slabId := by
  obtain ⟨-, -, rfl⟩ := addContract_ok h
  exact ⟨fun _ mem _ => mem, fun _ => id, fun c mem => ⟨c, List.mem_append_left _ mem, rfl, rfl⟩,
    fun _ => id, fun _ => id, fun _ => id⟩

/-- A spending record rewrites the spending of one contract, and keeps its id and host. -/
theorem recordSpending {record : ContractSpendingRecord}
    (h : Stores.recordSpending store record = .ok next) (slabId : Nat) :
    GoodGrows store next slabId := by
  unfold Stores.recordSpending at h
  split at h
  · cases h
    exact refl _ _
  · split at h
    · cases h
      refine ⟨fun _ mem _ => mem, fun _ => id, fun c mem => ⟨_, List.mem_map_of_mem _ mem, rfl, ?_⟩,
        fun _ => id, fun _ => id, fun _ => id⟩
      dsimp only
      split <;> rfl
    · cases h

end GoodGrows

/-- The writes that can lower a slab's good sectors: those that delete contracts, and the
statements of `SetContractSet`, which replace a set's members. -/
def Write.lowersHealth {Key : Type} : Write Key → Bool
  | .addRenewedContract .. | .removeContract _ | .setContractSet .. => true
  | _ => false

section Runs

variable {Key : Type} {codec : KeyCodec Key} {store : SQLStore}

/-- Every other write keeps the rows `goodSectors` joins for a slab it keeps. -/
theorem Write.apply_goodGrows (write : Write Key) (keeps : write.lowersHealth = false)
    {slab : Nat × SlabRow} (before : slab ∈ store.slabs.rows)
    (after : slab ∈ (write.apply codec store).slabs.rows) :
    GoodGrows store (write.apply codec store) slab.1 := by
  cases write with
  | addContract =>
      refine committed_induction (P := fun next => GoodGrows store next slab.1) (fun _ h => ?_)
        (.refl _ _)
      obtain ⟨⟨_, _⟩, ok, rfl⟩ := map_eq_ok.mp h
      exact .addContract ok _
  | recordSpending =>
      exact committed_induction (P := fun next => GoodGrows store next slab.1)
        (fun _ h => .recordSpending h _) (.refl _ _)
  | updateObject =>
      exact committed_induction (P := fun next => slab ∈ next.slabs.rows → GoodGrows store next slab.1)
        (fun _ h => GoodGrows.UpdateObject codec h before) (fun _ => .refl _ _) after
  | removeObject =>
      refine committed_induction (P := fun next => slab ∈ next.slabs.rows → GoodGrows store next slab.1)
        (fun _ h => ?_) (fun _ => .refl _ _) after
      obtain ⟨-, rfl⟩ := removeObject_ok h
      exact GoodGrows.deleteObjects before
  | updateSlab snapshot used shards => exact .updateSlabTx snapshot used shards _
  | addRenewedContract | removeContract | setContractSet => cases keeps

theorem Write.run_goodGrows : ∀ (writes : List (Write Key)) (store : SQLStore),
    (∀ write ∈ writes, write.lowersHealth = false) → ∀ {slab : Nat × SlabRow},
      (∀ n ≤ writes.length, slab ∈ (Write.run codec (writes.take n) store).slabs.rows) →
      GoodGrows store (Write.run codec writes store) slab.1
  | [], store, _, _, _ => .refl store _
  | write :: writes, _, keeps, _, stays =>
      (write.apply_goodGrows (keeps write (.head _)) (stays 0 (Nat.zero_le _))
        (stays 1 (Nat.succ_le_succ (Nat.zero_le _)))).trans
      (Write.run_goodGrows writes _ (fun w mem => keeps w (.tail _ mem))
        fun n le => stays (n + 1) (Nat.succ_le_succ le))

/-- Along every run of the store's writes, in any interleaving, none of which deletes a contract or
replaces a contract set's members, a slab that stays stored never loses good sectors; so a slab
with as many good sectors as shards stays out of the groups `UnhealthySlabs` reads. -/
theorem Write.run_goodSectors (writes : List (Write Key))
    (keeps : ∀ write ∈ writes, write.lowersHealth = false) {slab : Nat × SlabRow}
    (stays : ∀ n ≤ writes.length, slab ∈ (Write.run codec (writes.take n) store).slabs.rows)
    (set : String) :
    store.goodSectors set slab.1 ≤ (Write.run codec writes store).goodSectors set slab.1 ∧
      (slab.2.totalShards.toNat ≤ store.goodSectors set slab.1 →
        ∀ row ∈ (Write.run codec writes store).unhealthyGroups set, row.id ≠ slab.1) := by
  have grows := (Write.run_goodGrows writes store keeps stays).goodSectors_le set
  refine ⟨grows, fun healthy row mem same => ?_⟩
  obtain ⟨stored, -, fewer, -⟩ := mem_unhealthyGroups.mp mem
  have last := stays writes.length (le_refl _)
  rw [List.take_length] at last
  obtain rfl := (Write.run codec writes store).slabs.eq_of_id_eq stored last same
  dsimp only at healthy grows
  omega

end Runs

/-- Object `a` stored on contract `7` of set `autopilot`, then a removal of the missing object `b`
and contract `8` added: the slab of `a` keeps its one good sector and stays out of the groups. -/
theorem storedOnSeven_goodSectors :
    ∃ store, storedOnSeven = .ok store ∧
      store.goodSectors "autopilot" 1 ≤ (Write.run byteCodec
        [.removeObject "b", .addContract contractEight .zero 0] store).goodSectors "autopilot" 1 ∧
      ((1 : UInt8).toNat ≤ store.goodSectors "autopilot" 1 →
        ∀ row ∈ (Write.run byteCodec [.removeObject "b", .addContract contractEight .zero 0]
          store).unhealthyGroups "autopilot", row.id ≠ 1) :=
  ⟨_, rfl, @Write.run_goodSectors UInt8 byteCodec _
    [.removeObject "b", .addContract contractEight .zero 0] (by decide) (1, ⟨1, [9], 1, 1⟩)
    (by decide) "autopilot"⟩

end Renterd.Stores
