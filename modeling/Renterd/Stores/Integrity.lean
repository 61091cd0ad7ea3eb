import Renterd.Stores.ShardCounts

/-!
# Referential integrity

Every id a row of the store holds names a row of the table it points into: a contract's host, a
set membership's set and contract, a slice's object, a slab's slice, a shard's slab and sector, and
a sector link's contract or host and sector. The deletes cascade (`deleteObjects`,
`deleteContracts`), and every insert takes its ids from rows it found or inserted, so each call of
the store, served on its own, keeps every reference; so does a run of calls one after another,
from any store whose references hold.

The runs of `Stores/Writes.lean` let a statement of `SetContractSet` or the transaction of
`UpdateSlab` use rows read before another call deleted them; here each call runs alone.
-/

namespace Renterd.Stores

namespace Table

variable {Row : Type} {table : Table Row}

theorem mem_ids_of_mem {row : Nat × Row} (mem : row ∈ table.rows) : row.1 ∈ table.ids :=
  List.mem_map_of_mem _ mem

theorem mem_ids_of_take? {found : Nat × Row → Bool} {id : Nat} {row : Row}
    (taken : table.take? found = some (id, row)) : id ∈ table.ids :=
  mem_ids_of_mem (List.mem_of_find?_eq_some taken)

theorem mem_ids_insert {row : Row} {id : Nat} :
    id ∈ (table.insert row).ids ↔ id ∈ table.ids ∨ id = table.nextId := by
  simp [ids]

theorem ids_update (change : Nat × Row → Row) : (table.update change).ids = table.ids := by
  simp [ids, Function.comp_def]

/-- A delete keeps every id whose row it does not drop. -/
theorem mem_ids_delete {drop : Nat × Row → Bool} {id : Nat} (mem : id ∈ table.ids)
    (kept : id ∉ (table.rows.filter drop).map Prod.fst) : id ∈ (table.delete drop).ids := by
  obtain ⟨row, stored, rfl⟩ := List.mem_map.mp mem
  refine mem_ids_of_mem (List.mem_filter.mpr ⟨stored, ?_⟩)
  cases dropped : drop row
  · rfl
  · exact absurd (List.mem_map_of_mem Prod.fst (List.mem_filter.mpr ⟨stored, dropped⟩)) kept

theorem forall_mem_insert {P : Nat × Row → Prop} {row : Row} :
    (∀ r ∈ (table.insert row).rows, P r) ↔ (∀ r ∈ table.rows, P r) ∧ P (table.nextId, row) := by
  simp [or_imp, forall_and]

end Table

theorem SQLStore.forall_mem_link {P : Nat × Nat → Prop} {pairs : List (Nat × Nat)}
    {pair : Nat × Nat} : (∀ p ∈ SQLStore.link pairs pair, P p) ↔ (∀ p ∈ pairs, P p) ∧ P pair := by
  simp [or_imp, forall_and]

/-- Every foreign key of the store names a stored row. -/
structure Integrity (store : SQLStore) : Prop where
  contractHosts : ∀ c ∈ store.contracts.rows, c.2.hostId ∈ store.hosts.ids
  setMembers : ∀ pair ∈ store.setContracts, pair.1 ∈ store.sets.ids ∧ pair.2 ∈ store.contracts.ids
  sliceObjects : ∀ slice ∈ store.slices.rows, slice.2.objectId ∈ store.objects.ids
  slabSlices : ∀ slab ∈ store.slabs.rows, slab.2.sliceId ∈ store.slices.ids
  shardSlabs : ∀ shard ∈ store.shards.rows, shard.2.slabId ∈ store.slabs.ids
  shardSectors : ∀ shard ∈ store.shards.rows, shard.2.sectorId ∈ store.sectors.ids
  contractSectors : ∀ pair ∈ store.contractSectors,
    pair.1 ∈ store.contracts.ids ∧ pair.2 ∈ store.sectors.ids
  hostSectors : ∀ pair ∈ store.hostSectors, pair.1 ∈ store.hosts.ids ∧ pair.2 ∈ store.sectors.ids

theorem Integrity.empty : Integrity SQLStore.empty :=
  ⟨nofun, nofun, nofun, nofun, nofun, nofun, nofun, nofun⟩

/-! ## What each statement keeps -/

namespace Integrity

variable {store tx next : SQLStore}

/-- `deleteObjects` drops with each object its slices, their slabs and the slabs' shards. -/
theorem deleteObjects (inv : Integrity store) (drop : Nat × ObjectRow → Bool) :
    Integrity (store.deleteObjects drop) := by
  refine { inv with
    sliceObjects := fun slice mem => ?_, slabSlices := fun slab mem => ?_
    shardSlabs := fun shard mem => ?_, shardSectors := fun shard mem => ?_ } <;>
  simp only [SQLStore.deleteObjects, Table.delete_rows, List.mem_filter, Bool.not_eq_true',
    decide_eq_false_iff_not] at mem ⊢
  · exact Table.mem_ids_delete (inv.sliceObjects slice mem.1) mem.2
  · exact Table.mem_ids_delete (inv.slabSlices slab mem.1) mem.2
  · exact Table.mem_ids_delete (inv.shardSlabs shard mem.1) mem.2
  · exact inv.shardSectors shard mem.1

/-- `deleteContracts` drops with each contract its sector links and set memberships. -/
theorem deleteContracts (inv : Integrity store) (drop : Nat × ContractRow → Bool) :
    Integrity (store.deleteContracts drop) := by
  refine { inv with
    contractHosts := fun c mem => inv.contractHosts c (List.mem_of_mem_filter mem)
    setMembers := fun pair mem => ?_, contractSectors := fun pair mem => ?_ } <;>
  simp only [SQLStore.deleteContracts, List.mem_filter, decide_eq_true_eq] at mem
  · exact (inv.setMembers pair mem.1).imp_right fun stored => Table.mem_ids_delete stored mem.2
  · exact (inv.contractSectors pair mem.1).imp_left fun stored => Table.mem_ids_delete stored mem.2

theorem of_sectors (inv : Integrity tx) {sectors : Table SectorRow}
    (grows : tx.sectors.ids ⊆ sectors.ids) : Integrity { tx with sectors := sectors } :=
  { inv with
    shardSectors := fun shard mem => grows (inv.shardSectors shard mem)
    contractSectors := fun pair mem => (inv.contractSectors pair mem).imp_right (grows ·)
    hostSectors := fun pair mem => (inv.hostSectors pair mem).imp_right (grows ·) }

theorem insertObject (inv : Integrity tx) (row : ObjectRow) :
    Integrity { tx with objects := tx.objects.insert row } :=
  { inv with
    sliceObjects := fun slice mem => Table.mem_ids_insert.mpr (.inl (inv.sliceObjects slice mem)) }

theorem insertShard (inv : Integrity tx) {slabId sectorId : Nat} (slab : slabId ∈ tx.slabs.ids)
    (sector : sectorId ∈ tx.sectors.ids) :
    Integrity { tx with shards := tx.shards.insert ⟨slabId, sectorId⟩ } :=
  { inv with
    shardSlabs := Table.forall_mem_insert.mpr ⟨inv.shardSlabs, slab⟩
    shardSectors := Table.forall_mem_insert.mpr ⟨inv.shardSectors, sector⟩ }

theorem linkContract (inv : Integrity tx) {contractId sectorId : Nat}
    (contract : contractId ∈ tx.contracts.ids) (sector : sectorId ∈ tx.sectors.ids) :
    Integrity { tx with contractSectors := SQLStore.link tx.contractSectors (contractId, sectorId) } :=
  { inv with contractSectors := SQLStore.forall_mem_link.mpr ⟨inv.contractSectors, contract, sector⟩ }

theorem linkHost (inv : Integrity tx) {hostId sectorId : Nat} (host : hostId ∈ tx.hosts.ids)
    (sector : sectorId ∈ tx.sectors.ids) :
    Integrity { tx with hostSectors := SQLStore.link tx.hostSectors (hostId, sectorId) } :=
  { inv with hostSectors := SQLStore.forall_mem_link.mpr ⟨inv.hostSectors, host, sector⟩ }

/-- No row points into the archive. -/
theorem insertArchived (inv : Integrity tx) (row : ArchivedRow) :
    Integrity { tx with archived := tx.archived.insert row } :=
  { inv with }

theorem insertContract (inv : Integrity tx) {row : ContractRow} (host : row.hostId ∈ tx.hosts.ids) :
    Integrity { tx with contracts := tx.contracts.insert row } :=
  { inv with
    contractHosts := Table.forall_mem_insert.mpr ⟨inv.contractHosts, host⟩
    setMembers := fun pair mem => (inv.setMembers pair mem).imp_right
      fun stored => Table.mem_ids_insert.mpr (.inl stored)
    contractSectors := fun pair mem => (inv.contractSectors pair mem).imp_left
      fun stored => Table.mem_ids_insert.mpr (.inl stored) }

/-- An update of the contracts that keeps each one's host. -/
theorem updateContracts (inv : Integrity tx) (change : Nat × ContractRow → ContractRow)
    (host : ∀ c ∈ tx.contracts.rows, (change c).hostId = c.2.hostId) :
    Integrity { tx with contracts := tx.contracts.update change } := by
  have ids := tx.contracts.ids_update change
  refine { inv with
    contractHosts := fun c mem => ?_
    setMembers := fun pair mem => ids ▸ inv.setMembers pair mem
    contractSectors := fun pair mem => ids ▸ inv.contractSectors pair mem }
  obtain ⟨c, stored, rfl⟩ := List.mem_map.mp mem
  exact (host c stored).symm ▸ inv.contractHosts c stored

end Integrity

/-! ## Sectors and shards -/

theorem upsertSector_eq (tx : SQLStore) (shard : Sector) :
    (upsertSector tx shard).1 = { tx with sectors := (upsertSector tx shard).1.sectors } := by
  unfold upsertSector; split <;> rfl

/-- An upsert keeps every sector id, and the id it returns is a stored sector's. -/
theorem upsertSector_ids (tx : SQLStore) (shard : Sector) :
    tx.sectors.ids ⊆ (upsertSector tx shard).1.sectors.ids ∧
      (upsertSector tx shard).2 ∈ (upsertSector tx shard).1.sectors.ids := by
  unfold upsertSector
  split
  · rename_i found
    dsimp only
    rw [Table.ids_update]
    exact ⟨List.Subset.refl _, Table.mem_ids_of_take? found⟩
  · exact ⟨fun _ mem => Table.mem_ids_insert.mpr (.inl mem), Table.mem_ids_insert.mpr (.inr rfl)⟩

namespace Integrity

variable {tx : SQLStore}

theorem upsertSector (inv : Integrity tx) (shard : Sector) : Integrity (upsertSector tx shard).1 := by
  rw [upsertSector_eq]
  exact inv.of_sectors (upsertSector_ids tx shard).1

/-- A shard of a new slab: its sector, its shard row, and links to the contract and host it
found. -/
theorem addShard (inv : Integrity tx) (used : ContractMap) {slabId : Nat}
    (slab : slabId ∈ tx.slabs.ids) (shard : Sector) : Integrity (addShard used slabId tx shard) := by
  have sector := (upsertSector_ids tx shard).2
  have row := (inv.upsertSector shard).insertShard (by rwa [upsertSector_slabs]) sector
  simp only [Stores.addShard]
  rcases contractFound : (Stores.upsertSector tx shard).1.contracts.take?
      (fun row => whereField .zero ((used.get? shard.host).getD .zero) row.2.fcid) with _ | ⟨c, _⟩ <;>
    simp only [contractFound]
  · split
    next _ _ hostFound => exact row.linkHost (Table.mem_ids_of_take? hostFound) sector
    next => exact row
  · have linked := row.linkContract (Table.mem_ids_of_take? contractFound) sector
    split
    next _ _ hostFound => exact linked.linkHost (Table.mem_ids_of_take? hostFound) sector
    next => exact linked

end Integrity

/-! ## Each call -/

namespace Integrity

variable {Key : Type} {codec : KeyCodec Key} {store tx next : SQLStore} {used : ContractMap}

/-- A slab slice of a new object: its slice under the object, its slab under the slice, and the
slab's shards. -/
theorem addSlice (inv : Integrity tx) {objectId : Nat} {ss : SlabSlice Key}
    (object : objectId ∈ tx.objects.ids) (h : Stores.addSlice codec used objectId tx ss = .ok next) :
    Integrity next ∧ next.objects = tx.objects := by
  obtain ⟨-, base, rows, rfl⟩ := addSlice_ok codec h
  have added : Integrity base := rows ▸ { inv with
    sliceObjects := Table.forall_mem_insert.mpr ⟨inv.sliceObjects, object⟩
    slabSlices := Table.forall_mem_insert.mpr ⟨fun slab mem => Table.mem_ids_insert.mpr
      (.inl (inv.slabSlices slab mem)), Table.mem_ids_insert.mpr (.inr rfl)⟩
    shardSlabs := fun shard mem => Table.mem_ids_insert.mpr (.inl (inv.shardSlabs shard mem)) }
  refine foldl_invariant (P := fun s : SQLStore => Integrity s ∧ tx.slabs.nextId ∈ s.slabs.ids ∧
    s.objects = tx.objects) (fun s shard ⟨inv, slab, objects⟩ => ?_)
    ⟨added, rows ▸ Table.mem_ids_insert.mpr (.inr rfl), rows ▸ rfl⟩ |>.imp_right And.right
  obtain ⟨-, slabs, -, -, objects'⟩ := addShard_fields used tx.slabs.nextId s shard
  exact ⟨inv.addShard used slab shard, slabs ▸ slab, objects'.trans objects⟩

theorem UpdateObject {key : String} {o : Stores.Object Key} (inv : Integrity store)
    (h : store.UpdateObject codec key o used = .ok next) : Integrity next := by
  obtain ⟨-, -, -, written⟩ := UpdateObject_ok codec h
  have removed := inv.deleteObjects fun row => row.2.objectId == key
  refine (foldlM_invariant (P := fun s : SQLStore => Integrity s ∧
    (store.deleteObjects fun row => row.2.objectId == key).objects.nextId ∈ s.objects.ids)
    (fun s ss next _ ⟨inv, object⟩ added => ?_)
    ⟨removed.insertObject _, Table.mem_ids_insert.mpr (.inr rfl)⟩ written).1
  obtain ⟨inv, objects⟩ := inv.addSlice object added
  exact ⟨inv, objects ▸ object⟩

theorem RemoveObject {key : String} (inv : Integrity store) (h : store.RemoveObject key = .ok next) :
    Integrity next := by
  obtain ⟨-, rfl⟩ := removeObject_ok h
  exact inv.deleteObjects _

/-- The reads of `UpdateSlab` take stored hosts and contracts. -/
theorem readSlab_rows {s : Slab Key} {snapshot : SlabSnapshot}
    (h : readSlab codec store s used = .ok snapshot) :
    (∀ host ∈ snapshot.hosts, host ∈ store.hosts.rows) ∧
      ∀ c ∈ snapshot.contracts, c ∈ store.contracts.rows := by
  simp only [readSlab] at h
  split at h
  · cases h
  · cases h
    exact ⟨fun _ mem => List.mem_of_mem_filter mem, fun _ mem => List.mem_of_mem_filter mem⟩

/-- A shard of an updated slab, from a snapshot the store's tables still hold. -/
theorem updateShard (inv : Integrity tx) {snapshot : SlabSnapshot}
    (slab : snapshot.slabId ∈ tx.slabs.ids) (hosts : ∀ host ∈ snapshot.hosts, host.1 ∈ tx.hosts.ids)
    (contracts : ∀ c ∈ snapshot.contracts, c.1 ∈ tx.contracts.ids) (shard : Sector) :
    Integrity (Stores.updateShard snapshot used tx shard) := by
  have sector := (upsertSector_ids tx shard).2
  have upserted := inv.upsertSector shard
  have row := upserted.insertShard (by rwa [upsertSector_slabs]) sector
  have host : ∀ h ∈ snapshot.hosts, h.1 ∈ (Stores.upsertSector tx shard).1.hosts.ids := by
    rw [upsertSector_eq]; exact hosts
  have contract : ∀ c ∈ snapshot.contracts, c.1 ∈ (Stores.upsertSector tx shard).1.contracts.ids := by
    rw [upsertSector_eq]; exact contracts
  simp only [Stores.updateShard]
  split
  next _ _ hostFound =>
    have hostMem := host _ (List.mem_of_find?_eq_some hostFound)
    split
    next _ _ contractFound =>
      have contractMem := contract _ (List.mem_of_find?_eq_some contractFound)
      split
      · exact (upserted.linkContract contractMem sector).linkHost hostMem sector
      · exact (row.linkContract contractMem sector).linkHost hostMem sector
    next =>
      split
      · exact upserted.linkHost hostMem sector
      · exact row.linkHost hostMem sector
  next =>
    split
    next _ _ contractFound =>
      have contractMem := contract _ (List.mem_of_find?_eq_some contractFound)
      split
      · exact upserted.linkContract contractMem sector
      · exact row.linkContract contractMem sector
    next =>
      split
      · exact upserted
      · exact row

theorem updateShard_tables (snapshot : SlabSnapshot) (tx : SQLStore) (shard : Sector) :
    (Stores.updateShard snapshot used tx shard).hosts = tx.hosts ∧
      (Stores.updateShard snapshot used tx shard).contracts = tx.contracts := by
  simp only [Stores.updateShard]
  split <;> split <;> split <;> exact ⟨by rw [upsertSector_eq], by rw [upsertSector_eq]⟩

/-- `UpdateSlab` with nothing between its reads and its transaction. -/
theorem UpdateSlab {s : Slab Key} (inv : Integrity store)
    (h : store.UpdateSlab codec s used = .ok next) : Integrity next := by
  obtain ⟨snapshot, read, rfl⟩ := UpdateSlab_ok codec h
  obtain ⟨⟨_, slab⟩, -⟩ := readSlab_ok codec read
  obtain ⟨hosts, contracts⟩ := readSlab_rows read
  refine (foldl_invariant (P := fun tx : SQLStore => Integrity tx ∧ tx.slabs = store.slabs ∧
    tx.hosts = store.hosts ∧ tx.contracts = store.contracts)
    (fun tx shard ⟨inv, slabs, hosts', contracts'⟩ => ?_) ⟨inv, rfl, rfl, rfl⟩).1
  obtain ⟨hostsEq, contractsEq⟩ := updateShard_tables snapshot tx shard
  refine ⟨inv.updateShard (slabs ▸ Table.mem_ids_of_mem slab)
    (fun h mem => hosts' ▸ Table.mem_ids_of_mem (hosts h mem))
    (fun c mem => contracts' ▸ Table.mem_ids_of_mem (contracts c mem)) shard,
    (updateShard_fields snapshot used tx shard).2.1.trans slabs, hostsEq.trans hosts',
    contractsEq.trans contracts'⟩

theorem addContract {c : ContractRevision} {totalCost : Currency} {startHeight : Nat}
    {renewedFrom : FileContractID} {added : ContractRow} (inv : Integrity tx)
    (h : Stores.addContract tx c totalCost startHeight renewedFrom = .ok (next, added)) :
    Integrity next := by
  obtain ⟨-, -, rfl⟩ := addContract_ok h
  obtain ⟨_, _, stored, rfl⟩ := addContract_row h
  exact inv.insertContract (Table.mem_ids_of_mem stored)

/-- A renewal archives the old contract, deletes it with its links, and adds the new one. -/
theorem AddRenewedContract {c : ContractRevision} {totalCost : Currency} {startHeight : Nat}
    {renewedFrom : FileContractID} {added : ContractRow} (inv : Integrity store)
    (h : store.AddRenewedContract c totalCost startHeight renewedFrom = .ok (next, added)) :
    Integrity next := by
  obtain ⟨_, _, _, _, _, -, archived, removed, added⟩ := AddRenewedContract_ok h
  obtain ⟨-, rfl⟩ := archiveContract_ok archived
  obtain ⟨-, rfl⟩ := removeContract_ok removed
  exact ((inv.insertArchived _).deleteContracts _).addContract added

theorem RemoveContract {id : FileContractID} (inv : Integrity store)
    (h : store.RemoveContract id = .ok next) : Integrity next := by
  obtain ⟨-, rfl⟩ := removeContract_ok h
  exact inv.deleteContracts _

/-- One record's transaction adds to a contract's spending and keeps its host. -/
theorem recordSpending {record : ContractSpendingRecord} (inv : Integrity tx)
    (h : Stores.recordSpending tx record = .ok next) : Integrity next := by
  unfold Stores.recordSpending at h
  split at h
  · cases h; exact inv
  · split at h
    · cases h
      exact inv.updateContracts _ fun c _ => by dsimp only; split <;> rfl
    · cases h

theorem RecordContractSpending (inv : Integrity store) (records : List ContractSpendingRecord) :
    Integrity (store.RecordContractSpending records).1 := by
  induction records generalizing store with
  | nil => exact inv
  | cons record rest ih =>
      rw [SQLStore.RecordContractSpending]
      split
      · exact inv
      · exact ih (inv.recordSpending ‹_›)

theorem firstOrCreateSet (inv : Integrity store) (name : String) :
    Integrity (Stores.firstOrCreateSet store name).1 ∧
      (Stores.firstOrCreateSet store name).2 ∈ (Stores.firstOrCreateSet store name).1.sets.ids ∧
      (Stores.firstOrCreateSet store name).1.contracts = store.contracts := by
  unfold Stores.firstOrCreateSet
  split
  · rename_i found
    exact ⟨inv, Table.mem_ids_of_take? found, rfl⟩
  · refine ⟨{ inv with setMembers := fun pair mem => ?_ }, Table.mem_ids_insert.mpr (.inr rfl), rfl⟩
    exact (inv.setMembers pair mem).imp_left fun stored => Table.mem_ids_insert.mpr (.inl stored)

/-- `Replace` joins the set to contracts it found among the stored ones. -/
theorem replaceSetContracts (inv : Integrity store) {setId : Nat} {found : List (Nat × ContractRow)}
    (set : setId ∈ store.sets.ids) (stored : ∀ c ∈ found, c.1 ∈ store.contracts.ids) :
    Integrity (pruneSetContracts (appendSetContracts store setId found) setId found) :=
  { inv with
    setMembers := fun pair mem => by
      rcases (mem_appendSetContracts store setId found pair).mp (List.mem_of_mem_filter mem) with
        old | ⟨same, new⟩
      · exact inv.setMembers pair old
      · obtain ⟨c, member, named⟩ := List.mem_map.mp new
        exact ⟨same ▸ set, named ▸ stored c member⟩ }

theorem SetContractSet (inv : Integrity store) (name : String) (ids : List FileContractID) :
    Integrity (store.SetContractSet name ids) := by
  obtain ⟨created, set, contracts⟩ := inv.firstOrCreateSet name
  exact created.replaceSetContracts set fun c mem =>
    contracts ▸ Table.mem_ids_of_mem (List.mem_of_mem_filter mem)

end Integrity

/-! ## Runs of calls -/

/-- A call of the store, served on its own. -/
inductive Call (Key : Type) where
  | addContract (c : ContractRevision) (totalCost : Currency) (startHeight : Nat)
  | addRenewedContract (c : ContractRevision) (totalCost : Currency) (startHeight : Nat)
      (renewedFrom : FileContractID)
  | removeContract (id : FileContractID)
  | recordContractSpending (records : List ContractSpendingRecord)
  | setContractSet (name : String) (ids : List FileContractID)
  | updateObject (key : String) (o : Object Key) (used : ContractMap)
  | removeObject (key : String)
  | updateSlab (s : Slab Key) (used : ContractMap)

variable {Key : Type} (codec : KeyCodec Key)

/-- The store after a call: what its transaction committed, or the store before it. -/
def Call.apply : Call Key → SQLStore → SQLStore
  | .addContract c totalCost startHeight, store =>
      committed store ((store.AddContract c totalCost startHeight).map Prod.fst)
  | .addRenewedContract c totalCost startHeight renewedFrom, store =>
      committed store ((store.AddRenewedContract c totalCost startHeight renewedFrom).map Prod.fst)
  | .removeContract id, store => committed store (store.RemoveContract id)
  | .recordContractSpending records, store => (store.RecordContractSpending records).1
  | .setContractSet name ids, store => store.SetContractSet name ids
  | .updateObject key o used, store => committed store (store.UpdateObject codec key o used)
  | .removeObject key, store => committed store (store.RemoveObject key)
  | .updateSlab s used, store => committed store (store.UpdateSlab codec s used)

def Call.run (calls : List (Call Key)) (store : SQLStore) : SQLStore :=
  calls.foldl (fun store call => call.apply codec store) store

variable {codec} {store : SQLStore}

theorem Integrity.apply (inv : Integrity store) (call : Call Key) :
    Integrity (call.apply codec store) := by
  cases call with
  | addContract =>
      exact committed_induction (fun _ h => by
        obtain ⟨⟨_, _⟩, ok, rfl⟩ := map_eq_ok.mp h
        exact inv.addContract ok) inv
  | addRenewedContract =>
      exact committed_induction (fun _ h => by
        obtain ⟨⟨_, _⟩, ok, rfl⟩ := map_eq_ok.mp h
        exact inv.AddRenewedContract ok) inv
  | removeContract => exact committed_induction (fun _ => inv.RemoveContract) inv
  | recordContractSpending records => exact inv.RecordContractSpending records
  | setContractSet name ids => exact inv.SetContractSet name ids
  | updateObject => exact committed_induction (fun _ => inv.UpdateObject) inv
  | removeObject => exact committed_induction (fun _ => inv.RemoveObject) inv
  | updateSlab => exact committed_induction (fun _ => inv.UpdateSlab) inv

/-- Calls served one after another, from any store whose foreign keys hold, leave no reference
dangling: every contract has its host, every set membership its set and contract, every slice its
object, slab its slice, shard its slab and sector, and every sector link its contract or host and
its sector. -/
theorem Call.run_integrity (calls : List (Call Key)) (inv : Integrity store) :
    Integrity (Call.run codec calls store) :=
  foldl_invariant (fun _ call inv => inv.apply call) inv

/-- A contract on host `1`, an object stored on it, a set of it, and its removal. -/
theorem oneHost_calls_integrity :
    Integrity oneHost ∧ Integrity (Call.run byteCodec [.addContract contractSeven .zero 0,
      .updateObject "a" oneShardObject usedSeven, .setContractSet "autopilot" [⟨7⟩],
      .removeContract ⟨7⟩] oneHost) :=
  have inv : Integrity oneHost := ⟨nofun, nofun, nofun, nofun, nofun, nofun, nofun, nofun⟩
  ⟨inv, Call.run_integrity _ inv⟩

end Renterd.Stores
