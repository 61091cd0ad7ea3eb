import Renterd.Stores.Slabs
import Renterd.Stores.ContractSets

/-!
# Runs of writes

Every write the store serves, one atomic unit each: a call that is one transaction or one
statement, one statement of `SetContractSet`, one record's transaction of
`RecordContractSpending`, and the transaction of an `UpdateSlab` over whatever its reads
returned, however stale. A write that fails leaves the store as it was. Sector links only grow,
except that deleting a contract drops its own by cascade.
-/

namespace Renterd.Stores

/-- One atomic write. -/
inductive Write (Key : Type) where
  | addContract (c : ContractRevision) (totalCost : Currency) (startHeight : Nat)
  | addRenewedContract (c : ContractRevision) (totalCost : Currency) (startHeight : Nat)
      (renewedFrom : FileContractID)
  | removeContract (id : FileContractID)
  | recordSpending (record : ContractSpendingRecord)
  | setContractSet (name : String) (ids : List FileContractID) (pc : SetContractSetPc)
  | updateObject (key : String) (o : Object Key) (used : ContractMap)
  | removeObject (key : String)
  | updateSlab (snapshot : SlabSnapshot) (used : ContractMap) (shards : List Sector)

/-- The store after a transaction: what it committed, or the store before it. -/
def committed (store : SQLStore) : Except String SQLStore → SQLStore
  | .ok next => next
  | .error _ => store

/-- What holds of the store before a transaction and of every store it commits holds after it. -/
theorem committed_induction {P : SQLStore → Prop} {store : SQLStore}
    {result : Except String SQLStore} (ok : ∀ next, result = .ok next → P next) (kept : P store) :
    P (committed store result) := by
  cases result with
  | ok next => exact ok next rfl
  | error => exact kept

variable {Key : Type} (codec : KeyCodec Key)

def Write.apply : Write Key → SQLStore → SQLStore
  | .addContract c totalCost startHeight, store =>
      committed store ((store.AddContract c totalCost startHeight).map Prod.fst)
  | .addRenewedContract c totalCost startHeight renewedFrom, store =>
      committed store ((store.AddRenewedContract c totalCost startHeight renewedFrom).map Prod.fst)
  | .removeContract id, store => committed store (store.RemoveContract id)
  | .recordSpending record, store => committed store (Stores.recordSpending store record)
  | .setContractSet name ids pc, store => (pc.step name ids store).2
  | .updateObject key o used, store => committed store (store.UpdateObject codec key o used)
  | .removeObject key, store => committed store (store.RemoveObject key)
  | .updateSlab snapshot used shards, store => updateSlabTx snapshot used store shards

/-- The writes that delete contracts. -/
def Write.deletesContracts : Write Key → Bool
  | .addRenewedContract .. | .removeContract _ => true
  | _ => false

def Write.run (writes : List (Write Key)) (store : SQLStore) : SQLStore :=
  writes.foldl (fun store write => write.apply codec store) store

/-- A whole `UpdateSlab` is its transaction over what it read. -/
theorem UpdateSlab_write {store next : SQLStore} {s : Slab Key} {used : ContractMap}
    (h : store.UpdateSlab codec s used = .ok next) :
    ∃ snapshot, next = (Write.updateSlab snapshot used s.shards).apply codec store :=
  let ⟨snapshot, _, h⟩ := UpdateSlab_ok codec h
  ⟨snapshot, h⟩

/-! ## Links that stay -/

/-- `next` has every sector link of `store`. -/
structure GrowsLinks (store next : SQLStore) : Prop where
  hostSectors : store.hostSectors ⊆ next.hostSectors
  contractSectors : store.contractSectors ⊆ next.contractSectors

/-- `next` has every host link of `store`, and every contract link whose contract it still
has. -/
structure KeepsLinks (store next : SQLStore) : Prop where
  hostSectors : store.hostSectors ⊆ next.hostSectors
  contractSectors : ∀ pair ∈ store.contractSectors,
    (∃ row ∈ next.contracts.rows, row.1 = pair.1) → pair ∈ next.contractSectors

namespace GrowsLinks

variable {store mid next : SQLStore}

theorem refl (store : SQLStore) : GrowsLinks store store := ⟨fun _ => id, fun _ => id⟩

theorem trans (first : GrowsLinks store mid) (second : GrowsLinks mid next) :
    GrowsLinks store next :=
  ⟨first.hostSectors.trans second.hostSectors, first.contractSectors.trans second.contractSectors⟩

theorem of_eq (hosts : next.hostSectors = store.hostSectors)
    (contracts : next.contractSectors = store.contractSectors) : GrowsLinks store next :=
  ⟨hosts ▸ fun _ => id, contracts ▸ fun _ => id⟩

theorem keeps (grows : GrowsLinks store next) : KeepsLinks store next :=
  ⟨grows.hostSectors, fun _ mem _ => grows.contractSectors mem⟩

theorem foldl {α : Type} {f : SQLStore → α → SQLStore} (step : ∀ tx x, GrowsLinks tx (f tx x)) :
    ∀ (xs : List α) (tx : SQLStore), GrowsLinks tx (xs.foldl f tx)
  | [], tx => refl tx
  | x :: xs, tx => (step tx x).trans (foldl step xs _)

theorem foldlM {α : Type} {f : SQLStore → α → Except String SQLStore}
    (step : ∀ tx x next, f tx x = .ok next → GrowsLinks tx next) :
    ∀ (xs : List α) (tx next : SQLStore), xs.foldlM f tx = .ok next → GrowsLinks tx next
  | [], tx, next, h => by cases h; exact refl tx
  | x :: xs, tx, next, h => by
      obtain ⟨mid, first, rest⟩ := bind_eq_ok.mp h
      exact (step tx x mid first).trans (foldlM step xs mid next rest)

theorem committed {result : Except String SQLStore}
    (ok : ∀ next, result = .ok next → GrowsLinks store next) :
    GrowsLinks store (Stores.committed store result) :=
  committed_induction ok (refl store)

end GrowsLinks

theorem KeepsLinks.committed {store : SQLStore} {result : Except String SQLStore}
    (ok : ∀ next, result = .ok next → KeepsLinks store next) :
    KeepsLinks store (committed store result) :=
  committed_induction ok (GrowsLinks.refl store).keeps

/-! ## Each write -/

section Steps

variable {store next : SQLStore}

@[simp] theorem upsertSector_contractSectors (tx : SQLStore) (shard : Sector) :
    (upsertSector tx shard).1.contractSectors = tx.contractSectors := by
  unfold upsertSector; split <;> rfl

@[simp] theorem upsertSector_hostSectors (tx : SQLStore) (shard : Sector) :
    (upsertSector tx shard).1.hostSectors = tx.hostSectors := by
  unfold upsertSector; split <;> rfl

theorem addShard_grows (used : ContractMap) (slabId : Nat) (tx : SQLStore) (shard : Sector) :
    GrowsLinks tx (addShard used slabId tx shard) := by
  simp only [addShard]
  split <;> split <;>
    exact ⟨by simp [SQLStore.subset_link], by simp [SQLStore.subset_link]⟩

theorem updateShard_grows (snapshot : SlabSnapshot) (used : ContractMap) (tx : SQLStore)
    (shard : Sector) : GrowsLinks tx (updateShard snapshot used tx shard) := by
  simp only [updateShard]
  split <;> split <;> split <;>
    exact ⟨by simp [SQLStore.subset_link], by simp [SQLStore.subset_link]⟩

theorem UpdateObject_grows {key : String} {o : Object Key} {used : ContractMap}
    (h : store.UpdateObject codec key o used = .ok next) : GrowsLinks store next := by
  obtain ⟨-, -, -, slices⟩ := UpdateObject_ok codec h
  have written := GrowsLinks.foldlM (fun tx ss next added => ?_) _ _ _ slices
  · exact (GrowsLinks.of_eq (by rfl) (by rfl)).trans written
  obtain ⟨-, base, rfl, rfl⟩ := addSlice_ok codec added
  exact (GrowsLinks.of_eq (by rfl) (by rfl)).trans (GrowsLinks.foldl (addShard_grows used _) _ _)

theorem recordSpending_links {record : ContractSpendingRecord}
    (h : recordSpending store record = .ok next) : GrowsLinks store next := by
  obtain rfl | ⟨_, rfl⟩ := recordSpending_ok h
  · exact .refl _
  · exact .of_eq rfl rfl

theorem step_links (name : String) (ids : List FileContractID) (pc : SetContractSetPc) :
    GrowsLinks store (pc.step name ids store).2 := by
  cases pc with
  | create found =>
      simp only [SetContractSetPc.step, firstOrCreateSet]
      split <;> exact .of_eq rfl rfl
  | _ => exact .of_eq rfl rfl

theorem AddContract_links {c : ContractRevision} {totalCost : Currency} {startHeight : Nat}
    {added : ContractRow} (h : store.AddContract c totalCost startHeight = .ok (next, added)) :
    GrowsLinks store next := by
  obtain ⟨-, -, rfl⟩ := addContract_ok h
  exact .of_eq rfl rfl

/-- Deleting contracts keeps the links of every contract row that is left, and of any row added
after with a new id. -/
theorem KeepsLinks.deleteContracts {drop : Nat × ContractRow → Bool}
    (links : next.contractSectors = (store.deleteContracts drop).contractSectors)
    (hosts : next.hostSectors = store.hostSectors)
    (rows : ∀ row ∈ next.contracts.rows,
      row ∈ (store.deleteContracts drop).contracts.rows ∨ store.contracts.nextId ≤ row.1) :
    KeepsLinks store next := by
  refine ⟨hosts ▸ fun _ => id, fun pair mem ⟨row, present, same⟩ => ?_⟩
  rw [links]
  refine SQLStore.mem_deleteContracts_contractSectors mem fun old oldMem oldSame => ?_
  rcases rows row present with kept | fresh
  · simp only [SQLStore.deleteContracts, Table.delete_rows, List.mem_filter,
      Bool.not_eq_true'] at kept
    rw [store.contracts.eq_of_id_eq oldMem kept.1 (oldSame.trans same.symm)]
    exact kept.2
  · exact absurd (store.contracts.id_lt old oldMem) (by omega)

theorem RemoveContract_keeps {id : FileContractID} (h : store.RemoveContract id = .ok next) :
    KeepsLinks store next := by
  obtain ⟨-, rfl⟩ := removeContract_ok h
  exact .deleteContracts rfl rfl fun row mem => .inl mem

theorem AddRenewedContract_keeps {c : ContractRevision} {totalCost : Currency}
    {startHeight : Nat} {renewedFrom : FileContractID} {added : ContractRow}
    (h : store.AddRenewedContract c totalCost startHeight renewedFrom = .ok (next, added)) :
    KeepsLinks store next := by
  obtain ⟨_, _, _, archived, removed, -, archive, remove, add⟩ := AddRenewedContract_ok h
  obtain ⟨-, rfl⟩ := removeContract_ok remove
  obtain ⟨-, rfl⟩ := archiveContract_ok archive
  obtain ⟨-, -, rfl⟩ := addContract_ok add
  refine .deleteContracts rfl rfl fun row mem => ?_
  simp only [Table.insert_rows, List.mem_append, List.mem_singleton] at mem
  rcases mem with kept | rfl
  · exact .inl kept
  · exact .inr (le_refl _)

end Steps

/-- Every write keeps the host links, and the links of every contract it leaves; one that
deletes no contract keeps every link. -/
theorem Write.apply_links (write : Write Key) (store : SQLStore) :
    KeepsLinks store (write.apply codec store) ∧
      (write.deletesContracts = false → GrowsLinks store (write.apply codec store)) := by
  suffices grows : write.deletesContracts = false → GrowsLinks store (write.apply codec store) by
    refine ⟨?_, grows⟩
    cases write with
    | addRenewedContract =>
        exact .committed fun next h => by
          obtain ⟨⟨next, added⟩, renewed, rfl⟩ := map_eq_ok.mp h
          exact AddRenewedContract_keeps renewed
    | removeContract => exact .committed fun next h => RemoveContract_keeps h
    | _ => exact (grows rfl).keeps
  intro keeps
  cases write with
  | addRenewedContract => cases keeps
  | removeContract => cases keeps
  | addContract =>
      exact .committed fun next h => by
        obtain ⟨⟨next, added⟩, ok, rfl⟩ := map_eq_ok.mp h
        exact AddContract_links ok
  | recordSpending => exact .committed fun next h => recordSpending_links h
  | setContractSet => exact step_links ..
  | updateObject => exact .committed fun next h => UpdateObject_grows codec h
  | removeObject =>
      exact .committed fun next h => by
        obtain ⟨-, rfl⟩ := removeObject_ok h
        exact .of_eq rfl rfl
  | updateSlab => exact GrowsLinks.foldl (updateShard_grows _ _) _ _

/-- Over every run of writes, with the transactions of concurrent `UpdateSlab` calls interleaved
anyhow: no host link is removed, a contract link stays while its contract is in every state of
the run, and without contract deletions no link is removed. -/
theorem run_keeps_sector_links (writes : List (Write Key)) (store : SQLStore) :
    store.hostSectors ⊆ (Write.run codec writes store).hostSectors ∧
      (∀ pair ∈ store.contractSectors,
        (∀ n ≤ writes.length, ∃ row ∈ (Write.run codec (writes.take n) store).contracts.rows,
          row.1 = pair.1) →
        pair ∈ (Write.run codec writes store).contractSectors) ∧
      ((∀ write ∈ writes, write.deletesContracts = false) →
        store.contractSectors ⊆ (Write.run codec writes store).contractSectors) := by
  induction writes generalizing store with
  | nil => exact ⟨fun _ => id, fun pair mem _ => mem, fun _ _ => id⟩
  | cons write writes ih =>
      obtain ⟨keeps, grows⟩ := write.apply_links codec store
      obtain ⟨hosts, contracts, all⟩ := ih (write.apply codec store)
      refine ⟨keeps.hostSectors.trans hosts, fun pair mem present => ?_, fun none => ?_⟩
      · refine contracts pair (keeps.contractSectors pair mem ?_) fun n le => ?_
        · simpa [Write.run] using present 1 (by simp)
        · simpa [Write.run] using present (n + 1) (by simpa using le)
      · exact (grows (none write (.head _))).contractSectors.trans
          (all fun other mem => none other (.tail _ mem))

end Renterd.Stores
