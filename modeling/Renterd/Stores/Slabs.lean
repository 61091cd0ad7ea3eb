import Renterd.Stores.Objects

/-!
# Slab updates

`UpdateSlab` reads the hosts and contracts of `usedContracts` and the stored slab with its
shards, each by its own statement, and then runs one transaction over what it read. Between the
reads and the transaction other calls may change the store, so the transaction is a function of
an arbitrary snapshot.
-/

namespace Renterd.Stores

/-- What `UpdateSlab` read before its transaction. -/
structure SlabSnapshot where
  hosts : List (Nat × HostRow)
  contracts : List (Nat × ContractRow)
  slabId : Nat
  shards : List (Nat × ShardRow)

/-- Go's `string(key)` for the ASCII text of a marshalled key. -/
def bytesText (bytes : List UInt8) : String := ⟨bytes.map fun byte => Char.ofNat byte.toNat⟩

def slabNotFound (key : List UInt8) : String :=
  "slab with key '" ++ bytesText key ++ "' not found: " ++ errRecordNotFound

def ContractMap.hostKeys (used : ContractMap) : List PublicKey := used.entries.map Prod.fst

def ContractMap.fcids (used : ContractMap) : List FileContractID := used.entries.map Prod.snd

variable {Key : Type} (codec : KeyCodec Key)

/-- The statements before the transaction: `public_key IN`, `fcid IN`, and the slab by a struct
condition on its key with `Preload("Shards.DBSector")`. -/
def readSlab (store : SQLStore) (s : Slab Key) (used : ContractMap) : Except String SlabSnapshot :=
  let key := codec.marshalText s.key
  match store.slabs.take? fun row => whereField [] key row.2.key with
  | none => .error (slabNotFound key)
  | some (slabId, _) =>
      .ok ⟨store.hosts.rows.filter fun row => row.2.publicKey ∈ used.hostKeys,
        store.contracts.rows.filter fun row => row.2.fcid ∈ used.fcids, slabId,
        store.shards.rows.filter fun row => row.2.slabId == slabId⟩

/-- One iteration of the transaction's loop: the sector, a shard row unless the snapshot's
shards name the sector, and the appends to the sector's contracts and hosts. -/
def updateShard (snapshot : SlabSnapshot) (used : ContractMap) (tx : SQLStore) (shard : Sector) :
    SQLStore :=
  let (tx, sectorId) := upsertSector tx shard
  let tx :=
    if snapshot.shards.any fun row => row.2.sectorId == sectorId then tx
    else { tx with shards := tx.shards.insert ⟨snapshot.slabId, sectorId⟩ }
  let fcid := (used.get? shard.host).getD .zero
  let tx := match snapshot.contracts.find? fun row => row.2.fcid == fcid with
    | some (contractId, _) =>
        { tx with contractSectors := SQLStore.link tx.contractSectors (contractId, sectorId) }
    | none => tx
  match snapshot.hosts.find? fun row => row.2.publicKey == shard.host with
  | some (hostId, _) => { tx with hostSectors := SQLStore.link tx.hostSectors (hostId, sectorId) }
  | none => tx

/-- The transaction of `UpdateSlab`. -/
def updateSlabTx (snapshot : SlabSnapshot) (used : ContractMap) (tx : SQLStore)
    (shards : List Sector) : SQLStore :=
  shards.foldl (updateShard snapshot used) tx

/-- `UpdateSlab` with nothing between its reads and its transaction. -/
def SQLStore.UpdateSlab (store : SQLStore) (s : Slab Key) (used : ContractMap) :
    Except String SQLStore := do
  let snapshot ← readSlab codec store s used
  return updateSlabTx snapshot used store s.shards

section Specs

variable {store next : SQLStore} {s : Slab Key} {used : ContractMap} {snapshot : SlabSnapshot}

/-- The reads found a stored slab and took its shard rows. -/
theorem readSlab_ok (h : readSlab codec store s used = .ok snapshot) :
    (∃ row, (snapshot.slabId, row) ∈ store.slabs.rows) ∧
      snapshot.shards = store.shards.rows.filter fun row => row.2.slabId == snapshot.slabId := by
  simp only [readSlab] at h
  split at h
  · cases h
  · rename_i slabId row found
    cases h
    exact ⟨⟨row, List.mem_of_find?_eq_some found⟩, rfl⟩

theorem UpdateSlab_ok (h : store.UpdateSlab codec s used = .ok next) :
    ∃ snapshot, readSlab codec store s used = .ok snapshot ∧
      next = updateSlabTx snapshot used store s.shards := by
  simp only [SQLStore.UpdateSlab, bind_eq_ok] at h
  obtain ⟨snapshot, read, h⟩ := h
  exact ⟨snapshot, read, (Except.ok.inj h).symm⟩

end Specs

end Renterd.Stores
