import Renterd.Stores.Contracts

/-!
# Objects

`UpdateObject`, `RemoveObject` and `Object` of `SQLStore`, with `dbSlab.convert` and
`dbObject.convert`. The `object` package is not part of the source: an object, a slab slice,
a slab and a sector are the records these functions read, and an encryption key is any type
whose `MarshalText` is undone by `UnmarshalText`. A preload reads rows in id order; a
preloaded struct field takes the last row that matches.
-/

namespace Renterd.Stores

/-- `object.EncryptionKey` through its text form. -/
structure KeyCodec (Key : Type) where
  marshalText : Key → List UInt8
  unmarshalText : List UInt8 → Except String Key
  unmarshalText_marshalText : ∀ key, unmarshalText (marshalText key) = .ok key

/-- `object.Sector`. -/
structure Sector where
  host : PublicKey
  root : Hash256
  deriving DecidableEq

/-- `object.Slab`. -/
structure Slab (Key : Type) where
  key : Key
  minShards : UInt8
  shards : List Sector
  deriving DecidableEq

/-- `object.SlabSlice`. -/
structure SlabSlice (Key : Type) where
  slab : Slab Key
  offset : UInt32
  length : UInt32
  deriving DecidableEq

/-- `object.Object`. -/
structure Object (Key : Type) where
  key : Key
  slabs : List (SlabSlice Key)
  deriving DecidableEq

def Hash256.zero : Hash256 := ⟨List.replicate 32 0, rfl⟩

/-- `map[types.PublicKey]types.FileContractID`: each host at most once. -/
structure ContractMap where
  entries : List (PublicKey × FileContractID)
  nodup : (entries.map Prod.fst).Nodup

/-- The comma-ok lookup `usedContracts[host]`. -/
def ContractMap.get? (used : ContractMap) (host : PublicKey) : Option FileContractID :=
  (used.entries.find? fun entry => entry.1 == host).map Prod.snd

/-- How a call ends when it does not return its value: with an error, or with a panic. -/
inductive Failure where
  | error (msg : String)
  | panic (msg : String)
  deriving DecidableEq, Repr

def ErrObjectNotFound : String := "object not found in database"

def missingContract (host : PublicKey) : String :=
  "missing contract for host " ++ host.string

variable {Key : Type} (codec : KeyCodec Key)

/-! ## Writing -/

/-- The sanity check of `UpdateObject`: the first shard whose host has no contract fails it. -/
def checkUsedContracts (o : Object Key) (used : ContractMap) : Except String Unit :=
  match (o.slabs.flatMap fun ss => ss.slab.shards).find? fun shard =>
      (used.get? shard.host).isNone with
  | some shard => .error (missingContract shard.host)
  | none => .ok ()

/-- `Where(dbSector{Root: root}).Assign(dbSector{LatestHost: host}).FirstOrCreate`: the
sector with this root gets `host` as its latest host, or is inserted; with its id. -/
def upsertSector (tx : SQLStore) (shard : Sector) : SQLStore × Nat :=
  match tx.sectors.take? fun row => row.2.root == shard.root.bytes with
  | some (id, _) =>
      ({ tx with
          sectors := tx.sectors.update fun row =>
            if row.1 == id then { row.2 with latestHost := shard.host } else row.2 }, id)
  | none =>
      ({ tx with sectors := tx.sectors.insert ⟨shard.host, shard.root.bytes⟩ }, tx.sectors.nextId)

/-- One shard of a new slab: its sector, its shard row, and the links of the sector to the
shard's contract and host, each found by a struct condition. -/
def addShard (used : ContractMap) (slabId : Nat) (tx : SQLStore) (shard : Sector) : SQLStore :=
  let (tx, sectorId) := upsertSector tx shard
  let tx := { tx with shards := tx.shards.insert ⟨slabId, sectorId⟩ }
  let fcid := (used.get? shard.host).getD .zero
  let tx := match tx.contracts.take? fun row => whereField .zero fcid row.2.fcid with
    | some (contractId, _) =>
        { tx with contractSectors := SQLStore.link tx.contractSectors (contractId, sectorId) }
    | none => tx
  match tx.hosts.take? fun row => whereField .zero shard.host row.2.publicKey with
  | some (hostId, _) => { tx with hostSectors := SQLStore.link tx.hostSectors (hostId, sectorId) }
  | none => tx

/-- One slab slice of the new object: its slice row, its slab row (the key is unique), and the
slab's shards. `TotalShards` is `uint8(len(ss.Shards))`. -/
def addSlice (used : ContractMap) (objectId : Nat) (tx : SQLStore) (ss : SlabSlice Key) :
    Except String SQLStore :=
  let sliceId := tx.slices.nextId
  let tx := { tx with slices := tx.slices.insert ⟨objectId, ss.offset, ss.length⟩ }
  let slabKey := codec.marshalText ss.slab.key
  if tx.slabs.rows.any fun row => row.2.key == slabKey then .error (errUnique "slabs.key")
  else
    let slabId := tx.slabs.nextId
    let tx := { tx with
      slabs := tx.slabs.insert
        ⟨sliceId, slabKey, ss.slab.minShards, UInt8.ofNat ss.slab.shards.length⟩ }
    .ok (ss.slab.shards.foldl (addShard used slabId) tx)

/-- `removeObject`: delete the object by a struct condition; slices, slabs and shards cascade. -/
def removeObject (tx : SQLStore) (key : String) : Except String SQLStore :=
  if key = "" then .error errMissingWhereClause
  else .ok (tx.deleteObjects fun row => row.2.objectId == key)

namespace SQLStore

/-- `UpdateObject`: the sanity check, then one transaction that removes the object and writes it
anew. -/
def UpdateObject (store : SQLStore) (key : String) (o : Object Key) (used : ContractMap) :
    Except String SQLStore := do
  checkUsedContracts o used
  let tx ← removeObject store key
  if tx.objects.rows.any fun row => row.2.objectId == key then
    throw (errUnique "objects.object_id")
  let objectId := tx.objects.nextId
  let tx := { tx with objects := tx.objects.insert ⟨codec.marshalText o.key, key⟩ }
  o.slabs.foldlM (addSlice codec used objectId) tx

def RemoveObject (store : SQLStore) (key : String) : Except String SQLStore :=
  removeObject store key

end SQLStore

/-! ## What a successful write did -/

section Specs

variable {store next : SQLStore} {used : ContractMap}

theorem removeObject_ok {key : String} (h : removeObject store key = .ok next) :
    key ≠ "" ∧ next = store.deleteObjects fun row => row.2.objectId == key := by
  unfold removeObject at h
  split_ifs at h with empty
  cases h
  exact ⟨empty, rfl⟩

/-- A successful `UpdateObject` passed its check, deleted the old object, and wrote the slices of
the new one after its row. -/
theorem UpdateObject_ok {key : String} {o : Object Key}
    (h : store.UpdateObject codec key o used = .ok next) :
    checkUsedContracts o used = .ok () ∧ key ≠ "" ∧
      let tx := store.deleteObjects fun row => row.2.objectId == key
      (∀ row ∈ tx.objects.rows, row.2.objectId ≠ key) ∧
      o.slabs.foldlM (addSlice codec used tx.objects.nextId)
        { tx with objects := tx.objects.insert ⟨codec.marshalText o.key, key⟩ } = .ok next := by
  simp only [SQLStore.UpdateObject, bind_eq_ok] at h
  obtain ⟨⟨⟩, checked, tx, removed, h⟩ := h
  obtain ⟨empty, rfl⟩ := removeObject_ok removed
  split_ifs at h with taken
  · cases h
  · simp only [List.any_eq_true, beq_iff_eq, not_exists, not_and] at taken
    exact ⟨checked, empty, taken, h⟩

/-- A successful slice wrote its slice row, then its slab row under a new key, then the shards. -/
theorem addSlice_ok {objectId : Nat} {tx : SQLStore} {ss : SlabSlice Key}
    (h : addSlice codec used objectId tx ss = .ok next) :
    (∀ row ∈ tx.slabs.rows, row.2.key ≠ codec.marshalText ss.slab.key) ∧
      ∃ base : SQLStore,
        base = { tx with
          slices := tx.slices.insert ⟨objectId, ss.offset, ss.length⟩
          slabs := tx.slabs.insert ⟨tx.slices.nextId, codec.marshalText ss.slab.key,
            ss.slab.minShards, UInt8.ofNat ss.slab.shards.length⟩ } ∧
        next = ss.slab.shards.foldl (addShard used tx.slabs.nextId) base := by
  simp only [addSlice] at h
  split_ifs at h with taken
  cases h
  simp only [List.any_eq_true, beq_iff_eq, not_exists, not_and] at taken
  exact ⟨taken, _, rfl, rfl⟩

end Specs

/-! ## Reading -/

/-- `object`: `Where(&dbObject{ObjectID: key}).Take`. -/
def SQLStore.object (store : SQLStore) (key : String) : Except String (Nat × ObjectRow) :=
  match store.objects.take? fun row => whereField "" key row.2.objectId with
  | none => .error ErrObjectNotFound
  | some row => .ok row

/-- A `dbSlab` as the preload fills it: its row and, per shard in id order, its sector (`none`
when no row has the shard's sector id, which `convert` sees as `DBSector.ID == 0`). -/
structure LoadedSlab where
  row : SlabRow
  sectors : List (Option SectorRow)

/-- A `dbSlice` with its preloaded slab. -/
structure LoadedSlice where
  row : SliceRow
  slab : LoadedSlab

/-- A `dbObject` with its preloaded slices. -/
structure LoadedObject where
  row : ObjectRow
  slices : List LoadedSlice

/-- The zero `dbSlab`, left in a slice whose slab has no row. -/
def LoadedSlab.zero : LoadedSlab := ⟨⟨0, [], 0, 0⟩, []⟩

namespace SQLStore

variable (store : SQLStore)

def loadSlab (slab : Nat × SlabRow) : LoadedSlab :=
  ⟨slab.2, (store.shards.rows.filter fun shard => shard.2.slabId == slab.1).map fun shard =>
    store.sectors.get? shard.2.sectorId⟩

def loadSlice (slice : Nat × SliceRow) : LoadedSlice :=
  ⟨slice.2, (((store.slabs.rows.filter fun slab => slab.2.sliceId == slice.1).getLast?).map
    store.loadSlab).getD .zero⟩

/-- `Preload("Slabs.Slab.Shards.DBSector")`. -/
def loadObject (obj : Nat × ObjectRow) : LoadedObject :=
  ⟨obj.2, (store.slices.rows.filter fun slice => slice.2.objectId == obj.1).map store.loadSlice⟩

end SQLStore

/-- `*(*types.Hash256)(root)`: a panic when `root` is shorter than 32 bytes. -/
def sectorRoot (root : List UInt8) : Except Failure Hash256 :=
  match Hash256.ofRoot? root with
  | some hash => .ok hash
  | none => .error (.panic ("cannot convert slice with length " ++ toString root.length ++
      " to array or pointer to array with length 32"))

/-- `dbSlab.convert`. -/
def LoadedSlab.convert (slab : LoadedSlab) : Except Failure (Slab Key) := do
  let key ← (codec.unmarshalText slab.row.key).mapError .error
  let shards ← slab.sectors.mapM fun
    | none => pure ⟨.zero, .zero⟩
    | some sector => return ⟨sector.latestHost, ← sectorRoot sector.root⟩
  return ⟨key, slab.row.minShards, shards⟩

/-- `dbObject.convert`. -/
def LoadedObject.convert (obj : LoadedObject) : Except Failure (Object Key) := do
  let key ← (codec.unmarshalText obj.row.key).mapError .error
  let slabs ← obj.slices.mapM fun slice =>
    return ⟨← slice.slab.convert codec, slice.row.offset, slice.row.length⟩
  return ⟨key, slabs⟩

/-- `Object`: the row, its preloads, and `convert`. -/
def SQLStore.Object (store : SQLStore) (key : String) : Except Failure (Stores.Object Key) := do
  let obj ← (store.object key).mapError .error
  (store.loadObject obj).convert codec

/-! ## A key read that names no object -/

/-- A codec for one-byte keys. -/
def byteCodec : KeyCodec UInt8 where
  marshalText key := [key]
  unmarshalText
    | [key] => .ok key
    | _ => .error "wrong seed length"
  unmarshalText_marshalText _ := rfl

/-- Root `1, 1, ..., 1`. -/
def rootOnes : Hash256 := ⟨List.replicate 32 1, rfl⟩

/-- An object of one slab with one shard on host `1`. -/
def oneShardObject : Stores.Object UInt8 := ⟨5, [⟨⟨9, 1, [⟨⟨1⟩, rootOnes⟩]⟩, 0, 64⟩]⟩

/-- Host `1` uses contract `7`. -/
def usedSeven : ContractMap := ⟨[(⟨1⟩, ⟨7⟩)], by decide⟩

/-- `Object("")` reads the first stored object: its struct condition has no field left. -/
theorem Object_empty_key_reads_first :
    ∃ store, SQLStore.empty.UpdateObject byteCodec "a" oneShardObject usedSeven = .ok store ∧
      store.Object byteCodec "" = .ok oneShardObject :=
  ⟨_, rfl, rfl⟩

end Renterd.Stores
