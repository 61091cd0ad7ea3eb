import Mathlib.Algebra.Group.Nat.Basic
import Mathlib.Data.List.Basic
import Mathlib.Data.List.Nodup

/-!
# Tables of the SQL store

The rows that `SQLStore` keeps, with the columns the modelled operations read or
write. Every table hands out increasing ids from 1, as an auto-increment key does,
and keeps its rows in id order; a `Take` without `ORDER BY` reads the first row
that matches. Foreign keys declared `OnDelete:CASCADE` are deletes of their own.
-/

namespace Renterd.Stores

/-- `types.FileContractID`; the zero value is `⟨0⟩`. -/
structure FileContractID where
  val : Nat
  deriving DecidableEq, Repr

/-- `types.PublicKey`: its 32 bytes read as one number, most significant byte first; the zero
value is `⟨0⟩`. -/
structure PublicKey where
  val : Nat
  deriving DecidableEq, Repr

def FileContractID.zero : FileContractID := ⟨0⟩

def PublicKey.zero : PublicKey := ⟨0⟩

/-- `PublicKey.String`: `ed25519:` and the lower-case hex of the 32 bytes, which is how `%v`
prints a key. -/
def PublicKey.string (pk : PublicKey) : String :=
  "ed25519:" ++ String.mk ((List.range 64).reverse.map fun i => Nat.digitChar (pk.val / 16 ^ i % 16))

example : (PublicKey.mk 171).string = "ed25519:" ++ String.mk (List.replicate 62 '0') ++ "ab" := by
  decide

/-- `types.Hash256`: exactly 32 bytes. -/
structure Hash256 where
  bytes : List UInt8
  length_eq : bytes.length = 32
  deriving DecidableEq

theorem Hash256.bytes_inj {a b : Hash256} : a.bytes = b.bytes ↔ a = b :=
  ⟨fun same => by cases a; cases b; cases same; rfl, fun same => same ▸ rfl⟩

/-- `*(*types.Hash256)(root)`: the first 32 bytes of `root`; Go panics on a shorter slice. -/
def Hash256.ofRoot? (root : List UInt8) : Option Hash256 :=
  if h : 32 ≤ root.length then some ⟨root.take 32, by simp [h]⟩ else none

@[simp] theorem Hash256.ofRoot?_bytes (hash : Hash256) : Hash256.ofRoot? hash.bytes = some hash := by
  simp [Hash256.ofRoot?, hash.length_eq, List.take_of_length_le (le_of_eq hash.length_eq)]

/-- A transaction step that succeeded: the bind of two steps succeeds exactly when both do. -/
theorem bind_eq_ok {ε α β : Type} {x : Except ε α} {f : α → Except ε β} {r : β} :
    x >>= f = .ok r ↔ ∃ a, x = .ok a ∧ f a = .ok r := by
  cases x <;> simp [bind, Except.bind]

theorem map_eq_ok {ε α β : Type} {x : Except ε α} {f : α → β} {r : β} :
    x.map f = .ok r ↔ ∃ a, x = .ok a ∧ f a = r := by
  cases x <;> simp [Except.map]

/-- A conversion of every element that succeeds element by element succeeds with their list. -/
theorem mapM_eq_ok {ε α β : Type} {f : α → Except ε β} :
    ∀ {xs : List α} {ys : List β}, List.Forall₂ (fun x y => f x = .ok y) xs ys → xs.mapM f = .ok ys
  | [], [], .nil => rfl
  | _ :: _, _ :: _, .cons first rest => by rw [List.mapM_cons, first, mapM_eq_ok rest]; rfl

/-- A conversion of every element that succeeds succeeds with a list of as many elements. -/
theorem mapM_ok_of_forall {ε α β : Type} {f : α → Except ε β} :
    ∀ {xs : List α}, (∀ x ∈ xs, ∃ y, f x = .ok y) → ∃ ys, xs.mapM f = .ok ys ∧ ys.length = xs.length
  | [], _ => ⟨[], rfl, rfl⟩
  | x :: xs, each => by
      obtain ⟨y, first⟩ := each x (.head _)
      obtain ⟨ys, rest, length⟩ := mapM_ok_of_forall fun x' mem => each x' (.tail _ mem)
      exact ⟨y :: ys, by rw [List.mapM_cons, first, rest]; rfl, by rw [List.length_cons, length]; rfl⟩

/-- Every result of a conversion that succeeds is the conversion of an element. -/
theorem mem_of_mapM_eq_ok {ε α β : Type} {f : α → Except ε β} :
    ∀ {xs : List α} {ys : List β}, xs.mapM f = .ok ys → ∀ y ∈ ys, ∃ x ∈ xs, f x = .ok y
  | [], _, h, _, mem => by cases Except.ok.inj h; exact absurd mem (List.not_mem_nil _)
  | x :: xs, _, h, y, mem => by
      rw [List.mapM_cons] at h
      obtain ⟨first, converted, h⟩ := bind_eq_ok.mp h
      obtain ⟨rest, later, h⟩ := bind_eq_ok.mp h
      cases Except.ok.inj h
      rcases List.mem_cons.mp mem with rfl | mem
      · exact ⟨x, .head _, converted⟩
      · obtain ⟨x', mem', ok⟩ := mem_of_mapM_eq_ok later y mem
        exact ⟨x', .tail _ mem', ok⟩

theorem mapError_eq_ok {ε ε' α : Type} {x : Except ε α} {f : ε → ε'} {r : α} :
    x.mapError f = .ok r ↔ x = .ok r := by
  cases x <;> simp [Except.mapError]

/-- What every step of a loop keeps holds after the loop. -/
theorem foldl_invariant {α σ : Type} {P : σ → Prop} {f : σ → α → σ} (step : ∀ s x, P s → P (f s x)) :
    ∀ {xs : List α} {init : σ}, P init → P (xs.foldl f init)
  | [], _, holds => holds
  | x :: xs, init, holds => @foldl_invariant α σ P f step xs (f init x) (step init x holds)

/-- What every step of a loop keeps holds after a loop that succeeds. -/
theorem foldlM_invariant {α σ : Type} {P : σ → Prop} {f : σ → α → Except String σ} :
    ∀ {xs : List α} {init last : σ}, (∀ s x next, x ∈ xs → P s → f s x = .ok next → P next) →
      P init → xs.foldlM f init = .ok last → P last
  | [], _, _, _, holds, h => by cases h; exact holds
  | x :: _, init, _, step, holds, h => by
      obtain ⟨mid, first, rest⟩ := bind_eq_ok.mp h
      exact foldlM_invariant (fun s y next mem => step s y next (.tail _ mem))
        (step init x mid (.head _) holds first) rest

/-- GORM's condition from one struct field, `Where(&row{Field: value})`: a zero value
adds no condition at all. -/
def whereField {α : Type} [DecidableEq α] (zero value field : α) : Bool :=
  value == zero || field == value

/-- A table: its rows in insertion order, each with the id the database gave it. -/
structure Table (Row : Type) where
  rows : List (Nat × Row)
  nextId : Nat
  id_lt : ∀ row ∈ rows, row.1 < nextId
  sorted : rows.Pairwise fun earlier later => earlier.1 < later.1

namespace Table

variable {Row : Type}

def empty : Table Row := ⟨[], 1, by simp, List.Pairwise.nil⟩

/-- `INSERT`: the row gets the next id. -/
def insert (table : Table Row) (row : Row) : Table Row where
  rows := table.rows ++ [(table.nextId, row)]
  nextId := table.nextId + 1
  id_lt := by
    simp only [List.mem_append, List.mem_singleton]
    rintro _ (mem | rfl)
    · exact Nat.lt_succ_of_lt (table.id_lt _ mem)
    · exact Nat.lt_succ_self _
  sorted := List.pairwise_append.mpr ⟨table.sorted, List.pairwise_singleton _ _,
    fun row mem _ last => (List.mem_singleton.mp last) ▸ table.id_lt row mem⟩

/-- `DELETE ... WHERE`. -/
def delete (table : Table Row) (drop : Nat × Row → Bool) : Table Row where
  rows := table.rows.filter fun row => !drop row
  nextId := table.nextId
  id_lt row mem := table.id_lt row (List.mem_of_mem_filter mem)
  sorted := table.sorted.filter _

/-- `UPDATE`: each row is replaced by `change` of it, ids kept. -/
def update (table : Table Row) (change : Nat × Row → Row) : Table Row where
  rows := table.rows.map fun row => (row.1, change row)
  nextId := table.nextId
  id_lt := by
    simp only [List.mem_map]
    rintro _ ⟨row, mem, rfl⟩
    exact table.id_lt row mem
  sorted := List.pairwise_map.mpr (table.sorted.imp id)

/-- `Take`: the first row that matches. -/
def take? (table : Table Row) (found : Nat × Row → Bool) : Option (Nat × Row) :=
  table.rows.find? found

/-- The row with this id. -/
def get? (table : Table Row) (id : Nat) : Option Row :=
  (table.take? fun row => row.1 == id).map Prod.snd

def ids (table : Table Row) : List Nat := table.rows.map Prod.fst

theorem ids_nodup (table : Table Row) : table.ids.Nodup :=
  List.pairwise_map.mpr (table.sorted.imp Nat.ne_of_lt)

@[simp] theorem insert_rows (table : Table Row) (row : Row) :
    (table.insert row).rows = table.rows ++ [(table.nextId, row)] := rfl

@[simp] theorem insert_nextId (table : Table Row) (row : Row) :
    (table.insert row).nextId = table.nextId + 1 := rfl

@[simp] theorem delete_rows (table : Table Row) (drop : Nat × Row → Bool) :
    (table.delete drop).rows = table.rows.filter fun row => !drop row := rfl

@[simp] theorem delete_nextId (table : Table Row) (drop : Nat × Row → Bool) :
    (table.delete drop).nextId = table.nextId := rfl

@[simp] theorem update_rows (table : Table Row) (change : Nat × Row → Row) :
    (table.update change).rows = table.rows.map fun row => (row.1, change row) := rfl

@[simp] theorem update_nextId (table : Table Row) (change : Nat × Row → Row) :
    (table.update change).nextId = table.nextId := rfl

/-- Two tables with the same rows and the same next id are one table. -/
theorem eq_of_rows {a b : Table Row} (rows : a.rows = b.rows) (nextId : a.nextId = b.nextId) :
    a = b := by
  cases a; cases b; cases rows; cases nextId; rfl

theorem update_update (table : Table Row) (first second : Nat × Row → Row) :
    (table.update first).update second = table.update fun row => second (row.1, first row) :=
  eq_of_rows (by simp) rfl

theorem update_congr (table : Table Row) {first second : Nat × Row → Row}
    (same : ∀ row ∈ table.rows, first row = second row) : table.update first = table.update second :=
  eq_of_rows (List.map_congr_left fun row mem => by rw [same row mem]) rfl

/-- An update that changes no row leaves the table. -/
theorem update_of_forall_eq (table : Table Row) {change : Nat × Row → Row}
    (same : ∀ row ∈ table.rows, change row = row.2) : table.update change = table :=
  eq_of_rows ((List.map_congr_left fun row mem => by rw [same row mem]; rfl).trans (List.map_id _)) rfl

theorem nextId_not_mem (table : Table Row) (row : Row) : (table.nextId, row) ∉ table.rows :=
  fun mem => Nat.lt_irrefl _ (table.id_lt _ mem)

/-- Ids are a key: two rows with one id are one row. -/
theorem eq_of_id_eq (table : Table Row) {a b : Nat × Row} (ha : a ∈ table.rows)
    (hb : b ∈ table.rows) (same : a.1 = b.1) : a = b :=
  List.inj_on_of_nodup_map table.ids_nodup ha hb same

/-- The row with an id is the one the table holds under it. -/
theorem get?_of_mem (table : Table Row) {row : Nat × Row} (mem : row ∈ table.rows) :
    table.get? row.1 = some row.2 := by
  unfold get? take?
  cases found : table.rows.find? fun other => other.1 == row.1 with
  | none => exact absurd (List.find?_eq_none.mp found row mem) (by simp)
  | some other =>
      rw [table.eq_of_id_eq (List.mem_of_find?_eq_some found) mem
        (by simpa using List.find?_some found)]
      rfl

/-- The row a lookup by id finds is a row of the table. -/
theorem mem_of_get? (table : Table Row) {id : Nat} {row : Row} (found : table.get? id = some row) :
    (id, row) ∈ table.rows := by
  obtain ⟨other, taken, rfl⟩ := Option.map_eq_some'.mp found
  have same : other.1 = id := by simpa using List.find?_some taken
  exact same ▸ List.mem_of_find?_eq_some taken

/-- The rows whose ids a filter keeps are the rows it keeps. -/
theorem filter_id_mem_filter (table : Table Row) (p : Nat × Row → Bool) :
    table.rows.filter (fun row => row.1 ∈ (table.rows.filter p).map Prod.fst) =
      table.rows.filter p := by
  refine List.filter_congr fun row mem => Bool.eq_iff_iff.mpr ?_
  simp only [decide_eq_true_eq, List.mem_map, List.mem_filter]
  constructor
  · rintro ⟨other, ⟨otherMem, kept⟩, same⟩
    rwa [table.eq_of_id_eq otherMem mem same] at kept
  · exact fun kept => ⟨row, ⟨mem, kept⟩, rfl⟩

/-- An id is not among the ids a filter keeps when the filter keeps no row with that id. -/
theorem id_not_mem_filter (table : Table Row) {p : Nat × Row → Bool} {id : Nat}
    (kept : ∀ row ∈ table.rows, row.1 = id → p row = false) :
    id ∉ (table.rows.filter p).map Prod.fst := by
  simp only [List.mem_map, List.mem_filter, not_exists, not_and]
  exact fun row ⟨mem, found⟩ same => Bool.false_ne_true ((kept row mem same).symm.trans found)

end Table

/-! ## Rows -/

/-- `types.Currency`: 128 bits; `Add` panics on overflow. -/
structure Currency where
  val : Nat
  deriving DecidableEq, Repr

def Currency.zero : Currency := ⟨0⟩

def Currency.add? (amount other : Currency) : Option Currency :=
  if amount.val + other.val < 2 ^ 128 then some ⟨amount.val + other.val⟩ else none

theorem Currency.add?_eq_some {amount other sum : Currency} (h : amount.add? other = some sum) :
    sum = ⟨amount.val + other.val⟩ := by
  unfold Currency.add? at h
  split_ifs at h
  exact (Option.some.inj h).symm

/-- `dbHost`, by its public key. -/
structure HostRow where
  publicKey : PublicKey
  deriving DecidableEq, Repr

/-- `dbContract`. -/
structure ContractRow where
  fcid : FileContractID
  hostId : Nat
  renewedFrom : FileContractID
  startHeight : Nat
  totalCost : Currency
  uploadSpending : Currency
  downloadSpending : Currency
  fundAccountSpending : Currency
  deriving DecidableEq, Repr

/-- `dbArchivedContract`. -/
structure ArchivedRow where
  fcid : FileContractID
  host : PublicKey
  renewedTo : FileContractID
  reason : String
  uploadSpending : Currency
  downloadSpending : Currency
  fundAccountSpending : Currency
  startHeight : Nat
  deriving DecidableEq, Repr

/-- `dbContractSet`. -/
structure SetRow where
  name : String
  deriving DecidableEq, Repr

/-- `dbObject`: the marshalled object key and the object's id (its path). -/
structure ObjectRow where
  key : List UInt8
  objectId : String
  deriving DecidableEq, Repr

/-- `dbSlice`, owned by an object through `DBObjectID`. -/
structure SliceRow where
  objectId : Nat
  offset : UInt32
  length : UInt32
  deriving DecidableEq, Repr

/-- `dbSlab`, owned by a slice through `DBSliceID`. -/
structure SlabRow where
  sliceId : Nat
  key : List UInt8
  minShards : UInt8
  totalShards : UInt8
  deriving DecidableEq, Repr

/-- `dbSector`, content-addressed by its root. -/
structure SectorRow where
  latestHost : PublicKey
  root : List UInt8
  deriving DecidableEq, Repr

/-- `dbShard`: the join of a slab and a sector. -/
structure ShardRow where
  slabId : Nat
  sectorId : Nat
  deriving DecidableEq, Repr

/-- The database behind `SQLStore`. The join tables `contract_set_contracts`, `contract_sectors` and
`host_sectors` are pairs of ids with a composite primary key. -/
structure SQLStore where
  hosts : Table HostRow
  contracts : Table ContractRow
  archived : Table ArchivedRow
  sets : Table SetRow
  setContracts : List (Nat × Nat)
  objects : Table ObjectRow
  slices : Table SliceRow
  slabs : Table SlabRow
  sectors : Table SectorRow
  shards : Table ShardRow
  contractSectors : List (Nat × Nat)
  hostSectors : List (Nat × Nat)

namespace SQLStore

def empty : SQLStore :=
  ⟨.empty, .empty, .empty, .empty, [], .empty, .empty, .empty, .empty, .empty, [], []⟩

/-- Insert a join row unless it is there already (`ON CONFLICT DO NOTHING`). -/
def link (pairs : List (Nat × Nat)) (pair : Nat × Nat) : List (Nat × Nat) :=
  if pair ∈ pairs then pairs else pairs ++ [pair]

@[simp] theorem mem_link {pairs : List (Nat × Nat)} {pair other : Nat × Nat} :
    other ∈ link pairs pair ↔ other ∈ pairs ∨ other = pair := by
  unfold link
  split <;> simp_all [or_iff_left_of_imp]

theorem subset_link (pairs : List (Nat × Nat)) (pair : Nat × Nat) : pairs ⊆ link pairs pair := by
  unfold link
  split
  · exact List.Subset.refl _
  · exact List.subset_append_left _ _

/-- Delete the matching objects, and by cascade their slices, the slices' slabs and the
slabs' shards. Sectors are shared and stay. -/
def deleteObjects (store : SQLStore) (drop : Nat × ObjectRow → Bool) : SQLStore :=
  let objectIds := (store.objects.rows.filter drop).map Prod.fst
  let sliceIds := (store.slices.rows.filter fun slice => slice.2.objectId ∈ objectIds).map Prod.fst
  let slabIds := (store.slabs.rows.filter fun slab => slab.2.sliceId ∈ sliceIds).map Prod.fst
  { store with
    objects := store.objects.delete drop
    slices := store.slices.delete fun slice => slice.2.objectId ∈ objectIds
    slabs := store.slabs.delete fun slab => slab.2.sliceId ∈ sliceIds
    shards := store.shards.delete fun shard => shard.2.slabId ∈ slabIds }

/-- Delete the matching contracts, and by cascade their sector links and set memberships. -/
def deleteContracts (store : SQLStore) (drop : Nat × ContractRow → Bool) : SQLStore :=
  let contractIds := (store.contracts.rows.filter drop).map Prod.fst
  { store with
    contracts := store.contracts.delete drop
    contractSectors := store.contractSectors.filter fun pair => pair.1 ∉ contractIds
    setContracts := store.setContracts.filter fun pair => pair.2 ∉ contractIds }

/-- The cascade keeps a sector link when no deleted row has its contract id. -/
theorem mem_deleteContracts_contractSectors {store : SQLStore} {drop : Nat × ContractRow → Bool}
    {pair : Nat × Nat} (mem : pair ∈ store.contractSectors)
    (kept : ∀ row ∈ store.contracts.rows, row.1 = pair.1 → drop row = false) :
    pair ∈ (store.deleteContracts drop).contractSectors := by
  simp only [deleteContracts, List.mem_filter, decide_eq_true_eq]
  exact ⟨mem, store.contracts.id_not_mem_filter kept⟩

end SQLStore

end Renterd.Stores
