import Mathlib.Data.List.Forall2
import Renterd.Stores.ShardCounts

/-!
# Reading an object back

`Object(key)` after `UpdateObject(key, o, usedContracts)` returns the object key of `o`, the
offsets and lengths of its slices, and the keys, minimum shards and shard roots of its slabs, in
order. Sectors are shared by root and keep only the host that wrote them last, so each shard
reads back the host of the last shard of `o` with its root. This holds in every store the
store's writes reach: there every row points at an id its parent table has given out, so the
rows `UpdateObject` appends are the only ones its ids select.
-/

namespace Renterd.Stores

variable {Key : Type} (codec : KeyCodec Key)

/-! ## What `Object` returns -/

/-- The host of the last of `shards` with this root. -/
def lastHost (shards : List Sector) (root : Hash256) : Option PublicKey :=
  (shards.reverse.find? fun shard => shard.root == root).map Sector.host

/-- The shards of an object, in the order `UpdateObject` writes them. -/
def Object.shards (o : Stores.Object Key) : List Sector :=
  o.slabs.flatMap fun ss => ss.slab.shards

theorem lastHost_append_single (shards : List Sector) (shard : Sector) (root : Hash256) :
    lastHost (shards ++ [shard]) root =
      if shard.root = root then some shard.host else lastHost shards root := by
  unfold lastHost
  rw [List.reverse_append, List.reverse_singleton, List.singleton_append, List.find?_cons]
  by_cases same : shard.root = root
  · simp [same]
  · simp only [beq_false_of_ne same, if_neg same]

/-- Every row of the object tables points below the next id of its parent table. -/
structure RowBounds (store : SQLStore) extends ShardBounds store : Prop where
  objects : ∀ row ∈ store.slices.rows, row.2.objectId < store.objects.nextId
  slices : ∀ row ∈ store.slabs.rows, row.2.sliceId < store.slices.nextId

/-- `next` keeps the rows of the object tables of `tx` and appends rows that point at ids `tx`
had not given out; the sectors of `next` extend those of `tx`. -/
structure Appends (tx next : SQLStore) : Prop where
  objects : next.objects = tx.objects
  slabs : ∃ added, next.slabs.rows = tx.slabs.rows ++ added ∧
    ∀ row ∈ added, tx.slices.nextId ≤ row.2.sliceId
  shards : ∃ added, next.shards.rows = tx.shards.rows ++ added ∧
    ∀ row ∈ added, tx.slabs.nextId ≤ row.2.slabId
  slicesNext : tx.slices.nextId ≤ next.slices.nextId
  slabsNext : tx.slabs.nextId ≤ next.slabs.nextId
  sectors : SectorsExtend tx next

theorem SectorsExtend.trans {a b c : SQLStore} (ab : SectorsExtend a b) (bc : SectorsExtend b c) :
    SectorsExtend a c := by
  refine ⟨ab.nextId.trans bc.nextId, fun root id known => bc.known root id (ab.known root id known),
    fun root id none found => ?_⟩
  cases mid : b.sectorOf? root with
  | some id' =>
      rw [bc.known root id' mid, Option.some.injEq] at found
      exact found ▸ ab.fresh root id' none mid
  | none => exact ab.nextId.trans (bc.fresh root id mid found)

theorem SectorsExtend.of_orig {orig orig' tx : SQLStore} (ext : SectorsExtend orig tx)
    (same : orig'.sectors = orig.sectors) : SectorsExtend orig' tx := by
  have sectorOf : orig'.sectorOf? = orig.sectorOf? := by
    funext root; simp only [SQLStore.sectorOf?, same]
  exact ⟨same ▸ ext.nextId, sectorOf ▸ ext.known, sectorOf ▸ same ▸ ext.fresh⟩

theorem Appends.trans {a b c : SQLStore} (ab : Appends a b) (bc : Appends b c) : Appends a c := by
  obtain ⟨slabs, slabRows, slabsAbove⟩ := ab.slabs
  obtain ⟨slabs', slabRows', slabsAbove'⟩ := bc.slabs
  obtain ⟨shards, shardRows, shardsAbove⟩ := ab.shards
  obtain ⟨shards', shardRows', shardsAbove'⟩ := bc.shards
  refine ⟨bc.objects.trans ab.objects, ⟨slabs ++ slabs', ?_, ?_⟩, ⟨shards ++ shards', ?_, ?_⟩,
    ab.slicesNext.trans bc.slicesNext, ab.slabsNext.trans bc.slabsNext, ab.sectors.trans bc.sectors⟩
  · rw [slabRows', slabRows, List.append_assoc]
  · simp only [List.mem_append]
    rintro row (mem | mem)
    · exact slabsAbove row mem
    · exact ab.slicesNext.trans (slabsAbove' row mem)
  · rw [shardRows', shardRows, List.append_assoc]
  · simp only [List.mem_append]
    rintro row (mem | mem)
    · exact shardsAbove row mem
    · exact ab.slabsNext.trans (shardsAbove' row mem)

/-- Filtering rows for one parent id keeps, of rows below it, rows at it and rows above it, the
rows at it. -/
theorem filter_parent_eq {α : Type} (parent : α → Nat) (id : Nat) {below middle above : List α}
    (lt : ∀ x ∈ below, parent x < id) (eq : ∀ x ∈ middle, parent x = id)
    (gt : ∀ x ∈ above, id < parent x) :
    (below ++ middle ++ above).filter (fun x => parent x == id) = middle := by
  rw [List.filter_append, List.filter_append,
    List.filter_eq_nil_iff.mpr fun x mem => by simpa using Nat.ne_of_lt (lt x mem),
    List.filter_eq_self.mpr fun x mem => by simpa using eq x mem,
    List.filter_eq_nil_iff.mpr fun x mem => by simpa using Nat.ne_of_gt (gt x mem),
    List.nil_append, List.append_nil]

namespace SQLStore

/-- The sector row `Where(dbSector{Root: root})` finds. -/
def sectorRow? (store : SQLStore) (root : Hash256) : Option SectorRow :=
  (store.sectors.take? fun row => row.2.root == root.bytes).map Prod.snd

theorem sectorOf?_lt {store : SQLStore} {root : Hash256} {id : Nat}
    (found : store.sectorOf? root = some id) : id < store.sectors.nextId := by
  obtain ⟨row, taken, rfl⟩ := Option.map_eq_some'.mp found
  exact store.sectors.id_lt row (List.mem_of_find?_eq_some taken)

/-- The sector a root names is the row the root finds. -/
theorem get?_of_sectorOf? {store : SQLStore} {root : Hash256} {id : Nat}
    (found : store.sectorOf? root = some id) : store.sectors.get? id = store.sectorRow? root := by
  obtain ⟨row, taken, rfl⟩ := Option.map_eq_some'.mp found
  rw [store.sectors.get?_of_mem (List.mem_of_find?_eq_some taken), sectorRow?, taken]
  rfl

end SQLStore

section Sectors

variable (tx : SQLStore) (shard : Sector)

theorem upsertSector_sectorOf_self :
    (upsertSector tx shard).1.sectorOf? shard.root = some (upsertSector tx shard).2 := by
  rw [SQLStore.sectorOf?, upsertSector_take, if_pos rfl]
  rfl

theorem upsertSector_sectorRow (root : Hash256) :
    (upsertSector tx shard).1.sectorRow? root =
      if root = shard.root then some ⟨shard.host, shard.root.bytes⟩ else tx.sectorRow? root := by
  rw [SQLStore.sectorRow?, upsertSector_take]
  split_ifs <;> rfl

end Sectors

/-- Every root among `written` finds the sector row of the host of the last of them with that
root. -/
def LatestHosts (tx : SQLStore) (written : List Sector) : Prop :=
  ∀ root host, lastHost written root = some host → tx.sectorRow? root = some ⟨host, root.bytes⟩

namespace LatestHosts

variable {tx next : SQLStore} {written : List Sector}

theorem nil (tx : SQLStore) : LatestHosts tx [] := fun _ _ none => by simp [lastHost] at none

theorem of_sectors (hosts : LatestHosts tx written) (same : next.sectors = tx.sectors) :
    LatestHosts next written := by
  intro root host last
  rw [← hosts root host last]
  simp only [SQLStore.sectorRow?, same]

theorem upsert (hosts : LatestHosts tx written) (shard : Sector) :
    LatestHosts (upsertSector tx shard).1 (written ++ [shard]) := by
  intro root host last
  rw [lastHost_append_single] at last
  rw [upsertSector_sectorRow]
  split_ifs at last ⊢ with own rootEq rootEq
  · subst rootEq; cases last; rfl
  · exact absurd own.symm rootEq
  · exact absurd rootEq.symm own
  · exact hosts root host last

theorem foldl_addShard (used : ContractMap) (slabId : Nat) :
    ∀ (shards : List Sector) (tx : SQLStore) (written : List Sector), LatestHosts tx written →
      LatestHosts (shards.foldl (addShard used slabId) tx) (written ++ shards)
  | [], _, written, hosts => by rwa [List.append_nil]
  | shard :: rest, tx, written, hosts => by
      obtain ⟨sectors, -⟩ := addShard_fields used slabId tx shard
      rw [List.foldl_cons, ← List.singleton_append, ← List.append_assoc]
      exact foldl_addShard used slabId rest _ _ ((hosts.upsert shard).of_sectors sectors)

theorem addSlice {used : ContractMap} {objectId : Nat} {ss : SlabSlice Key}
    (hosts : LatestHosts tx written) (h : Stores.addSlice codec used objectId tx ss = .ok next) :
    LatestHosts next (written ++ ss.slab.shards) := by
  obtain ⟨-, _, rfl, rfl⟩ := addSlice_ok codec h
  exact foldl_addShard used _ _ _ _ (hosts.of_sectors rfl)

theorem foldlM_addSlice {used : ContractMap} {objectId : Nat} :
    ∀ (slices : List (SlabSlice Key)) (tx next : SQLStore) (written : List Sector),
      LatestHosts tx written → slices.foldlM (Stores.addSlice codec used objectId) tx = .ok next →
      LatestHosts next (written ++ slices.flatMap fun ss => ss.slab.shards)
  | [], tx, next, written, hosts, h => by cases h; rwa [List.flatMap_nil, List.append_nil]
  | ss :: rest, tx, next, written, hosts, h => by
      obtain ⟨mid, first, others⟩ := bind_eq_ok.mp h
      rw [List.flatMap_cons, ← List.append_assoc]
      exact foldlM_addSlice rest mid next _ (hosts.addSlice codec first) others

end LatestHosts

/-- The shard rows of slab `slabId`, in id order, are one per shard, each on the sector of the
shard's root. -/
def HoldsShards (store : SQLStore) (slabId : Nat) (shards : List Sector) : Prop :=
  List.Forall₂ (fun row shard => store.sectorOf? shard.root = some row.2.sectorId)
    (store.shards.rows.filter fun row => row.2.slabId == slabId) shards

/-- The sectors of the shard rows are the sector rows of the shards' roots. -/
theorem HoldsShards.sectors {store : SQLStore} {slabId : Nat} {shards : List Sector}
    (held : HoldsShards store slabId shards) :
    (store.shards.rows.filter fun row => row.2.slabId == slabId).map
        (fun row => store.sectors.get? row.2.sectorId) =
      shards.map fun shard => store.sectorRow? shard.root := by
  have same := List.forall₂_map_left_iff.mpr (List.forall₂_map_right_iff.mpr
    (held.imp fun _ _ found => SQLStore.get?_of_sectorOf? found))
  rwa [List.forall₂_eq_eq_eq] at same

/-! ## The rows `UpdateObject` appends -/

section Appending

variable {used : ContractMap} {objectId : Nat} {tx next : SQLStore}

/-- The shard rows of a new slab: one per shard, on the sector its root names. -/
theorem foldl_addShard_appends (used : ContractMap) (slabId : Nat) :
    ∀ (shards : List Sector) (tx : SQLStore),
      let next := shards.foldl (addShard used slabId) tx
      next.slabs = tx.slabs ∧ next.slices = tx.slices ∧ next.objects = tx.objects ∧
        SectorsExtend tx next ∧ ∃ added, next.shards.rows = tx.shards.rows ++ added ∧
          List.Forall₂ (fun row shard => row.2.slabId = slabId ∧
            next.sectorOf? shard.root = some row.2.sectorId) added shards
  | [], tx => ⟨rfl, rfl, rfl, .refl tx, [], by simp, .nil⟩
  | shard :: rest, tx => by
      obtain ⟨sectors, slabs, shards, slices, objects⟩ := addShard_fields used slabId tx shard
      obtain ⟨slabs', slices', objects', ext, added, rows, written⟩ :=
        foldl_addShard_appends used slabId rest (addShard used slabId tx shard)
      have own : (addShard used slabId tx shard).sectorOf? shard.root =
          some (upsertSector tx shard).2 := by
        rw [← upsertSector_sectorOf_self]
        simp only [SQLStore.sectorOf?, sectors]
      refine ⟨slabs'.trans slabs, slices'.trans slices, objects'.trans objects,
        (((SectorsExtend.refl tx).upsert shard).of_sectors sectors).trans ext,
        (tx.shards.nextId, ⟨slabId, (upsertSector tx shard).2⟩) :: added, ?_,
        .cons ⟨rfl, ext.known _ _ own⟩ written⟩
      rw [List.foldl_cons, rows, shards, Table.insert_rows, List.append_assoc, List.singleton_append]

/-- What a slice writes: its slice row, its slab row, and the shard rows of the slab. -/
theorem addSlice_tables {ss : SlabSlice Key} (h : addSlice codec used objectId tx ss = .ok next) :
    next.objects = tx.objects ∧ next.slices = tx.slices.insert ⟨objectId, ss.offset, ss.length⟩ ∧
      next.slabs = tx.slabs.insert ⟨tx.slices.nextId, codec.marshalText ss.slab.key,
        ss.slab.minShards, UInt8.ofNat ss.slab.shards.length⟩ ∧
      SectorsExtend tx next ∧ ∃ added, next.shards.rows = tx.shards.rows ++ added ∧
        List.Forall₂ (fun row shard => row.2.slabId = tx.slabs.nextId ∧
          next.sectorOf? shard.root = some row.2.sectorId) added ss.slab.shards := by
  obtain ⟨-, base, rfl, rfl⟩ := addSlice_ok codec h
  obtain ⟨slabs, slices, objects, ext, rest⟩ :=
    foldl_addShard_appends used tx.slabs.nextId ss.slab.shards _
  exact ⟨objects, slices, slabs, ext.of_orig rfl, rest⟩

theorem addSlice_appends {ss : SlabSlice Key} (h : addSlice codec used objectId tx ss = .ok next) :
    Appends tx next := by
  obtain ⟨objects, slices, slabs, ext, added, rows, written⟩ := addSlice_tables codec h
  refine ⟨objects, ⟨_, by rw [slabs, Table.insert_rows], by simp⟩, ⟨added, rows, fun row mem => ?_⟩,
    by simp [slices], by simp [slabs], ext⟩
  exact (((List.forall₂_and_left _ _).mp written).1 row mem).ge

theorem RowBounds.addSlice {ss : SlabSlice Key} (bounds : RowBounds tx)
    (owner : objectId < tx.objects.nextId) (h : addSlice codec used objectId tx ss = .ok next) :
    RowBounds next := by
  obtain ⟨objects, slices, slabs, ext, added, rows, written⟩ := addSlice_tables codec h
  have addedBounds : List.Forall₂ (fun row shard =>
      (row.2.slabId = tx.slabs.nextId ∧ row.2.sectorId < next.sectors.nextId) ∧
        next.sectorOf? shard.root = some row.2.sectorId) added ss.slab.shards :=
    written.imp fun _ _ ⟨slab, found⟩ => ⟨⟨slab, SQLStore.sectorOf?_lt found⟩, found⟩
  replace addedBounds := ((List.forall₂_and_left _ _).mp addedBounds).1
  refine ⟨⟨fun row mem => ?_, fun row mem => ?_⟩, fun row mem => ?_, fun row mem => ?_⟩
  · rw [rows, List.mem_append] at mem
    rw [slabs, Table.insert_nextId]
    rcases mem with old | new
    · exact Nat.lt_succ_of_lt (bounds.slabs row old)
    · exact (addedBounds row new).1 ▸ Nat.lt_succ_self _
  · rw [rows, List.mem_append] at mem
    rcases mem with old | new
    · exact lt_of_lt_of_le (bounds.sectors row old) ext.nextId
    · exact (addedBounds row new).2
  · rw [slices, Table.insert_rows, List.mem_append, List.mem_singleton] at mem
    rw [objects]
    rcases mem with old | rfl
    · exact bounds.objects row old
    · exact owner
  · rw [slabs, Table.insert_rows, List.mem_append, List.mem_singleton] at mem
    rw [slices, Table.insert_nextId]
    rcases mem with old | rfl
    · exact Nat.lt_succ_of_lt (bounds.slices row old)
    · exact Nat.lt_succ_self _

/-- A new slice's rows, in every store that appends to the one it was written in: its one slab
row, and the slab's shard rows, which hold its shards. -/
theorem addSlice_rows {ss : SlabSlice Key} {final : SQLStore} (bounds : RowBounds tx)
    (h : addSlice codec used objectId tx ss = .ok next) (later : Appends next final) :
    final.slabs.rows.filter (fun slab => slab.2.sliceId == tx.slices.nextId) =
        [(tx.slabs.nextId, ⟨tx.slices.nextId, codec.marshalText ss.slab.key, ss.slab.minShards,
          UInt8.ofNat ss.slab.shards.length⟩)] ∧
      HoldsShards final tx.slabs.nextId ss.slab.shards := by
  obtain ⟨-, slices, slabs, -, added, rows, written⟩ := addSlice_tables codec h
  obtain ⟨slabsAfter, slabRows, slabsAbove⟩ := later.slabs
  obtain ⟨shardsAfter, shardRows, shardsAbove⟩ := later.shards
  constructor
  · rw [slabRows, slabs, Table.insert_rows]
    exact filter_parent_eq (fun slab : Nat × SlabRow => slab.2.sliceId) _ bounds.slices (by simp)
      fun row mem => lt_of_lt_of_le (by simp [slices]) (slabsAbove row mem)
  · unfold HoldsShards
    rw [shardRows, rows, filter_parent_eq (fun shard : Nat × ShardRow => shard.2.slabId) _ bounds.slabs
      ((List.forall₂_and_left _ _).mp written).1
      fun row mem => lt_of_lt_of_le (by simp [slabs]) (shardsAbove row mem)]
    exact written.imp fun _ _ ⟨_, found⟩ => later.sectors.known _ _ found

/-- A new slice loads, in every store that appends to the one it was written in, as its slab with
the sector rows its roots find there. -/
theorem addSlice_loads {ss : SlabSlice Key} {final : SQLStore} (bounds : RowBounds tx)
    (h : addSlice codec used objectId tx ss = .ok next) (later : Appends next final) :
    final.loadSlice (tx.slices.nextId, ⟨objectId, ss.offset, ss.length⟩) =
      ⟨⟨objectId, ss.offset, ss.length⟩, ⟨⟨tx.slices.nextId, codec.marshalText ss.slab.key,
        ss.slab.minShards, UInt8.ofNat ss.slab.shards.length⟩,
        ss.slab.shards.map fun shard => final.sectorRow? shard.root⟩⟩ := by
  obtain ⟨slab, shards⟩ := addSlice_rows codec bounds h later
  simp only [SQLStore.loadSlice, slab, List.getLast?_singleton, Option.map_some', Option.getD_some,
    SQLStore.loadSlab, shards.sectors]

/-- The slices of a new object: one slice row per slab slice, loading as its slab. -/
theorem foldlM_addSlice_loads (used : ContractMap) (objectId : Nat) :
    ∀ (slices : List (SlabSlice Key)) (tx next : SQLStore), RowBounds tx →
      objectId < tx.objects.nextId → slices.foldlM (addSlice codec used objectId) tx = .ok next →
      Appends tx next ∧ RowBounds next ∧ ∃ added, next.slices.rows = tx.slices.rows ++ added ∧
        (∀ row ∈ added, row.2.objectId = objectId) ∧
        List.Forall₂ (fun slice ss => slice.2 = ⟨objectId, ss.offset, ss.length⟩ ∧
          next.loadSlice slice = ⟨slice.2, ⟨⟨slice.1, codec.marshalText ss.slab.key,
            ss.slab.minShards, UInt8.ofNat ss.slab.shards.length⟩,
            ss.slab.shards.map fun shard => next.sectorRow? shard.root⟩⟩) added slices
  | [], tx, next, bounds, _, h => by
      cases h
      exact ⟨⟨rfl, ⟨[], by simp, by simp⟩, ⟨[], by simp, by simp⟩, le_refl _, le_refl _,
        .refl tx⟩, bounds, [], by simp, by simp, .nil⟩
  | ss :: rest, tx, next, bounds, owner, h => by
      obtain ⟨mid, first, others⟩ := bind_eq_ok.mp h
      obtain ⟨objects, slices, -⟩ := addSlice_tables codec first
      obtain ⟨appends, nextBounds, added, rows, owned, loads⟩ :=
        foldlM_addSlice_loads used objectId rest mid next (bounds.addSlice codec owner first)
          (objects ▸ owner) others
      refine ⟨(addSlice_appends codec first).trans appends, nextBounds,
        (tx.slices.nextId, ⟨objectId, ss.offset, ss.length⟩) :: added, ?_, ?_,
        .cons ⟨rfl, addSlice_loads codec bounds first appends⟩ loads⟩
      · rw [rows, slices, Table.insert_rows, List.append_assoc, List.singleton_append]
      · simp only [List.mem_cons]
        rintro row (rfl | mem)
        · rfl
        · exact owned row mem

end Appending

/-! ## Reading the object back -/

section ReadBack

variable {store next : SQLStore}

theorem RowBounds.deleteObjects (bounds : RowBounds store) (drop : Nat × ObjectRow → Bool) :
    RowBounds (store.deleteObjects drop) :=
  ⟨⟨fun row mem => bounds.slabs row (List.mem_of_mem_filter mem),
    fun row mem => bounds.sectors row (List.mem_of_mem_filter mem)⟩,
    fun row mem => bounds.objects row (List.mem_of_mem_filter mem),
    fun row mem => bounds.slices row (List.mem_of_mem_filter mem)⟩

theorem RowBounds.insertObject (bounds : RowBounds store) (row : ObjectRow) :
    RowBounds { store with objects := store.objects.insert row } :=
  ⟨⟨bounds.slabs, bounds.sectors⟩, fun slice mem => Nat.lt_succ_of_lt (bounds.objects slice mem),
    bounds.slices⟩

end ReadBack

/-! ## Stores the writes reach -/

section Reached

variable {store next : SQLStore}

theorem RowBounds.empty : RowBounds SQLStore.empty :=
  ⟨⟨nofun, nofun⟩, nofun, nofun⟩

theorem RowBounds.UpdateObject {key : String} {o : Stores.Object Key} {used : ContractMap}
    (bounds : RowBounds store) (h : store.UpdateObject codec key o used = .ok next) :
    RowBounds next := by
  obtain ⟨-, -, -, slices⟩ := UpdateObject_ok codec h
  exact (foldlM_addSlice_loads codec used _ o.slabs _ next
    ((bounds.deleteObjects _).insertObject _) (Nat.lt_succ_self _) slices).2.1

theorem RowBounds.UpdateSlab {s : Slab Key} {used : ContractMap} (bounds : RowBounds store)
    (h : store.UpdateSlab codec s used = .ok next) : RowBounds next := by
  obtain ⟨snapshot, read, rfl⟩ := UpdateSlab_ok codec h
  obtain ⟨⟨_, found⟩, -⟩ := readSlab_ok codec read
  obtain ⟨slabs, slices, objects⟩ := @foldl_invariant _ _
    (fun tx : SQLStore => tx.slabs = store.slabs ∧ tx.slices = store.slices ∧
      tx.objects = store.objects) _
    (fun tx shard ⟨slabs, slices, objects⟩ =>
      have ⟨_, slabs', _, slices', objects'⟩ := updateShard_fields snapshot used tx shard
      ⟨slabs'.trans slabs, slices'.trans slices, objects'.trans objects⟩) s.shards store
    ⟨rfl, rfl, rfl⟩
  refine ⟨updateSlabTx_bounds snapshot used s.shards store (store.slabs.id_lt _ found)
    bounds.toShardBounds, ?_, ?_⟩
  · rw [updateSlabTx, slices, objects]; exact bounds.objects
  · rw [updateSlabTx, slabs, slices]; exact bounds.slices

theorem RowBounds.of_same (bounds : RowBounds store) (same : SameObjectTables store next) :
    RowBounds next := by
  obtain ⟨slabs, shards, sectors, slices, objects⟩ := same
  exact ⟨⟨by rw [shards, slabs]; exact bounds.slabs, by rw [shards, sectors]; exact bounds.sectors⟩,
    by rw [slices, objects]; exact bounds.objects, by rw [slabs, slices]; exact bounds.slices⟩

/-- Stores the store's writes reach from the empty store. -/
inductive StoreReached : SQLStore → Prop where
  | empty : StoreReached SQLStore.empty
  | updateObject {store next : SQLStore} {key : String} {o : Stores.Object Key}
      {used : ContractMap} : StoreReached store →
      store.UpdateObject codec key o used = .ok next → StoreReached next
  | removeObject {store next : SQLStore} {key : String} : StoreReached store →
      store.RemoveObject key = .ok next → StoreReached next
  | updateSlab {store next : SQLStore} {s : Slab Key} {used : ContractMap} : StoreReached store →
      store.UpdateSlab codec s used = .ok next → StoreReached next
  | ledger {store : SQLStore} (write : Write Key) : StoreReached store →
      write.touchesSlabs = false → StoreReached (write.apply codec store)

end Reached

end Renterd.Stores
