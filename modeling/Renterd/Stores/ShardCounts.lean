import Renterd.Stores.Writes

/-!
# Shard counts

A slab's shards are its rows in `shards`, read back in id order by `Preload("Shards")`.
`UpdateObject` writes one row per shard and records `uint8(len(ss.Shards))` as `TotalShards`;
`UpdateSlab` adds a row for every shard whose sector the slab's stored shards do not name,
once per occurrence, since the set of named sectors is read once before its loop. The count
therefore stays equal to `TotalShards` only for slabs of fewer than 256 shards and slab updates
that name no new root; a new root given twice gets two rows.
-/

namespace Renterd.Stores

namespace SQLStore

variable (store : SQLStore)

/-- The number of shard rows of a slab. -/
def shardLinks (slabId : Nat) : Nat :=
  (store.shards.rows.filter fun shard => shard.2.slabId == slabId).length

/-- The sector that `Where(dbSector{Root: root})` finds. -/
def sectorOf? (root : Hash256) : Option Nat :=
  (store.sectors.take? fun row => row.2.root == root.bytes).map Prod.fst

/-- Whether the slab has a shard row on the sector of `root`. -/
def linksRoot (slabId : Nat) (root : Hash256) : Bool :=
  match store.sectorOf? root with
  | some sectorId => store.shards.rows.any fun shard =>
      shard.2.slabId == slabId && shard.2.sectorId == sectorId
  | none => false

end SQLStore

/-- Each slab has as many shard rows as its `TotalShards`. -/
def ShardCounts (store : SQLStore) : Prop :=
  ∀ slab ∈ store.slabs.rows, store.shardLinks slab.1 = slab.2.totalShards.toNat

instance : DecidablePred ShardCounts := fun store =>
  inferInstanceAs
    (Decidable (∀ slab ∈ store.slabs.rows, store.shardLinks slab.1 = slab.2.totalShards.toNat))

/-! ## Sectors during a transaction -/

section Sectors

variable (tx : SQLStore) (shard : Sector)

@[simp] theorem upsertSector_shards : (upsertSector tx shard).1.shards = tx.shards := by
  unfold upsertSector; split <;> rfl

@[simp] theorem upsertSector_slabs : (upsertSector tx shard).1.slabs = tx.slabs := by
  unfold upsertSector; split <;> rfl

@[simp] theorem upsertSector_slices : (upsertSector tx shard).1.slices = tx.slices := by
  unfold upsertSector; split <;> rfl

@[simp] theorem upsertSector_objects : (upsertSector tx shard).1.objects = tx.objects := by
  unfold upsertSector; split <;> rfl

theorem upsertSector_id :
    (upsertSector tx shard).2 = (tx.sectorOf? shard.root).getD tx.sectors.nextId := by
  unfold upsertSector SQLStore.sectorOf?; split <;> simp_all

theorem upsertSector_nextId : tx.sectors.nextId ≤ (upsertSector tx shard).1.sectors.nextId := by
  unfold upsertSector; split <;> simp

/-- The sector row each root finds after an upsert: the shard's own for its root, with the shard's
host, and the one it found before for every other root. -/
theorem upsertSector_take (root : Hash256) :
    (upsertSector tx shard).1.sectors.take? (fun row => row.2.root == root.bytes) =
      if root = shard.root then some ((upsertSector tx shard).2, ⟨shard.host, shard.root.bytes⟩)
      else tx.sectors.take? fun row => row.2.root == root.bytes := by
  unfold upsertSector
  split
  · rename_i id row found
    have rowRoot : row.root = shard.root.bytes := by simpa using List.find?_some found
    simp only [Table.take?, Table.update_rows, List.find?_map]
    have sameRoot : ((fun r : Nat × SectorRow => r.2.root == root.bytes) ∘
        fun r : Nat × SectorRow =>
        (r.1, if (r.1 == id) = true then { r.2 with latestHost := shard.host } else r.2)) =
        fun r => r.2.root == root.bytes := by
      funext r; simp only [Function.comp]; split <;> rfl
    rw [sameRoot]
    split_ifs with rootEq
    · subst rootEq
      simp only [Table.take?] at found
      simp [found, rowRoot]
    · cases other : tx.sectors.rows.find? (fun r => r.2.root == root.bytes) with
      | none => rfl
      | some r =>
          have differs : r.1 ≠ id := fun same => by
            have root' := List.find?_some other
            rw [tx.sectors.eq_of_id_eq (List.mem_of_find?_eq_some other)
              (List.mem_of_find?_eq_some found) same, beq_iff_eq, rowRoot] at root'
            exact rootEq (Hash256.bytes_inj.mp root'.symm)
          simp [differs]
  · rename_i missing
    simp only [Table.take?, Table.insert_rows, List.find?_append]
    split_ifs with rootEq
    · subst rootEq
      rw [show tx.sectors.rows.find? _ = none from missing]
      simp
    · simp [Ne.symm rootEq, Hash256.bytes_inj]

/-- The sector of every root is kept, and the shard's root gets one if it had none. -/
theorem upsertSector_sectorOf (root : Hash256) :
    (upsertSector tx shard).1.sectorOf? root =
      (tx.sectorOf? root).or (if root = shard.root then some tx.sectors.nextId else none) := by
  simp only [SQLStore.sectorOf?, upsertSector_take, upsertSector_id]
  split_ifs with rootEq
  · subst rootEq
    cases tx.sectors.take? (fun row => row.2.root == shard.root.bytes) <;> rfl
  · cases (tx.sectors.take? fun row => row.2.root == root.bytes).map Prod.fst <;> rfl

theorem upsertSector_id_lt :
    (upsertSector tx shard).2 < (upsertSector tx shard).1.sectors.nextId := by
  unfold upsertSector
  split
  · rename_i id _ found
    exact tx.sectors.id_lt _ (List.mem_of_find?_eq_some found)
  · simp

end Sectors

/-- `tx` keeps the sector of every root of `orig`, and gives a root that `orig` has no sector for
only a new one. -/
structure SectorsExtend (orig tx : SQLStore) : Prop where
  nextId : orig.sectors.nextId ≤ tx.sectors.nextId
  known : ∀ root id, orig.sectorOf? root = some id → tx.sectorOf? root = some id
  fresh : ∀ root id, orig.sectorOf? root = none → tx.sectorOf? root = some id →
    orig.sectors.nextId ≤ id

namespace SectorsExtend

variable {orig tx : SQLStore}

theorem of_sectors {next : SQLStore} (ext : SectorsExtend orig tx)
    (same : next.sectors = tx.sectors) : SectorsExtend orig next := by
  have sectorOf : next.sectorOf? = tx.sectorOf? := by
    funext root; simp only [SQLStore.sectorOf?, same]
  exact ⟨same ▸ ext.nextId, sectorOf ▸ ext.known, sectorOf ▸ ext.fresh⟩

theorem refl (orig : SQLStore) : SectorsExtend orig orig :=
  ⟨le_refl _, fun _ _ => id, fun _ _ none some => by simp_all⟩

theorem upsert (ext : SectorsExtend orig tx) (shard : Sector) :
    SectorsExtend orig (upsertSector tx shard).1 := by
  refine ⟨ext.nextId.trans (upsertSector_nextId tx shard), fun root id known => ?_,
    fun root id none found => ?_⟩
  · rw [upsertSector_sectorOf, ext.known root id known, Option.or_some]
  · rw [upsertSector_sectorOf] at found
    cases old : tx.sectorOf? root with
    | some old' => simp only [old, Option.or_some, Option.some.injEq] at found
                   exact found ▸ ext.fresh root old' none old
    | none =>
        simp only [old, Option.none_or] at found
        split_ifs at found
        exact (Option.some.inj found) ▸ ext.nextId

/-- The sector a shard lands on is one that the stored slab's shards name exactly when the slab
links the shard's root. -/
theorem names_iff_linksRoot (ext : SectorsExtend orig tx)
    (below : ∀ row ∈ orig.shards.rows, row.2.sectorId < orig.sectors.nextId) (slabId : Nat)
    (shard : Sector) :
    ((orig.shards.rows.filter fun row => row.2.slabId == slabId).any fun row =>
      row.2.sectorId == (upsertSector tx shard).2) = orig.linksRoot slabId shard.root := by
  rw [List.any_filter, upsertSector_id]
  unfold SQLStore.linksRoot
  cases known : orig.sectorOf? shard.root with
  | some id => rw [ext.known _ _ known]; rfl
  | none =>
      have fresh : orig.sectors.nextId ≤ (tx.sectorOf? shard.root).getD tx.sectors.nextId := by
        cases found : tx.sectorOf? shard.root with
        | some id => exact ext.fresh _ _ known found
        | none => exact ext.nextId
      refine List.any_eq_false.mpr fun row mem matched => ?_
      simp only [Bool.and_eq_true, beq_iff_eq] at matched
      have := below row mem
      omega

end SectorsExtend

/-! ## One shard of `UpdateSlab` -/

section UpdateShard

variable (snapshot : SlabSnapshot) (used : ContractMap) (tx : SQLStore) (shard : Sector)

theorem updateShard_fields :
    let upserted := upsertSector tx shard
    let next := updateShard snapshot used tx shard
    next.sectors = upserted.1.sectors ∧ next.slabs = tx.slabs ∧
      next.shards = (if snapshot.shards.any (fun row => row.2.sectorId == upserted.2) then tx.shards
        else tx.shards.insert ⟨snapshot.slabId, upserted.2⟩) ∧
      next.slices = tx.slices ∧ next.objects = tx.objects := by
  have shards := upsertSector_shards tx shard
  have slabs := upsertSector_slabs tx shard
  have slices := upsertSector_slices tx shard
  have objects := upsertSector_objects tx shard
  unfold updateShard
  generalize upsertSector tx shard = upserted at shards slabs slices objects ⊢
  obtain ⟨⟨_, _, _, _, _, _, _, _, _, _, _, _⟩, sectorId⟩ := upserted
  dsimp only at shards slabs slices objects ⊢
  subst shards slabs slices objects
  split <;> split <;> split <;> exact ⟨rfl, rfl, rfl, rfl, rfl⟩

end UpdateShard

@[simp] theorem updateSlabTx_nil (snapshot : SlabSnapshot) (used : ContractMap) (tx : SQLStore) :
    updateSlabTx snapshot used tx [] = tx := rfl

@[simp] theorem updateSlabTx_cons (snapshot : SlabSnapshot) (used : ContractMap) (tx : SQLStore)
    (shard : Sector) (rest : List Sector) :
    updateSlabTx snapshot used tx (shard :: rest) =
      updateSlabTx snapshot used (updateShard snapshot used tx shard) rest := rfl

theorem shardLinks_insert (store : SQLStore) (row : ShardRow) (slabId : Nat) :
    (store.shards.insert row).rows.filter (fun shard => shard.2.slabId == slabId) =
      store.shards.rows.filter (fun shard => shard.2.slabId == slabId) ++
        if row.slabId = slabId then [(store.shards.nextId, row)] else [] := by
  simp only [Table.insert_rows, List.filter_append, List.filter_cons, List.filter_nil, beq_iff_eq]

/-- The transaction adds to the slab one shard row per shard whose root the slab did not link
before it, and none to any other slab. -/
theorem updateSlabTx_shardLinks {orig : SQLStore}
    (below : ∀ row ∈ orig.shards.rows, row.2.sectorId < orig.sectors.nextId)
    (snapshot : SlabSnapshot) (used : ContractMap)
    (read : snapshot.shards = orig.shards.rows.filter fun row => row.2.slabId == snapshot.slabId) :
    ∀ (shards : List Sector) (tx : SQLStore), SectorsExtend orig tx →
      let next := updateSlabTx snapshot used tx shards
      SectorsExtend orig next ∧ next.slabs = tx.slabs ∧
        next.shardLinks snapshot.slabId = tx.shardLinks snapshot.slabId +
          (shards.filter fun shard => !orig.linksRoot snapshot.slabId shard.root).length ∧
        ∀ other, other ≠ snapshot.slabId → next.shardLinks other = tx.shardLinks other
  | [], tx, ext => ⟨ext, rfl, rfl, fun _ _ => rfl⟩
  | shard :: rest, tx, ext => by
      obtain ⟨sectors, slabs, shards, -⟩ := updateShard_fields snapshot used tx shard
      have names := ext.names_iff_linksRoot below snapshot.slabId shard
      rw [← read] at names
      obtain ⟨ext', slabs', own, others⟩ := updateSlabTx_shardLinks below snapshot used read rest
        (updateShard snapshot used tx shard) ((ext.upsert shard).of_sectors sectors)
      simp only [updateSlabTx_cons]
      refine ⟨ext', slabs'.trans slabs, ?_, fun other ne => ?_⟩
      · rw [own, SQLStore.shardLinks, SQLStore.shardLinks, shards, List.filter_cons, names]
        cases orig.linksRoot snapshot.slabId shard.root <;>
          simp [shardLinks_insert, Nat.add_assoc, Nat.add_comm 1]
      · rw [others other ne, SQLStore.shardLinks, SQLStore.shardLinks, shards]
        split_ifs
        · rfl
        · simp [shardLinks_insert, Ne.symm ne]

/-! ## The invariant -/

/-- Shard rows point below the next slab and sector ids, so rows added later never meet them. -/
structure ShardBounds (store : SQLStore) : Prop where
  slabs : ∀ row ∈ store.shards.rows, row.2.slabId < store.slabs.nextId
  sectors : ∀ row ∈ store.shards.rows, row.2.sectorId < store.sectors.nextId

/-- Each slab has `TotalShards` shard rows, and the shard rows have their bounds. -/
structure SlabInv (store : SQLStore) extends ShardBounds store : Prop where
  counts : ShardCounts store

section Preservation

variable {store next : SQLStore}

theorem ShardBounds.of_eq (bounds : ShardBounds store) (slabs : next.slabs = store.slabs)
    (shards : next.shards = store.shards) (sectors : next.sectors = store.sectors) :
    ShardBounds next :=
  ⟨slabs ▸ shards ▸ bounds.slabs, sectors ▸ shards ▸ bounds.sectors⟩

theorem SlabInv.of_eq (inv : SlabInv store) (slabs : next.slabs = store.slabs)
    (shards : next.shards = store.shards) (sectors : next.sectors = store.sectors) :
    SlabInv next := by
  refine ⟨inv.toShardBounds.of_eq slabs shards sectors, fun slab mem => ?_⟩
  simp only [SQLStore.shardLinks, shards]
  exact inv.counts slab (slabs ▸ mem)

/-- One more shard row keeps the bounds when it points below them. -/
theorem ShardBounds.insert (bounds : ShardBounds store) (row : ShardRow)
    (slab : row.slabId < next.slabs.nextId) (sector : row.sectorId < next.sectors.nextId)
    (slabs : store.slabs.nextId ≤ next.slabs.nextId)
    (sectors : store.sectors.nextId ≤ next.sectors.nextId)
    (shards : next.shards = store.shards.insert row) : ShardBounds next := by
  refine ⟨fun shard mem => ?_, fun shard mem => ?_⟩ <;>
    simp only [shards, Table.insert_rows, List.mem_append, List.mem_singleton] at mem <;>
    rcases mem with old | rfl
  · exact lt_of_lt_of_le (bounds.slabs shard old) slabs
  · exact slab
  · exact lt_of_lt_of_le (bounds.sectors shard old) sectors
  · exact sector

/-- Deleting objects deletes whole slabs with all their shard rows. -/
theorem SlabInv.deleteObjects (inv : SlabInv store) (drop : Nat × ObjectRow → Bool) :
    SlabInv (store.deleteObjects drop) := by
  refine ⟨⟨fun shard mem => inv.slabs shard (List.mem_of_mem_filter mem),
    fun shard mem => inv.sectors shard (List.mem_of_mem_filter mem)⟩, fun slab mem => ?_⟩
  simp only [SQLStore.deleteObjects, Table.delete_rows, List.mem_filter, Bool.not_eq_true',
    decide_eq_false_iff_not] at mem
  rw [← inv.counts slab mem.1, SQLStore.shardLinks, SQLStore.shardLinks]
  simp only [SQLStore.deleteObjects, Table.delete_rows, List.filter_filter]
  congr 1
  refine List.filter_congr fun shard _ => ?_
  by_cases same : shard.2.slabId = slab.1
  · rw [same, decide_eq_false (store.slabs.id_not_mem_filter ?_), Bool.not_false, Bool.and_true]
    intro other otherMem same'
    rw [store.slabs.eq_of_id_eq otherMem mem.1 same']
    exact decide_eq_false mem.2
  · rw [beq_false_of_ne same, Bool.false_and]

theorem addShard_fields (used : ContractMap) (slabId : Nat) (tx : SQLStore) (shard : Sector) :
    let upserted := upsertSector tx shard
    let next := addShard used slabId tx shard
    next.sectors = upserted.1.sectors ∧ next.slabs = tx.slabs ∧
      next.shards = tx.shards.insert ⟨slabId, upserted.2⟩ ∧
      next.slices = tx.slices ∧ next.objects = tx.objects := by
  have shards := upsertSector_shards tx shard
  have slabs := upsertSector_slabs tx shard
  have slices := upsertSector_slices tx shard
  have objects := upsertSector_objects tx shard
  unfold addShard
  generalize upsertSector tx shard = upserted at shards slabs slices objects ⊢
  obtain ⟨⟨_, _, _, _, _, _, _, _, _, _, _, _⟩, sectorId⟩ := upserted
  dsimp only at shards slabs slices objects ⊢
  subst shards slabs slices objects
  split <;> split <;> exact ⟨rfl, rfl, rfl, rfl, rfl⟩

/-- The shards of a new slab: each gets a row under the slab's id. -/
theorem foldl_addShard (used : ContractMap) (slabId : Nat) :
    ∀ (shards : List Sector) (tx : SQLStore), slabId < tx.slabs.nextId → ShardBounds tx →
      let next := shards.foldl (addShard used slabId) tx
      ShardBounds next ∧ next.slabs = tx.slabs ∧
        ∀ other, next.shardLinks other =
          tx.shardLinks other + if slabId = other then shards.length else 0
  | [], tx, _, bounds => ⟨bounds, rfl, fun _ => by simp⟩
  | shard :: rest, tx, below, bounds => by
      obtain ⟨sectors, slabs, shards, -⟩ := addShard_fields used slabId tx shard
      have midBounds : ShardBounds (addShard used slabId tx shard) :=
        bounds.insert _ (slabs ▸ below) (sectors ▸ upsertSector_id_lt tx shard) (slabs ▸ le_refl _)
          (sectors ▸ upsertSector_nextId tx shard) shards
      obtain ⟨nextBounds, nextSlabs, links⟩ :=
        foldl_addShard used slabId rest _ (slabs ▸ below) midBounds
      refine ⟨nextBounds, nextSlabs.trans slabs, fun other => ?_⟩
      rw [List.foldl_cons, links other, SQLStore.shardLinks, SQLStore.shardLinks, shards,
        shardLinks_insert]
      split_ifs <;>
        simp only [List.length_append, List.length_singleton, List.length_nil, List.length_cons]
      omega

/-- A slice of fewer than 256 shards adds a slab whose shard rows are as many as its
`TotalShards`. -/
theorem SlabInv.addSlice {Key : Type} {codec : KeyCodec Key} {used : ContractMap} {objectId : Nat}
    {ss : SlabSlice Key} (inv : SlabInv store) (small : ss.slab.shards.length < 256)
    (h : addSlice codec used objectId store ss = .ok next) : SlabInv next := by
  obtain ⟨-, base, baseEq, rfl⟩ := addSlice_ok codec h
  have baseSlabs : base.slabs = store.slabs.insert ⟨store.slices.nextId,
      codec.marshalText ss.slab.key, ss.slab.minShards, UInt8.ofNat ss.slab.shards.length⟩ := by
    rw [baseEq]
  have baseShards : base.shards = store.shards := by rw [baseEq]
  have baseBounds : ShardBounds base := by
    refine ⟨fun shard mem => ?_, fun shard mem => ?_⟩ <;> rw [baseShards] at mem
    · rw [baseSlabs, Table.insert_nextId]; exact Nat.lt_succ_of_lt (inv.slabs shard mem)
    · rw [baseEq]; exact inv.sectors shard mem
  obtain ⟨bounds, slabs, links⟩ := foldl_addShard used store.slabs.nextId ss.slab.shards base
    (by rw [baseSlabs, Table.insert_nextId]; exact Nat.lt_succ_self _) baseBounds
  refine ⟨bounds, fun slab mem => ?_⟩
  rw [slabs, baseSlabs, Table.insert_rows, List.mem_append, List.mem_singleton] at mem
  rw [links, SQLStore.shardLinks, baseShards]
  rcases mem with old | rfl
  · rw [if_neg (Nat.ne_of_gt (store.slabs.id_lt slab old)), Nat.add_zero]
    exact inv.counts slab old
  · have none : store.shards.rows.filter (fun shard => shard.2.slabId == store.slabs.nextId) = [] :=
      List.filter_eq_nil_iff.mpr fun shard mem => by simpa using Nat.ne_of_lt (inv.slabs shard mem)
    simp only [none, if_pos, List.length_nil, Nat.zero_add]
    exact (Nat.mod_eq_of_lt small).symm

theorem SlabInv.UpdateObject {Key : Type} {codec : KeyCodec Key} {key : String}
    {o : Stores.Object Key} {used : ContractMap} (inv : SlabInv store)
    (small : ∀ ss ∈ o.slabs, ss.slab.shards.length < 256)
    (h : store.UpdateObject codec key o used = .ok next) : SlabInv next := by
  obtain ⟨-, -, -, slices⟩ := UpdateObject_ok codec h
  refine foldlM_invariant (fun _ ss _ mem inv step => inv.addSlice (small ss mem) step) ?_ slices
  exact (inv.deleteObjects _).of_eq rfl rfl rfl

theorem ShardBounds.mono (bounds : ShardBounds store) (shards : next.shards = store.shards)
    (slabs : store.slabs.nextId ≤ next.slabs.nextId)
    (sectors : store.sectors.nextId ≤ next.sectors.nextId) : ShardBounds next :=
  ⟨fun row mem => lt_of_lt_of_le (bounds.slabs row (shards ▸ mem)) slabs,
    fun row mem => lt_of_lt_of_le (bounds.sectors row (shards ▸ mem)) sectors⟩

/-- The rows the transaction adds point at the slab it read and at sectors it upserted. -/
theorem updateSlabTx_bounds (snapshot : SlabSnapshot) (used : ContractMap) :
    ∀ (shards : List Sector) (tx : SQLStore), snapshot.slabId < tx.slabs.nextId →
      ShardBounds tx → ShardBounds (updateSlabTx snapshot used tx shards)
  | [], _, _, bounds => bounds
  | shard :: rest, tx, below, bounds => by
      obtain ⟨sectors, slabs, shards, -⟩ := updateShard_fields snapshot used tx shard
      refine updateSlabTx_bounds snapshot used rest _ (slabs ▸ below) ?_
      split_ifs at shards
      · exact bounds.mono shards (slabs ▸ le_refl _) (sectors ▸ upsertSector_nextId tx shard)
      · exact bounds.insert _ (slabs ▸ below) (sectors ▸ upsertSector_id_lt tx shard)
          (slabs ▸ le_refl _) (sectors ▸ upsertSector_nextId tx shard) shards

end Preservation

/-! ## Writes that leave the slabs alone -/

/-- The writes of objects and slabs. -/
def Write.touchesSlabs {Key : Type} : Write Key → Bool
  | .updateObject .. | .removeObject _ | .updateSlab .. => true
  | _ => false

/-- `next` has the object, slice, slab, shard and sector tables of `store`. -/
structure SameObjectTables (store next : SQLStore) : Prop where
  slabs : next.slabs = store.slabs
  shards : next.shards = store.shards
  sectors : next.sectors = store.sectors
  slices : next.slices = store.slices
  objects : next.objects = store.objects

/-- The writes of the ledger and of contract sets leave the object tables. -/
theorem Write.apply_objectTables {Key : Type} (codec : KeyCodec Key) (write : Write Key)
    (store : SQLStore) (ledger : write.touchesSlabs = false) :
    SameObjectTables store (write.apply codec store) := by
  cases write with
  | addContract =>
      refine committed_induction (fun next h => ?_) ⟨rfl, rfl, rfl, rfl, rfl⟩
      obtain ⟨⟨_, _⟩, ok, rfl⟩ := map_eq_ok.mp h
      obtain ⟨-, -, rfl⟩ := addContract_ok ok
      exact ⟨rfl, rfl, rfl, rfl, rfl⟩
  | addRenewedContract =>
      refine committed_induction (fun next h => ?_) ⟨rfl, rfl, rfl, rfl, rfl⟩
      obtain ⟨⟨_, _⟩, ok, rfl⟩ := map_eq_ok.mp h
      obtain ⟨_, _, _, archived, removed, -, archive, remove, add⟩ := AddRenewedContract_ok ok
      obtain ⟨-, rfl⟩ := removeContract_ok remove
      obtain ⟨-, rfl⟩ := archiveContract_ok archive
      obtain ⟨-, -, rfl⟩ := addContract_ok add
      exact ⟨rfl, rfl, rfl, rfl, rfl⟩
  | removeContract =>
      refine committed_induction (fun next h => ?_) ⟨rfl, rfl, rfl, rfl, rfl⟩
      obtain ⟨-, rfl⟩ := removeContract_ok h
      exact ⟨rfl, rfl, rfl, rfl, rfl⟩
  | recordSpending record =>
      refine committed_induction (fun next h => ?_) ⟨rfl, rfl, rfl, rfl, rfl⟩
      obtain rfl | ⟨_, rfl⟩ := recordSpending_ok h <;> exact ⟨rfl, rfl, rfl, rfl, rfl⟩
  | setContractSet name ids pc =>
      cases pc with
      | create found =>
          simp only [Write.apply, SetContractSetPc.step, firstOrCreateSet]
          split <;> exact ⟨rfl, rfl, rfl, rfl, rfl⟩
      | _ => exact ⟨rfl, rfl, rfl, rfl, rfl⟩
  | _ => cases ledger

/-! ## Reachable stores -/

variable {Key : Type} (codec : KeyCodec Key)

/-- Stores reached from one without slabs by the store's writes, where every `UpdateObject`
writes slabs of fewer than 256 shards and every `UpdateSlab` names only roots its stored slab
links. -/
inductive SlabReached : SQLStore → Prop where
  | start {store : SQLStore} : store.slabs.rows = [] → store.shards.rows = [] →
      SlabReached store
  | updateObject {store next : SQLStore} {key : String} {o : Stores.Object Key}
      {used : ContractMap} : SlabReached store →
      (∀ ss ∈ o.slabs, ss.slab.shards.length < 256) →
      store.UpdateObject codec key o used = .ok next → SlabReached next
  | removeObject {store next : SQLStore} {key : String} : SlabReached store →
      store.RemoveObject key = .ok next → SlabReached next
  | updateSlab {store next : SQLStore} {s : Slab Key} {used : ContractMap}
      {snapshot : SlabSnapshot} : SlabReached store → readSlab codec store s used = .ok snapshot →
      (∀ shard ∈ s.shards, store.linksRoot snapshot.slabId shard.root) →
      store.UpdateSlab codec s used = .ok next → SlabReached next
  | ledger {store : SQLStore} (write : Write Key) : SlabReached store →
      write.touchesSlabs = false → SlabReached (write.apply codec store)

/-- What `UpdateSlab` does to the shard rows: one more for every shard whose root the slab does
not link, counted with repetition, and nothing to other slabs. -/
structure AddsUnlinkedShards (store : SQLStore) (s : Slab Key) (snapshot : SlabSnapshot)
    (next : SQLStore) : Prop where
  slabs : next.slabs = store.slabs
  own : next.shardLinks snapshot.slabId = store.shardLinks snapshot.slabId +
    (s.shards.filter fun shard => !store.linksRoot snapshot.slabId shard.root).length
  others : ∀ other, other ≠ snapshot.slabId → next.shardLinks other = store.shardLinks other

theorem UpdateSlab_adds_unlinked {store next : SQLStore} {s : Slab Key} {used : ContractMap}
    {snapshot : SlabSnapshot} (bounds : ShardBounds store)
    (read : readSlab codec store s used = .ok snapshot)
    (h : store.UpdateSlab codec s used = .ok next) :
    AddsUnlinkedShards store s snapshot next ∧ ShardBounds next := by
  obtain ⟨snapshot', read', rfl⟩ := UpdateSlab_ok codec h
  have same : snapshot = snapshot' := Except.ok.inj (read.symm.trans read')
  subst same
  obtain ⟨⟨row, found⟩, shards⟩ := readSlab_ok codec read
  obtain ⟨-, slabs, own, others⟩ :=
    updateSlabTx_shardLinks bounds.sectors snapshot used shards s.shards store (.refl store)
  exact ⟨⟨slabs, own, others⟩,
    updateSlabTx_bounds snapshot used s.shards store (store.slabs.id_lt _ found) bounds⟩

/-- In every reached store each slab has `TotalShards` shard rows, and an `UpdateSlab` adds a row
for every shard whose root its slab does not link. -/
structure SlabCounts (store : SQLStore) : Prop where
  counts : ShardCounts store
  updateSlab : ∀ (s : Slab Key) (used : ContractMap) (snapshot : SlabSnapshot) (next : SQLStore),
    readSlab codec store s used = .ok snapshot → store.UpdateSlab codec s used = .ok next →
    AddsUnlinkedShards store s snapshot next

theorem SlabReached.inv {store : SQLStore} (reached : SlabReached codec store) : SlabInv store := by
  induction reached with
  | start slabs shards =>
      exact ⟨⟨by simp [shards], by simp [shards]⟩, fun slab mem => by simp [slabs] at mem⟩
  | updateObject _ small h inv => exact inv.UpdateObject small h
  | removeObject _ h inv =>
      obtain ⟨-, rfl⟩ := removeObject_ok h
      exact inv.deleteObjects _
  | @updateSlab store next s used snapshot _ read linked h inv =>
      obtain ⟨⟨slabs, own, others⟩, bounds⟩ := UpdateSlab_adds_unlinked codec inv.toShardBounds read h
      refine ⟨bounds, fun slab mem => ?_⟩
      rw [slabs] at mem
      by_cases same : slab.1 = snapshot.slabId
      · rw [same, own, List.filter_eq_nil_iff.mpr fun shard mem => by simp [linked shard mem],
          List.length_nil, Nat.add_zero, ← same]
        exact inv.counts slab mem
      · rw [others _ same]
        exact inv.counts slab mem
  | ledger write _ ledger inv =>
      obtain ⟨slabs, shards, sectors, -⟩ := write.apply_objectTables codec _ ledger
      exact inv.of_eq slabs shards sectors

theorem slab_shard_counts {store : SQLStore} (reached : SlabReached codec store) :
    SlabCounts codec store := by
  have inv := reached.inv
  exact ⟨inv.counts, fun s used snapshot next read h =>
    (UpdateSlab_adds_unlinked codec inv.toShardBounds read h).1⟩

/-! ## A slab update with a new root -/

/-- Root `2, 2, ..., 2`. -/
def rootTwos : Hash256 := ⟨List.replicate 32 2, rfl⟩

/-- `UpdateSlab` of the slab of object `a` with one new root given twice. Its map of linked sectors
is built before the loop and never updated after a shard row is created, so both shards get a row
on the one new sector: the slab of `TotalShards` 1 ends with three rows, two of them on one
sector. -/
theorem UpdateSlab_repeated_root_links_twice :
    ∃ store next, SQLStore.empty.UpdateObject byteCodec "a" oneShardObject usedSeven = .ok store ∧
      ShardCounts store ∧
      store.UpdateSlab byteCodec ⟨9, 1, [⟨⟨1⟩, rootTwos⟩, ⟨⟨1⟩, rootTwos⟩]⟩ usedSeven = .ok next ∧
      next.shardLinks 1 = 3 ∧
      ¬ ((next.shards.rows.filter fun row => row.2.slabId == 1).map fun row => row.2.sectorId).Nodup ∧
      ¬ ShardCounts next :=
  ⟨_, _, rfl, by decide, rfl, by decide, by decide, by decide⟩

theorem oneShardObject_slab_counts :
    ∃ store, SQLStore.empty.UpdateObject byteCodec "a" oneShardObject usedSeven = .ok store ∧
      SlabReached byteCodec store ∧ SlabCounts byteCodec store := by
  have reached := @SlabReached.updateObject _ byteCodec SQLStore.empty _ "a" oneShardObject
    usedSeven (.start rfl rfl) (by decide) rfl
  exact ⟨_, rfl, reached, slab_shard_counts byteCodec reached⟩

end Renterd.Stores
