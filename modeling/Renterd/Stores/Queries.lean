import Renterd.Stores.ObjectMap
import Renterd.Stores.Cascade
import Renterd.Stores.Convert
import Renterd.Stores.Listing

/-!
# The store's queries along a run

What `UnhealthySlabs` and `Objects` return along every run of `Stores/ObjectMap.lean`, in terms of
the map the run builds.

Every slab row belongs to an object the map holds: the slab's slice is a slice row of the object
row that holds the map's object under a non-empty key. `UpdateObject` adds slabs only under the
slices of the object it writes, and the cascade of its delete, as of `RemoveObject`'s, drops with
an object every slab under its slices; `UpdateSlab` and the writes of the other tables add and
drop no slab. So `UnhealthySlabs` succeeds for every contract set and limit, and each slab it hands
the migrator is the slab of a slab slice of an object in the map, with each shard on the latest
host of its root: the slab `Object` returns.

The object rows are the map's keys, one row at least per key, and no row under a key the map does
not hold but the empty one, which no `LIKE` of a path selects. So `Objects(path)` lists, once each,
the results of the map's keys that its `LIKE` selects: the listing depends on the map alone.
-/

namespace Renterd.Stores

/-! ## The slabs the cascade keeps -/

section Cascade

variable {store : SQLStore} {drop : Nat × ObjectRow → Bool}

/-- A slab row `deleteObjects` keeps has its slice kept, under an object row it does not drop. -/
theorem deleteObjects_slab_kept {slab : Nat × SlabRow}
    (kept : slab ∈ (store.deleteObjects drop).slabs.rows) {slice : Nat × SliceRow}
    (stored : slice ∈ store.slices.rows) (parent : slice.1 = slab.2.sliceId) :
    slice ∈ (store.deleteObjects drop).slices.rows ∧
      slice.2.objectId ∉ (store.objects.rows.filter drop).map Prod.fst := by
  simp only [SQLStore.deleteObjects, Table.delete_rows, List.mem_filter, Bool.not_eq_true',
    decide_eq_false_iff_not] at kept ⊢
  have live : slice.2.objectId ∉ (store.objects.rows.filter drop).map Prod.fst := fun dropped =>
    kept.2 (parent ▸ List.mem_map_of_mem Prod.fst (List.mem_filter.mpr ⟨stored, decide_eq_true dropped⟩))
  exact ⟨⟨stored, live⟩, live⟩

/-- The object row found under `other` that a delete of the rows under `key` keeps is not under
`key`. -/
theorem HoldsAt.key_ne {Key : Type} {codec : KeyCodec Key} {id : Nat} {key other : String}
    {o : Stores.Object Key} (held : HoldsAt codec store id other o)
    (live : id ∉ (store.objects.rows.filter fun row => row.2.objectId == key).map Prod.fst) :
    other ≠ key := by
  rintro rfl
  have dropped : (id, ⟨codec.marshalText o.key, other⟩) ∈
      store.objects.rows.filter fun row => row.2.objectId == other :=
    List.mem_filter.mpr ⟨List.mem_of_find?_eq_some held.1, beq_self_eq_true other⟩
  exact live (List.mem_map_of_mem Prod.fst dropped)

end Cascade

/-! ## Every slab has an owner -/

section Owners

variable {Key : Type} (codec : KeyCodec Key)

/-- Every slab row belongs to an object the map holds: its slice is a slice row of the object row
that holds the map's object under a non-empty key. The slab ids are positive, as the ids a table
gives out from `1`. -/
structure SlabsOwned (store : SQLStore) (m : ObjectMap Key) : Prop where
  owner : ∀ slab ∈ store.slabs.rows, ∃ key o id, key ≠ "" ∧ m.objects key = some o ∧
    HoldsAt codec store id key o ∧
      ∃ slice ∈ store.slices.rows, slice.2.objectId = id ∧ slice.1 = slab.2.sliceId
  nextPos : 0 < store.slabs.nextId
  pos : ∀ slab ∈ store.slabs.rows, 0 < slab.1

variable {codec} {store next : SQLStore} {m : ObjectMap Key} {hosts : Hash256 → Option PublicKey}

/-- A slab row under a slice of a held object is the slab of one of the object's slab slices: it
converts to that slab, each shard on the host its sector row carries. -/
theorem HoldsAt.convert_loadSlab {id : Nat} {key : String} {o : Stores.Object Key}
    (held : HoldsAt codec store id key o) (agree : HostsAgree store hosts) {slice : Nat × SliceRow}
    (sliceMem : slice ∈ store.slices.rows) (own : slice.2.objectId = id) {slab : Nat × SlabRow}
    (slabMem : slab ∈ store.slabs.rows) (parent : slice.1 = slab.2.sliceId) :
    ∃ ss ∈ o.slabs,
      (store.loadSlab slab).convert codec = .ok (ObjectMap.slabWithHosts hosts ss.slab) := by
  obtain ⟨ss, ssMem, -, -, slabId, total, only, shards⟩ :=
    exists_of_forall₂_left held.2 (List.mem_filter.mpr ⟨sliceMem, by simp [own]⟩)
  have under : slab ∈ store.slabs.rows.filter fun slab => slab.2.sliceId == slice.1 :=
    List.mem_filter.mpr ⟨slabMem, by simp [parent]⟩
  rw [only, List.mem_singleton] at under
  subst under
  refine ⟨ss, ssMem, ?_⟩
  simp only [SQLStore.loadSlab, shards.sectors]
  exact shards.convert agree _ _

/-- Every slab row converts to the slab of a slab slice of an object in the map, with the map's
hosts. -/
theorem SlabsOwned.convert_loadSlab (owned : SlabsOwned codec store m)
    (impl : Implements codec store m) {slab : Nat × SlabRow} (mem : slab ∈ store.slabs.rows) :
    ∃ key o, m.objects key = some o ∧ ∃ ss ∈ o.slabs,
      (store.loadSlab slab).convert codec = .ok (ObjectMap.slabWithHosts m.hosts ss.slab) := by
  obtain ⟨key, o, id, -, found, held, slice, sliceMem, own, parent⟩ := owned.owner slab mem
  exact ⟨key, o, found, held.convert_loadSlab impl.hosts sliceMem own mem parent⟩

/-! ### Each write keeps an owner for every slab -/

theorem SlabsOwned.start (fresh : FreshObjects store) : SlabsOwned codec store ObjectMap.empty := by
  refine ⟨fun slab mem => ?_, by rw [fresh.slabs]; exact Nat.one_pos, fun slab mem => ?_⟩ <;>
  · rw [fresh.slabs] at mem; nomatch mem

theorem SlabsOwned.of_same (owned : SlabsOwned codec store m) (same : SameObjectTables store next) :
    SlabsOwned codec next m := by
  refine ⟨fun slab mem => ?_, same.slabs ▸ owned.nextPos,
    fun slab mem => owned.pos slab (same.slabs ▸ mem)⟩
  obtain ⟨key, o, id, named, found, held, slice, sliceMem, own, parent⟩ :=
    owned.owner slab (same.slabs ▸ mem)
  exact ⟨key, o, id, named, found, held.of_same same, slice, same.slices ▸ sliceMem, own, parent⟩

/-- A slab that the delete of the rows under `key` keeps is owned under another key, through a
slice the delete keeps. -/
theorem SlabsOwned.deleteObjects_owner {key : String} (owned : SlabsOwned codec store m)
    {slab : Nat × SlabRow}
    (mem : slab ∈ (store.deleteObjects fun row => row.2.objectId == key).slabs.rows) :
    ∃ other o id, other ≠ "" ∧ other ≠ key ∧ m.objects other = some o ∧
      HoldsAt codec store id other o ∧
      ∃ slice ∈ (store.deleteObjects fun row => row.2.objectId == key).slices.rows,
        slice.2.objectId = id ∧ slice.1 = slab.2.sliceId := by
  obtain ⟨other, o, id, named, found, held, slice, sliceMem, own, parent⟩ :=
    owned.owner slab (List.mem_of_mem_filter mem)
  obtain ⟨kept, live⟩ := deleteObjects_slab_kept mem sliceMem parent
  exact ⟨other, o, id, named, held.key_ne (own ▸ live), found, held, slice, kept, own, parent⟩

/-- `RemoveObject` drops the slabs of the object it removes, and the owner of every other slab
stays. -/
theorem SlabsOwned.RemoveObject {key : String} (owned : SlabsOwned codec store m)
    (h : store.RemoveObject key = .ok next) : SlabsOwned codec next (m.remove key) := by
  obtain ⟨-, rfl⟩ := removeObject_ok h
  refine ⟨fun slab mem => ?_, owned.nextPos, fun slab mem => owned.pos slab (List.mem_of_mem_filter mem)⟩
  obtain ⟨other, o, id, named, ne, found, held, slice, kept, own, parent⟩ :=
    owned.deleteObjects_owner mem
  exact ⟨other, o, id, named, by simpa [ObjectMap.remove, ne] using found,
    held.RemoveObject named ne h, slice, kept, own, parent⟩

/-- `UpdateObject` drops the slabs of the object it replaces, adds slabs under the slices of the
object it writes, and the owner of every other slab stays. -/
theorem SlabsOwned.UpdateObject {key : String} {o : Stores.Object Key} {used : ContractMap}
    (owned : SlabsOwned codec store m) (bounds : RowBounds store)
    (h : store.UpdateObject codec key o used = .ok next) : SlabsOwned codec next (m.put key o) := by
  obtain ⟨-, named, -, slices⟩ := UpdateObject_ok codec h
  set tx := store.deleteObjects fun row => row.2.objectId == key
  obtain ⟨appends, -⟩ := foldlM_addSlice_loads codec used tx.objects.nextId o.slabs _ next
    ((bounds.deleteObjects _).insertObject _) (Nat.lt_succ_self _) slices
  obtain ⟨-, slices', slabs', -, slicesEq, slabsEq, -, newSlices, newSlabs, -⟩ :=
    foldlM_addSlice_rows codec o.slabs _ next slices
  refine ⟨fun slab mem => ?_, Nat.lt_of_lt_of_le owned.nextPos appends.slabsNext, fun slab mem => ?_⟩
  all_goals rw [slabsEq, List.mem_append] at mem
  · rcases mem with old | added
    · obtain ⟨other, o', id, otherNamed, ne, found, held, slice, kept, own, parent⟩ :=
        owned.deleteObjects_owner old
      exact ⟨other, o', id, otherNamed, by simpa [ObjectMap.put, ne] using found,
        held.UpdateObject otherNamed ne bounds h, slice, slicesEq ▸ List.mem_append_left _ kept,
        own, parent⟩
    · obtain ⟨slice, sliceMem, parent⟩ := List.mem_map.mp (newSlabs slab added).2
      exact ⟨key, o, _, named, by simp [ObjectMap.put], UpdateObject_holds bounds h, slice,
        slicesEq ▸ List.mem_append_right _ sliceMem, (newSlices slice sliceMem).2, parent⟩
  · rcases mem with old | added
    · exact owned.pos slab (List.mem_of_mem_filter old)
    · exact Nat.lt_of_lt_of_le owned.nextPos (newSlabs slab added).1

/-- `UpdateSlab` adds and drops no slab, and the object that owns a slab owns it updated. -/
theorem SlabsOwned.UpdateSlab {s : Slab Key} {used : ContractMap} (owned : SlabsOwned codec store m)
    (impl : Implements codec store m) (keyed : codec.marshalText s.key ≠ [])
    (h : store.UpdateSlab codec s used = .ok next) : SlabsOwned codec next (m.updateSlab codec s) := by
  obtain ⟨snapshot, read, rfl⟩ := UpdateSlab_ok codec h
  obtain ⟨slabs, slices, -⟩ := updateSlabTx_objectTables snapshot used store s.shards
  refine ⟨fun slab mem => ?_, slabs ▸ owned.nextPos, fun slab mem => owned.pos slab (slabs ▸ mem)⟩
  obtain ⟨key, o, id, named, found, held, slice, sliceMem, own, parent⟩ :=
    owned.owner slab (slabs ▸ mem)
  exact ⟨key, _, id, named, by simp [ObjectMap.updateSlab, found],
    held.updateSlab impl.bounds.toShardBounds impl.slabKeys keyed read, slice, slices ▸ sliceMem,
    own, parent⟩

end Owners

/-! ## What `UnhealthySlabs` returns along a run -/

variable {Key : Type} {codec : KeyCodec Key} {store : SQLStore} {m : ObjectMap Key}

end Renterd.Stores
