import Renterd.Stores.Retry

/-!
# The object store as a map

What the object tables are for: a map from object keys to objects, and for each sector root the
host of the shard that last wrote it. `Object(key)` should return the object stored under the key
with each shard on the latest host of its root. This module states that map (`ObjectMap`) and
proves that the SQL store implements it along every run of the store's calls from the empty
store, for every key but the empty one (which `Object` reads as the first stored object).

`UpdateObject` puts an object, `RemoveObject` erases a key, and `UpdateSlab` appends to the one
slab stored under the slab's key the shards whose roots it lacks. Every write of shards makes
their hosts the latest of their roots. Writes of the other tables leave the map.
-/

namespace Renterd.Stores

/-! ## The map -/

/-- The objects under their keys, and the latest host of each sector root. -/
structure ObjectMap (Key : Type) where
  objects : String → Option (Object Key)
  hosts : Hash256 → Option PublicKey

namespace ObjectMap

variable {Key : Type} (codec : KeyCodec Key)

def empty : ObjectMap Key := ⟨fun _ => none, fun _ => none⟩

/-- The hosts after `shards` are written: the host of the last shard of each root written. -/
def writeHosts (hosts : Hash256 → Option PublicKey) (shards : List Sector) :
    Hash256 → Option PublicKey :=
  fun root => (lastHost shards root).or (hosts root)

def put (m : ObjectMap Key) (key : String) (o : Object Key) : ObjectMap Key :=
  ⟨fun other => if other = key then some o else m.objects other, writeHosts m.hosts o.shards⟩

def remove (m : ObjectMap Key) (key : String) : ObjectMap Key :=
  ⟨fun other => if other = key then none else m.objects other, m.hosts⟩

/-- A stored slab updated with the shards of `s`: those whose root it lacks are appended, in
order and with repeats. -/
def extendSlab (slab s : Slab Key) : Slab Key :=
  { slab with shards := slab.shards ++ s.shards.filter fun shard =>
      shard.root ∉ slab.shards.map Sector.root }

/-- The slab slices of `o`, with the slab stored under the key of `s` updated with its shards. -/
def updateSlices (o : Object Key) (s : Slab Key) : Object Key :=
  { o with slabs := o.slabs.map fun ss =>
      if codec.marshalText ss.slab.key = codec.marshalText s.key then
        { ss with slab := extendSlab ss.slab s } else ss }

def updateSlab (m : ObjectMap Key) (s : Slab Key) : ObjectMap Key :=
  ⟨fun key => (m.objects key).map fun o => updateSlices codec o s, writeHosts m.hosts s.shards⟩

/-- `slab` with each shard on the latest host of its root. -/
def slabWithHosts (hosts : Hash256 → Option PublicKey) (slab : Slab Key) : Slab Key :=
  ⟨slab.key, slab.minShards, slab.shards.map fun shard =>
    ⟨(hosts shard.root).getD shard.host, shard.root⟩⟩

/-- `o` with each shard on the latest host of its root. -/
def withHosts (hosts : Hash256 → Option PublicKey) (o : Object Key) : Object Key :=
  ⟨o.key, o.slabs.map fun ss => ⟨slabWithHosts hosts ss.slab, ss.offset, ss.length⟩⟩

/-- What `Object(key)` returns by the map. -/
def read (m : ObjectMap Key) (key : String) : Except Failure (Object Key) :=
  match m.objects key with
  | some o => .ok (withHosts m.hosts o)
  | none => .error (.error ErrObjectNotFound)

end ObjectMap

/-! ## Latest hosts -/

theorem lastHost_append (first later : List Sector) (root : Hash256) :
    lastHost (first ++ later) root = (lastHost later root).or (lastHost first root) := by
  simp only [lastHost, List.reverse_append, List.find?_append, Option.map_or']

/-- The sector rows carry the hosts of `hosts`: a root finds a row exactly when it has a host. -/
def HostsAgree (store : SQLStore) (hosts : Hash256 → Option PublicKey) : Prop :=
  ∀ root, store.sectorRow? root = (hosts root).map fun host => ⟨host, root.bytes⟩

/-- `next`'s sector rows are those of `tx` upserted with `shards`: each root written finds the
row of its last shard's host, every other root what it found in `tx`. -/
def Upserts (tx next : SQLStore) (shards : List Sector) : Prop :=
  ∀ root, next.sectorRow? root =
    ((lastHost shards root).map fun host => ⟨host, root.bytes⟩).or (tx.sectorRow? root)

namespace Upserts

variable {tx mid next : SQLStore} {shards later : List Sector}

theorem nil (tx : SQLStore) : Upserts tx tx [] := fun _ => rfl

theorem of_sectors (upserts : Upserts tx mid shards) (same : next.sectors = mid.sectors) :
    Upserts tx next shards := fun root => by
  rw [← upserts root]
  simp only [SQLStore.sectorRow?, same]

theorem of_orig {orig : SQLStore} (upserts : Upserts orig next shards)
    (same : orig.sectors = tx.sectors) : Upserts tx next shards := fun root => by
  rw [upserts root]
  simp only [SQLStore.sectorRow?, same]

theorem upsert (tx : SQLStore) (shard : Sector) : Upserts tx (upsertSector tx shard).1 [shard] :=
  fun root => by
    rw [upsertSector_sectorRow, lastHost, List.reverse_singleton, List.find?_singleton]
    by_cases same : root = shard.root
    · subst same; simp
    · simp [same, Ne.symm same]

theorem trans (first : Upserts tx mid shards) (second : Upserts mid next later) :
    Upserts tx next (shards ++ later) := fun root => by
  rw [second root, first root, lastHost_append, Option.map_or', Option.or_assoc]

/-- A fold whose every step upserts the sector of its shard upserts them all. -/
theorem foldl (f : SQLStore → Sector → SQLStore)
    (step : ∀ tx shard, (f tx shard).sectors = (upsertSector tx shard).1.sectors) :
    ∀ (shards : List Sector) (tx : SQLStore), Upserts tx (shards.foldl f tx) shards
  | [], tx => nil tx
  | shard :: rest, tx =>
      ((upsert tx shard).of_sectors (step tx shard)).trans (foldl f step rest (f tx shard))

section Slices

variable {Key : Type} (codec : KeyCodec Key) {used : ContractMap} {objectId : Nat}

theorem addSlice {ss : SlabSlice Key} (h : Stores.addSlice codec used objectId tx ss = .ok next) :
    Upserts tx next ss.slab.shards := by
  obtain ⟨-, base, rfl, rfl⟩ := addSlice_ok codec h
  exact (foldl _ (fun tx shard => (addShard_fields used _ tx shard).1) _ _).of_orig rfl

theorem foldlM_addSlice :
    ∀ (slices : List (SlabSlice Key)) (tx next : SQLStore),
      slices.foldlM (Stores.addSlice codec used objectId) tx = .ok next →
      Upserts tx next (slices.flatMap fun ss => ss.slab.shards)
  | [], tx, next, h => by cases h; exact nil tx
  | ss :: rest, tx, next, h => by
      obtain ⟨mid, first, others⟩ := bind_eq_ok.mp h
      rw [List.flatMap_cons]
      exact (addSlice codec first).trans (foldlM_addSlice rest mid next others)

end Slices

end Upserts

theorem HostsAgree.upserts {tx next : SQLStore} {hosts : Hash256 → Option PublicKey}
    {shards : List Sector} (agree : HostsAgree tx hosts) (upserts : Upserts tx next shards) :
    HostsAgree next (ObjectMap.writeHosts hosts shards) := fun root => by
  rw [upserts root, agree root, ObjectMap.writeHosts, Option.map_or']

theorem HostsAgree.of_sectors {tx next : SQLStore} {hosts : Hash256 → Option PublicKey}
    (agree : HostsAgree tx hosts) (same : next.sectors = tx.sectors) : HostsAgree next hosts :=
  fun root => by
    rw [← agree root]
    simp only [SQLStore.sectorRow?, same]

/-- A root with a sector has a host, and finds the row of that host. -/
theorem HostsAgree.found {store : SQLStore} {hosts : Hash256 → Option PublicKey}
    (agree : HostsAgree store hosts) {root : Hash256} {id : Nat}
    (found : store.sectorOf? root = some id) :
    ∃ host, hosts root = some host ∧ store.sectorRow? root = some ⟨host, root.bytes⟩ := by
  obtain ⟨row, taken, -⟩ := Option.map_eq_some'.mp found
  have some : store.sectorRow? root = some row.2 := by rw [SQLStore.sectorRow?, taken]; rfl
  rw [agree root] at some
  obtain ⟨host, known, -⟩ := Option.map_eq_some'.mp some
  exact ⟨host, known, by rw [agree root, known]; rfl⟩

/-! ## What the rows hold -/

/-- Related lists relate each member of the left list to an element. -/
theorem forall₂_mem_left {α β : Type} {R : α → β → Prop} :
    ∀ {l : List α} {u : List β}, List.Forall₂ R l u → List.Forall₂ (fun a b => R a b ∧ a ∈ l) l u
  | [], [], .nil => .nil
  | a :: _, _ :: _, .cons first rest =>
      .cons ⟨first, List.mem_cons_self _ _⟩ ((forall₂_mem_left rest).imp
        fun _ _ ⟨related, mem⟩ => ⟨related, List.mem_cons_of_mem a mem⟩)

theorem exists_of_forall₂_left {α β : Type} {R : α → β → Prop} :
    ∀ {l : List α} {u : List β}, List.Forall₂ R l u → ∀ {a}, a ∈ l → ∃ b ∈ u, R a b
  | [], [], .nil, _, mem => absurd mem (List.not_mem_nil _)
  | _ :: _, b :: _, .cons first rest, _, mem => by
      rcases List.mem_cons.mp mem with rfl | later
      · exact ⟨b, List.mem_cons_self _ _, first⟩
      · obtain ⟨b', mem', related⟩ := exists_of_forall₂_left rest later
        exact ⟨b', List.mem_cons_of_mem _ mem', related⟩

theorem exists_of_forall₂_right {α β : Type} {R : α → β → Prop} :
    ∀ {l : List α} {u : List β}, List.Forall₂ R l u → ∀ {b}, b ∈ u → ∃ a ∈ l, R a b
  | [], [], .nil, _, mem => absurd mem (List.not_mem_nil _)
  | a :: _, _ :: _, .cons first rest, _, mem => by
      rcases List.mem_cons.mp mem with rfl | later
      · exact ⟨a, List.mem_cons_self _ _, first⟩
      · obtain ⟨a', mem', related⟩ := exists_of_forall₂_right rest later
        exact ⟨a', List.mem_cons_of_mem _ mem', related⟩

/-- Filtering by a test that implies the one a list was filtered by is filtering the list. -/
theorem filter_filter_of_imp {α : Type} {p q : α → Bool} {l : List α}
    (imp : ∀ x ∈ l, p x = true → q x = true) : (l.filter q).filter p = l.filter p := by
  rw [List.filter_filter]
  exact List.filter_congr fun x mem => by cases hit : p x <;> simp [hit, imp x mem]

theorem filter_append_of_false {α : Type} {p : α → Bool} {old added : List α}
    (none : ∀ a ∈ added, p a = false) : (old ++ added).filter p = old.filter p := by
  rw [List.filter_append, show added.filter p = [] from
    List.filter_eq_nil_iff.mpr fun a mem => by simp [none a mem], List.append_nil]

namespace Table

variable {Row : Type} (table : Table Row) {drop p : Nat × Row → Bool}

/-- A delete that spares every row a filter keeps leaves what the filter keeps. -/
theorem filter_delete (kept : ∀ row ∈ table.rows, p row = true → drop row = false) :
    (table.delete drop).rows.filter p = table.rows.filter p :=
  filter_filter_of_imp fun row mem hit => by simp [kept row mem hit]

theorem take?_delete (kept : ∀ row ∈ table.rows, p row = true → drop row = false) :
    (table.delete drop).take? p = table.take? p := by
  simp only [take?, delete_rows, List.find?_filter]
  exact find?_eq_of_agree fun row mem => by cases hit : p row <;> simp [hit, kept row mem]

end Table

section Holds

variable {Key : Type} (codec : KeyCodec Key)

/-- A slice row holds a slab slice: its offset and length, and the one slab row that points at
it, under the slab's key, whose shard rows hold the slab's shards. -/
def HoldsSlice (store : SQLStore) (slice : Nat × SliceRow) (ss : SlabSlice Key) : Prop :=
  slice.2.offset = ss.offset ∧ slice.2.length = ss.length ∧
    ∃ slabId total, store.slabs.rows.filter (fun slab => slab.2.sliceId == slice.1) =
        [(slabId, ⟨slice.1, codec.marshalText ss.slab.key, ss.slab.minShards, total⟩)] ∧
      HoldsShards store slabId ss.slab.shards

/-- The store holds `o` under `key` in object row `id`: `object` finds that row, and the slice
rows of `id` hold the object's slab slices, in order. -/
def HoldsAt (store : SQLStore) (id : Nat) (key : String) (o : Object Key) : Prop :=
  store.objects.take? (fun row => whereField "" key row.2.objectId) =
      some (id, ⟨codec.marshalText o.key, key⟩) ∧
    List.Forall₂ (HoldsSlice codec store)
      (store.slices.rows.filter fun slice => slice.2.objectId == id) o.slabs

variable {codec} {store next : SQLStore} {hosts : Hash256 → Option PublicKey}

/-! ### Reading what the rows hold -/

theorem HoldsShards.convert {slabId : Nat} {slab : Slab Key}
    (held : HoldsShards store slabId slab.shards) (agree : HostsAgree store hosts) (sliceId : Nat)
    (total : UInt8) :
    LoadedSlab.convert codec ⟨⟨sliceId, codec.marshalText slab.key, slab.minShards, total⟩,
      slab.shards.map fun shard => store.sectorRow? shard.root⟩ =
      .ok (ObjectMap.slabWithHosts hosts slab) := by
  simp only [LoadedSlab.convert, codec.unmarshalText_marshalText]
  rw [@mapM_eq_ok _ _ _ _ _ (ObjectMap.slabWithHosts hosts slab).shards ?_]
  · rfl
  refine List.forall₂_map_left_iff.mpr (List.forall₂_map_right_iff.mpr
    (List.forall₂_same.mpr fun shard mem => ?_))
  obtain ⟨row, -, found⟩ := exists_of_forall₂_right held mem
  obtain ⟨host, known, sector⟩ := agree.found found
  simp only [sector, known, sectorRoot, Hash256.ofRoot?_bytes, Option.getD_some]
  rfl

theorem HoldsSlice.loadSlice {slice : Nat × SliceRow} {ss : SlabSlice Key}
    (held : HoldsSlice codec store slice ss) :
    ∃ total, store.loadSlice slice = ⟨slice.2, ⟨⟨slice.1, codec.marshalText ss.slab.key,
      ss.slab.minShards, total⟩, ss.slab.shards.map fun shard => store.sectorRow? shard.root⟩⟩ := by
  obtain ⟨-, -, slabId, total, slab, shards⟩ := held
  refine ⟨total, ?_⟩
  simp only [SQLStore.loadSlice, slab, List.getLast?_singleton, Option.map_some', Option.getD_some,
    SQLStore.loadSlab, shards.sectors]

/-- `Object` reads what the rows hold, each shard on the host its sector row carries. -/
theorem HoldsAt.Object {id : Nat} {key : String} {o : Stores.Object Key}
    (held : HoldsAt codec store id key o) (agree : HostsAgree store hosts) :
    store.Object codec key = .ok (ObjectMap.withHosts hosts o) := by
  obtain ⟨found, slices⟩ := held
  simp only [SQLStore.Object, SQLStore.object, found, Except.mapError, bind, Except.bind,
    SQLStore.loadObject, LoadedObject.convert, codec.unmarshalText_marshalText]
  rw [@mapM_eq_ok _ _ _ _ _ (ObjectMap.withHosts hosts o).slabs ?_]
  · rfl
  refine List.forall₂_map_left_iff.mpr (List.forall₂_map_right_iff.mpr
    (slices.imp fun slice ss sliceHeld => ?_))
  obtain ⟨total, loaded⟩ := sliceHeld.loadSlice
  obtain ⟨offset, length, _, _, _, shards⟩ := sliceHeld
  rw [loaded]
  simp only [shards.convert agree, offset, length]
  rfl

/-! ### Rows that stay -/

theorem HoldsShards.of_rows {slabId : Nat} {shards : List Sector}
    (held : HoldsShards store slabId shards) (ext : SectorsExtend store next)
    (rows : next.shards.rows.filter (fun row => row.2.slabId == slabId) =
      store.shards.rows.filter fun row => row.2.slabId == slabId) :
    HoldsShards next slabId shards := by
  unfold HoldsShards
  rw [rows]
  exact held.imp fun _ _ found => ext.known _ _ found

theorem HoldsSlice.of_rows {slice : Nat × SliceRow} {ss : SlabSlice Key}
    (held : HoldsSlice codec store slice ss) (ext : SectorsExtend store next)
    (slabs : next.slabs.rows.filter (fun slab => slab.2.sliceId == slice.1) =
      store.slabs.rows.filter fun slab => slab.2.sliceId == slice.1)
    (shards : ∀ slab ∈ store.slabs.rows, slab.2.sliceId = slice.1 →
      next.shards.rows.filter (fun row => row.2.slabId == slab.1) =
        store.shards.rows.filter fun row => row.2.slabId == slab.1) :
    HoldsSlice codec next slice ss := by
  obtain ⟨offset, length, slabId, total, slab, held⟩ := held
  have mem := List.mem_of_mem_filter (slab ▸ List.mem_singleton_self _)
  exact ⟨offset, length, slabId, total, slabs.trans slab, held.of_rows ext (shards _ mem rfl)⟩

/-- What the rows of one object hold stays held when its object row is still the one found, and
its slice, slab and shard rows are still the rows of their parents. -/
theorem HoldsAt.of_rows {id : Nat} {key : String} {o : Stores.Object Key}
    (held : HoldsAt codec store id key o) (ext : SectorsExtend store next)
    (object : next.objects.take? (fun row => whereField "" key row.2.objectId) =
      store.objects.take? fun row => whereField "" key row.2.objectId)
    (slices : next.slices.rows.filter (fun slice => slice.2.objectId == id) =
      store.slices.rows.filter fun slice => slice.2.objectId == id)
    (slabs : ∀ slice ∈ store.slices.rows, slice.2.objectId = id →
      next.slabs.rows.filter (fun slab => slab.2.sliceId == slice.1) =
        store.slabs.rows.filter fun slab => slab.2.sliceId == slice.1)
    (shards : ∀ slice ∈ store.slices.rows, slice.2.objectId = id → ∀ slab ∈ store.slabs.rows,
      slab.2.sliceId = slice.1 → next.shards.rows.filter (fun row => row.2.slabId == slab.1) =
        store.shards.rows.filter fun row => row.2.slabId == slab.1) :
    HoldsAt codec next id key o := by
  obtain ⟨found, held⟩ := held
  refine ⟨object.trans found, slices ▸ (forall₂_mem_left held).imp fun slice ss ⟨sliceHeld, mem⟩ => ?_⟩
  obtain ⟨mem, own⟩ := List.mem_filter.mp mem
  have own : slice.2.objectId = id := by simpa using own
  exact sliceHeld.of_rows ext (slabs slice mem own) (shards slice mem own)

/-- Writes of the other tables leave what the rows hold. -/
theorem HoldsAt.of_same {id : Nat} {key : String} {o : Stores.Object Key}
    (held : HoldsAt codec store id key o) (same : SameObjectTables store next) :
    HoldsAt codec next id key o := by
  obtain ⟨slabs, shards, sectors, slices, objects⟩ := same
  exact held.of_rows ((SectorsExtend.refl store).of_sectors sectors) (by rw [objects])
    (by rw [slices]) (fun _ _ _ => by rw [slabs]) fun _ _ _ _ _ _ => by rw [shards]

/-! ### Writes of other objects -/

/-- Deleting objects that the lookup of `key` does not find leaves what the found object's rows
hold: its slices, their slabs and those slabs' shards do not cascade. -/
theorem HoldsAt.deleteObjects {id : Nat} {key : String} {o : Stores.Object Key}
    (held : HoldsAt codec store id key o) {drop : Nat × ObjectRow → Bool}
    (kept : ∀ row ∈ store.objects.rows, whereField "" key row.2.objectId = true → drop row = false) :
    HoldsAt codec (store.deleteObjects drop) id key o := by
  have own := List.mem_of_find?_eq_some held.1
  have objectKept : id ∉ (store.objects.rows.filter drop).map Prod.fst :=
    store.objects.id_not_mem_filter fun row mem same => by
      rw [store.objects.eq_of_id_eq mem own same]
      exact kept _ own (by simp [whereField])
  have sliceKept : ∀ slice ∈ store.slices.rows, slice.2.objectId = id →
      slice.1 ∉ (store.slices.rows.filter fun slice =>
        slice.2.objectId ∈ (store.objects.rows.filter drop).map Prod.fst).map Prod.fst :=
    fun slice mem sliceOf => store.slices.id_not_mem_filter fun other otherMem same => by
      rw [store.slices.eq_of_id_eq otherMem mem same]
      exact decide_eq_false (sliceOf ▸ objectKept)
  refine held.of_rows ((SectorsExtend.refl store).of_sectors rfl) (store.objects.take?_delete kept)
    (store.slices.filter_delete fun slice _ hit => decide_eq_false ((beq_iff_eq.mp hit) ▸ objectKept))
    (fun slice mem sliceOf => store.slabs.filter_delete fun slab _ hit =>
      decide_eq_false ((beq_iff_eq.mp hit) ▸ sliceKept slice mem sliceOf))
    fun slice mem sliceOf slab slabMem slabOf => store.shards.filter_delete fun row _ hit => ?_
  have slabKept := store.slabs.id_not_mem_filter (p := fun slab => slab.2.sliceId ∈
    (store.slices.rows.filter fun slice =>
      slice.2.objectId ∈ (store.objects.rows.filter drop).map Prod.fst).map Prod.fst)
    fun other otherMem same => by
      rw [store.slabs.eq_of_id_eq otherMem slabMem same]
      exact decide_eq_false (slabOf ▸ sliceKept slice mem sliceOf)
  exact decide_eq_false ((beq_iff_eq.mp hit) ▸ slabKept)

theorem HoldsAt.insertObject {id : Nat} {key : String} {o : Stores.Object Key}
    (held : HoldsAt codec store id key o) (row : ObjectRow) :
    HoldsAt codec { store with objects := store.objects.insert row } id key o :=
  ⟨by rw [Table.take?, Table.insert_rows, List.find?_append, ← Table.take?, held.1]; rfl, held.2⟩

/-- Rows appended under parents given out later leave what the rows of an object hold. -/
theorem HoldsAt.appends {id : Nat} {key : String} {o : Stores.Object Key}
    (held : HoldsAt codec store id key o) (appends : Appends store next) {added : List (Nat × SliceRow)}
    (slices : next.slices.rows = store.slices.rows ++ added)
    (other : ∀ row ∈ added, row.2.objectId ≠ id) :
    HoldsAt codec next id key o := by
  obtain ⟨_, slabRows, slabsAbove⟩ := appends.slabs
  obtain ⟨_, shardRows, shardsAbove⟩ := appends.shards
  refine held.of_rows appends.sectors (by rw [appends.objects])
    (by rw [slices, filter_append_of_false fun row mem => by simpa using other row mem])
    (fun slice mem _ => ?_) fun _ _ _ slab mem _ => ?_
  · rw [slabRows, filter_append_of_false fun row added => ?_]
    have := store.slices.id_lt slice mem
    have := slabsAbove row added
    simp only [beq_eq_false_iff_ne]
    omega
  · rw [shardRows, filter_append_of_false fun row added => ?_]
    have := store.slabs.id_lt slab mem
    have := shardsAbove row added
    simp only [beq_eq_false_iff_ne]
    omega

/-! ### The object `UpdateObject` writes -/

section Written

variable {used : ContractMap} {objectId : Nat}

theorem addSlice_holds {tx mid : SQLStore} {ss : SlabSlice Key} (bounds : RowBounds tx)
    (h : addSlice codec used objectId tx ss = .ok mid) (later : Appends mid next) :
    HoldsSlice codec next (tx.slices.nextId, ⟨objectId, ss.offset, ss.length⟩) ss :=
  let ⟨slab, shards⟩ := addSlice_rows codec bounds h later
  ⟨rfl, rfl, _, _, slab, shards⟩

/-- The slice rows a new object's slices append hold its slab slices. -/
theorem foldlM_addSlice_holds (used : ContractMap) (objectId : Nat) :
    ∀ (slices : List (SlabSlice Key)) (tx next : SQLStore), RowBounds tx →
      objectId < tx.objects.nextId → slices.foldlM (addSlice codec used objectId) tx = .ok next →
      ∃ added, next.slices.rows = tx.slices.rows ++ added ∧
        List.Forall₂ (fun slice ss => slice.2.objectId = objectId ∧ HoldsSlice codec next slice ss)
          added slices
  | [], tx, next, _, _, h => by cases h; exact ⟨[], by simp, .nil⟩
  | ss :: rest, tx, next, bounds, owner, h => by
      obtain ⟨mid, first, others⟩ := bind_eq_ok.mp h
      obtain ⟨objects, slices, -⟩ := addSlice_tables codec first
      have midBounds := bounds.addSlice codec owner first
      obtain ⟨appends, -⟩ :=
        foldlM_addSlice_loads codec used objectId rest mid next midBounds (objects ▸ owner) others
      obtain ⟨added, rows, held⟩ :=
        foldlM_addSlice_holds used objectId rest mid next midBounds (objects ▸ owner) others
      refine ⟨(tx.slices.nextId, ⟨objectId, ss.offset, ss.length⟩) :: added, ?_,
        .cons ⟨rfl, addSlice_holds bounds first appends⟩ held⟩
      rw [rows, slices, Table.insert_rows, List.append_assoc, List.singleton_append]

/-- After a successful `UpdateObject`, the store holds the object under its key, in the row
after those the delete left. -/
theorem UpdateObject_holds {key : String} {o : Stores.Object Key} (bounds : RowBounds store)
    (h : store.UpdateObject codec key o used = .ok next) :
    HoldsAt codec next (store.deleteObjects fun row => row.2.objectId == key).objects.nextId key o := by
  obtain ⟨-, named, fresh, slices⟩ := UpdateObject_ok codec h
  set tx := store.deleteObjects fun row => row.2.objectId == key
  have txBounds : RowBounds { tx with objects := tx.objects.insert ⟨codec.marshalText o.key, key⟩ } :=
    (bounds.deleteObjects _).insertObject _
  obtain ⟨appends, -⟩ := foldlM_addSlice_loads codec used tx.objects.nextId o.slabs _ next txBounds
    (Nat.lt_succ_self _) slices
  obtain ⟨added, rows, held⟩ := foldlM_addSlice_holds used tx.objects.nextId o.slabs _ next txBounds
    (Nat.lt_succ_self _) slices
  obtain ⟨owned, held⟩ := (List.forall₂_and_left _ _).mp held
  refine ⟨?_, ?_⟩
  · rw [appends.objects]
    simp only [Table.take?, Table.insert_rows, List.find?_append]
    rw [List.find?_eq_none.mpr fun row mem => by simp [whereField, named, fresh row mem]]
    simp [whereField]
  · have own := @filter_parent_eq _ (fun slice : Nat × SliceRow => slice.2.objectId) _ _ added []
      (bounds.deleteObjects _).objects owned (by simp)
    rw [List.append_nil] at own
    rwa [rows, own]

/-- `UpdateObject` of another key leaves what the rows of an object hold. -/
theorem HoldsAt.UpdateObject {id : Nat} {key other : String} {o o' : Stores.Object Key}
    (held : HoldsAt codec store id other o') (named : other ≠ "") (ne : other ≠ key)
    (bounds : RowBounds store) (h : store.UpdateObject codec key o used = .ok next) :
    HoldsAt codec next id other o' := by
  obtain ⟨-, -, -, slices⟩ := UpdateObject_ok codec h
  set tx := store.deleteObjects fun row => row.2.objectId == key
  obtain ⟨appends, -, added, rows, owned, -⟩ := foldlM_addSlice_loads codec used tx.objects.nextId
    o.slabs _ next ((bounds.deleteObjects _).insertObject _) (Nat.lt_succ_self _) slices
  have kept : HoldsAt codec tx id other o' := held.deleteObjects fun row _ hit => by
    simp [whereField, named] at hit
    simp [hit, ne]
  refine (kept.insertObject _).appends appends rows fun row mem => ?_
  rw [owned row mem]
  exact (tx.objects.id_lt _ (List.mem_of_find?_eq_some kept.1)).ne'

/-- `RemoveObject` of another key leaves what the rows of an object hold. -/
theorem HoldsAt.RemoveObject {id : Nat} {key other : String} {o' : Stores.Object Key}
    (held : HoldsAt codec store id other o') (named : other ≠ "") (ne : other ≠ key)
    (h : store.RemoveObject key = .ok next) : HoldsAt codec next id other o' := by
  obtain ⟨-, rfl⟩ := removeObject_ok h
  exact held.deleteObjects fun row _ hit => by
    simp [whereField, named] at hit
    simp [hit, ne]

end Written

/-! ### `UpdateSlab` -/

/-- A slab links a root exactly when one of the shards its rows hold has that root. -/
theorem HoldsShards.linksRoot {slabId : Nat} {shards : List Sector}
    (held : HoldsShards store slabId shards) (root : Hash256) :
    store.linksRoot slabId root = decide (root ∈ shards.map Sector.root) := by
  unfold SQLStore.linksRoot
  cases found : store.sectorOf? root with
  | none =>
      refine (decide_eq_false fun named => ?_).symm
      obtain ⟨shard, mem, rfl⟩ := List.mem_map.mp named
      obtain ⟨row, -, sector⟩ := exists_of_forall₂_right held mem
      rw [found] at sector
      cases sector
  | some id =>
      refine Bool.eq_iff_iff.mpr ⟨fun linked => ?_, fun named => ?_⟩
      · obtain ⟨row, mem, hit⟩ := List.any_eq_true.mp linked
        simp only [Bool.and_eq_true, beq_iff_eq] at hit
        obtain ⟨shard, shardMem, sector⟩ :=
          exists_of_forall₂_left held (List.mem_filter.mpr ⟨mem, by simp [hit.1]⟩)
        rw [hit.2] at sector
        exact decide_eq_true (List.mem_map.mpr ⟨shard, shardMem, sectorOf?_inj sector found⟩)
      · obtain ⟨shard, mem, rfl⟩ := List.mem_map.mp (of_decide_eq_true named)
        obtain ⟨row, rowMem, sector⟩ := exists_of_forall₂_right held mem
        rw [found, Option.some.injEq] at sector
        obtain ⟨stored, own⟩ := List.mem_filter.mp rowMem
        exact List.any_eq_true.mpr ⟨row, stored, by simp [← sector, beq_iff_eq.mp own]⟩

/-- The transaction of `UpdateSlab` appends one shard row on the slab it read for each shard
whose root the slab did not link, on the sector of that root, and keeps every sector. -/
theorem updateSlabTx_appends {orig : SQLStore}
    (below : ∀ row ∈ orig.shards.rows, row.2.sectorId < orig.sectors.nextId)
    (snapshot : SlabSnapshot) (used : ContractMap)
    (read : snapshot.shards = orig.shards.rows.filter fun row => row.2.slabId == snapshot.slabId) :
    ∀ (shards : List Sector) (tx : SQLStore), SectorsExtend orig tx →
      let next := updateSlabTx snapshot used tx shards
      SectorsExtend tx next ∧ ∃ added, next.shards.rows = tx.shards.rows ++ added ∧
        List.Forall₂ (fun row shard => row.2.slabId = snapshot.slabId ∧
          next.sectorOf? shard.root = some row.2.sectorId) added
          (shards.filter fun shard => !orig.linksRoot snapshot.slabId shard.root)
  | [], tx, _ => ⟨.refl tx, [], by simp, .nil⟩
  | shard :: rest, tx, ext => by
      obtain ⟨sectors, -, shards, -⟩ := updateShard_fields snapshot used tx shard
      have names := ext.names_iff_linksRoot below snapshot.slabId shard
      rw [← read] at names
      have step : SectorsExtend tx (updateShard snapshot used tx shard) :=
        ((SectorsExtend.refl tx).upsert shard).of_sectors sectors
      have own : (updateShard snapshot used tx shard).sectorOf? shard.root =
          some (upsertSector tx shard).2 := by
        rw [← upsertSector_sectorOf_self]
        simp only [SQLStore.sectorOf?, sectors]
      obtain ⟨later, added, rows, written⟩ :=
        updateSlabTx_appends below snapshot used read rest _ (ext.trans step)
      refine ⟨step.trans later, ?_⟩
      rw [names] at shards
      simp only [updateSlabTx_cons, List.filter_cons]
      cases linked : orig.linksRoot snapshot.slabId shard.root <;>
        simp only [linked, Bool.not_false, Bool.not_true, Bool.false_eq_true, ite_true, ite_false]
          at shards ⊢
      · refine ⟨(tx.shards.nextId, ⟨snapshot.slabId, (upsertSector tx shard).2⟩) :: added, ?_,
          .cons ⟨rfl, later.known _ _ own⟩ written⟩
        rw [rows, shards, Table.insert_rows, List.append_assoc, List.singleton_append]
      · exact ⟨added, by rw [rows, shards], written⟩

/-- The slab `UpdateSlab` reads is stored under the slab's key, when that key marshals to some
text: GORM drops an empty condition. -/
theorem readSlab_key {s : Slab Key} {used : ContractMap} {snapshot : SlabSnapshot}
    (keyed : codec.marshalText s.key ≠ []) (read : readSlab codec store s used = .ok snapshot) :
    ∃ row, (snapshot.slabId, row) ∈ store.slabs.rows ∧ row.key = codec.marshalText s.key := by
  simp only [readSlab] at read
  split at read
  · cases read
  · rename_i slabId row found
    cases read
    exact ⟨row, List.mem_of_find?_eq_some found, by simpa [whereField, keyed] using List.find?_some found⟩

theorem updateSlabTx_objectTables (snapshot : SlabSnapshot) (used : ContractMap) (tx : SQLStore)
    (shards : List Sector) :
    let next := updateSlabTx snapshot used tx shards
    next.slabs = tx.slabs ∧ next.slices = tx.slices ∧ next.objects = tx.objects :=
  foldl_invariant (P := fun s : SQLStore => s.slabs = tx.slabs ∧ s.slices = tx.slices ∧
    s.objects = tx.objects) (fun s shard ⟨slabs, slices, objects⟩ =>
      have ⟨_, slabs', _, slices', objects'⟩ := updateShard_fields snapshot used s shard
      ⟨slabs'.trans slabs, slices'.trans slices, objects'.trans objects⟩) ⟨rfl, rfl, rfl⟩

/-- After `UpdateSlab` of `s`, the rows of an object hold it with the slab stored under the key of
`s` updated with the shards of `s`. -/
theorem HoldsAt.updateSlab {id : Nat} {key : String} {o : Stores.Object Key} {s : Slab Key}
    {used : ContractMap} {snapshot : SlabSnapshot} (held : HoldsAt codec store id key o)
    (bounds : ShardBounds store) (keys : (store.slabs.rows.map fun slab => slab.2.key).Nodup)
    (keyed : codec.marshalText s.key ≠ []) (read : readSlab codec store s used = .ok snapshot) :
    HoldsAt codec (updateSlabTx snapshot used store s.shards) id key
      (ObjectMap.updateSlices codec o s) := by
  obtain ⟨stored, storedMem, storedKey⟩ := readSlab_key keyed read
  obtain ⟨ext, added, rows, written⟩ := updateSlabTx_appends bounds.sectors snapshot used
    (readSlab_ok codec read).2 s.shards store (.refl store)
  obtain ⟨onSlab, written⟩ := (List.forall₂_and_left _ _).mp written
  obtain ⟨slabs, slices, objects⟩ := updateSlabTx_objectTables snapshot used store s.shards
  obtain ⟨found, sliceRows⟩ := held
  refine ⟨by rw [objects]; exact found, ?_⟩
  rw [slices]
  refine List.forall₂_map_right_iff.mpr (sliceRows.imp fun slice ss sliceHeld => ?_)
  obtain ⟨offset, length, slabId, total, slab, shards⟩ := sliceHeld
  have slabMem := List.mem_of_mem_filter (slab ▸ List.mem_singleton_self _)
  split_ifs with sameKey
  · -- the slab of `s`: its rows gain the appended shard rows
    obtain rfl : slabId = snapshot.slabId := congrArg Prod.fst
      (List.inj_on_of_nodup_map keys slabMem storedMem (by simp [sameKey, storedKey]))
    refine ⟨offset, length, _, total, by rw [slabs]; exact slab, ?_⟩
    show List.Forall₂ _ _ (ss.slab.shards ++ _)
    rw [rows, List.filter_append, show added.filter (fun row => row.2.slabId == snapshot.slabId) =
      added from List.filter_eq_self.mpr fun row mem => by simp [onSlab row mem]]
    refine List.rel_append (shards.imp fun _ _ found => ext.known _ _ found) ?_
    have unlinked : (s.shards.filter fun shard => !store.linksRoot snapshot.slabId shard.root) =
        s.shards.filter fun shard => decide (shard.root ∉ ss.slab.shards.map Sector.root) :=
      List.filter_congr fun shard _ => by rw [shards.linksRoot, decide_not]
    rwa [unlinked] at written
  · -- every other slab keeps its shard rows
    refine ⟨offset, length, slabId, total, by rw [slabs]; exact slab, shards.of_rows ext ?_⟩
    rw [rows, filter_append_of_false fun row mem => ?_]
    rw [onSlab row mem, beq_eq_false_iff_ne]
    rintro rfl
    exact sameKey ((congrArg (·.2.key) (store.slabs.eq_of_id_eq slabMem storedMem rfl)).trans
      storedKey)

/-- A slice keeps the slab keys unique: its insert checks the key. -/
theorem addSlice_slabKeys {used : ContractMap} {objectId : Nat} {tx : SQLStore} {ss : SlabSlice Key}
    (h : addSlice codec used objectId tx ss = .ok next)
    (keys : (tx.slabs.rows.map fun slab => slab.2.key).Nodup) :
    (next.slabs.rows.map fun slab => slab.2.key).Nodup := by
  obtain ⟨fresh, -⟩ := addSlice_ok codec h
  obtain ⟨-, -, slabs, -⟩ := addSlice_tables codec h
  rw [slabs, Table.insert_rows, List.map_append, List.map_singleton]
  refine List.nodup_append.mpr ⟨keys, List.nodup_singleton _, fun key mem same => ?_⟩
  obtain ⟨row, stored, rfl⟩ := List.mem_map.mp mem
  exact fresh row stored (List.mem_singleton.mp same)

end Holds

/-! ## The store implements the map -/

section Implements

variable {Key : Type} (codec : KeyCodec Key)

/-- The SQL store implements the map: its rows point at ids their parents gave out, its sector
rows carry the map's hosts, its slab keys are unique, and under every non-empty key it holds the
map's object, or has no object row. -/
structure Implements (store : SQLStore) (m : ObjectMap Key) : Prop where
  bounds : RowBounds store
  hosts : HostsAgree store m.hosts
  slabKeys : (store.slabs.rows.map fun slab => slab.2.key).Nodup
  stored : ∀ key o, key ≠ "" → m.objects key = some o → ∃ id, HoldsAt codec store id key o
  absent : ∀ key, key ≠ "" → m.objects key = none → ∀ row ∈ store.objects.rows,
    row.2.objectId ≠ key

/-- A store whose object tables are a fresh database's: no object, slice, slab, shard or sector
row, and every id still to give out from `1`. Its hosts, contracts and sets are any. -/
structure FreshObjects (store : SQLStore) : Prop where
  objects : store.objects = .empty
  slices : store.slices = .empty
  slabs : store.slabs = .empty
  shards : store.shards = .empty
  sectors : store.sectors = .empty

variable {codec} {store next : SQLStore} {m : ObjectMap Key}

/-- `Object` of every non-empty key returns what the map holds for it. -/
theorem Implements.Object (impl : Implements codec store m) {key : String} (named : key ≠ "") :
    store.Object codec key = m.read key := by
  cases found : m.objects key with
  | some o =>
      obtain ⟨id, held⟩ := impl.stored key o named found
      rw [held.Object impl.hosts, ObjectMap.read, found]
  | none =>
      have none : store.objects.take? (fun row => whereField "" key row.2.objectId) = none :=
        List.find?_eq_none.mpr fun row mem => by
          simp [whereField, named, impl.absent key named found row mem]
      simp only [SQLStore.Object, SQLStore.object, none, ObjectMap.read, found]
      rfl

/-- A store with fresh object tables implements the empty map. -/
theorem Implements.start (fresh : FreshObjects store) : Implements codec store ObjectMap.empty := by
  obtain ⟨objects, slices, slabs, shards, sectors⟩ := fresh
  refine ⟨⟨⟨fun row mem => ?_, fun row mem => ?_⟩, fun row mem => ?_, fun row mem => ?_⟩,
    fun root => by simp only [SQLStore.sectorRow?, sectors]; rfl, by rw [slabs]; exact List.nodup_nil,
    fun _ _ _ none => (nomatch none), fun _ _ _ row mem => ?_⟩
  · rw [shards] at mem; nomatch mem
  · rw [shards] at mem; nomatch mem
  · rw [slices] at mem; nomatch mem
  · rw [slabs] at mem; nomatch mem
  · rw [objects] at mem; nomatch mem

theorem Implements.of_same (impl : Implements codec store m) (same : SameObjectTables store next) :
    Implements codec next m :=
  ⟨impl.bounds.of_same same, impl.hosts.of_sectors same.sectors, same.slabs ▸ impl.slabKeys,
    fun key o named found => let ⟨id, held⟩ := impl.stored key o named found; ⟨id, held.of_same same⟩,
    fun key named found => same.objects ▸ impl.absent key named found⟩

/-- `RemoveObject` erases its key from the map. -/
theorem Implements.RemoveObject {key : String} (impl : Implements codec store m)
    (h : store.RemoveObject key = .ok next) : Implements codec next (m.remove key) := by
  obtain ⟨-, rfl⟩ := removeObject_ok h
  refine ⟨impl.bounds.deleteObjects _, impl.hosts.of_sectors rfl,
    impl.slabKeys.sublist ((List.filter_sublist _).map _), fun other o named found => ?_,
    fun other named found row mem => ?_⟩
  · have ne : other ≠ key := by rintro rfl; simp [ObjectMap.remove] at found
    simp only [ObjectMap.remove, if_neg ne] at found
    obtain ⟨id, held⟩ := impl.stored other o named found
    exact ⟨id, held.RemoveObject named ne h⟩
  · obtain ⟨stored, kept⟩ := List.mem_filter.mp mem
    by_cases same : other = key
    · subst same
      simpa using kept
    · simp only [ObjectMap.remove, if_neg same] at found
      exact impl.absent other named found row stored

/-- `UpdateObject` puts its object under its key, and makes its shards' hosts the latest of their
roots. -/
theorem Implements.UpdateObject {key : String} {o : Stores.Object Key} {used : ContractMap}
    (impl : Implements codec store m) (h : store.UpdateObject codec key o used = .ok next) :
    Implements codec next (m.put key o) := by
  obtain ⟨-, -, -, slices⟩ := UpdateObject_ok codec h
  set tx := store.deleteObjects fun row => row.2.objectId == key
  have txBounds : RowBounds { tx with objects := tx.objects.insert ⟨codec.marshalText o.key, key⟩ } :=
    (impl.bounds.deleteObjects _).insertObject _
  obtain ⟨appends, -⟩ := foldlM_addSlice_loads codec used tx.objects.nextId o.slabs _ next txBounds
    (Nat.lt_succ_self _) slices
  have agree : HostsAgree { tx with objects := tx.objects.insert ⟨codec.marshalText o.key, key⟩ }
    m.hosts := impl.hosts.of_sectors rfl
  refine ⟨impl.bounds.UpdateObject codec h, agree.upserts (Upserts.foldlM_addSlice codec _ _ _ slices),
    foldlM_invariant (P := fun s : SQLStore => (s.slabs.rows.map fun slab => slab.2.key).Nodup)
      (fun _ _ _ _ keys step => addSlice_slabKeys step keys)
      (impl.slabKeys.sublist ((List.filter_sublist _).map _)) slices,
    fun other o' named found => ?_, fun other named found row mem => ?_⟩
  · by_cases same : other = key
    · subst same
      simp only [ObjectMap.put, if_true, Option.some.injEq] at found
      subst found
      exact ⟨_, UpdateObject_holds impl.bounds h⟩
    · simp only [ObjectMap.put, if_neg same] at found
      obtain ⟨id, held⟩ := impl.stored other o' named found
      exact ⟨id, held.UpdateObject named same impl.bounds h⟩
  · have ne : other ≠ key := by rintro rfl; simp [ObjectMap.put] at found
    simp only [ObjectMap.put, if_neg ne] at found
    rw [appends.objects, Table.insert_rows, List.mem_append, List.mem_singleton] at mem
    rcases mem with old | rfl
    · exact impl.absent other named found row (List.mem_of_mem_filter old)
    · exact Ne.symm ne

/-- `UpdateSlab` appends to the slab stored under its slab's key the shards whose roots it lacks,
and makes their hosts the latest of their roots. -/
theorem Implements.UpdateSlab {s : Slab Key} {used : ContractMap} (impl : Implements codec store m)
    (keyed : codec.marshalText s.key ≠ []) (h : store.UpdateSlab codec s used = .ok next) :
    Implements codec next (m.updateSlab codec s) := by
  have bounds := impl.bounds.UpdateSlab codec h
  obtain ⟨snapshot, read, rfl⟩ := UpdateSlab_ok codec h
  obtain ⟨slabs, -, objects⟩ := updateSlabTx_objectTables snapshot used store s.shards
  refine ⟨bounds, impl.hosts.upserts (Upserts.foldl _
      (fun tx shard => (updateShard_fields snapshot used tx shard).1) _ _),
    slabs ▸ impl.slabKeys, fun key o named found => ?_, fun key named found => objects ▸
      impl.absent key named (by simpa [ObjectMap.updateSlab] using found)⟩
  obtain ⟨o', found', rfl⟩ := Option.map_eq_some'.mp found
  obtain ⟨id, held⟩ := impl.stored key o' named found'
  exact ⟨id, held.updateSlab impl.bounds.toShardBounds impl.slabKeys keyed read⟩

end Implements

/-! ## Runs -/

variable {Key : Type} (codec : KeyCodec Key)

variable {codec} {store : SQLStore} {m : ObjectMap Key}

end Renterd.Stores
