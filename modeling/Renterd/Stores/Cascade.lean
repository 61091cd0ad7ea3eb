import Renterd.Stores.ReadBack

/-!
# What a removal leaves

`UpdateObject` appends an object row, a slice per slab slice, a slab per slice and a shard per
shard, each under an id its table had not given out. `RemoveObject` deletes the object and, by the
`OnDelete:CASCADE` constraints, its slices, their slabs and the slabs' shards. So removing an object
right after writing it drops every row the write added and no other: the object tables are those
that removing the object before the write leaves. Sectors and their links are shared and stay.

Each slab row belongs to one slice and its key is unique, so `UpdateObject` fails on that
constraint exactly when two slices of the object name one slab, or a slice names a slab that the
removal of the object's old rows leaves in place.
-/

namespace Renterd.Stores

/-- A filter that keeps every old row and no added one leaves the old rows. -/
theorem filter_append_eq_left {α : Type} {p : α → Bool} {old added : List α}
    (keep : ∀ a ∈ old, p a = true) (drop : ∀ a ∈ added, p a = false) :
    (old ++ added).filter p = old := by
  rw [List.filter_append, List.filter_eq_self.mpr keep,
    List.filter_eq_nil_iff.mpr fun a mem => by simp [drop a mem], List.append_nil]

/-- A filter that keeps every added row and no old one leaves the added rows. -/
theorem filter_append_eq_right {α : Type} {p : α → Bool} {old added : List α}
    (drop : ∀ a ∈ old, p a = false) (keep : ∀ a ∈ added, p a = true) :
    (old ++ added).filter p = added := by
  rw [List.filter_append, List.filter_eq_self.mpr keep,
    List.filter_eq_nil_iff.mpr fun a mem => by simp [drop a mem], List.nil_append]

/-- An id below every id of some rows is none of theirs. -/
theorem not_mem_map_fst_of_lt {α : Type} {rows : List (Nat × α)} {bound id : Nat}
    (above : ∀ row ∈ rows, bound ≤ row.1) (lt : id < bound) : id ∉ rows.map Prod.fst := fun mem => by
  obtain ⟨row, stored, rfl⟩ := List.mem_map.mp mem
  exact absurd (above row stored) (Nat.not_le_of_lt lt)

variable {Key : Type} (codec : KeyCodec Key)

section Appended

variable {used : ContractMap} {objectId : Nat}

/-- The rows the slices of a new object append: slices of the object, slabs of those slices, and
shards of those slabs, each slice and slab under an id its table had not given out. -/
theorem foldlM_addSlice_rows :
    ∀ (slices : List (SlabSlice Key)) (tx next : SQLStore),
      slices.foldlM (addSlice codec used objectId) tx = .ok next →
      next.objects = tx.objects ∧ ∃ slices' slabs' shards',
        next.slices.rows = tx.slices.rows ++ slices' ∧ next.slabs.rows = tx.slabs.rows ++ slabs' ∧
        next.shards.rows = tx.shards.rows ++ shards' ∧
        (∀ row ∈ slices', tx.slices.nextId ≤ row.1 ∧ row.2.objectId = objectId) ∧
        (∀ row ∈ slabs', tx.slabs.nextId ≤ row.1 ∧ row.2.sliceId ∈ slices'.map Prod.fst) ∧
        ∀ row ∈ shards', row.2.slabId ∈ slabs'.map Prod.fst
  | [], tx, next, h => by
      cases h
      exact ⟨rfl, [], [], [], by simp, by simp, by simp, nofun, nofun, nofun⟩
  | ss :: rest, tx, next, h => by
      obtain ⟨mid, first, others⟩ := bind_eq_ok.mp h
      obtain ⟨objects, slices, slabs, -, added, shards, written⟩ := addSlice_tables codec first
      obtain ⟨objects', slices', slabs', shards', slicesEq, slabsEq, shardsEq, newSlices, newSlabs,
        newShards⟩ := foldlM_addSlice_rows rest mid next others
      rw [slices, Table.insert_nextId] at newSlices
      rw [slabs, Table.insert_nextId] at newSlabs
      refine ⟨objects'.trans objects, (tx.slices.nextId, ⟨objectId, ss.offset, ss.length⟩) :: slices',
        (tx.slabs.nextId, ⟨tx.slices.nextId, codec.marshalText ss.slab.key, ss.slab.minShards,
          UInt8.ofNat ss.slab.shards.length⟩) :: slabs', added ++ shards', ?_, ?_, ?_, ?_, ?_, ?_⟩
      · rw [slicesEq, slices, Table.insert_rows, List.append_assoc, List.singleton_append]
      · rw [slabsEq, slabs, Table.insert_rows, List.append_assoc, List.singleton_append]
      · rw [shardsEq, shards, List.append_assoc]
      · rintro row (_ | ⟨_, mem⟩)
        · exact ⟨le_refl _, rfl⟩
        · exact (newSlices row mem).imp_left Nat.le_of_succ_le
      · rintro row (_ | ⟨_, mem⟩)
        · exact ⟨le_refl _, .head _⟩
        · exact ⟨Nat.le_of_succ_le (newSlabs row mem).1, .tail _ (newSlabs row mem).2⟩
      · intro row mem
        rcases List.mem_append.mp mem with mem | mem
        · exact ((List.forall₂_and_left _ _).mp written).1 row mem ▸ .head _
        · exact .tail _ (newShards row mem)

end Appended

section Removal

variable {store mid : SQLStore} {key : String} {o : Stores.Object Key} {used : ContractMap}

/-- In every store whose rows point below their parents' next ids, as in every store the writes
reach, removing an object just written by `UpdateObject` leaves exactly the object, slice, slab and
shard rows that removing it before the write leaves: the cascade drops every row the write added,
and no other. -/
theorem RemoveObject_after_UpdateObject (bounds : RowBounds store)
    (h : store.UpdateObject codec key o used = .ok mid) :
    ∃ removed next, store.RemoveObject key = .ok removed ∧ mid.RemoveObject key = .ok next ∧
      next.objects.rows = removed.objects.rows ∧ next.slices.rows = removed.slices.rows ∧
      next.slabs.rows = removed.slabs.rows ∧ next.shards.rows = removed.shards.rows := by
  obtain ⟨-, named, fresh, written⟩ := UpdateObject_ok codec h
  have removed : store.RemoveObject key = .ok (store.deleteObjects fun row => row.2.objectId == key) := by
    rw [SQLStore.RemoveObject, removeObject, if_neg named]
  have bounds := bounds.deleteObjects fun row => row.2.objectId == key
  generalize store.deleteObjects (fun row => row.2.objectId == key) = tx at removed fresh written bounds
  obtain ⟨objects, slices', slabs', shards', slicesEq, slabsEq, shardsEq, newSlices, newSlabs,
    newShards⟩ := foldlM_addSlice_rows codec o.slabs _ mid written
  have objectRows : mid.objects.rows = tx.objects.rows ++ [(tx.objects.nextId, ⟨codec.marshalText o.key, key⟩)] := by
    rw [objects]; rfl
  have objectIds : (mid.objects.rows.filter fun row => row.2.objectId == key).map Prod.fst =
      [tx.objects.nextId] := by
    rw [objectRows, filter_append_eq_right (fun row mem => beq_false_of_ne (fresh row mem)) (by simp)]
    rfl
  have sliceIds : (mid.slices.rows.filter fun slice =>
      decide (slice.2.objectId ∈ [tx.objects.nextId])).map Prod.fst = slices'.map Prod.fst := by
    rw [slicesEq, filter_append_eq_right (fun row mem => by simpa using (bounds.objects row mem).ne)
      (fun row mem => by simp [(newSlices row mem).2])]
  have oldSlabs : ∀ row ∈ tx.slabs.rows, row.2.sliceId ∉ slices'.map Prod.fst := fun row mem =>
    not_mem_map_fst_of_lt (fun row mem => (newSlices row mem).1) (bounds.slices row mem)
  have oldShards : ∀ row ∈ tx.shards.rows, row.2.slabId ∉ slabs'.map Prod.fst := fun row mem =>
    not_mem_map_fst_of_lt (fun row mem => (newSlabs row mem).1) (bounds.slabs row mem)
  have slabIds : (mid.slabs.rows.filter fun slab =>
      decide (slab.2.sliceId ∈ slices'.map Prod.fst)).map Prod.fst = slabs'.map Prod.fst := by
    rw [slabsEq, filter_append_eq_right (fun row mem => decide_eq_false (oldSlabs row mem))
      (fun row mem => decide_eq_true (newSlabs row mem).2)]
  refine ⟨tx, _, removed, by rw [SQLStore.RemoveObject, removeObject, if_neg named], ?_, ?_, ?_, ?_⟩ <;>
    simp only [SQLStore.deleteObjects, Table.delete_rows, objectIds, sliceIds, slabIds]
  · rw [objectRows, filter_append_eq_left (fun row mem => by simp [fresh row mem]) (by simp)]
  · rw [slicesEq, filter_append_eq_left (fun row mem => by simpa using (bounds.objects row mem).ne)
      (fun row mem => by simp [(newSlices row mem).2])]
  · rw [slabsEq, filter_append_eq_left (fun row mem => by simpa using oldSlabs row mem)
      (fun row mem => by simp [(newSlabs row mem).2])]
  · rw [shardsEq, filter_append_eq_left (fun row mem => by simpa using oldShards row mem)
      (fun row mem => by simp [newShards row mem])]

theorem oneShardObject_removed_after_write :
    RowBounds SQLStore.empty ∧ ∃ mid,
      SQLStore.empty.UpdateObject byteCodec "a" oneShardObject usedSeven = .ok mid ∧
      ∃ removed next, SQLStore.empty.RemoveObject "a" = .ok removed ∧ mid.RemoveObject "a" = .ok next ∧
        next.objects.rows = removed.objects.rows ∧ next.slices.rows = removed.slices.rows ∧
        next.slabs.rows = removed.slabs.rows ∧ next.shards.rows = removed.shards.rows :=
  have ⟨mid, h⟩ : ∃ mid,
      SQLStore.empty.UpdateObject byteCodec "a" oneShardObject usedSeven = .ok mid := ⟨_, rfl⟩
  ⟨.empty, mid, h, RemoveObject_after_UpdateObject byteCodec .empty h⟩

end Removal

/-! ## Unique slab keys -/

/-- The slab keys of `slices` are distinct, and none is the key of one of the rows `slabs`. -/
def SlabKeysFree (slabs : List (Nat × SlabRow)) (slices : List (SlabSlice Key)) : Prop :=
  (slices.map fun ss => codec.marshalText ss.slab.key).Nodup ∧
    ∀ row ∈ slabs, row.2.key ∉ slices.map fun ss => codec.marshalText ss.slab.key

instance (slabs : List (Nat × SlabRow)) (slices : List (SlabSlice Key)) :
    Decidable (SlabKeysFree codec slabs slices) :=
  inferInstanceAs (Decidable (_ ∧ _))

/-- A slice whose key no row has moves its key from the slices to the rows. -/
theorem SlabKeysFree.cons_iff {slabs : List (Nat × SlabRow)} {ss : SlabSlice Key}
    {rest : List (SlabSlice Key)} {row : Nat × SlabRow}
    (fresh : ∀ row ∈ slabs, row.2.key ≠ codec.marshalText ss.slab.key)
    (named : row.2.key = codec.marshalText ss.slab.key) :
    SlabKeysFree codec slabs (ss :: rest) ↔ SlabKeysFree codec (slabs ++ [row]) rest := by
  unfold SlabKeysFree
  rw [List.map_cons, List.nodup_cons]
  constructor
  · rintro ⟨⟨notLater, nodup⟩, rows⟩
    refine ⟨nodup, fun other mem => ?_⟩
    rcases List.mem_append.mp mem with mem | single
    · exact fun later => rows other mem (List.mem_cons_of_mem _ later)
    · rwa [List.mem_singleton.mp single, named]
  · rintro ⟨nodup, rows⟩
    refine ⟨⟨named ▸ rows row (List.mem_append_right _ (List.mem_singleton_self _)), nodup⟩,
      fun other mem => ?_⟩
    rw [List.mem_cons, not_or]
    exact ⟨fresh other mem, rows other (List.mem_append_left _ mem)⟩

/-- The slices of a new object all succeed when their slab keys are free, and otherwise the first
slice whose key is taken fails on the unique key. -/
theorem foldlM_addSlice_keys (used : ContractMap) (objectId : Nat) :
    ∀ (slices : List (SlabSlice Key)) (tx : SQLStore),
      (SlabKeysFree codec tx.slabs.rows slices →
        ∃ next, slices.foldlM (addSlice codec used objectId) tx = .ok next) ∧
      (¬ SlabKeysFree codec tx.slabs.rows slices →
        slices.foldlM (addSlice codec used objectId) tx = .error (errUnique "slabs.key"))
  | [], tx => ⟨fun _ => ⟨tx, rfl⟩, fun taken => absurd ⟨List.nodup_nil, fun _ _ => List.not_mem_nil _⟩ taken⟩
  | ss :: rest, tx => by
      by_cases taken : tx.slabs.rows.any fun row => row.2.key == codec.marshalText ss.slab.key
      · have failed : addSlice codec used objectId tx ss = .error (errUnique "slabs.key") := by
          simp only [addSlice, taken, if_true]
        obtain ⟨row, mem, same⟩ := List.any_eq_true.mp taken
        refine ⟨fun free => absurd ?_ (free.2 row mem), fun _ => ?_⟩
        · rw [List.map_cons, beq_iff_eq.mp same]
          exact List.mem_cons_self _ _
        · simp only [List.foldlM_cons, failed]
          rfl
      · have fresh : ∀ row ∈ tx.slabs.rows, row.2.key ≠ codec.marshalText ss.slab.key :=
          fun row mem same => taken (List.any_eq_true.mpr ⟨row, mem, beq_iff_eq.mpr same⟩)
        obtain ⟨next, added⟩ : ∃ next, addSlice codec used objectId tx ss = .ok next :=
          ⟨_, by simp only [addSlice, taken, Bool.false_eq_true, if_false]; rfl⟩
        have iff : SlabKeysFree codec tx.slabs.rows (ss :: rest) ↔
            SlabKeysFree codec (tx.slabs.rows ++ [(tx.slabs.nextId, ⟨tx.slices.nextId,
              codec.marshalText ss.slab.key, ss.slab.minShards, UInt8.ofNat ss.slab.shards.length⟩)])
              rest :=
          SlabKeysFree.cons_iff codec fresh rfl
        rw [← Table.insert_rows, ← (addSlice_tables codec added).2.2.1] at iff
        simp only [List.foldlM_cons, added, iff]
        exact foldlM_addSlice_keys used objectId rest next

/-- The sanity check passes when every shard host of the object has a contract. -/
theorem checkUsedContracts_ok {o : Stores.Object Key} {used : ContractMap}
    (covered : ∀ ss ∈ o.slabs, ∀ shard ∈ ss.slab.shards, (used.get? shard.host).isSome) :
    checkUsedContracts o used = .ok () := by
  rw [checkUsedContracts, List.find?_eq_none.mpr fun shard mem => by
    obtain ⟨ss, slice, onSlab⟩ := List.mem_flatMap.mp mem
    simpa [Option.isSome_iff_ne_none] using covered ss slice shard onSlab]

/-- For a non-empty key and a contract for every shard host of the object, `UpdateObject` never
fails on the unique object id. It fails on the unique slab key exactly when two slices of the
object name one slab key, or a slice names the key of a slab that removing the object's old rows
keeps, that is a slab of another object; otherwise it succeeds. -/
theorem UpdateObject_unique_slab_keys (store : SQLStore) {key : String} (named : key ≠ "")
    (o : Stores.Object Key) {used : ContractMap}
    (covered : ∀ ss ∈ o.slabs, ∀ shard ∈ ss.slab.shards, (used.get? shard.host).isSome) :
    (SlabKeysFree codec (store.deleteObjects fun row => row.2.objectId == key).slabs.rows o.slabs →
        ∃ next, store.UpdateObject codec key o used = .ok next) ∧
      (¬ SlabKeysFree codec (store.deleteObjects fun row => row.2.objectId == key).slabs.rows o.slabs →
        store.UpdateObject codec key o used = .error (errUnique "slabs.key")) := by
  obtain ⟨tx, kept, gone⟩ : ∃ tx, store.deleteObjects (fun row => row.2.objectId == key) = tx ∧
      (tx.objects.rows.any fun row => row.2.objectId == key) = false :=
    ⟨_, rfl, List.any_eq_false.mpr fun row mem => by simpa using (List.mem_filter.mp mem).2⟩
  have written : store.UpdateObject codec key o used = o.slabs.foldlM
      (addSlice codec used tx.objects.nextId)
      { tx with objects := tx.objects.insert ⟨codec.marshalText o.key, key⟩ } := by
    simp only [SQLStore.UpdateObject, checkUsedContracts_ok covered, removeObject, named, if_false,
      kept, gone, bind, Except.bind, Bool.false_eq_true, pure, Except.pure]
  rw [written, kept]
  exact foldlM_addSlice_keys codec used tx.objects.nextId o.slabs
    { tx with objects := tx.objects.insert ⟨codec.marshalText o.key, key⟩ }

/-- Object `a` with two slices of the one slab of `oneShardObject`. -/
def twoSliceObject : Stores.Object UInt8 :=
  ⟨5, [⟨⟨9, 1, [⟨⟨1⟩, rootOnes⟩]⟩, 0, 32⟩, ⟨⟨9, 1, [⟨⟨1⟩, rootOnes⟩]⟩, 32, 32⟩]⟩

theorem twoSlices_unique_slab_keys :
    ("a" ≠ "" ∧ ∀ ss ∈ twoSliceObject.slabs, ∀ shard ∈ ss.slab.shards,
        (usedSeven.get? shard.host).isSome) ∧
      (SlabKeysFree byteCodec (SQLStore.empty.deleteObjects fun row => row.2.objectId == "a").slabs.rows
          twoSliceObject.slabs →
        ∃ next, SQLStore.empty.UpdateObject byteCodec "a" twoSliceObject usedSeven = .ok next) ∧
      (¬ SlabKeysFree byteCodec (SQLStore.empty.deleteObjects fun row => row.2.objectId == "a").slabs.rows
          twoSliceObject.slabs →
        SQLStore.empty.UpdateObject byteCodec "a" twoSliceObject usedSeven = .error (errUnique "slabs.key")) :=
  ⟨⟨by decide, by decide⟩,
    UpdateObject_unique_slab_keys byteCodec SQLStore.empty (by decide) twoSliceObject (by decide)⟩

/-- A slab that two slices share fails `UpdateObject` on the UNIQUE constraint of `slabs.key`:
the slices of one object, and the slices of two objects, one stored before the other. -/
theorem UpdateObject_shared_slab_fails :
    SQLStore.empty.UpdateObject byteCodec "a" twoSliceObject usedSeven =
        .error (errUnique "slabs.key") ∧
      ∃ store, SQLStore.empty.UpdateObject byteCodec "a" oneShardObject usedSeven = .ok store ∧
        store.UpdateObject byteCodec "b" oneShardObject usedSeven = .error (errUnique "slabs.key") :=
  ⟨rfl, _, rfl, rfl⟩

end Renterd.Stores
