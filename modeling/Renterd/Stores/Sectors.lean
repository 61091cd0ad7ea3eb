import Renterd.Stores.Integrity

/-!
# Sectors across every run of writes

A sector is found by its root (`FirstOrCreate` on `Root`), and no write deletes one: the cascades
of `deleteObjects` and `deleteContracts` stop at the shards and at the sector links. So over every
run of writes, in any interleaving of the statements of concurrent calls and with `UpdateSlab`
transactions over snapshots however stale, every sector keeps its id and its root, no two sectors
come to share a root, and every shard and every sector link names a stored sector.
-/

namespace Renterd.Stores

/-- Each sector's id with its root. -/
def SQLStore.sectorRoots (store : SQLStore) : List (Nat × List UInt8) :=
  store.sectors.rows.map fun row => (row.1, row.2.root)

/-- Every shard and every sector link names a stored sector, and no two sectors share a root. -/
structure SectorsSound (store : SQLStore) : Prop where
  shards : ∀ shard ∈ store.shards.rows, shard.2.sectorId ∈ store.sectors.ids
  contractLinks : ∀ pair ∈ store.contractSectors, pair.2 ∈ store.sectors.ids
  hostLinks : ∀ pair ∈ store.hostSectors, pair.2 ∈ store.sectors.ids
  roots : (store.sectors.rows.map fun row => row.2.root).Nodup

/-- `next` keeps every sector of `store` under its id and root, and keeps the sectors sound. -/
structure SectorsKept (store next : SQLStore) : Prop where
  roots : store.sectorRoots ⊆ next.sectorRoots
  sound : SectorsSound store → SectorsSound next

namespace SectorsKept

variable {store mid next : SQLStore}

theorem refl (store : SQLStore) : SectorsKept store store := ⟨List.Subset.refl _, id⟩

theorem trans (first : SectorsKept store mid) (second : SectorsKept mid next) :
    SectorsKept store next :=
  ⟨first.roots.trans second.roots, second.sound ∘ first.sound⟩

/-- A write that leaves the sectors and only drops shards and links. -/
theorem of_sub (sectors : next.sectors = store.sectors)
    (shards : ∀ shard ∈ next.shards.rows, shard ∈ store.shards.rows)
    (contractLinks : next.contractSectors ⊆ store.contractSectors)
    (hostLinks : next.hostSectors ⊆ store.hostSectors) : SectorsKept store next := by
  refine ⟨by unfold SQLStore.sectorRoots; rw [sectors]; exact List.Subset.refl _, fun sound => ⟨fun shard mem => ?_,
    fun pair mem => ?_, fun pair mem => ?_, sectors ▸ sound.roots⟩⟩
  · exact sectors ▸ sound.shards shard (shards shard mem)
  · exact sectors ▸ sound.contractLinks pair (contractLinks mem)
  · exact sectors ▸ sound.hostLinks pair (hostLinks mem)

/-- A write that leaves the sectors, the shards and the sector links. -/
theorem of_eq (sectors : next.sectors = store.sectors) (shards : next.shards = store.shards)
    (contractLinks : next.contractSectors = store.contractSectors)
    (hostLinks : next.hostSectors = store.hostSectors) : SectorsKept store next :=
  of_sub sectors (fun _ mem => shards ▸ mem) (contractLinks ▸ List.Subset.refl _)
    (hostLinks ▸ List.Subset.refl _)

theorem committed {result : Except String SQLStore} (step : ∀ next, result = .ok next →
    SectorsKept store next) : SectorsKept store (Stores.committed store result) :=
  committed_induction step (refl store)

theorem foldl {α : Type} {f : SQLStore → α → SQLStore} (step : ∀ tx x, SectorsKept tx (f tx x)) :
    ∀ (xs : List α) (tx : SQLStore), SectorsKept tx (xs.foldl f tx)
  | [], tx => refl tx
  | x :: xs, tx => (step tx x).trans (foldl step xs (f tx x))

end SectorsKept

/-! ## The upsert and the shard loops -/

section Shards

variable (tx : SQLStore) (shard : Sector)

/-- An upsert keeps the id and root of every sector, and adds a sector only for a root no sector
has. -/
theorem upsertSector_kept : SectorsKept tx (upsertSector tx shard).1 := by
  obtain ⟨grows, -⟩ := upsertSector_ids tx shard
  have roots : tx.sectorRoots ⊆ (upsertSector tx shard).1.sectorRoots ∧
      ((tx.sectors.rows.map fun row => row.2.root).Nodup →
        ((upsertSector tx shard).1.sectors.rows.map fun row => row.2.root).Nodup) := by
    unfold upsertSector
    split
    · rename_i id _ _
      have same : ∀ row : Nat × SectorRow, (if row.1 == id then
          { row.2 with latestHost := shard.host } else row.2).root = row.2.root := fun row => by
        split <;> rfl
      simp only [SQLStore.sectorRoots, Table.update_rows, List.map_map, Function.comp_def, same]
      exact ⟨List.Subset.refl _, fun nodup => nodup⟩
    · rename_i missing
      refine ⟨by simp [SQLStore.sectorRoots], fun nodup => ?_⟩
      simp only [Table.insert_rows, List.map_append, List.map_singleton]
      refine List.nodup_append.mpr ⟨nodup, List.nodup_singleton _, ?_⟩
      simp only [List.disjoint_singleton, List.mem_map, not_exists, not_and]
      intro row mem same
      simpa [same] using List.find?_eq_none.mp missing row mem
  exact ⟨roots.1, fun sound => ⟨fun s mem => grows (sound.shards s (upsertSector_shards tx shard ▸ mem)),
    fun p mem => grows (sound.contractLinks p (upsertSector_contractSectors tx shard ▸ mem)),
    fun p mem => grows (sound.hostLinks p (upsertSector_hostSectors tx shard ▸ mem)),
    roots.2 sound.roots⟩⟩

/-- The links of one shard: the shard's sector, linked to a contract and to a host. -/
theorem addShard_links (used : ContractMap) (slabId : Nat) :
    (∀ p ∈ (addShard used slabId tx shard).contractSectors,
      p ∈ tx.contractSectors ∨ p.2 = (upsertSector tx shard).2) ∧
    ∀ p ∈ (addShard used slabId tx shard).hostSectors,
      p ∈ tx.hostSectors ∨ p.2 = (upsertSector tx shard).2 := by
  simp only [addShard]
  split <;> split <;> simp +contextual [SQLStore.mem_link, or_imp]

theorem updateShard_links (snapshot : SlabSnapshot) (used : ContractMap) :
    (∀ p ∈ (updateShard snapshot used tx shard).contractSectors,
      p ∈ tx.contractSectors ∨ p.2 = (upsertSector tx shard).2) ∧
    ∀ p ∈ (updateShard snapshot used tx shard).hostSectors,
      p ∈ tx.hostSectors ∨ p.2 = (upsertSector tx shard).2 := by
  simp only [updateShard]
  split <;> split <;> split <;> simp +contextual [SQLStore.mem_link, or_imp]

/-- A shard step: the upsert, then rows that name the upserted sector or were there before. -/
theorem SectorsKept.of_upsert {next : SQLStore}
    (sectors : next.sectors = (upsertSector tx shard).1.sectors)
    (shards : ∀ s ∈ next.shards.rows, s ∈ tx.shards.rows ∨ s.2.sectorId = (upsertSector tx shard).2)
    (contractLinks : ∀ p ∈ next.contractSectors, p ∈ tx.contractSectors ∨ p.2 = (upsertSector tx shard).2)
    (hostLinks : ∀ p ∈ next.hostSectors, p ∈ tx.hostSectors ∨ p.2 = (upsertSector tx shard).2) :
    SectorsKept tx next := by
  have upserted := upsertSector_kept tx shard
  have own := (upsertSector_ids tx shard).2
  rw [← sectors] at own
  have grows : tx.sectors.ids ⊆ next.sectors.ids := sectors ▸ (upsertSector_ids tx shard).1
  have roots := upserted.roots
  unfold SQLStore.sectorRoots at roots
  refine ⟨by unfold SQLStore.sectorRoots; rw [sectors]; exact roots, fun sound => ⟨?_, ?_, ?_, ?_⟩⟩
  · exact fun s mem => (shards s mem).elim (grows <| sound.shards s ·) (· ▸ own)
  · exact fun p mem => (contractLinks p mem).elim (grows <| sound.contractLinks p ·) (· ▸ own)
  · exact fun p mem => (hostLinks p mem).elim (grows <| sound.hostLinks p ·) (· ▸ own)
  · rw [sectors]; exact (upserted.sound sound).roots

theorem addShard_kept (used : ContractMap) (slabId : Nat) :
    SectorsKept tx (addShard used slabId tx shard) := by
  obtain ⟨sectors, -, shards, -⟩ := addShard_fields used slabId tx shard
  obtain ⟨contractLinks, hostLinks⟩ := addShard_links tx shard used slabId
  refine .of_upsert tx shard sectors (fun s mem => ?_) contractLinks hostLinks
  rw [shards, Table.insert_rows] at mem
  rcases List.mem_append.mp mem with old | new
  · exact .inl old
  · exact .inr (by rw [List.mem_singleton.mp new])

theorem updateShard_kept (snapshot : SlabSnapshot) (used : ContractMap) :
    SectorsKept tx (updateShard snapshot used tx shard) := by
  obtain ⟨sectors, -, shards, -⟩ := updateShard_fields snapshot used tx shard
  obtain ⟨contractLinks, hostLinks⟩ := updateShard_links tx shard snapshot used
  refine .of_upsert tx shard sectors (fun s mem => ?_) contractLinks hostLinks
  rw [shards] at mem
  split at mem
  · exact .inl mem
  · rw [Table.insert_rows] at mem
    rcases List.mem_append.mp mem with old | new
    · exact .inl old
    · exact .inr (by rw [List.mem_singleton.mp new])

end Shards

/-! ## Every write -/

variable {Key : Type} (codec : KeyCodec Key)

section Writes

variable {store next : SQLStore}

theorem deleteObjects_kept (drop : Nat × ObjectRow → Bool) :
    SectorsKept store (store.deleteObjects drop) :=
  .of_sub rfl (fun _ mem => List.mem_of_mem_filter mem) (List.Subset.refl _) (List.Subset.refl _)

theorem deleteContracts_kept (drop : Nat × ContractRow → Bool) :
    SectorsKept store (store.deleteContracts drop) :=
  .of_sub rfl (fun _ => id) (fun _ mem => List.mem_of_mem_filter mem) (List.Subset.refl _)

theorem UpdateObject_kept {key : String} {o : Stores.Object Key} {used : ContractMap}
    (h : store.UpdateObject codec key o used = .ok next) : SectorsKept store next := by
  obtain ⟨-, -, -, written⟩ := UpdateObject_ok codec h
  refine (deleteObjects_kept _).trans (foldlM_invariant
    (P := SectorsKept (store.deleteObjects fun row => row.2.objectId == key))
    (fun tx ss next _ kept added => kept.trans ?step) ?start written)
  case start => exact .of_eq rfl rfl rfl rfl
  case step =>
    obtain ⟨-, base, rfl, rfl⟩ := addSlice_ok codec added
    refine SectorsKept.trans ?_ (.foldl (addShard_kept · · used _) _ _)
    exact .of_eq rfl rfl rfl rfl

theorem AddRenewedContract_kept {c : ContractRevision} {totalCost : Currency} {startHeight : Nat}
    {renewedFrom : FileContractID} {added : ContractRow}
    (h : store.AddRenewedContract c totalCost startHeight renewedFrom = .ok (next, added)) :
    SectorsKept store next := by
  obtain ⟨_, _, _, _, _, -, archived, removed, added⟩ := AddRenewedContract_ok h
  obtain ⟨-, rfl⟩ := archiveContract_ok archived
  obtain ⟨-, rfl⟩ := removeContract_ok removed
  obtain ⟨-, -, rfl⟩ := addContract_ok added
  exact .of_sub rfl (fun _ => id) (fun _ mem => List.mem_of_mem_filter mem) (List.Subset.refl _)

/-- Every write, whatever the state of the store it runs on. -/
theorem Write.apply_kept (write : Write Key) (store : SQLStore) :
    SectorsKept store (write.apply codec store) := by
  cases write with
  | addContract =>
      refine .committed fun next h => ?_
      obtain ⟨⟨_, _⟩, ok, rfl⟩ := map_eq_ok.mp h
      obtain ⟨-, -, rfl⟩ := addContract_ok ok
      exact .of_eq rfl rfl rfl rfl
  | addRenewedContract =>
      refine .committed fun next h => ?_
      obtain ⟨⟨_, _⟩, ok, rfl⟩ := map_eq_ok.mp h
      exact AddRenewedContract_kept ok
  | removeContract =>
      refine .committed fun next h => ?_
      obtain ⟨-, rfl⟩ := removeContract_ok h
      exact deleteContracts_kept _
  | recordSpending =>
      refine .committed fun next h => ?_
      obtain rfl | ⟨_, rfl⟩ := recordSpending_ok h <;> exact .of_eq rfl rfl rfl rfl
  | setContractSet name ids pc =>
      cases pc with
      | create found =>
          simp only [Write.apply, SetContractSetPc.step, firstOrCreateSet]
          split <;> exact .of_eq rfl rfl rfl rfl
      | _ => exact .of_eq rfl rfl rfl rfl
  | updateObject => exact .committed fun _ => UpdateObject_kept codec
  | removeObject =>
      refine .committed fun next h => ?_
      obtain ⟨-, rfl⟩ := removeObject_ok h
      exact deleteObjects_kept _
  | updateSlab snapshot used shards => exact .foldl (updateShard_kept · · snapshot used) _ _

/-- Over every run of writes, with the statements of concurrent calls interleaved anyhow and each
`UpdateSlab` transaction over whatever its reads returned: no sector is deleted, none changes its
id or root, and from a store where every shard and sector link names a stored sector and roots are
one per sector, so is every store of the run. -/
theorem Write.run_sectors (writes : List (Write Key)) (store : SQLStore) :
    store.sectorRoots ⊆ (Write.run codec writes store).sectorRoots ∧
      (SectorsSound store → SectorsSound (Write.run codec writes store)) :=
  have kept := SectorsKept.foldl (fun store write => Write.apply_kept codec write store) writes store
  ⟨kept.roots, kept.sound⟩

end Writes

end Renterd.Stores
