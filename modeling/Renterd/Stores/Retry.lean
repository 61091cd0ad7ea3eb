import Renterd.Stores.ReadBack
import Renterd.Stores.Integrity

/-!
# Retrying a slab update

A worker that loses the answer of `UpdateSlab` calls it again with the same slab and contracts.
The second call changes nothing. Its reads find the slab, the hosts and the contracts the first
call left alone, and the shard rows the first call added. So every shard's sector is one the slab
already names, and every link is one the first call appended. Its upserts only set the sectors'
hosts again, and the last shard of each root leaves the host the first call left. A successful
`UpdateSlab` is therefore a fixed point of itself, whatever the snapshot and whatever shards
repeat a root.
-/

namespace Renterd.Stores

/-! ## Host updates -/

/-- The change `upsertSector` makes to a stored sector: the row with the id gets the host. -/
def setHost (id : Nat) (host : PublicKey) (row : Nat × SectorRow) : SectorRow :=
  if row.1 == id then { row.2 with latestHost := host } else row.2

theorem setHost_root (id : Nat) (host : PublicKey) (row : Nat × SectorRow) :
    (setHost id host row).root = row.2.root := by
  unfold setHost; split <;> rfl

/-- The upsert of a root that has a sector only sets that sector's host. -/
theorem upsertSector_of_sectorOf {tx : SQLStore} {shard : Sector} {id : Nat}
    (found : tx.sectorOf? shard.root = some id) :
    upsertSector tx shard = ({ tx with sectors := tx.sectors.update (setHost id shard.host) }, id) := by
  obtain ⟨⟨_, row⟩, taken, rfl⟩ := Option.map_eq_some'.mp found
  unfold upsertSector
  rw [show tx.sectors.take? _ = _ from taken]
  rfl

/-- An update that keeps every root keeps the sector each root finds. -/
theorem sectorOf?_update {tx : SQLStore} {f : Nat × SectorRow → SectorRow}
    (keeps : ∀ row, (f row).root = row.2.root) (root : Hash256) :
    ({ tx with sectors := tx.sectors.update f } : SQLStore).sectorOf? root = tx.sectorOf? root := by
  have same : ((fun row : Nat × SectorRow => row.2.root == root.bytes) ∘ fun row => (row.1, f row)) =
      fun row => row.2.root == root.bytes := funext fun row => by simp [keeps]
  simp only [SQLStore.sectorOf?, Table.take?, Table.update_rows, List.find?_map, same,
    Option.map_map]
  rfl

/-- Two roots that find one sector are one root. -/
theorem sectorOf?_inj {tx : SQLStore} {a b : Hash256} {id : Nat} (ha : tx.sectorOf? a = some id)
    (hb : tx.sectorOf? b = some id) : a = b := by
  obtain ⟨ra, takenA, rfl⟩ := Option.map_eq_some'.mp ha
  obtain ⟨rb, takenB, same⟩ := Option.map_eq_some'.mp hb
  have rootA : ra.2.root = a.bytes := by simpa using List.find?_some takenA
  have rootB : rb.2.root = b.bytes := by simpa using List.find?_some takenB
  rw [tx.sectors.eq_of_id_eq (List.mem_of_find?_eq_some takenA)
    (List.mem_of_find?_eq_some takenB) same.symm, rootB] at rootA
  exact (Hash256.bytes_inj.mp rootA).symm

/-- The sector of one shard is the one another shard's root finds exactly when they share a root. -/
theorem sectorOf?_getD_beq {tx : SQLStore} {x y : Sector} {id idy : Nat}
    (hx : tx.sectorOf? x.root = some id) (hy : tx.sectorOf? y.root = some idy) :
    (id == (tx.sectorOf? y.root).getD 0) = (y.root == x.root) := by
  rw [hy, Option.getD_some]
  refine Bool.eq_iff_iff.mpr ⟨fun same => beq_iff_eq.mpr ?_, fun same => beq_iff_eq.mpr ?_⟩
  · exact sectorOf?_inj (beq_iff_eq.mp same ▸ hy) hx
  · have moved : tx.sectorOf? x.root = some idy := beq_iff_eq.mp same ▸ hy
    exact Option.some.inj (hx.symm.trans moved)

theorem SQLStore.link_of_mem {pairs : List (Nat × Nat)} {pair : Nat × Nat} (mem : pair ∈ pairs) :
    SQLStore.link pairs pair = pairs :=
  if_pos mem

theorem find?_eq_of_agree {α : Type} {p q : α → Bool} :
    ∀ {l : List α}, (∀ x ∈ l, p x = q x) → l.find? p = l.find? q
  | [], _ => rfl
  | x :: l, agree => by
      rw [List.find?_cons, List.find?_cons, agree x (.head _),
        find?_eq_of_agree fun y mem => agree y (.tail _ mem)]

/-- Setting, shard by shard, the host of the shards that `hit` picks leaves the host of the last
of them. -/
theorem foldl_setHost (hit : Sector → Bool) (shards : List Sector) (r : SectorRow) :
    shards.foldl (fun r x => if hit x then { r with latestHost := x.host } else r) r =
      match shards.reverse.find? hit with
      | some x => { r with latestHost := x.host }
      | none => r := by
  induction shards using List.reverseRecOn with
  | nil => rfl
  | append_singleton shards x ih =>
      rw [List.foldl_append, List.foldl_cons, List.foldl_nil, ih, List.reverse_append,
        List.reverse_singleton, List.singleton_append, List.find?_cons]
      cases hit x
      · rfl
      · cases shards.reverse.find? hit <;> rfl

/-- Setting again the hosts of shards whose roots have sectors, on a store whose sectors already
have the last host of each root, changes no sector. -/
theorem foldl_setHost_of_latest {tx : SQLStore} {shards : List Sector}
    (found : ∀ shard ∈ shards, ∃ id, tx.sectorOf? shard.root = some id)
    (hosts : LatestHosts tx shards) :
    ∀ row ∈ tx.sectors.rows, shards.foldl (fun r shard =>
      if row.1 == (tx.sectorOf? shard.root).getD 0 then { r with latestHost := shard.host } else r)
        row.2 = row.2 := by
  rintro ⟨rowId, sector⟩ mem
  rw [foldl_setHost]
  split
  · next x last =>
      obtain ⟨id, sectorX⟩ := found x (List.mem_reverse.mp (List.mem_of_find?_eq_some last))
      have hit : rowId = id := by simpa [sectorX] using List.find?_some last
      subst hit
      -- the last shard that hits the row is the last shard on its root
      have agree : ∀ y ∈ shards.reverse,
          (rowId == (tx.sectorOf? y.root).getD 0) = (y.root == x.root) := fun y mem =>
        let ⟨_, sectorY⟩ := found y (List.mem_reverse.mp mem)
        sectorOf?_getD_beq sectorX sectorY
      have row : some sector = some ⟨x.host, x.root.bytes⟩ := by
        rw [← tx.sectors.get?_of_mem mem, SQLStore.get?_of_sectorOf? sectorX]
        exact hosts x.root x.host (by rw [lastHost, ← find?_eq_of_agree agree, last]; rfl)
      cases row
      rfl
  · rfl

/-! ## What the first call leaves -/

/-- What the transaction left in `tx` for a shard: the sector `id` on its root, a shard row of the
slab on that sector, and links of the sector to the contract and the host the snapshot finds for
the shard's host. -/
structure Applied (snapshot : SlabSnapshot) (used : ContractMap) (tx : SQLStore) (shard : Sector)
    (id : Nat) : Prop where
  sector : tx.sectorOf? shard.root = some id
  shardRow : ∃ row ∈ tx.shards.rows, row.2.slabId = snapshot.slabId ∧ row.2.sectorId = id
  contract : ∀ c, snapshot.contracts.find? (fun row => row.2.fcid == (used.get? shard.host).getD .zero) =
    some c → (c.1, id) ∈ tx.contractSectors
  host : ∀ h, snapshot.hosts.find? (fun row => row.2.publicKey == shard.host) = some h →
    (h.1, id) ∈ tx.hostSectors

section FirstCall

variable {snapshot : SlabSnapshot} {used : ContractMap}

theorem updateShard_shards (tx : SQLStore) (shard : Sector) :
    tx.shards.rows ⊆ (updateShard snapshot used tx shard).shards.rows := by
  obtain ⟨-, -, shards, -⟩ := updateShard_fields snapshot used tx shard
  rw [shards]
  split
  · exact List.Subset.refl _
  · exact List.subset_append_left _ _

/-- A later shard of the transaction keeps what it left for an earlier one. -/
theorem Applied.step {tx : SQLStore} {shard : Sector} {id : Nat}
    (applied : Applied snapshot used tx shard id) (next : Sector) :
    Applied snapshot used (updateShard snapshot used tx next) shard id := by
  obtain ⟨sectors, -⟩ := updateShard_fields snapshot used tx next
  obtain ⟨hosts, contracts⟩ := updateShard_grows snapshot used tx next
  obtain ⟨row, mem, slab, sector⟩ := applied.shardRow
  refine ⟨?_, ⟨row, updateShard_shards tx next mem, slab, sector⟩,
    fun c found => contracts (applied.contract c found), fun h found => hosts (applied.host h found)⟩
  have upserted := upsertSector_sectorOf tx next shard.root
  rw [applied.sector, Option.or_some] at upserted
  rw [← upserted]
  simp only [SQLStore.sectorOf?, sectors]

/-- The links a shard step appends for its own shard. -/
theorem updateShard_links_found (snapshot : SlabSnapshot) (used : ContractMap) (tx : SQLStore)
    (shard : Sector) :
    (∀ c, snapshot.contracts.find? (fun row => row.2.fcid == (used.get? shard.host).getD .zero) =
      some c → (c.1, (upsertSector tx shard).2) ∈ (updateShard snapshot used tx shard).contractSectors) ∧
    ∀ h, snapshot.hosts.find? (fun row => row.2.publicKey == shard.host) = some h →
      (h.1, (upsertSector tx shard).2) ∈ (updateShard snapshot used tx shard).hostSectors := by
  constructor <;> intro found taken <;> simp only [updateShard, taken] <;> split <;>
    simp only [SQLStore.mem_link, true_or, or_true]

/-- A shard step leaves for its shard the upserted sector, a shard row on it, and its links. -/
theorem Applied.own {tx : SQLStore} (read : snapshot.shards ⊆ tx.shards.rows)
    (slab : ∀ row ∈ snapshot.shards, row.2.slabId = snapshot.slabId) (shard : Sector) :
    Applied snapshot used (updateShard snapshot used tx shard) shard (upsertSector tx shard).2 := by
  obtain ⟨sectors, -, shards, -⟩ := updateShard_fields snapshot used tx shard
  obtain ⟨contract, host⟩ := updateShard_links_found snapshot used tx shard
  refine ⟨?_, ?_, contract, host⟩
  · rw [← upsertSector_sectorOf_self]
    simp only [SQLStore.sectorOf?, sectors]
  · rw [shards]
    split
    · rename_i named
      obtain ⟨row, mem, same⟩ := List.any_eq_true.mp named
      exact ⟨row, read mem, slab row mem, by simpa using same⟩
    · exact ⟨_, List.mem_append_right _ (List.mem_singleton_self _), rfl, rfl⟩

theorem Applied.updateSlabTx {tx : SQLStore} {shard : Sector} {id : Nat}
    (applied : Applied snapshot used tx shard id) (shards : List Sector) :
    Applied snapshot used (updateSlabTx snapshot used tx shards) shard id :=
  foldl_invariant (P := fun tx : SQLStore => Applied snapshot used tx shard id)
    (fun _ next applied => applied.step next) applied

/-- After the transaction, every one of its shards has what it left. -/
theorem updateSlabTx_applied (slab : ∀ row ∈ snapshot.shards, row.2.slabId = snapshot.slabId) :
    ∀ (shards : List Sector) (tx : SQLStore), snapshot.shards ⊆ tx.shards.rows →
      ∀ shard ∈ shards, ∃ id, Applied snapshot used (updateSlabTx snapshot used tx shards) shard id
  | [], _, _, _, mem => absurd mem (List.not_mem_nil _)
  | first :: rest, tx, read, shard, mem => by
      rw [updateSlabTx_cons]
      rcases List.mem_cons.mp mem with rfl | later
      · exact ⟨_, (Applied.own read slab shard).updateSlabTx rest⟩
      · exact updateSlabTx_applied slab rest _ (read.trans (updateShard_shards tx first)) shard later

theorem LatestHosts.updateSlabTx (snapshot : SlabSnapshot) (used : ContractMap) {tx : SQLStore}
    {written : List Sector} (hosts : LatestHosts tx written) :
    ∀ shards : List Sector, LatestHosts (Stores.updateSlabTx snapshot used tx shards) (written ++ shards)
  | [] => by rwa [List.append_nil]
  | shard :: rest => by
      obtain ⟨sectors, -⟩ := updateShard_fields snapshot used tx shard
      rw [updateSlabTx_cons, ← List.singleton_append, ← List.append_assoc]
      exact ((hosts.upsert shard).of_sectors sectors).updateSlabTx snapshot used rest

theorem updateSlabTx_tables (snapshot : SlabSnapshot) (used : ContractMap) (tx : SQLStore)
    (shards : List Sector) :
    (Stores.updateSlabTx snapshot used tx shards).slabs = tx.slabs ∧
      (Stores.updateSlabTx snapshot used tx shards).hosts = tx.hosts ∧
      (Stores.updateSlabTx snapshot used tx shards).contracts = tx.contracts :=
  foldl_invariant (P := fun s : SQLStore => s.slabs = tx.slabs ∧ s.hosts = tx.hosts ∧
    s.contracts = tx.contracts) (fun s shard ⟨slabs, hosts, contracts⟩ =>
      ⟨(updateShard_fields snapshot used s shard).2.1.trans slabs,
        (Integrity.updateShard_tables snapshot s shard).1.trans hosts,
        (Integrity.updateShard_tables snapshot s shard).2.trans contracts⟩) ⟨rfl, rfl, rfl⟩

end FirstCall

/-! ## The second call -/

section SecondCall

variable {snapshot : SlabSnapshot} {used : ContractMap}

/-- What the first call left for a shard it left also against the shard rows the second call
reads, and these name the shard's sector. -/
theorem Applied.reread {tx : SQLStore} {shard : Sector} {id : Nat}
    (applied : Applied snapshot used tx shard id) :
    Applied { snapshot with
        shards := tx.shards.rows.filter fun row => row.2.slabId == snapshot.slabId } used tx shard id ∧
      (tx.shards.rows.filter fun row => row.2.slabId == snapshot.slabId).any
        (fun row => row.2.sectorId == id) = true := by
  obtain ⟨row, stored, own, sector⟩ := applied.shardRow
  exact ⟨⟨applied.sector, ⟨row, stored, own, sector⟩, applied.contract, applied.host⟩,
    List.any_eq_true.mpr ⟨row, List.mem_filter.mpr ⟨stored, by simpa using own⟩, by simpa using sector⟩⟩

/-- A shard step over a shard it already applied only sets its sector's host. -/
theorem updateShard_of_applied {tx : SQLStore} {shard : Sector} {id : Nat}
    (found : tx.sectorOf? shard.root = some id)
    (named : snapshot.shards.any (fun row => row.2.sectorId == id) = true)
    (contract : ∀ c, snapshot.contracts.find?
      (fun row => row.2.fcid == (used.get? shard.host).getD .zero) = some c →
        (c.1, id) ∈ tx.contractSectors)
    (host : ∀ h, snapshot.hosts.find? (fun row => row.2.publicKey == shard.host) = some h →
      (h.1, id) ∈ tx.hostSectors) :
    updateShard snapshot used tx shard =
      { tx with sectors := tx.sectors.update (setHost id shard.host) } := by
  simp only [updateShard, upsertSector_of_sectorOf found, named, if_true]
  rcases contractFound : snapshot.contracts.find?
      (fun row => row.2.fcid == (used.get? shard.host).getD .zero) with _ | ⟨contractId, _⟩ <;>
    rcases hostFound : snapshot.hosts.find? (fun row => row.2.publicKey == shard.host) with
      _ | ⟨hostId, _⟩ <;>
    simp only [contractFound, hostFound]
  · rw [SQLStore.link_of_mem (host _ hostFound)]
  · rw [SQLStore.link_of_mem (contract _ contractFound)]
  · rw [SQLStore.link_of_mem (contract _ contractFound), SQLStore.link_of_mem (host _ hostFound)]

/-- A transaction over shards it already applied, each found on the same sector, only sets the
sectors' hosts, in the order of the shards. -/
theorem updateSlabTx_of_applied (store : SQLStore) :
    ∀ (shards : List Sector) (f : Nat × SectorRow → SectorRow), (∀ row, (f row).root = row.2.root) →
      (∀ shard ∈ shards, ∃ id, Applied snapshot used store shard id ∧
        snapshot.shards.any (fun row => row.2.sectorId == id) = true) →
      Stores.updateSlabTx snapshot used { store with sectors := store.sectors.update f } shards =
        { store with sectors := store.sectors.update fun row =>
            shards.foldl (fun r shard => if row.1 == (store.sectorOf? shard.root).getD 0 then
              { r with latestHost := shard.host } else r) (f row) }
  | [], _, _, _ => rfl
  | shard :: rest, f, keeps, applied => by
      obtain ⟨id, done, named⟩ := applied shard (.head _)
      rw [updateSlabTx_cons, updateShard_of_applied ((sectorOf?_update keeps _).trans done.sector)
        named done.contract done.host]
      show Stores.updateSlabTx snapshot used
        { store with sectors := (store.sectors.update f).update (setHost id shard.host) } rest = _
      rw [Table.update_update, updateSlabTx_of_applied store rest _
        (fun row => (setHost_root _ _ _).trans (keeps row)) fun shard mem => applied shard (.tail _ mem)]
      simp only [List.foldl_cons, done.sector, Option.getD_some]
      rfl

end SecondCall

variable {Key : Type} (codec : KeyCodec Key)

/-- The reads of `UpdateSlab` on a store whose slabs, hosts and contracts are those it read
before find the same, and the shard rows stored now. -/
theorem readSlab_of_tables {store next : SQLStore} {s : Slab Key} {used : ContractMap}
    {snapshot : SlabSnapshot} (read : readSlab codec store s used = .ok snapshot)
    (slabs : next.slabs = store.slabs) (hosts : next.hosts = store.hosts)
    (contracts : next.contracts = store.contracts) :
    readSlab codec next s used = .ok { snapshot with
      shards := next.shards.rows.filter fun row => row.2.slabId == snapshot.slabId } := by
  simp only [readSlab, slabs, hosts, contracts] at read ⊢
  split at read
  · cases read
  · cases read
    rfl

/-- A successful `UpdateSlab` is a fixed point of itself: called again with the same slab and
contracts on the store it left, it succeeds and changes nothing. -/
theorem UpdateSlab_retry {store next : SQLStore} {s : Slab Key} {used : ContractMap}
    (h : store.UpdateSlab codec s used = .ok next) : next.UpdateSlab codec s used = .ok next := by
  obtain ⟨snapshot, read, rfl⟩ := UpdateSlab_ok codec h
  obtain ⟨-, shardsRead⟩ := readSlab_ok codec read
  have slab : ∀ row ∈ snapshot.shards, row.2.slabId = snapshot.slabId := fun row mem => by
    rw [shardsRead] at mem
    simpa using (List.mem_filter.mp mem).2
  have stored : snapshot.shards ⊆ store.shards.rows := fun row mem => by
    rw [shardsRead] at mem
    exact List.mem_of_mem_filter mem
  have applied := @updateSlabTx_applied snapshot used slab s.shards store stored
  have hosts := (LatestHosts.nil store).updateSlabTx snapshot used s.shards
  rw [List.nil_append] at hosts
  obtain ⟨slabs, hostRows, contracts⟩ := updateSlabTx_tables snapshot used store s.shards
  rw [SQLStore.UpdateSlab, readSlab_of_tables codec read slabs hostRows contracts]
  generalize updateSlabTx snapshot used store s.shards = first at applied hosts ⊢
  -- the second call finds every shard applied, so it only sets the hosts the first call set
  have again := @updateSlabTx_of_applied _ used first s.shards (fun row => row.2) (fun _ => rfl)
    fun shard mem => let ⟨id, done⟩ := applied shard mem; ⟨id, done.reread⟩
  have unchanged : { first with sectors := first.sectors.update fun row => row.2 } = first := by
    rw [Table.update_of_forall_eq first.sectors fun _ _ => rfl]
  rw [unchanged, Table.update_of_forall_eq first.sectors (foldl_setHost_of_latest
    (fun shard mem => let ⟨id, done⟩ := applied shard mem; ⟨id, done.sector⟩) hosts)] at again
  exact congrArg Except.ok again

/-- Two shards of one root on two hosts: the update, retried, leaves the store as its first call
left it. -/
theorem repeatedRoot_retry :
    ∃ store next, SQLStore.empty.UpdateObject byteCodec "a" oneShardObject usedSeven = .ok store ∧
      store.UpdateSlab byteCodec ⟨9, 1, [⟨⟨1⟩, rootTwos⟩, ⟨⟨2⟩, rootTwos⟩]⟩ usedSeven = .ok next ∧
      next.UpdateSlab byteCodec ⟨9, 1, [⟨⟨1⟩, rootTwos⟩, ⟨⟨2⟩, rootTwos⟩]⟩ usedSeven = .ok next := by
  refine ⟨_, ?next, rfl, (fun first => ⟨first, UpdateSlab_retry byteCodec first⟩) ?first⟩
  case first => exact rfl

end Renterd.Stores
