import Renterd.Stores.Contracts

/-!
# Contract sets

`SetContractSet` issues three statements outside a transaction: the lookup of the contracts,
`FirstOrCreate` of the set, and `Association("Contracts").Replace`, which GORM runs as a save of
the new join rows followed by a delete of the others. Each statement is atomic; a reader runs
between any two of them. `contracts` reads a set's members.
-/

namespace Renterd.Stores

def ErrContractSetNotFound : String := "couldn't find contract set"

/-- `Where("fcid IN (?)", fcids).Find`. -/
def findContracts (store : SQLStore) (ids : List FileContractID) : List (Nat × ContractRow) :=
  store.contracts.rows.filter fun row => row.2.fcid ∈ ids

/-- `Where(dbContractSet{Name: name}).FirstOrCreate`: the set's id. -/
def firstOrCreateSet (store : SQLStore) (name : String) : SQLStore × Nat :=
  match store.sets.take? fun row => whereField "" name row.2.name with
  | some (id, _) => (store, id)
  | none => ({ store with sets := store.sets.insert ⟨name⟩ }, store.sets.nextId)

/-- The first half of `Replace`: a join row per contract, `ON CONFLICT DO NOTHING`. -/
def appendSetContracts (store : SQLStore) (setId : Nat) (found : List (Nat × ContractRow)) :
    SQLStore :=
  { store with
    setContracts := found.foldl (fun pairs c => SQLStore.link pairs (setId, c.1)) store.setContracts }

/-- The second half of `Replace`: delete the set's join rows to other contracts. -/
def pruneSetContracts (store : SQLStore) (setId : Nat) (found : List (Nat × ContractRow)) :
    SQLStore :=
  { store with
    setContracts := store.setContracts.filter fun pair =>
      pair.1 != setId || pair.2 ∈ found.map Prod.fst }

/-- Where a `SetContractSet` call is: before each of its statements, or returned. -/
inductive SetContractSetPc where
  | fetch
  | create (found : List (Nat × ContractRow))
  | append (setId : Nat) (found : List (Nat × ContractRow))
  | prune (setId : Nat) (found : List (Nat × ContractRow))
  | returned

/-- One statement of `SetContractSet(name, ids)`. -/
def SetContractSetPc.step (name : String) (ids : List FileContractID) (store : SQLStore) :
    SetContractSetPc → SetContractSetPc × SQLStore
  | .fetch => (.create (findContracts store ids), store)
  | .create found =>
      let (store, setId) := firstOrCreateSet store name
      (.append setId found, store)
  | .append setId found => (.prune setId found, appendSetContracts store setId found)
  | .prune setId found => (.returned, pruneSetContracts store setId found)
  | .returned => (.returned, store)

/-- `SetContractSet` run without interruption. -/
def SQLStore.SetContractSet (store : SQLStore) (name : String) (ids : List FileContractID) :
    SQLStore :=
  let found := findContracts store ids
  let (store, setId) := firstOrCreateSet store name
  pruneSetContracts (appendSetContracts store setId found) setId found

/-- `contracts` (the name of the table in this model): `Where(&dbContractSet{Name: set}).Take`,
then the preload of its contracts. -/
def SQLStore.setContractRows (store : SQLStore) (set : String) :
    Except String (List (Nat × ContractRow)) :=
  match store.sets.take? fun row => whereField "" set row.2.name with
  | none => .error ErrContractSetNotFound
  | some (setId, _) => .ok (store.contracts.rows.filter fun c => (setId, c.1) ∈ store.setContracts)

/-- The members' ids as `Contracts` returns them. -/
def SQLStore.Contracts (store : SQLStore) (set : String) : Except String (List FileContractID) :=
  (store.setContractRows set).map (List.map fun c => c.2.fcid)

/-- The store after the first `n` statements of `SetContractSet(name, ids)`. -/
def SQLStore.setContractSetAfter (store : SQLStore) (name : String) (ids : List FileContractID)
    (n : Nat) : SQLStore :=
  (n.iterate (fun run => run.1.step name ids run.2) (SetContractSetPc.fetch, store)).2

/-- Four statements with nothing in between are the whole call. -/
theorem setContractSetAfter_four (store : SQLStore) (name : String) (ids : List FileContractID) :
    store.setContractSetAfter name ids 4 = store.SetContractSet name ids := by
  simp only [SQLStore.setContractSetAfter, Nat.iterate, SetContractSetPc.step,
    SQLStore.SetContractSet]

/-! ## What a whole call does -/

section WholeCall

variable (store : SQLStore) (name : String)

theorem mem_appendSetContracts (setId : Nat) (found : List (Nat × ContractRow)) (pair : Nat × Nat) :
    pair ∈ (appendSetContracts store setId found).setContracts ↔
      pair ∈ store.setContracts ∨ pair.1 = setId ∧ pair.2 ∈ found.map Prod.fst := by
  unfold appendSetContracts
  induction found generalizing store with
  | nil => simp
  | cons c rest ih =>
      rw [List.foldl_cons, ih { store with setContracts := SQLStore.link store.setContracts (setId, c.1) },
        SQLStore.mem_link]
      obtain ⟨first, second⟩ := pair
      simp only [Prod.mk.injEq, List.map_cons, List.mem_cons, and_or_left, or_assoc]

/-- After the whole call the set's join rows are those to the contracts it found. -/
theorem mem_pruneSetContracts (setId : Nat) (found : List (Nat × ContractRow)) (pair : Nat × Nat) :
    pair ∈ (pruneSetContracts (appendSetContracts store setId found) setId found).setContracts ↔
      if pair.1 = setId then pair.2 ∈ found.map Prod.fst else pair ∈ store.setContracts := by
  simp only [pruneSetContracts, List.mem_filter, mem_appendSetContracts, Bool.or_eq_true,
    bne_iff_ne, ne_eq, decide_eq_true_eq]
  split_ifs with own
  · simp only [own, true_and, not_true_eq_false, false_or]
    exact ⟨And.right, fun found => ⟨.inr found, found⟩⟩
  · simp only [own, false_and, or_false, not_false_eq_true, true_or, and_true]

/-- `FirstOrCreate` with a non-empty name gives the set that `contracts` then takes for that name,
and leaves the set of every other name. -/
theorem firstOrCreateSet_take (named : name ≠ "") :
    (firstOrCreateSet store name).1.sets.take? (fun row => whereField "" name row.2.name) =
        some ((firstOrCreateSet store name).2, ⟨name⟩) ∧
      (firstOrCreateSet store name).1.contracts = store.contracts ∧
      (firstOrCreateSet store name).1.setContracts = store.setContracts ∧
      ∀ other, other ≠ "" → other ≠ name →
        (firstOrCreateSet store name).1.sets.take? (fun row => whereField "" other row.2.name) =
          store.sets.take? (fun row => whereField "" other row.2.name) ∧
        ∀ row, store.sets.take? (fun row => whereField "" other row.2.name) = some row →
          row.1 ≠ (firstOrCreateSet store name).2 := by
  unfold firstOrCreateSet
  split
  · rename_i setId row found
    have rowName : row = ⟨name⟩ := by
      obtain ⟨rowName⟩ := row
      simpa [whereField, named] using List.find?_some found
    refine ⟨rowName ▸ found, rfl, rfl, fun other otherNamed differs => ⟨rfl, fun row' found' same => ?_⟩⟩
    have otherName := List.find?_some found'
    rw [store.sets.eq_of_id_eq (List.mem_of_find?_eq_some found') (List.mem_of_find?_eq_some found)
      same, rowName] at otherName
    simp [whereField, otherNamed] at otherName
    exact differs otherName.symm
  · rename_i missing
    refine ⟨?_, rfl, rfl, fun other otherNamed differs => ⟨?_, fun row' found' same => ?_⟩⟩
    · simp only [Table.take?, Table.insert_rows, List.find?_append]
      rw [show store.sets.rows.find? _ = none from missing]
      simp [whereField]
    · simp only [Table.take?, Table.insert_rows, List.find?_append]
      cases store.sets.rows.find? (fun row => whereField "" other row.2.name) <;>
        simp [whereField, otherNamed, Ne.symm differs]
    · exact absurd same (Nat.ne_of_lt (store.sets.id_lt _ (List.mem_of_find?_eq_some found')))

/-- Run without interruption, `SetContractSet(name, ids)` with a non-empty name makes the members
of the set exactly the stored contracts among `ids`, in id order, and leaves the members of every
set of another non-empty name. -/
theorem SetContractSet_members (ids : List FileContractID) (named : name ≠ "") :
    (store.SetContractSet name ids).Contracts name =
        .ok ((store.contracts.rows.filter fun c => c.2.fcid ∈ ids).map fun c => c.2.fcid) ∧
      ∀ other, other ≠ "" → other ≠ name →
        (store.SetContractSet name ids).Contracts other = store.Contracts other := by
  obtain ⟨own, contracts, setContracts, others⟩ := firstOrCreateSet_take store name named
  have whole : store.SetContractSet name ids =
      pruneSetContracts (appendSetContracts (firstOrCreateSet store name).1
        (firstOrCreateSet store name).2 (findContracts store ids))
        (firstOrCreateSet store name).2 (findContracts store ids) := rfl
  have members : ∀ setId c, (setId, c) ∈ (store.SetContractSet name ids).setContracts ↔
      if setId = (firstOrCreateSet store name).2 then c ∈ (findContracts store ids).map Prod.fst
      else (setId, c) ∈ store.setContracts := by
    intro setId c
    rw [whole, mem_pruneSetContracts, setContracts]
  have sets : (store.SetContractSet name ids).sets = (firstOrCreateSet store name).1.sets := rfl
  have rows : (store.SetContractSet name ids).contracts = store.contracts := contracts
  refine ⟨?_, fun other otherNamed differs => ?_⟩
  · simp only [SQLStore.Contracts, SQLStore.setContractRows, sets, own, members, if_pos, rows,
      findContracts, Table.filter_id_mem_filter]
    rfl
  · obtain ⟨sameSet, differentId⟩ := others other otherNamed differs
    simp only [SQLStore.Contracts, SQLStore.setContractRows, sets, sameSet]
    split
    · rfl
    · rename_i setId row found
      simp only [members, if_neg (differentId _ found), rows]

theorem SetContractSet_members_autopilot :
    ∃ store, ledgerSevenEight = .ok store ∧ "autopilot" ≠ "" ∧
      ((store.SetContractSet "autopilot" [⟨8⟩]).Contracts "autopilot" =
          .ok ((store.contracts.rows.filter fun c => c.2.fcid ∈ [⟨8⟩]).map fun c => c.2.fcid) ∧
        ∀ other, other ≠ "" → other ≠ "autopilot" →
          (store.SetContractSet "autopilot" [⟨8⟩]).Contracts other = store.Contracts other) :=
  have ⟨store, h⟩ : ∃ store, ledgerSevenEight = .ok store := ⟨_, rfl⟩
  ⟨store, h, by decide, SetContractSet_members store "autopilot" [⟨8⟩] (by decide)⟩

end WholeCall

/-- A reader between the statements sees a set that is being created as empty, and a set that is
being replaced with its old and its new members. -/
theorem Contracts_between_statements :
    ∃ store, ledgerSevenEight = .ok store ∧
      (store.Contracts "new" = .error ErrContractSetNotFound ∧
        (store.setContractSetAfter "new" [⟨7⟩] 2).Contracts "new" = .ok [] ∧
        (store.SetContractSet "new" [⟨7⟩]).Contracts "new" = .ok [⟨7⟩]) ∧
      let old := store.SetContractSet "autopilot" [⟨7⟩]
      old.Contracts "autopilot" = .ok [⟨7⟩] ∧
        (old.setContractSetAfter "autopilot" [⟨8⟩] 3).Contracts "autopilot" = .ok [⟨7⟩, ⟨8⟩] ∧
        (old.SetContractSet "autopilot" [⟨8⟩]).Contracts "autopilot" = .ok [⟨8⟩] :=
  ⟨_, rfl, ⟨rfl, rfl, rfl⟩, rfl, rfl, rfl⟩

end Renterd.Stores
