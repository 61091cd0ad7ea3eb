import Mathlib.Algebra.Order.Ring.Nat
import Renterd.Stores.Writes

/-!
# What the ledger's transactions do

`AddRenewedContract` is one transaction: it fails and leaves both contract tables, or it moves
the old contract to the archive and puts the new one in its place. `RecordContractSpending` runs
one transaction per record, each reading the contract afresh, so a call that returns `nil` has
added the amounts of every record to the contract the record names.
-/

namespace Renterd.Stores

/-! ## Renewals -/

/-- `AddRenewedContract` is all or nothing. It fails, and the store keeps both contract tables; or
it succeeds, and the active contracts lose `renewedFrom` and gain the new contract with zero
spending, while the archive gains one row: the old contract with its host, spending and start
height, renewed to the new one. -/
theorem AddRenewedContract_all_or_nothing (store : SQLStore) (c : ContractRevision)
    (totalCost : Currency) (startHeight : Nat) (renewedFrom : FileContractID) :
    let result := store.AddRenewedContract c totalCost startHeight renewedFrom
    let after := committed store (result.map Prod.fst)
    (result.toBool = false ∧ after.contracts = store.contracts ∧ after.archived = store.archived) ∨
    (result.toBool = true ∧
      (∃ hostId host, (hostId, host) ∈ store.hosts.rows ∧
        after.contracts.rows = store.contracts.rows.filter (fun row => row.2.fcid != renewedFrom) ++
          [(store.contracts.nextId,
            ⟨c.id, hostId, renewedFrom, startHeight, totalCost, .zero, .zero, .zero⟩)]) ∧
      ∃ old ∈ store.contracts.rows, old.2.fcid = renewedFrom ∧
        after.archived.rows = store.archived.rows ++
          [(store.archived.nextId, ⟨renewedFrom,
            ((store.hosts.get? old.2.hostId).map HostRow.publicKey).getD .zero, c.id,
            archivalReasonRenewed, old.2.uploadSpending, old.2.downloadSpending,
            old.2.fundAccountSpending, old.2.startHeight⟩)]) := by
  dsimp only
  cases h : store.AddRenewedContract c totalCost startHeight renewedFrom with
  | error err => exact .inl ⟨rfl, rfl, rfl⟩
  | ok result =>
      obtain ⟨next, added⟩ := result
      obtain ⟨rowId, old, host, archived, removed, found, archivedOk, removedOk, addedOk⟩ :=
        AddRenewedContract_ok h
      obtain ⟨nonzero, rfl⟩ := removeContract_ok removedOk
      obtain ⟨-, rfl⟩ := archiveContract_ok archivedOk
      obtain ⟨oldMem, oldId⟩ := contract_ok found nonzero
      obtain ⟨hostId, hostRow, hostMem, rfl⟩ := addContract_row addedOk
      obtain ⟨-, -, rfl⟩ := addContract_ok addedOk
      refine .inr ⟨rfl, ⟨hostId, hostRow, hostMem, rfl⟩, (rowId, old), oldMem, oldId, ?_⟩
      rw [← oldId, ← contract_host found]
      rfl

/-! ## Spending -/

/-- What the records spent on a contract: the sum of one amount over the records naming it. -/
def spentOn (records : List ContractSpendingRecord) (fcid : FileContractID)
    (amount : ContractSpendingRecord → Currency) : Nat :=
  ((records.filter fun record => record.contractID == fcid).map fun record => (amount record).val).sum

/-- A contract after the records: each spending grown by what the records spent on it. -/
def spentBy (records : List ContractSpendingRecord) (c : ContractRow) : ContractRow :=
  { c with
    uploadSpending := ⟨c.uploadSpending.val + spentOn records c.fcid (·.uploads)⟩
    downloadSpending := ⟨c.downloadSpending.val + spentOn records c.fcid (·.downloads)⟩
    fundAccountSpending := ⟨c.fundAccountSpending.val + spentOn records c.fcid (·.fundAccount)⟩ }

section Spending

variable {store next : SQLStore}

@[simp] theorem spentBy_fcid (records : List ContractSpendingRecord) (c : ContractRow) :
    (spentBy records c).fcid = c.fcid := rfl

theorem spentOn_cons (record : ContractSpendingRecord) (records : List ContractSpendingRecord)
    (fcid : FileContractID) (amount : ContractSpendingRecord → Currency) :
    spentOn (record :: records) fcid amount =
      spentOn [record] fcid amount + spentOn records fcid amount := by
  by_cases named : record.contractID = fcid <;> simp [spentOn, List.filter_cons, named]

/-- Records naming another contract spend nothing on this one. -/
theorem spentBy_of_not_named {records : List ContractSpendingRecord} {c : ContractRow}
    (unnamed : ∀ record ∈ records, record.contractID ≠ c.fcid) : spentBy records c = c := by
  have none : records.filter (fun record => record.contractID == c.fcid) = [] :=
    List.filter_eq_nil_iff.mpr fun record mem => by simpa using unnamed record mem
  simp [spentBy, spentOn, none]

theorem spentBy_cons (record : ContractSpendingRecord) (records : List ContractSpendingRecord)
    (c : ContractRow) : spentBy records (spentBy [record] c) = spentBy (record :: records) c := by
  simp only [spentBy, spentOn_cons _ records c.fcid, Nat.add_assoc]

/-- One record's transaction adds its amounts to the one active contract it names, if any. -/
theorem recordSpending_spentBy {record : ContractSpendingRecord}
    (unique : (store.contracts.rows.map fun row => row.2.fcid).Nodup)
    (h : recordSpending store record = .ok next) :
    next = { store with contracts := store.contracts.update fun row => spentBy [record] row.2 } := by
  unfold recordSpending at h
  split at h
  · -- no active contract has the record's id
    rename_i missing
    cases h
    refine congrArg (fun contracts => { store with contracts := contracts })
      (store.contracts.update_of_forall_eq fun row mem => spentBy_of_not_named ?_).symm
    have unnamed : row.2.fcid ≠ record.contractID := by
      simpa using List.find?_eq_none.mp missing row mem
    simpa using unnamed.symm
  · rename_i id c found
    split at h
    · rename_i uploads downloads fundAccount upload download fund
      cases h
      have named : c.fcid = record.contractID := by simpa using List.find?_some found
      have cMem := List.mem_of_find?_eq_some found
      refine congrArg (fun contracts => { store with contracts := contracts })
        (store.contracts.update_congr fun row mem => ?_)
      by_cases same : row.1 = id
      · obtain rfl : row = (id, c) := store.contracts.eq_of_id_eq mem cMem same
        simp [spentBy, spentOn, named, Currency.add?_eq_some upload,
          Currency.add?_eq_some download, Currency.add?_eq_some fund]
      · have other : row.2.fcid ≠ record.contractID := fun fcid =>
          same (congrArg Prod.fst (List.inj_on_of_nodup_map unique mem cMem (fcid.trans named.symm)))
        simp [same, @spentBy_of_not_named [record] row.2 (by simpa using Ne.symm other)]
    · cases h

theorem RecordContractSpending_sums (store : SQLStore) (records : List ContractSpendingRecord)
    (unique : (store.contracts.rows.map fun row => row.2.fcid).Nodup)
    (h : (store.RecordContractSpending records).2 = .ok ()) :
    (store.RecordContractSpending records).1 =
      { store with contracts := store.contracts.update fun row => spentBy records row.2 } := by
  induction records generalizing store with
  | nil =>
      exact congrArg (fun contracts => { store with contracts := contracts })
        (store.contracts.update_of_forall_eq fun row _ =>
          spentBy_of_not_named fun _ mem => absurd mem (List.not_mem_nil _)).symm
  | cons record rest ih =>
      simp only [SQLStore.RecordContractSpending] at h ⊢
      split at h
      · cases h
      · rename_i next recorded
        rw [recordSpending_spentBy unique recorded] at h ⊢
        rw [ih _ (by simpa [Function.comp_def] using unique) h, Table.update_update]
        simp only [spentBy_cons]

/-- Two records for contract `7`, one naming it twice over, and one for a contract nobody has. -/
def sevenSpending : List ContractSpendingRecord :=
  [⟨⟨7⟩, ⟨1⟩, ⟨2⟩, ⟨3⟩⟩, ⟨⟨7⟩, ⟨10⟩, ⟨0⟩, ⟨0⟩⟩, ⟨⟨9⟩, ⟨5⟩, ⟨5⟩, ⟨5⟩⟩]

theorem sevenSpending_sums :
    ∃ store, ledgerSevenEight = .ok store ∧
      (store.contracts.rows.map fun row => row.2.fcid).Nodup ∧
      (store.RecordContractSpending sevenSpending).2 = .ok () ∧
      (store.RecordContractSpending sevenSpending).1 =
        { store with contracts := store.contracts.update fun row => spentBy sevenSpending row.2 } :=
  ⟨_, rfl, by decide, rfl, RecordContractSpending_sums _ _ (by decide) rfl⟩

end Spending

end Renterd.Stores
