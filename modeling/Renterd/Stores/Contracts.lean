import Renterd.Stores.Tables

/-!
# The contract ledger

`AddContract`, `AddRenewedContract`, `RemoveContract`, `AncestorContracts` and
`RecordContractSpending` of `SQLStore`. Exported methods keep their Go names,
capital included, next to the unexported helpers they call. A transaction that
fails returns its error and leaves the store as it was.
-/

namespace Renterd.Stores

/-- `rhpv2.ContractRevision` as `addContract` reads it: `c.ID()` and `c.HostKey()`. -/
structure ContractRevision where
  id : FileContractID
  hostKey : PublicKey
  deriving DecidableEq, Repr

def archivalReasonRenewed : String := "renewed"

def ErrContractNotFound : String := "couldn't find contract"

/-- `gorm.ErrRecordNotFound`. -/
def errRecordNotFound : String := "record not found"

/-- `gorm.ErrMissingWhereClause`: GORM refuses a `Delete` without conditions. -/
def errMissingWhereClause : String := "WHERE conditions required"

def errUnique (column : String) : String := "UNIQUE constraint failed: " ++ column

/-- `contract`: the contract with this id and its host's key (`Preload("Host")`). -/
def contract (tx : SQLStore) (id : FileContractID) :
    Except String (Nat × ContractRow × PublicKey) :=
  match tx.contracts.take? fun row => whereField .zero id row.2.fcid with
  | none => .error ErrContractNotFound
  | some (rowId, row) =>
      .ok (rowId, row, ((tx.hosts.get? row.hostId).map HostRow.publicKey).getD .zero)

/-- `addContract`: insert the contract with zero spending under its host's row. -/
def addContract (tx : SQLStore) (c : ContractRevision) (totalCost : Currency) (startHeight : Nat)
    (renewedFrom : FileContractID) : Except String (SQLStore × ContractRow) :=
  match tx.hosts.take? fun host => whereField .zero c.hostKey host.2.publicKey with
  | none => .error errRecordNotFound
  | some (hostId, _) =>
      let added : ContractRow :=
        ⟨c.id, hostId, renewedFrom, startHeight, totalCost, .zero, .zero, .zero⟩
      if tx.contracts.rows.any (·.2.fcid == c.id) then .error (errUnique "contracts.fcid")
      else .ok ({ tx with contracts := tx.contracts.insert added }, added)

/-- `removeContract`: delete the contract; its sector links and set memberships cascade. -/
def removeContract (tx : SQLStore) (id : FileContractID) : Except String SQLStore :=
  if id = .zero then .error errMissingWhereClause
  else .ok (tx.deleteContracts fun row => row.2.fcid == id)

/-- Insert an archived contract, failing on either unique column. -/
def archiveContract (tx : SQLStore) (row : ArchivedRow) : Except String SQLStore :=
  if tx.archived.rows.any (·.2.fcid == row.fcid) then .error (errUnique "archived_contracts.fcid")
  else if tx.archived.rows.any (·.2.renewedTo == row.renewedTo) then
    .error (errUnique "archived_contracts.renewed_to")
  else .ok { tx with archived := tx.archived.insert row }

namespace SQLStore

def AddContract (store : SQLStore) (c : ContractRevision) (totalCost : Currency)
    (startHeight : Nat) : Except String (SQLStore × ContractRow) :=
  addContract store c totalCost startHeight .zero

/-- `AddRenewedContract`: one transaction that archives the old contract, deletes it from the
active table and adds the new one. -/
def AddRenewedContract (store : SQLStore) (c : ContractRevision) (totalCost : Currency)
    (startHeight : Nat) (renewedFrom : FileContractID) : Except String (SQLStore × ContractRow) := do
  let (_, old, oldHost) ← contract store renewedFrom
  let archived ← archiveContract store
    ⟨old.fcid, oldHost, c.id, archivalReasonRenewed, old.uploadSpending, old.downloadSpending,
      old.fundAccountSpending, old.startHeight⟩
  let removed ← removeContract archived renewedFrom
  addContract removed c totalCost startHeight renewedFrom

def RemoveContract (store : SQLStore) (id : FileContractID) : Except String SQLStore :=
  removeContract store id

end SQLStore

/-! ## What a successful call did -/

section Specs

variable {tx next : SQLStore}

theorem contract_ok {id : FileContractID} {rowId : Nat} {old : ContractRow} {host : PublicKey}
    (h : contract tx id = .ok (rowId, old, host)) (nonzero : id ≠ .zero) :
    (rowId, old) ∈ tx.contracts.rows ∧ old.fcid = id := by
  unfold contract Table.take? at h
  split at h
  · cases h
  · rename_i found
    cases h
    have matched := List.find?_some found
    simp [whereField, nonzero] at matched
    exact ⟨List.mem_of_find?_eq_some found, matched⟩

/-- The host `contract` preloads is the host row of the contract's host id. -/
theorem contract_host {id : FileContractID} {rowId : Nat} {old : ContractRow} {host : PublicKey}
    (h : contract tx id = .ok (rowId, old, host)) :
    host = ((tx.hosts.get? old.hostId).map HostRow.publicKey).getD .zero := by
  unfold contract at h
  split at h
  · cases h
  · cases h; rfl

/-- The row `addContract` inserts: under a stored host, with zero spending. -/
theorem addContract_row {c : ContractRevision} {totalCost : Currency} {startHeight : Nat}
    {renewedFrom : FileContractID} {added : ContractRow}
    (h : addContract tx c totalCost startHeight renewedFrom = .ok (next, added)) :
    ∃ hostId host, (hostId, host) ∈ tx.hosts.rows ∧
      added = ⟨c.id, hostId, renewedFrom, startHeight, totalCost, .zero, .zero, .zero⟩ := by
  unfold addContract at h
  split at h
  · cases h
  · rename_i hostId host found
    split_ifs at h
    cases h
    exact ⟨hostId, host, List.mem_of_find?_eq_some found, rfl⟩

theorem addContract_ok {c : ContractRevision} {totalCost : Currency} {startHeight : Nat}
    {renewedFrom : FileContractID} {added : ContractRow}
    (h : addContract tx c totalCost startHeight renewedFrom = .ok (next, added)) :
    added.fcid = c.id ∧ (∀ row ∈ tx.contracts.rows, row.2.fcid ≠ c.id) ∧
      next = { tx with contracts := tx.contracts.insert added } := by
  unfold addContract at h
  split at h
  · cases h
  · split_ifs at h with taken
    cases h
    simp only [List.any_eq_true, beq_iff_eq, not_exists, not_and] at taken
    exact ⟨rfl, taken, rfl⟩

theorem removeContract_ok {id : FileContractID} (h : removeContract tx id = .ok next) :
    id ≠ .zero ∧ next = tx.deleteContracts fun row => row.2.fcid == id := by
  unfold removeContract at h
  split_ifs at h with zero
  cases h
  exact ⟨zero, rfl⟩

theorem archiveContract_ok {row : ArchivedRow} (h : archiveContract tx row = .ok next) :
    (∀ old ∈ tx.archived.rows, old.2.fcid ≠ row.fcid ∧ old.2.renewedTo ≠ row.renewedTo) ∧
      next = { tx with archived := tx.archived.insert row } := by
  unfold archiveContract at h
  split_ifs at h with fcidTaken renewedToTaken
  cases h
  simp only [List.any_eq_true, beq_iff_eq, not_exists, not_and] at fcidTaken renewedToTaken
  exact ⟨fun old mem => ⟨fcidTaken old mem, renewedToTaken old mem⟩, rfl⟩

/-- A successful renewal archived the old contract under its id, deleted it, and added the new
one. -/
theorem AddRenewedContract_ok {c : ContractRevision} {totalCost : Currency} {startHeight : Nat}
    {renewedFrom : FileContractID} {added : ContractRow}
    (h : tx.AddRenewedContract c totalCost startHeight renewedFrom = .ok (next, added)) :
    ∃ rowId old host archived removed, contract tx renewedFrom = .ok (rowId, old, host) ∧
      archiveContract tx ⟨old.fcid, host, c.id, archivalReasonRenewed, old.uploadSpending,
        old.downloadSpending, old.fundAccountSpending, old.startHeight⟩ = .ok archived ∧
      removeContract archived renewedFrom = .ok removed ∧
      addContract removed c totalCost startHeight renewedFrom = .ok (next, added) := by
  simp only [SQLStore.AddRenewedContract, bind, Except.bind] at h
  split at h
  · cases h
  · rename_i found
    split at h
    · cases h
    · rename_i archived
      split at h
      · cases h
      · exact ⟨_, _, _, _, _, found, archived, by assumption, h⟩

end Specs

/-! ## Ancestors -/

/-- One round of the recursive part of the `ancestors` CTE: the archived contracts renewed into
a contract of the previous round. -/
def ancestorsStep (archived level : List (Nat × ArchivedRow)) : List (Nat × ArchivedRow) :=
  level.flatMap fun ancestor => archived.filter fun row => row.2.renewedTo == ancestor.2.fcid

/-- The `UNION ALL` recursion, `fuel` rounds deep; `none` while it has not ended. -/
def ancestorsCTE (archived : List (Nat × ArchivedRow)) :
    Nat → List (Nat × ArchivedRow) → Option (List (Nat × ArchivedRow))
  | _, [] => some []
  | 0, _ :: _ => none
  | fuel + 1, level => (ancestorsCTE archived fuel (ancestorsStep archived level)).map (level ++ ·)

/-- `AncestorContracts`: the recursive query over `renewed_to` links, then the height filter.
The database runs the recursion without bound; `fuel` bounds its rounds. -/
def SQLStore.AncestorContracts (store : SQLStore) (id : FileContractID) (startHeight : Nat)
    (fuel : Nat) : Option (List (Nat × ArchivedRow)) :=
  (ancestorsCTE store.archived.rows fuel
      (store.archived.rows.filter fun row => row.2.renewedTo == id)).map
    (List.filter fun row => decide (startHeight ≤ row.2.startHeight))

/-! ## Spending -/

/-- `api.ContractSpendingRecord`. -/
structure ContractSpendingRecord where
  contractID : FileContractID
  uploads : Currency
  downloads : Currency
  fundAccount : Currency
  deriving DecidableEq, Repr

/-- One record's transaction: add its amounts to the contract it names, if that contract is
active. `Currency.Add` panics on overflow, which rolls the transaction back. -/
def recordSpending (tx : SQLStore) (record : ContractSpendingRecord) : Except String SQLStore :=
  match tx.contracts.take? fun row => row.2.fcid == record.contractID with
  | none => .ok tx
  | some (id, c) =>
      match c.uploadSpending.add? record.uploads, c.downloadSpending.add? record.downloads,
        c.fundAccountSpending.add? record.fundAccount with
      | some uploads, some downloads, some fundAccount =>
          let spent (row : Nat × ContractRow) : ContractRow :=
            if row.1 == id then
              { row.2 with
                uploadSpending := uploads, downloadSpending := downloads
                fundAccountSpending := fundAccount }
            else row.2
          .ok { tx with contracts := tx.contracts.update spent }
      | _, _, _ => .error "overflow"

/-- A record's transaction leaves the store, or rewrites rows of the active contracts in place. -/
theorem recordSpending_ok {tx next : SQLStore} {record : ContractSpendingRecord}
    (h : recordSpending tx record = .ok next) :
    next = tx ∨ ∃ change, next = { tx with contracts := tx.contracts.update change } := by
  unfold recordSpending at h
  split at h
  · cases h; exact .inl rfl
  · split at h
    · cases h; exact .inr ⟨_, rfl⟩
    · cases h

/-- `RecordContractSpending`: one transaction per record; the first failure stops the loop, and
the records before it stay committed. -/
def SQLStore.RecordContractSpending (store : SQLStore) :
    List ContractSpendingRecord → SQLStore × Except String Unit
  | [] => (store, .ok ())
  | record :: rest =>
      match recordSpending store record with
      | .error err => (store, .error err)
      | .ok next => SQLStore.RecordContractSpending next rest

/-! ## A sample ledger -/

/-- A store that knows host `1` and has no contracts. -/
def oneHost : SQLStore := { SQLStore.empty with hosts := Table.empty.insert ⟨⟨1⟩⟩ }

/-- Contract `7` with host `1`. -/
def contractSeven : ContractRevision := ⟨⟨7⟩, ⟨1⟩⟩

/-- Contract `8` with host `1`. -/
def contractEight : ContractRevision := ⟨⟨8⟩, ⟨1⟩⟩

/-- Host `1` with contracts `7` and `8`. -/
def ledgerSevenEight : Except String SQLStore := do
  let (added, _) ← oneHost.AddContract contractSeven .zero 0
  let (added, _) ← added.AddContract contractEight .zero 0
  return added

end Renterd.Stores
