import Renterd.Stores.Contracts

/-!
# Renewal chains

`AncestorContracts` follows `renewed_to` links back from a contract. The tables declare
`fcid` unique per table only, so nothing stops a renewal into an id that is active or
archived: a contract renewed into itself closes a cycle and the recursive query never
ends. When every new contract id is fresh, as ids that hash their transactions are,
each link points into a later archived contract, and the query returns the whole chain.
-/

namespace Renterd.Stores

/-- `row` was renewed into `id`, directly or through a chain of archived renewals. -/
inductive RenewedInto (archived : List (Nat × ArchivedRow)) :
    Nat × ArchivedRow → FileContractID → Prop where
  | direct {row : Nat × ArchivedRow} {id : FileContractID} :
      row ∈ archived → row.2.renewedTo = id → RenewedInto archived row id
  | through {row next : Nat × ArchivedRow} {id : FileContractID} :
      row ∈ archived → next ∈ archived → row.2.renewedTo = next.2.fcid →
      RenewedInto archived next id → RenewedInto archived row id

section Chains

variable {archived : List (Nat × ArchivedRow)}

theorem RenewedInto.mem {row : Nat × ArchivedRow} {id : FileContractID}
    (renewed : RenewedInto archived row id) : row ∈ archived := by
  cases renewed <;> assumption

/-- A chain into `id` passes through a contract renewed directly into `id`. -/
theorem RenewedInto.last {row : Nat × ArchivedRow} {id : FileContractID}
    (renewed : RenewedInto archived row id) :
    ∃ last ∈ archived, last.2.renewedTo = id ∧
      (row = last ∨ RenewedInto archived row last.2.fcid) := by
  induction renewed with
  | direct mem renewedTo => exact ⟨_, mem, renewedTo, .inl rfl⟩
  | through mem nextMem renewedTo _ ih =>
      obtain ⟨last, lastMem, lastTo, same | chain⟩ := ih
      · exact ⟨last, lastMem, lastTo, .inr (.direct mem (same ▸ renewedTo))⟩
      · exact ⟨last, lastMem, lastTo, .inr (.through mem nextMem renewedTo chain)⟩

/-- A chain into a contract that was renewed into `id` is a chain into `id`. -/
theorem RenewedInto.extend {row last : Nat × ArchivedRow} {id : FileContractID}
    (renewed : RenewedInto archived row last.2.fcid) (lastMem : last ∈ archived)
    (lastTo : last.2.renewedTo = id) : RenewedInto archived row id := by
  generalize target : last.2.fcid = fcid at renewed
  induction renewed with
  | direct mem renewedTo =>
      exact .through mem lastMem (renewedTo.trans target.symm) (.direct lastMem lastTo)
  | through mem nextMem renewedTo _ ih => exact .through mem nextMem renewedTo (ih target)

theorem mem_ancestorsStep {level : List (Nat × ArchivedRow)} {row : Nat × ArchivedRow} :
    row ∈ ancestorsStep archived level ↔
      row ∈ archived ∧ ∃ ancestor ∈ level, row.2.renewedTo = ancestor.2.fcid := by
  simp only [ancestorsStep, List.mem_flatMap, List.mem_filter, beq_iff_eq]
  exact ⟨fun ⟨ancestor, mem, inArchive, into⟩ => ⟨inArchive, ancestor, mem, into⟩,
    fun ⟨inArchive, ancestor, mem, into⟩ => ⟨ancestor, mem, inArchive, into⟩⟩

/-- Rows with distinct ids of which any two are equal: at most one. -/
theorem length_le_one_of_eq {rows : List (Nat × ArchivedRow)}
    (sorted : rows.Pairwise fun earlier later => earlier.1 < later.1)
    (same : ∀ a ∈ rows, ∀ b ∈ rows, a = b) : rows.length ≤ 1 := by
  match rows, sorted with
  | [], _ => exact Nat.zero_le _
  | [_], _ => exact Nat.le_refl _
  | a :: b :: _, sorted =>
      have lt := List.rel_of_pairwise_cons sorted (List.mem_cons_self b _)
      rw [same a (List.mem_cons_self _ _) b (List.mem_cons_of_mem _ (List.mem_cons_self _ _))] at lt
      exact absurd lt (Nat.lt_irrefl _)

/-- The invariant the recursion needs: no two archived contracts were renewed into the same
id, and each is renewed into a contract archived after it, if at all. -/
structure ChainShape (archived : List (Nat × ArchivedRow)) : Prop where
  sorted : archived.Pairwise fun earlier later => earlier.1 < later.1
  renewedTo_unique : ∀ a ∈ archived, ∀ b ∈ archived, a.2.renewedTo = b.2.renewedTo → a = b
  forward : ∀ a ∈ archived, ∀ b ∈ archived, a.2.renewedTo = b.2.fcid → a.1 < b.1

theorem ChainShape.renewed_le_one (shape : ChainShape archived) (id : FileContractID) :
    (archived.filter fun row => row.2.renewedTo == id).length ≤ 1 :=
  length_le_one_of_eq (shape.sorted.filter _) fun a memA b memB => by
    simp only [List.mem_filter, beq_iff_eq] at memA memB
    exact shape.renewedTo_unique a memA.1 b memB.1 (memA.2.trans memB.2.symm)

/-- From a level of at most one archived row whose id is below `fuel`, the recursion ends and
returns that row and every row renewed into it, in strictly decreasing id order. -/
theorem ancestorsCTE_chain (shape : ChainShape archived) (fuel : Nat)
    (level : List (Nat × ArchivedRow)) (single : level.length ≤ 1) (inArchive : level ⊆ archived)
    (below : ∀ row ∈ level, row.1 < fuel) :
    ∃ result, ancestorsCTE archived fuel level = some result ∧
      result.Pairwise (fun earlier later => later.1 < earlier.1) ∧
      (∀ row ∈ result, ∀ start ∈ level, row.1 ≤ start.1) ∧
      ∀ row, row ∈ result ↔ ∃ start ∈ level, row = start ∨ RenewedInto archived row start.2.fcid := by
  induction fuel generalizing level with
  | zero =>
      match level, below with
      | [], _ => exact ⟨[], rfl, List.Pairwise.nil, by simp, by simp⟩
      | row :: _, below => exact absurd (below row (List.mem_cons_self _ _)) (Nat.not_lt_zero _)
  | succ fuel ih =>
      match level, single, inArchive, below with
      | [], _, _, _ => exact ⟨[], rfl, List.Pairwise.nil, by simp, by simp⟩
      | [start], _, inArchive, below =>
          have startMem : start ∈ archived := inArchive (List.mem_singleton_self _)
          have step : ancestorsStep archived [start] =
              archived.filter fun row => row.2.renewedTo == start.2.fcid := by
            simp [ancestorsStep]
          have older : ∀ row ∈ ancestorsStep archived [start], row.1 < start.1 := by
            intro row mem
            obtain ⟨rowMem, _, same, into⟩ := mem_ancestorsStep.mp mem
            rw [List.mem_singleton.mp same] at into
            exact shape.forward row rowMem start startMem into
          obtain ⟨rest, cte, sorted, bounded, members⟩ := ih (ancestorsStep archived [start])
            (step ▸ shape.renewed_le_one _) (fun row mem => (mem_ancestorsStep.mp mem).1)
            fun row mem => by
              have := below start (List.mem_singleton_self _)
              have := older row mem
              omega
          refine ⟨start :: rest, by simp [ancestorsCTE, cte], ?_, ?_, ?_⟩
          · refine List.pairwise_cons.mpr ⟨fun row mem => ?_, sorted⟩
            obtain ⟨child, childMem, -⟩ := (members row).mp mem
            exact Nat.lt_of_le_of_lt (bounded row mem child childMem) (older child childMem)
          · intro row mem first firstMem
            rw [List.mem_singleton.mp firstMem]
            rcases List.mem_cons.mp mem with rfl | mem
            · exact Nat.le_refl _
            · obtain ⟨child, childMem, -⟩ := (members row).mp mem
              exact Nat.le_of_lt (Nat.lt_of_le_of_lt (bounded row mem child childMem)
                (older child childMem))
          · intro row
            rw [List.mem_cons, members row]
            simp only [List.mem_singleton, exists_eq_left]
            constructor
            · rintro (rfl | ⟨child, childMem, same | chain⟩)
              · exact .inl rfl
              · obtain ⟨childIn, _, parent, into⟩ := mem_ancestorsStep.mp childMem
                rw [List.mem_singleton.mp parent] at into
                exact .inr (same ▸ .direct childIn into)
              · obtain ⟨childIn, _, parent, into⟩ := mem_ancestorsStep.mp childMem
                rw [List.mem_singleton.mp parent] at into
                exact .inr (chain.extend childIn into)
            · rintro (rfl | chain)
              · exact .inl rfl
              · obtain ⟨last, lastMem, lastTo, link⟩ := chain.last
                exact .inr ⟨last, mem_ancestorsStep.mpr ⟨lastMem, start,
                  List.mem_singleton_self _, lastTo⟩, link⟩
      | _ :: _ :: _, single, _, _ => exact absurd single (by simp)

end Chains

/-- `AncestorContracts` over archived rows of this shape ends within `nextId` rounds and returns
each archived contract renewed into `id`, once, that starts at `startHeight` or later. -/
theorem AncestorContracts_chain (store : SQLStore) (shape : ChainShape store.archived.rows)
    (id : FileContractID) (startHeight : Nat) :
    ∃ ancestors, store.AncestorContracts id startHeight store.archived.nextId = some ancestors ∧
      ancestors.Nodup ∧ ∀ row, row ∈ ancestors ↔
        RenewedInto store.archived.rows row id ∧ startHeight ≤ row.2.startHeight := by
  obtain ⟨result, cte, sorted, -, members⟩ := ancestorsCTE_chain shape store.archived.nextId
    _ (shape.renewed_le_one id) (fun row mem => List.mem_of_mem_filter mem)
    fun row mem => store.archived.id_lt row (List.mem_of_mem_filter mem)
  refine ⟨result.filter fun row => decide (startHeight ≤ row.2.startHeight),
    by simp [SQLStore.AncestorContracts, cte], ?_, fun row => ?_⟩
  · refine List.Pairwise.filter _ (sorted.imp fun {earlier later} lt same => ?_)
    subst same
    exact Nat.lt_irrefl _ lt
  · simp only [List.mem_filter, members, decide_eq_true_eq, beq_iff_eq]
    refine and_congr_left fun _ => ⟨?_, fun chain => ?_⟩
    · rintro ⟨start, ⟨startMem, startTo⟩, rfl | link⟩
      · exact .direct startMem startTo
      · exact link.extend startMem startTo
    · obtain ⟨last, lastMem, lastTo, link⟩ := chain.last
      exact ⟨last, ⟨lastMem, lastTo⟩, link⟩

/-! ## Reachable ledgers -/

/-- No active and no archived contract has this id. -/
def FreshId (store : SQLStore) (id : FileContractID) : Prop :=
  (∀ row ∈ store.contracts.rows, row.2.fcid ≠ id) ∧ ∀ row ∈ store.archived.rows, row.2.fcid ≠ id

/-- Ledgers reached from one without contracts by successful `AddContract`,
`AddRenewedContract` and `RemoveContract` calls, each new contract id fresh. -/
inductive FreshlyReached : SQLStore → Prop where
  | start {store : SQLStore} : store.contracts.rows = [] → store.archived.rows = [] →
      FreshlyReached store
  | add {store next : SQLStore} {c : ContractRevision} {totalCost : Currency} {startHeight : Nat}
      {added : ContractRow} : FreshlyReached store → FreshId store c.id →
      store.AddContract c totalCost startHeight = .ok (next, added) → FreshlyReached next
  | renew {store next : SQLStore} {c : ContractRevision} {totalCost : Currency}
      {startHeight : Nat} {renewedFrom : FileContractID} {added : ContractRow} :
      FreshlyReached store → FreshId store c.id →
      store.AddRenewedContract c totalCost startHeight renewedFrom = .ok (next, added) →
      FreshlyReached next
  | remove {store next : SQLStore} {id : FileContractID} : FreshlyReached store →
      store.RemoveContract id = .ok next → FreshlyReached next

/-- No id is both active and archived, and the archived rows have the shape of chains. -/
structure LedgerInv (store : SQLStore) : Prop where
  disjoint : ∀ active ∈ store.contracts.rows, ∀ old ∈ store.archived.rows,
    active.2.fcid ≠ old.2.fcid
  chain : ChainShape store.archived.rows

section Preservation

variable {store next : SQLStore} (inv : LedgerInv store)
include inv

theorem LedgerInv.addContract {c : ContractRevision} {totalCost : Currency} {startHeight : Nat}
    {added : ContractRow} (fresh : FreshId store c.id)
    (h : store.AddContract c totalCost startHeight = .ok (next, added)) : LedgerInv next := by
  obtain ⟨fcid, -, rfl⟩ := addContract_ok h
  refine ⟨?_, inv.chain⟩
  simp only [Table.insert_rows, List.mem_append, List.mem_singleton]
  rintro active (mem | rfl) old oldMem
  · exact inv.disjoint active mem old oldMem
  · exact fcid ▸ (fresh.2 old oldMem).symm

theorem LedgerInv.removeContract {id : FileContractID} (h : store.RemoveContract id = .ok next) :
    LedgerInv next := by
  obtain ⟨-, rfl⟩ := removeContract_ok h
  exact ⟨fun active mem => inv.disjoint active (List.mem_of_mem_filter mem), inv.chain⟩

theorem LedgerInv.renew {c : ContractRevision} {totalCost : Currency} {startHeight : Nat}
    {renewedFrom : FileContractID} {added : ContractRow} (fresh : FreshId store c.id)
    (h : store.AddRenewedContract c totalCost startHeight renewedFrom = .ok (next, added)) :
    LedgerInv next := by
  obtain ⟨rowId, old, host, archived, removed, found, archive, remove, add⟩ := AddRenewedContract_ok h
  obtain ⟨nonzero, rfl⟩ := removeContract_ok remove
  obtain ⟨oldFree, rfl⟩ := archiveContract_ok archive
  obtain ⟨addedId, -, rfl⟩ := addContract_ok add
  obtain ⟨oldMem, oldId⟩ := contract_ok found nonzero
  have renewedNew : renewedFrom ≠ c.id := oldId ▸ fresh.1 _ oldMem
  refine ⟨?_, ⟨Table.sorted _, ?_, ?_⟩⟩
  · simp only [SQLStore.deleteContracts, Table.insert_rows, Table.delete_rows, List.mem_append,
      List.mem_filter, List.mem_singleton, Bool.not_eq_true', beq_eq_false_iff_ne]
    rintro active (⟨mem, kept⟩ | rfl) archivedRow (oldRow | rfl)
    · exact inv.disjoint active mem archivedRow oldRow
    · simpa [oldId] using kept
    · exact addedId ▸ (fresh.2 archivedRow oldRow).symm
    · simpa [addedId, oldId] using renewedNew.symm
  · simp only [SQLStore.deleteContracts, Table.insert_rows, List.mem_append, List.mem_singleton]
    rintro a (aOld | rfl) b (bOld | rfl) same
    · exact inv.chain.renewedTo_unique a aOld b bOld same
    · exact absurd same (oldFree a aOld).2
    · exact absurd same.symm (oldFree b bOld).2
    · rfl
  · simp only [SQLStore.deleteContracts, Table.insert_rows, List.mem_append, List.mem_singleton]
    rintro a (aOld | rfl) b (bOld | rfl) link
    · exact inv.chain.forward a aOld b bOld link
    · exact store.archived.id_lt a aOld
    · exact absurd link.symm (fresh.2 b bOld)
    · exact absurd (oldId ▸ link).symm renewedNew

end Preservation

theorem FreshlyReached.inv {store : SQLStore} (reached : FreshlyReached store) :
    LedgerInv store := by
  induction reached with
  | start contracts archived =>
      refine ⟨by simp [contracts], ⟨Table.sorted _, ?_, ?_⟩⟩ <;> simp [archived]
  | add _ fresh h inv => exact inv.addContract fresh h
  | renew _ fresh h inv => exact inv.renew fresh h
  | remove _ h inv => exact inv.removeContract h

/-- No id is both active and archived, archived contracts are renewed only into later ones, and
every ancestor query ends with the whole chain. -/
structure AcyclicLedger (store : SQLStore) : Prop where
  disjoint : ∀ active ∈ store.contracts.rows, ∀ old ∈ store.archived.rows,
    active.2.fcid ≠ old.2.fcid
  forward : ∀ a ∈ store.archived.rows, ∀ b ∈ store.archived.rows,
    a.2.renewedTo = b.2.fcid → a.1 < b.1
  ancestors : ∀ id startHeight, ∃ ancestors,
    store.AncestorContracts id startHeight store.archived.nextId = some ancestors ∧
      ancestors.Nodup ∧ ∀ row, row ∈ ancestors ↔
        RenewedInto store.archived.rows row id ∧ startHeight ≤ row.2.startHeight

theorem AncestorContracts_fresh_chain {store : SQLStore} (reached : FreshlyReached store) :
    AcyclicLedger store :=
  ⟨reached.inv.disjoint, reached.inv.chain.forward,
    AncestorContracts_chain store reached.inv.chain⟩

/-- Add contract `7`, then renew it into `8`. -/
def renewalOfSeven : Except String SQLStore := do
  let (added, _) ← oneHost.AddContract contractSeven .zero 0
  let (renewed, _) ← added.AddRenewedContract contractEight .zero 0 ⟨7⟩
  return renewed

theorem renewalOfSeven_acyclic :
    ∃ store, renewalOfSeven = .ok store ∧ FreshlyReached store ∧ AcyclicLedger store := by
  have added := @FreshlyReached.add oneHost _ contractSeven .zero 0 _ (.start rfl rfl)
    (by unfold FreshId; decide) rfl
  have reached := @FreshlyReached.renew _ _ contractEight .zero 0 ⟨7⟩ _ added
    (by unfold FreshId; decide) rfl
  exact ⟨_, rfl, reached, AncestorContracts_fresh_chain reached⟩

/-! ## A renewal into itself -/

theorem ancestorsCTE_loops {archived level : List (Nat × ArchivedRow)}
    (loop : ancestorsStep archived level = level) (nonempty : level ≠ []) (fuel : Nat) :
    ancestorsCTE archived fuel level = none := by
  induction fuel with
  | zero => match level, nonempty with | _ :: _, _ => rfl
  | succ fuel ih => match level, nonempty, loop, ih with
    | _ :: _, _, loop, ih => simp [ancestorsCTE, loop, ih]

/-- Add contract `7`, then renew it into itself. -/
def selfRenewal : Except String SQLStore := do
  let (added, _) ← oneHost.AddContract contractSeven .zero 0
  let (renewed, _) ← added.AddRenewedContract contractSeven .zero 0 ⟨7⟩
  return renewed

/-- After a self-renewal, contract `7` is active and archived, and its ancestor query recurses
forever. -/
theorem selfRenewal_never_ends :
    ∃ store, selfRenewal = .ok store ∧
      (∃ active ∈ store.contracts.rows, ∃ old ∈ store.archived.rows, active.2.fcid = old.2.fcid) ∧
      ∀ fuel, store.AncestorContracts ⟨7⟩ 0 fuel = none := by
  refine ⟨_, rfl, by decide, fun fuel => ?_⟩
  simp only [SQLStore.AncestorContracts, Option.map_eq_none']
  exact ancestorsCTE_loops (by decide) (by decide) fuel

end Renterd.Stores
