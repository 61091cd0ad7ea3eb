import Mathlib.Data.Finset.Card

/-!
# One migration pass

`migrator.performMigrations` asks the bus for up to `migratorBatchSize` slabs of
the `migratorContractset` set that need migration, hands them to the worker one at
a time, and asks again until the bus answers with none or fails. The bus and the
worker form an environment over an arbitrary world state, so every sequence of
answers is a run of the model. The Go loop has no bound; here a fuel counts fetches.
-/

namespace Renterd.Autopilot.Migrations

def migratorBatchSize : Nat := 100

def migratorContractset : String := "autopilot"

/-- The bus and the worker as one pass sees them, over a world state `σ`. -/
structure Env (σ Slab : Type) where
  slabsForMigration : σ → String → Nat → Except String (List Slab)
  migrateSlab : σ → Slab → σ × Except String Unit

/-- How a pass left its loop. -/
inductive PassEnd where
  | drained
  | fetchFailed (err : String)
  | unfinished
  deriving DecidableEq, Repr

/-- What a pass did: its `MigrateSlab` calls in order, each with whether it succeeded. -/
structure Pass (σ Slab : Type) where
  world : σ
  calls : List (Slab × Bool)
  ended : PassEnd

variable {σ Slab : Type} (env : Env σ Slab)

/-- The inner loop: migrate a batch slab by slab; a failure is logged and skipped. -/
def migrateBatch (world : σ) : List Slab → σ × List (Slab × Bool)
  | [] => (world, [])
  | slab :: rest =>
      let migrated := env.migrateSlab world slab
      let after := migrateBatch migrated.1 rest
      (after.1, (slab, migrated.2.isOk) :: after.2)

/-- `performMigrations`, with `fuel` bounding the number of fetches. -/
def performMigrations : Nat → σ → Pass σ Slab
  | 0, world => ⟨world, [], .unfinished⟩
  | fuel + 1, world =>
      match env.slabsForMigration world migratorContractset migratorBatchSize with
      | .error err => ⟨world, [], .fetchFailed err⟩
      | .ok [] => ⟨world, [], .drained⟩
      | .ok (slab :: rest) =>
          let batch := migrateBatch env world (slab :: rest)
          let next := performMigrations fuel batch.1
          ⟨next.world, batch.2 ++ next.calls, next.ended⟩

/-- No slab is handed to `MigrateSlab` again after a successful migration of it. -/
def RetriesOnlyFailed (calls : List (Slab × Bool)) : Prop :=
  calls.Pairwise fun earlier later => earlier.2 = true → earlier.1 ≠ later.1

/-! ## Environments -/

/-- Every fetch answers at most `limit` distinct slabs, each unhealthy in the world it is asked in. -/
structure FetchesUnhealthy (unhealthy : σ → Finset Slab) : Prop where
  nodup : ∀ {world set limit slabs},
    env.slabsForMigration world set limit = .ok slabs → slabs.Nodup
  length_le : ∀ {world set limit slabs},
    env.slabsForMigration world set limit = .ok slabs → slabs.length ≤ limit
  mem : ∀ {world set limit slabs},
    env.slabsForMigration world set limit = .ok slabs → ∀ slab ∈ slabs, slab ∈ unhealthy world

/-- A bus and a worker under which a slab stops needing migration only when a
`MigrateSlab` of it succeeds. -/
structure StatedEnv (unhealthy : σ → Finset Slab) extends FetchesUnhealthy env unhealthy : Prop where
  stops_only_by_success : ∀ world slab other, other ∈ unhealthy world →
    other ∉ unhealthy (env.migrateSlab world slab).1 →
      other = slab ∧ (env.migrateSlab world slab).2.isOk = true

/-- An environment in which migrations are the only change of health during the pass: no slab
becomes unhealthy, and a successful migration leaves its slab healthy. -/
structure Faithful (unhealthy : σ → Finset Slab) extends FetchesUnhealthy env unhealthy : Prop where
  subset : ∀ world slab, unhealthy (env.migrateSlab world slab).1 ⊆ unhealthy world
  heals : ∀ world slab, (env.migrateSlab world slab).2.isOk = true →
    slab ∉ unhealthy (env.migrateSlab world slab).1

/-! ## One batch -/

theorem migrateBatch_slabs (world : σ) (slabs : List Slab) :
    (migrateBatch env world slabs).2.map Prod.fst = slabs := by
  induction slabs generalizing world with
  | nil => rfl
  | cons slab rest ih => simp [migrateBatch, ih]

/-- Each call of a batch records what the worker answered for its slab in some world. -/
theorem migrateBatch_result (world : σ) (slabs : List Slab) :
    ∀ call ∈ (migrateBatch env world slabs).2, ∃ world', call.2 = (env.migrateSlab world' call.1).2.isOk := by
  induction slabs generalizing world with
  | nil => simp [migrateBatch]
  | cons slab rest ih =>
      simp only [migrateBatch, List.mem_cons, forall_eq_or_imp]
      exact ⟨⟨world, rfl⟩, ih _⟩

/-- A pass that fetches a nonempty batch hands it to the worker, then goes on from the world the
batch leaves. -/
theorem performMigrations_fetched {fuel : Nat} {world : σ} {batch : List Slab}
    (fetched : env.slabsForMigration world migratorContractset migratorBatchSize = .ok batch)
    (nonempty : batch ≠ []) :
    performMigrations env (fuel + 1) world =
      ⟨(performMigrations env fuel (migrateBatch env world batch).1).world,
        (migrateBatch env world batch).2 ++
          (performMigrations env fuel (migrateBatch env world batch).1).calls,
        (performMigrations env fuel (migrateBatch env world batch).1).ended⟩ := by
  obtain ⟨slab, rest, rfl⟩ := List.exists_cons_of_ne_nil nonempty
  simp only [performMigrations, fetched]

/-- Each call of a pass records what the worker answered for its slab in some world. -/
theorem performMigrations_result (fuel : Nat) (world : σ) :
    ∀ call ∈ (performMigrations env fuel world).calls,
      ∃ world', call.2 = (env.migrateSlab world' call.1).2.isOk := by
  induction fuel generalizing world with
  | zero => simp [performMigrations]
  | succ fuel ih =>
      simp only [performMigrations]
      split
      · simp
      · simp
      · intro call mem
        rcases List.mem_append.mp mem with inBatch | inRest
        · exact migrateBatch_result env _ _ call inBatch
        · exact ih _ call inRest

section Faithful

variable {env} {unhealthy : σ → Finset Slab} (hf : Faithful env unhealthy)
include hf

theorem migrateBatch_subset (world : σ) (slabs : List Slab) :
    unhealthy (migrateBatch env world slabs).1 ⊆ unhealthy world := by
  induction slabs generalizing world with
  | nil => exact Finset.Subset.refl _
  | cons slab rest ih => exact (ih _).trans (hf.subset world slab)

/-- Every slab the batch migrated successfully is healthy when the batch ends. -/
theorem migrateBatch_healed (world : σ) (slabs : List Slab) :
    ∀ call ∈ (migrateBatch env world slabs).2, call.2 = true →
      call.1 ∉ unhealthy (migrateBatch env world slabs).1 := by
  induction slabs generalizing world with
  | nil => simp [migrateBatch]
  | cons slab rest ih =>
      simp only [migrateBatch, List.mem_cons, forall_eq_or_imp]
      exact ⟨fun ok mem => hf.heals world slab ok (migrateBatch_subset hf _ rest mem), ih _⟩

/-- Every slab a pass migrates was unhealthy when the pass started. -/
theorem performMigrations_unhealthy (fuel : Nat) (world : σ) :
    ∀ call ∈ (performMigrations env fuel world).calls, call.1 ∈ unhealthy world := by
  induction fuel generalizing world with
  | zero => simp [performMigrations]
  | succ fuel ih =>
      simp only [performMigrations]
      split
      · simp
      · simp
      · rename_i slab rest fetched
        intro call mem
        rcases List.mem_append.mp mem with inBatch | inRest
        · have slabs := migrateBatch_slabs env world (slab :: rest)
          exact hf.mem fetched _ (slabs ▸ List.mem_map_of_mem Prod.fst inBatch)
        · exact migrateBatch_subset hf _ _ (ih _ call inRest)

theorem performMigrations_retriesOnlyFailed (fuel : Nat) (world : σ) :
    RetriesOnlyFailed (performMigrations env fuel world).calls := by
  induction fuel generalizing world with
  | zero => exact List.Pairwise.nil
  | succ fuel ih =>
      simp only [performMigrations]
      split
      · exact List.Pairwise.nil
      · exact List.Pairwise.nil
      · rename_i slab rest fetched
        have distinct : (migrateBatch env world (slab :: rest)).2.Pairwise
            fun earlier later => earlier.1 ≠ later.1 := by
          have nodup := hf.nodup fetched
          rw [← migrateBatch_slabs env world (slab :: rest)] at nodup
          exact List.pairwise_map.mp nodup
        refine List.pairwise_append.mpr ⟨?_, ih _, ?_⟩
        · exact distinct.imp fun {earlier later} (ne : earlier.1 ≠ later.1) (_ : earlier.2 = true) => ne
        intro earlier inBatch later inRest ok same
        exact migrateBatch_healed hf world _ earlier inBatch ok
          (same ▸ performMigrations_unhealthy hf fuel _ later inRest)

section Succeeding

variable (succeeds : ∀ world slab, (env.migrateSlab world slab).2.isOk = true)
include succeeds

omit hf in
theorem performMigrations_succeeded (fuel : Nat) (world : σ) :
    ∀ call ∈ (performMigrations env fuel world).calls, call.2 = true := fun call mem => by
  obtain ⟨world', result⟩ := performMigrations_result env fuel world call mem
  exact result.trans (succeeds _ _)

/-- When every migration succeeds, a pass migrates each slab at most once. -/
theorem performMigrations_length_le (fuel : Nat) (world : σ) :
    (performMigrations env fuel world).calls.length ≤ (unhealthy world).card := by
  classical
  set calls := (performMigrations env fuel world).calls
  have nodup : (calls.map Prod.fst).Nodup := by
    refine List.pairwise_map.mpr ?_
    exact (performMigrations_retriesOnlyFailed hf fuel world).imp_of_mem
      fun inEarlier _ ne => ne (performMigrations_succeeded succeeds fuel world _ inEarlier)
  calc calls.length = (calls.map Prod.fst).toFinset.card := by
        rw [List.toFinset_card_of_nodup nodup, List.length_map]
    _ ≤ (unhealthy world).card := Finset.card_le_card fun slab mem => by
        obtain ⟨call, inCalls, rfl⟩ := List.mem_map.mp (List.mem_toFinset.mp mem)
        exact performMigrations_unhealthy hf fuel world call inCalls

/-- When every migration succeeds, each nonempty batch shrinks the unhealthy set, so the pass
ends within one fetch more than there are unhealthy slabs. -/
theorem performMigrations_ends (fuel : Nat) (world : σ) (enough : (unhealthy world).card < fuel) :
    (performMigrations env fuel world).ended ≠ .unfinished := by
  induction fuel generalizing world with
  | zero => exact absurd enough (Nat.not_lt_zero _)
  | succ fuel ih =>
      simp only [performMigrations]
      split
      · simp
      · simp
      · rename_i slab rest fetched
        set after := (migrateBatch env world (slab :: rest)).1
        have healed : slab ∉ unhealthy after := migrateBatch_healed hf world (slab :: rest)
          (slab, true) (by simp [migrateBatch, succeeds]) rfl
        have shrunk : (unhealthy after).card < (unhealthy world).card :=
          Finset.card_lt_card (Finset.ssubset_iff_subset_ne.mpr ⟨migrateBatch_subset hf _ _,
            fun same => healed (same ▸ hf.mem fetched slab (List.mem_cons_self _ _))⟩)
        exact ih after (by omega)

end Succeeding

end Faithful

/-! ## A slab whose migration keeps failing -/

section Failing

variable {env} {unhealthy : σ → Finset Slab} (stated : StatedEnv env unhealthy) (slab : Slab)
  (fails : ∀ world, (env.migrateSlab world slab).2.isOk = false)
include stated fails

/-- No migration heals a slab whose own migration always fails. -/
theorem migrateBatch_keeps (world : σ) (batch : List Slab) (needed : slab ∈ unhealthy world) :
    slab ∈ unhealthy (migrateBatch env world batch).1 := by
  induction batch generalizing world with
  | nil => exact needed
  | cons other rest ih =>
      refine ih _ (Classical.not_not.mp fun healed => ?_)
      obtain ⟨rfl, ok⟩ := stated.stops_only_by_success world other slab needed healed
      exact Bool.false_ne_true ((fails world).symm.trans ok)

/-- A slab that keeps failing and that the bus returns whenever it needs migration is handed to
the worker once in every batch, and the pass never ends. -/
theorem performMigrations_stuck [DecidableEq Slab]
    (refetched : ∀ world, slab ∈ unhealthy world → ∃ batch,
      env.slabsForMigration world migratorContractset migratorBatchSize = .ok batch ∧ slab ∈ batch)
    (fuel : Nat) (world : σ) (needed : slab ∈ unhealthy world) :
    (performMigrations env fuel world).ended = .unfinished ∧
      ((performMigrations env fuel world).calls.map Prod.fst).count slab = fuel := by
  induction fuel generalizing world with
  | zero => exact ⟨rfl, rfl⟩
  | succ fuel ih =>
      obtain ⟨batch, fetched, mem⟩ := refetched world needed
      obtain ⟨unfinished, count⟩ := ih _ (migrateBatch_keeps stated slab fails world batch needed)
      rw [performMigrations_fetched env fetched (List.ne_nil_of_mem mem)]
      refine ⟨unfinished, ?_⟩
      rw [List.map_append, List.count_append, count, migrateBatch_slabs,
        List.count_eq_one_of_mem (stated.nodup fetched) mem, Nat.add_comm]

end Failing

/-- Within a pass, each fetched batch goes to the worker in order, one call per slab, and the next
fetch is made in the world those calls leave. When a slab stops needing migration only through a
successful migration of it, a slab whose migration always fails and that the bus returns whenever
it needs migration is handed to the worker once in every batch, each time failing, and the pass
never ends. When migrations are the only change of health, a slab is migrated again only after
failed migrations of it; when every migration succeeds, the pass migrates at most as many slabs as
needed migration at its start and ends once it has fetched one batch more than that. -/
theorem performMigrations_retries_only_failed [DecidableEq Slab] (unhealthy : σ → Finset Slab)
    (fuel : Nat) (world : σ) :
    (∀ batch, env.slabsForMigration world migratorContractset migratorBatchSize = .ok batch →
      batch ≠ [] →
        (migrateBatch env world batch).2.map Prod.fst = batch ∧
        (performMigrations env (fuel + 1) world).calls = (migrateBatch env world batch).2 ++
          (performMigrations env fuel (migrateBatch env world batch).1).calls) ∧
    (∀ slab, StatedEnv env unhealthy → (∀ w, (env.migrateSlab w slab).2.isOk = false) →
      (∀ w, slab ∈ unhealthy w → ∃ batch,
        env.slabsForMigration w migratorContractset migratorBatchSize = .ok batch ∧ slab ∈ batch) →
      slab ∈ unhealthy world →
        (performMigrations env fuel world).ended = .unfinished ∧
        ((performMigrations env fuel world).calls.map Prod.fst).count slab = fuel ∧
        ∀ call ∈ (performMigrations env fuel world).calls, call.1 = slab → call.2 = false) ∧
    (Faithful env unhealthy →
      RetriesOnlyFailed (performMigrations env fuel world).calls ∧
      ((∀ w slab, (env.migrateSlab w slab).2.isOk = true) →
        (performMigrations env fuel world).calls.length ≤ (unhealthy world).card ∧
        ((unhealthy world).card < fuel → (performMigrations env fuel world).ended ≠ .unfinished))) := by
  refine ⟨fun batch fetched nonempty => ⟨migrateBatch_slabs env world batch, ?_⟩,
    fun slab stated fails refetched needed => ?_, fun hf => ?_⟩
  · rw [performMigrations_fetched env fetched nonempty]
  · obtain ⟨unfinished, count⟩ := performMigrations_stuck stated slab fails refetched fuel world needed
    refine ⟨unfinished, count, fun call mem same => ?_⟩
    obtain ⟨world', result⟩ := performMigrations_result env fuel world call mem
    exact result.trans (same ▸ fails world')
  · exact ⟨performMigrations_retriesOnlyFailed hf fuel world, fun succeeds =>
      ⟨performMigrations_length_le hf succeeds fuel world,
        performMigrations_ends hf succeeds fuel world⟩⟩

/-! ## A slab the worker cannot migrate -/

/-- A bus that keeps answering slab `0`, and a worker that always fails to migrate it. -/
def stuckEnv : Env Unit Nat where
  slabsForMigration _ _ limit := .ok ([0].take limit)
  migrateSlab world _ := (world, .error "no hosts available")

theorem stuckEnv_stated : StatedEnv stuckEnv fun _ => {0} where
  nodup := by
    rintro _ _ limit _ ⟨⟩
    exact (List.nodup_singleton 0).sublist (List.take_sublist _ _)
  length_le := by
    rintro _ _ limit _ ⟨⟩
    exact List.length_take_le _ _
  mem := by
    rintro _ _ limit _ ⟨⟩ slab mem
    exact Finset.mem_singleton.mpr (List.mem_singleton.mp (List.mem_of_mem_take mem))
  stops_only_by_success _ _ _ before after := absurd before after

/-- Slab `0` of `stuckEnv` meets every premise of the retry statement: two fetches hand it to the
worker twice, both calls fail, and the pass is unfinished. -/
theorem stuckPass_retried :
    (performMigrations stuckEnv 2 ()).ended = .unfinished ∧
      ((performMigrations stuckEnv 2 ()).calls.map Prod.fst).count 0 = 2 ∧
      ∀ call ∈ (performMigrations stuckEnv 2 ()).calls, call.1 = 0 → call.2 = false :=
  (performMigrations_retries_only_failed stuckEnv (fun _ => {0}) 2 ()).2.1 0 stuckEnv_stated
    (fun _ => rfl) (fun _ _ => ⟨[0], rfl, List.mem_singleton_self 0⟩) (Finset.mem_singleton_self 0)

theorem stuckPass_calls (fuel : Nat) :
    (performMigrations stuckEnv fuel ()).calls = List.replicate fuel (0, false) ∧
      (performMigrations stuckEnv fuel ()).ended = .unfinished := by
  induction fuel with
  | zero => exact ⟨rfl, rfl⟩
  | succ fuel ih =>
      simpa [performMigrations, stuckEnv, migrateBatch, migratorBatchSize, Except.isOk,
        Except.toBool, List.replicate_succ] using ih

/-- The pass keeps handing the failing slab to the worker and never ends. -/
theorem stuckPass_migrates_twice :
    StatedEnv stuckEnv (fun _ => {0}) ∧
      (performMigrations stuckEnv 2 ()).calls.map Prod.fst = [0, 0] ∧
      ∀ fuel, (performMigrations stuckEnv fuel ()).ended = .unfinished :=
  ⟨stuckEnv_stated, by simp [(stuckPass_calls 2).1, List.replicate],
    fun fuel => (stuckPass_calls fuel).2⟩

end Renterd.Autopilot.Migrations
