import Mathlib.Logic.Function.Basic
import Mathlib.Logic.Relation

/-!
# The migrator's running flag

`TryPerformMigrations` takes `m.mu`, tests `m.running`, and either releases the mutex
and returns, or sets the flag, releases the mutex and launches a goroutine that runs
`performMigrations` and then clears the flag under the mutex. Calls are numbered: call
`i` and the goroutine it may launch are two threads, each Go statement that touches the
mutex or the flag is one atomic step, and a run is any interleaving of those steps.
-/

namespace Renterd.Autopilot.RunningFlag

/-- Where call `i` of `TryPerformMigrations` stands. -/
inductive CallPc where
  | idle
  | testing
  | bailing
  | claiming
  | releasing
  | launching
  | returned (launched : Bool)
  deriving DecidableEq, Repr

/-- Where the goroutine launched by a call stands. -/
inductive PassPc where
  | absent
  | migrating
  | resetting
  | unlocking
  | exited
  deriving DecidableEq, Repr

inductive Thread where
  | call (i : Nat)
  | pass (i : Nat)
  deriving DecidableEq, Repr

/-- Call `i` of `TryPerformMigrations` and the pass it launches. -/
structure Call where
  pc : CallPc
  pass : PassPc
  deriving DecidableEq, Repr

structure Migrator where
  running : Bool
  mu : Option Thread
  calls : Nat → Call

def init : Migrator := ⟨false, none, fun _ => ⟨.idle, .absent⟩⟩

/-- One atomic step of a thread; `none` when the thread is blocked on `m.mu` or has ended. -/
def step (m : Migrator) : Thread → Option Migrator
  | .call i =>
      let set (pc : CallPc) (pass : PassPc) := Function.update m.calls i ⟨pc, pass⟩
      let pass := (m.calls i).pass
      match (m.calls i).pc with
      | .idle =>
          if m.mu = none then some { m with mu := some (.call i), calls := set .testing pass }
          else none
      | .testing => some { m with calls := set (if m.running then .bailing else .claiming) pass }
      | .bailing => some { m with mu := none, calls := set (.returned false) pass }
      | .claiming => some { m with running := true, calls := set .releasing pass }
      | .releasing => some { m with mu := none, calls := set .launching pass }
      | .launching => some { m with calls := set (.returned true) .migrating }
      | .returned _ => none
  | .pass i =>
      let set (pass : PassPc) := Function.update m.calls i ⟨(m.calls i).pc, pass⟩
      match (m.calls i).pass with
      | .migrating =>
          if m.mu = none then some { m with mu := some (.pass i), calls := set .resetting }
          else none
      | .resetting => some { m with running := false, calls := set .unlocking }
      | .unlocking => some { m with mu := none, calls := set .exited }
      | .absent | .exited => none

/-- The thread holds `m.mu` at this program counter. -/
def CallPc.holds : CallPc → Bool
  | .testing | .bailing | .claiming | .releasing => true
  | _ => false

def PassPc.holds : PassPc → Bool
  | .resetting | .unlocking => true
  | _ => false

/-- The call has set the flag and its pass has not cleared it yet. -/
def Call.launched (call : Call) : Bool :=
  call.pc == .releasing || call.pc == .launching || call.pass == .migrating ||
    call.pass == .resetting

structure Inv (m : Migrator) : Prop where
  callHolds : ∀ i, (m.calls i).pc.holds = true ↔ m.mu = some (.call i)
  passHolds : ∀ i, (m.calls i).pass.holds = true ↔ m.mu = some (.pass i)
  running : m.running = true ↔ ∃ i, (m.calls i).launched = true
  unique : ∀ i j, (m.calls i).launched = true → (m.calls j).launched = true → i = j
  claiming : ∀ i, (m.calls i).pc = .claiming → m.running = false
  started : ∀ i, (m.calls i).pass ≠ .absent ↔ (m.calls i).pc = .returned true

namespace Inv

variable {m : Migrator} (inv : Inv m)
include inv

/-- Replacing call `i` by `c`, the flag by `r` and the mutex by `μ` keeps the invariant when
these facts about call `i` hold; the other calls are untouched. -/
theorem update {i : Nat} {c : Call} {r : Bool} {μ : Option Thread}
    (callHolds : c.pc.holds = true ↔ μ = some (.call i))
    (passHolds : c.pass.holds = true ↔ μ = some (.pass i))
    (muOthers : ∀ t, t ≠ .call i → t ≠ .pass i → (μ = some t ↔ m.mu = some t))
    (running : r = true ↔ c.launched = true ∨ ∃ j ≠ i, (m.calls j).launched = true)
    (unique : c.launched = true → ∀ j ≠ i, (m.calls j).launched = false)
    (claiming : ∀ j, (Function.update m.calls i c j).pc = .claiming → r = false)
    (started : c.pass ≠ .absent ↔ c.pc = .returned true) :
    Inv ⟨r, μ, Function.update m.calls i c⟩ where
  callHolds j := by
    rcases eq_or_ne j i with rfl | ne
    · simpa using callHolds
    · simpa [ne] using (inv.callHolds j).trans
        (muOthers _ (by simpa using ne) (by simp)).symm
  passHolds j := by
    rcases eq_or_ne j i with rfl | ne
    · simpa using passHolds
    · simpa [ne] using (inv.passHolds j).trans
        (muOthers _ (by simp) (by simpa using ne)).symm
  running := by
    refine running.trans ⟨?_, ?_⟩
    · rintro (launched | ⟨j, ne, launched⟩)
      · exact ⟨i, by simpa using launched⟩
      · exact ⟨j, by simpa [ne] using launched⟩
    · rintro ⟨j, launched⟩
      rcases eq_or_ne j i with rfl | ne
      · exact .inl (by simpa using launched)
      · exact .inr ⟨j, ne, by simpa [ne] using launched⟩
  unique j k launchedJ launchedK := by
    rcases eq_or_ne j i with rfl | ne
    · rcases eq_or_ne k j with rfl | ne'
      · rfl
      · simp only [Function.update_same] at launchedJ
        simp [ne', unique launchedJ k ne'] at launchedK
    · rcases eq_or_ne k i with rfl | ne'
      · simp only [Function.update_same] at launchedK
        simp [ne, unique launchedK j ne] at launchedJ
      · simp only [Function.update_noteq ne, Function.update_noteq ne'] at launchedJ launchedK
        exact inv.unique j k launchedJ launchedK
  claiming := claiming
  started j := by
    rcases eq_or_ne j i with rfl | ne
    · simpa using started
    · simpa [ne] using inv.started j

end Inv

/-- Run the listed threads one step each, in order. -/
def run (m : Migrator) : List Thread → Option Migrator
  | [] => some m
  | thread :: rest => (step m thread).bind fun next => run next rest

/-- How many more steps the call takes before it returns, at most. -/
def CallPc.rank : CallPc → Nat
  | .idle => 5
  | .testing => 4
  | .claiming => 3
  | .releasing => 2
  | .bailing | .launching => 1
  | .returned _ => 0

/-- How many more steps the pass takes before it exits. -/
def PassPc.rank : PassPc → Nat
  | .migrating => 3
  | .resetting => 2
  | .unlocking => 1
  | .absent | .exited => 0

def Thread.rank (m : Migrator) : Thread → Nat
  | .call i => (m.calls i).pc.rank
  | .pass i => (m.calls i).pass.rank

/-- The thread's next step takes the mutex. -/
def Thread.acquires (m : Migrator) : Thread → Bool
  | .call i => (m.calls i).pc == .idle
  | .pass i => (m.calls i).pass == .migrating

namespace Inv

variable {m : Migrator} (inv : Inv m)
include inv

/-- The holder of the mutex is past its wait for it and has steps left. -/
theorem held {t : Thread} (held : m.mu = some t) : t.acquires m = false ∧ 0 < t.rank m := by
  cases t with
  | call i =>
      have holds := (inv.callHolds i).mpr held
      simp only [Thread.acquires, Thread.rank, beq_eq_false_iff_ne]
      cases pc : (m.calls i).pc <;> simp_all [CallPc.holds, CallPc.rank]
  | pass i =>
      have holds := (inv.passHolds i).mpr held
      simp only [Thread.acquires, Thread.rank, beq_eq_false_iff_ne]
      cases pass : (m.calls i).pass <;> simp_all [PassPc.holds, PassPc.rank]

end Inv

end Renterd.Autopilot.RunningFlag
