import Mathlib.Logic.Function.Basic

/-!
# The fallback dialer

`fallbackDialer.Dial` for one hostname, run by any number of concurrent calls that share one
`hostCache`. Each `Get`, `Set` and `Clear` of the cache is one atomic step under its lock; the
answers of DNS, of the bus and of every dial are chosen by the environment.
-/

namespace Renterd.Worker.Dialer

/-- The environment's answer to the step a call takes. -/
inductive Answer where
  /-- `net.ResolveIPAddr`. -/
  | resolved (ip : Except String String)
  /-- `DialContext`; the connection is named by the IP it reached. -/
  | dialed (conn : Except String Unit)
  /-- `bus.Host`: the host's resolved addresses. -/
  | busHost (addresses : Except String (List String))
  /-- A step the environment does not answer: a cache access, or the end of the address loop. -/
  | silent

/-- Where a `Dial` call is: before the step it takes next. -/
inductive Pc where
  | resolve
  | setResolved (ip : String)
  | dialResolved (ip : String)
  | getCached
  | dialCached (ip : String)
  | clear (failed : String)
  | askBus
  | dialBus (addresses : List String)
  | setBus (addr : String)
  | returned (conn : Except String String)

/-- A `fallbackDialer`: the cache entry of the hostname, and where each call is. -/
structure FallbackDialer where
  cache : Option String
  calls : Nat → Pc

def init : FallbackDialer := ⟨none, fun _ => .resolve⟩

/-- The error when every way of dialing `address` failed. -/
def allMethodsFailed (address : String) : String :=
  "failed to dial " ++ address ++ " with all methods"

/-- One step of call `i` of `Dial(ctx, hk, address)`; `none` when the answer does not fit it. -/
def step (address : String) (m : FallbackDialer) (i : Nat) (answer : Answer) :
    Option FallbackDialer :=
  let move (pc : Pc) : FallbackDialer := { m with calls := Function.update m.calls i pc }
  match m.calls i, answer with
  | .resolve, .resolved (.ok ip) => some (move (.setResolved ip))
  | .resolve, .resolved (.error _) => some (move .getCached)
  | .setResolved ip, .silent => some { move (.dialResolved ip) with cache := some ip }
  | .dialResolved ip, .dialed conn => some (move (.returned (conn.map fun _ => ip)))
  | .getCached, .silent =>
      match m.cache with
      | some ip => some (move (.dialCached ip))
      | none => some (move .askBus)
  | .dialCached ip, .dialed (.ok _) => some (move (.returned (.ok ip)))
  | .dialCached ip, .dialed (.error _) => some (move (.clear ip))
  | .clear _, .silent => some { move .askBus with cache := none }
  | .askBus, .busHost (.error err) => some (move (.returned (.error err)))
  | .askBus, .busHost (.ok addresses) => some (move (.dialBus addresses))
  | .dialBus [], .silent => some (move (.returned (.error (allMethodsFailed address))))
  | .dialBus (addr :: _), .dialed (.ok _) => some (move (.setBus addr))
  | .dialBus (_ :: rest), .dialed (.error _) => some (move (.dialBus rest))
  | .setBus addr, .silent => some { move (.returned (.ok addr)) with cache := some addr }
  | _, _ => none

/-- The dialer after a schedule of steps, each a call and the environment's answer. -/
def run (address : String) : FallbackDialer → List (Nat × Answer) → Option FallbackDialer
  | m, [] => some m
  | m, (i, answer) :: rest => (step address m i answer).bind fun next => run address next rest

/-! ## A lost update -/

/-- Call `0` caches `10.0.0.1` from DNS and connects. Call `1` misses DNS, reads `10.0.0.1` from
the cache and fails to dial it. Call `2` then caches `10.0.0.2` from DNS. -/
def staleClearSchedule : List (Nat × Answer) :=
  [(0, .resolved (.ok "10.0.0.1")), (0, .silent), (0, .dialed (.ok ())),
    (1, .resolved (.error "no such host")), (1, .silent), (1, .dialed (.error "timeout")),
    (2, .resolved (.ok "10.0.0.2")), (2, .silent)]

/-- Call `1`'s `Clear` then removes the entry that call `2` set after call `1` read the stale
IP: the entry maps to `10.0.0.2`, which call `1` never dialed. -/
theorem Clear_removes_newer_entry :
    ∃ m, run "host:9982" init staleClearSchedule = some m ∧
      m.calls 1 = .clear "10.0.0.1" ∧ m.cache = some "10.0.0.2" ∧
      ∃ next, step "host:9982" m 1 .silent = some next ∧ next.cache = none :=
  ⟨_, rfl, rfl, rfl, _, rfl, rfl⟩

/-! ## Where addresses come from -/

/-- The addresses an answer hands the dialer: the IP DNS resolved, or the host's resolved
addresses from the bus. -/
def Answer.addresses : Answer → List String
  | .resolved (.ok ip) => [ip]
  | .busHost (.ok addresses) => addresses
  | _ => []

/-- The addresses a call holds at `pc`: one it resolved, read from the cache or got from the bus,
and the one its returned connection reached. -/
def Pc.addresses : Pc → List String
  | .setResolved ip | .dialResolved ip | .dialCached ip | .clear ip | .setBus ip => [ip]
  | .dialBus addresses => addresses
  | .returned (.ok ip) => [ip]
  | _ => []

/-- Every address in the dialer, the cache entry and those the calls hold, is one of `seen`. -/
structure FromAnswers (seen : List String) (m : FallbackDialer) : Prop where
  cache : ∀ ip, m.cache = some ip → ip ∈ seen
  calls : ∀ i, ∀ ip ∈ (m.calls i).addresses, ip ∈ seen

section Provenance

variable {address : String} {m m' : FallbackDialer}

/-- What one step does to addresses: the cache entry is cleared, kept, or set to an address the
call held; the call's addresses after it were held by it, came with the answer, or are the cache
entry; the other calls do not move. -/
theorem step_addresses {i : Nat} {answer : Answer} (h : step address m i answer = some m') :
    (∀ ip, m'.cache = some ip → m.cache = some ip ∨ ip ∈ (m.calls i).addresses) ∧
      (∀ ip ∈ (m'.calls i).addresses,
        ip ∈ (m.calls i).addresses ∨ ip ∈ answer.addresses ∨ m.cache = some ip) ∧
      ∀ j ≠ i, m'.calls j = m.calls j := by
  unfold step at h
  split at h <;> (try split at h) <;> cases h <;>
    refine ⟨fun ip entry => ?_, fun ip mem => ?_, fun j ne => Function.update_noteq ne _ _⟩
  -- the dial of the resolved IP: the call returns that IP's connection or the dial's error
  case h_4.refl.refine_2 conn _ => cases conn <;> simp_all [Pc.addresses, Except.map]
  all_goals simp_all [Pc.addresses, Answer.addresses]

theorem FromAnswers.step {seen : List String} {i : Nat} {answer : Answer}
    (inv : FromAnswers seen m) (h : step address m i answer = some m') :
    FromAnswers (seen ++ answer.addresses) m' := by
  obtain ⟨cache, held, others⟩ := step_addresses h
  refine ⟨fun ip entry => List.mem_append_left _ ?_, fun j ip mem => ?_⟩
  · rcases cache ip entry with old | callHeld
    · exact inv.cache ip old
    · exact inv.calls i ip callHeld
  · rcases eq_or_ne j i with rfl | ne
    · rcases held ip mem with callHeld | answered | cached
      · exact List.mem_append_left _ (inv.calls j ip callHeld)
      · exact List.mem_append_right _ answered
      · exact List.mem_append_left _ (inv.cache ip cached)
    · exact List.mem_append_left _ (inv.calls j ip (others j ne ▸ mem))

theorem FromAnswers.run {seen : List String} {schedule : List (Nat × Answer)}
    (inv : FromAnswers seen m) (h : run address m schedule = some m') :
    FromAnswers (seen ++ schedule.flatMap fun entry => entry.2.addresses) m' := by
  induction schedule generalizing seen m with
  | nil => cases h; simpa using inv
  | cons entry rest ih =>
      obtain ⟨next, stepped, ran⟩ := Option.bind_eq_some.mp h
      simpa using ih (inv.step stepped) ran

/-- However the calls interleave and whatever DNS, the bus and the dials answer, the cache only
ever holds, and a call only returns a connection to, an address that DNS resolved or the bus
listed during the run. -/
theorem run_addresses_answered {schedule : List (Nat × Answer)}
    (h : run address init schedule = some m) :
    (∀ ip, m.cache = some ip → ip ∈ schedule.flatMap fun entry => entry.2.addresses) ∧
      ∀ i ip, m.calls i = .returned (.ok ip) →
        ip ∈ schedule.flatMap fun entry => entry.2.addresses := by
  have inv := (show FromAnswers [] init from ⟨by simp [init], by simp [init, Pc.addresses]⟩).run h
  rw [List.nil_append] at inv
  exact ⟨inv.cache, fun i ip returned => inv.calls i ip (by simp [returned, Pc.addresses])⟩

/-- In the run of the lost update, the entry the stale `Clear` removes and the connection of
call `0` are both DNS answers of the run. -/
theorem staleClear_addresses_answered :
    ∃ m, run "host:9982" init staleClearSchedule = some m ∧
      "10.0.0.2" ∈ staleClearSchedule.flatMap (fun entry => entry.2.addresses) ∧
      "10.0.0.1" ∈ staleClearSchedule.flatMap (fun entry => entry.2.addresses) :=
  ⟨_, rfl, (@run_addresses_answered "host:9982" _ staleClearSchedule rfl).1 _ rfl,
    (@run_addresses_answered "host:9982" _ staleClearSchedule rfl).2 0 _ rfl⟩

end Provenance

/-! ## Every call returns -/

/-- The answers a call takes at `pc`: any answer of DNS, of a dial or of the bus where it waits
for one, and the silent step where it only touches the cache or leaves the loop. -/
def Pc.awaits : Pc → Answer → Bool
  | .resolve, .resolved _ => true
  | .dialResolved _, .dialed _ | .dialCached _, .dialed _ | .dialBus (_ :: _), .dialed _ => true
  | .askBus, .busHost _ => true
  | .setResolved _, .silent | .getCached, .silent | .clear _, .silent | .dialBus [], .silent => true
  | .setBus _, .silent => true
  | _, _ => false

/-- How far a call is from returning: its place in `Dial`, and in the loop over the bus's
addresses the number of addresses left. -/
def Pc.rank : Pc → Nat × Nat
  | .resolve => (7, 0)
  | .setResolved _ => (2, 0)
  | .dialResolved _ => (1, 0)
  | .getCached => (6, 0)
  | .dialCached _ => (5, 0)
  | .clear _ => (4, 0)
  | .askBus => (3, 0)
  | .dialBus addresses => (2, addresses.length)
  | .setBus _ => (1, 0)
  | .returned _ => (0, 0)

section Returns

variable {address : String} {m m' : FallbackDialer}

/-- Each step of a call lowers its rank. -/
theorem step_rank {i : Nat} {answer : Answer} (h : step address m i answer = some m') :
    Prod.Lex (· < ·) (· < ·) (m'.calls i).rank (m.calls i).rank := by
  unfold step at h
  split at h <;> (try split at h) <;> cases h <;> simp_all [Pc.rank, Prod.lex_def]

/-- Steps of the other calls leave call `i` where it is. -/
theorem run_others {i : Nat} {schedule : List (Nat × Answer)}
    (others : ∀ entry ∈ schedule, entry.1 ≠ i) (h : run address m schedule = some m') :
    m'.calls i = m.calls i := by
  induction schedule generalizing m with
  | nil => cases h; rfl
  | cons entry rest ih =>
      obtain ⟨next, stepped, ran⟩ := Option.bind_eq_some.mp h
      rw [ih (fun other mem => others other (List.mem_cons_of_mem _ mem)) ran,
        (step_addresses stepped).2.2 i (others entry (List.mem_cons_self _ _)).symm]

/-- A call takes every answer of the kind it waits for, and no other: `Dial` never waits on
another call, since each cache access is one step under its lock. -/
theorem step_isSome (i : Nat) (answer : Answer) :
    (step address m i answer).isSome = (m.calls i).awaits answer := by
  unfold step
  generalize m.calls i = pc
  cases m.cache <;> rcases answer with (_ | _) | (_ | _) | (_ | _) | _ <;>
    rcases pc with _ | _ | _ | _ | _ | _ | _ | (_ | _) <;> rfl

/-- A call that has not returned waits for some answer. -/
theorem awaits_of_running {pc : Pc} (running : ∀ conn, pc ≠ .returned conn) :
    ∃ answer, pc.awaits answer := by
  cases pc with
  | resolve => exact ⟨.resolved (.error ""), rfl⟩
  | dialResolved | dialCached => exact ⟨.dialed (.error ""), rfl⟩
  | askBus => exact ⟨.busHost (.error ""), rfl⟩
  | dialBus addresses =>
      cases addresses
      · exact ⟨.silent, rfl⟩
      · exact ⟨.dialed (.error ""), rfl⟩
  | returned conn => exact absurd rfl (running conn)
  | _ => exact ⟨.silent, rfl⟩

end Returns

/-- Every `Dial` call returns, whatever DNS, the bus and the dials answer: a call that has not
returned waits for an answer of some kind, every answer of that kind moves it and no other does,
and its steps cannot go on forever, whatever the other calls do between them. -/
theorem Dial_returns (address : String) (i : Nat) :
    (∀ (m : FallbackDialer) (answer : Answer),
      (step address m i answer).isSome = (m.calls i).awaits answer) ∧
    (∀ m : FallbackDialer, (∀ conn, m.calls i ≠ .returned conn) → ∃ answer, (m.calls i).awaits answer) ∧
    WellFounded fun m' m : FallbackDialer => ∃ schedule mid answer,
      (∀ entry ∈ schedule, entry.1 ≠ i) ∧ run address m schedule = some mid ∧
        step address mid i answer = some m' := by
  refine ⟨fun m answer => step_isSome i answer, fun m running => awaits_of_running running,
    Subrelation.wf ?_
    (InvImage.wf (fun m : FallbackDialer => (m.calls i).rank)
      (Prod.lex Nat.lt_wfRel Nat.lt_wfRel).wf)⟩
  rintro m' m ⟨schedule, mid, answer, others, ran, stepped⟩
  show Prod.Lex _ _ (m'.calls i).rank (m.calls i).rank
  exact run_others others ran ▸ step_rank stepped

end Renterd.Worker.Dialer
