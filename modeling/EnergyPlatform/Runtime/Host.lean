import EnergyPlatform.Runtime.Cli

/-!
# Runtime.Host

What one worker runs on: Bronze, and a connection whose driver calls fail as a pattern says.

`Completes` is a program of `k` driver calls that runs to its end when none of them fails and
raises the driver's error when one does; it is kept by sequencing.
-/

namespace EnergyPlatform

open Lib (Prog)

/-- What the outside answers: the n-th clock reading, the n-th fetch, the driver calls that fail. -/
structure Outside where
  sha256 : Bytes → Sha256
  clock : Nat → Instant
  fetch : Nat → FetchContext → Option Conditional → Except FetchError FetchResult
  faults : Nat → Option Fault
  serverVersion : Nat

structure Host where
  bronze : Bronze
  connection : Connection
  reads : Nat
  fetches : Nat

namespace Host

variable (out : Outside)

def answer (h : Host) : (o : Op DriverCall) → Except Exn (o.Ret DriverCall.Ret) × Host
  | .clock => (.ok (out.clock h.reads), { h with reads := h.reads + 1 })
  | .fetch ctx previous =>
    ((out.fetch h.fetches ctx previous).mapError Exn.fetch, { h with fetches := h.fetches + 1 })
  | .bronze c => (.ok (h.bronze.exec out.sha256 c).1, { h with bronze := (h.bronze.exec out.sha256 c).2 })
  | .ledger d =>
    ((h.connection.answer out.faults out.serverVersion d).1,
      { h with connection := (h.connection.answer out.faults out.serverVersion d).2 })

end Host

/-! ## Driver calls on a host -/

section Driver

variable {out : Outside} {h : Host}

theorem run_driver (d : DriverCall) :
    (ledgerCall d : Verb DriverCall.Ret d.Ret).run (Host.answer out) h =
      ((h.connection.answer out.faults out.serverVersion d).1,
        { h with connection := (h.connection.answer out.faults out.serverVersion d).2 }) :=
  Prog.run_perform _ _ _

theorem run_driver_ok (d : DriverCall) (hf : out.faults h.connection.calls = none) :
    (ledgerCall d : Verb DriverCall.Ret d.Ret).run (Host.answer out) h =
      (.ok (h.connection.effect out.serverVersion d).1,
        { h with connection :=
            { (h.connection.effect out.serverVersion d).2 with calls := h.connection.calls + 1 } }) := by
  rw [run_driver, Connection.answer, hf]

def outageMsg : String := "server closed the connection"

/-- A driver call that fails raises and, whatever it did, is counted. -/
theorem run_driver_fault (d : DriverCall) (hf : out.faults h.connection.calls ≠ none) :
    ∃ c, c.calls = h.connection.calls + 1 ∧
      (ledgerCall d : Verb DriverCall.Ret d.Ret).run (Host.answer out) h =
        (.error (.operationalError outageMsg), { h with connection := c }) := by
  rw [run_driver, Connection.answer]
  cases hn : out.faults h.connection.calls with
  | none => exact absurd hn hf
  | some f =>
    cases f with
    | lost => exact ⟨_, rfl, rfl⟩
    | late => exact ⟨_, rfl, rfl⟩

/-- The call after a failed transaction: the next one, or the one after the commit. -/
def afterFault (faults : Nat → Option Fault) (n : Nat) : Nat :=
  if faults n = none then n + 2 else n + 1

theorem transaction_ok {c : StoreCall} {r : c.Ret} {s : MemoryStore}
    (hx : h.connection.tables.exec c = some (r, s)) (h0 : out.faults h.connection.calls = none)
    (h1 : out.faults (h.connection.calls + 1) = none) :
    (Postgres.transaction c).run (Host.answer out) h =
      (.ok (some r), { h with connection := ⟨s, none, h.connection.calls + 2⟩ }) := by
  have heff : h.connection.effect out.serverVersion (.execute c) =
      (some r, { h.connection with working := some s }) := by
    simp only [Connection.effect, hx]
    rfl
  have he : (Postgres.execute c).run (Host.answer out) h = (.ok (some r),
      { h with connection := ⟨h.connection.committed, some s, h.connection.calls + 1⟩ }) := by
    have := run_driver_ok (.execute c) h0
    rw [heff] at this
    exact this
  rw [Postgres.transaction, Prog.bind_eq, Prog.run_bind_ok _ he, Prog.bind_eq]
  exact Prog.run_bind_ok _ (run_driver_ok .commit h1)

theorem transaction_fault {c : StoreCall}
    (hf : ¬ (out.faults h.connection.calls = none ∧ out.faults (h.connection.calls + 1) = none)) :
    ∃ cn, cn.calls = afterFault out.faults h.connection.calls ∧
      (Postgres.transaction c).run (Host.answer out) h =
        (.error (.operationalError outageMsg), { h with connection := cn }) := by
  rw [Postgres.transaction, Prog.bind_eq]
  by_cases h0 : out.faults h.connection.calls = none
  · have h1 : out.faults (h.connection.calls + 1) ≠ none := fun h1 => hf ⟨h0, h1⟩
    obtain ⟨cn, hcn, hc⟩ := run_driver_fault
      (h := { h with connection := { (h.connection.effect out.serverVersion (.execute c)).2 with
        calls := h.connection.calls + 1 } }) .commit h1
    refine ⟨cn, by rw [hcn, afterFault, if_pos h0], ?_⟩
    refine (Prog.run_bind_ok _ (run_driver_ok (.execute c) h0)).trans ?_
    exact Prog.run_bind_error _ hc
  · obtain ⟨cn, hcn, hc⟩ := run_driver_fault (.execute c) h0
    exact ⟨cn, by rw [hcn, afterFault, if_neg h0], Prog.run_bind_error _ hc⟩

/-- Its `k` driver calls answer, and then `Q`; or one of them fails and the program raises that. -/
structure Completes {α : Type} (out : Outside) (h : Host)
    (p : Postgres.Db α) (k : Nat) (Q : α → MemoryStore → Prop) : Prop where
  quiet : (∀ i, h.connection.calls ≤ i → i < h.connection.calls + k → out.faults i = none) →
    ∃ a s, p.run (Host.answer out) h =
      (.ok a, { h with connection := ⟨s, none, h.connection.calls + k⟩ }) ∧ Q a s
  fault : ¬ (∀ i, h.connection.calls ≤ i → i < h.connection.calls + k → out.faults i = none) →
    ∃ cn, p.run (Host.answer out) h =
      (.error (.operationalError outageMsg), { h with connection := cn })

namespace Completes

variable {α β : Type} {Q : α → MemoryStore → Prop} {Q' : β → MemoryStore → Prop}

theorem ret {a : α} (hw : h.connection.working = none) (hq : Q a h.connection.committed) :
    Completes out h (.ret a) 0 Q where
  quiet _ := ⟨a, h.connection.committed, by rw [Prog.run_ret, Nat.add_zero, ← hw], hq⟩
  fault hf := absurd (fun i hi hi' => by omega) hf

theorem bind {p : Postgres.Db α} {f : α → Postgres.Db β} {k k' : Nat}
    (hp : Completes out h p k Q)
    (hf : ∀ a s, Q a s → Completes out
      { h with connection := ⟨s, none, h.connection.calls + k⟩ } (f a) k' Q') :
    Completes out h (p.bind f) (k + k') Q' where
  quiet hq := by
    obtain ⟨a, s, hr, ha⟩ := hp.quiet fun i hi hi' => hq i hi (by omega)
    obtain ⟨b, s', hr', hb⟩ := (hf a s ha).quiet fun i hi hi' => by
      simp only at hi hi'
      exact hq i (by omega) (by omega)
    refine ⟨b, s', ?_, hb⟩
    rw [Prog.run_bind_ok _ hr, hr', ← Nat.add_assoc]
  fault hq := by
    by_cases h1 : ∀ i, h.connection.calls ≤ i → i < h.connection.calls + k → out.faults i = none
    · obtain ⟨a, s, hr, ha⟩ := hp.quiet h1
      have h2 : ¬ ∀ i, h.connection.calls + k ≤ i → i < h.connection.calls + k + k' →
          out.faults i = none := by
        intro h2
        refine hq fun i hi hi' => ?_
        by_cases hik : i < h.connection.calls + k
        · exact h1 i hi hik
        · exact h2 i (by omega) (by omega)
      obtain ⟨cn, hr'⟩ := (hf a s ha).fault h2
      exact ⟨cn, (Prog.run_bind_ok _ hr).trans hr'⟩
    · obtain ⟨cn, hr⟩ := hp.fault h1
      exact ⟨cn, Prog.run_bind_error _ hr⟩

end Completes

/-- Two calls answer exactly when both do. -/
theorem two_calls {faults : Nat → Option Fault} {n : Nat} :
    (∀ i, n ≤ i → i < n + 2 → faults i = none) ↔ faults n = none ∧ faults (n + 1) = none := by
  refine ⟨fun h => ⟨h n (by omega) (by omega), h (n + 1) (by omega) (by omega)⟩, ?_⟩
  intro h i hi hi'
  obtain rfl | rfl : i = n ∨ i = n + 1 := by omega
  · exact h.1
  · exact h.2

variable (out) in
/-- A transaction whose statement has a row. -/
theorem completes_transaction {c : StoreCall} {r : c.Ret} {s : MemoryStore} {e : Exn}
    (hx : h.connection.tables.exec c = some (r, s)) :
    Completes out h ((Postgres.transaction c).bind (Postgres.rowOr e)) 2
      fun r' s' => r' = r ∧ s' = s where
  quiet hq := by
    rw [two_calls] at hq
    exact ⟨r, s, Prog.run_bind_ok _ (transaction_ok hx hq.1 hq.2), rfl, rfl⟩
  fault hf := by
    rw [two_calls] at hf
    obtain ⟨cn, -, hr⟩ := transaction_fault (c := c) hf
    exact ⟨cn, Prog.run_bind_error _ hr⟩

end Driver

end EnergyPlatform
