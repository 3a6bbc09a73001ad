import EnergyPlatform.Runtime.Host

/-!
# Runtime.Local

A worker alone on an in-memory ledger: Bronze, the memory store, a clock and a source. Every call of
the store is one step; `none` of the store is the `KeyError` of the source.
-/

namespace EnergyPlatform

open Lib (Prog)

structure Local where
  bronze : Bronze
  store : MemoryStore
  reads : Nat
  fetches : Nat

namespace Local

variable (out : Outside)

def answer (w : Local) : (o : Op StoreCall) → Except Exn (o.Ret StoreCall.Ret) × Local
  | .clock => (.ok (out.clock w.reads), { w with reads := w.reads + 1 })
  | .fetch ctx previous =>
    ((out.fetch w.fetches ctx previous).mapError Exn.fetch, { w with fetches := w.fetches + 1 })
  | .bronze c =>
    (.ok (w.bronze.exec out.sha256 c).1, { w with bronze := (w.bronze.exec out.sha256 c).2 })
  | .ledger c =>
    match w.store.exec c with
    | some (r, s) => (.ok r, { w with store := s })
    | none => (.error (.keyError "no such row"), w)

variable {out}

theorem run_store {w : Local} {c : StoreCall} {r : c.Ret} {s : MemoryStore}
    (hc : w.store.exec c = some (r, s)) :
    (memoryStore c).run (answer out) w = (.ok r, { w with store := s }) := by
  refine (Prog.run_perform (answer out) (.ledger c) w).trans ?_
  rw [answer, hc]
  rfl

theorem run_store_bind {α : Type} {w : Local} {c : StoreCall} {r : c.Ret} {s : MemoryStore}
    (hc : w.store.exec c = some (r, s)) (f : c.Ret → Verb StoreCall.Ret α) :
    ((memoryStore c).bind f).run (answer out) w = (f r).run (answer out) { w with store := s } :=
  Prog.run_bind_ok _ (run_store hc)

theorem run_bronze_bind {α : Type} (w : Local) (c : BronzeCall) (f : c.Ret → Verb StoreCall.Ret α) :
    ((bronzeCall c).bind f).run (answer out) w = (f (w.bronze.exec out.sha256 c).1).run (answer out)
      { w with bronze := (w.bronze.exec out.sha256 c).2 } :=
  Prog.run_bind_ok _ (Prog.run_perform ..)

end Local

end EnergyPlatform
