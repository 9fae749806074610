/-
  TorSim.Vm.CtrBase — the built-in contract `base`: raw reads and writes.

  `exec` checks the whole request before its first write, and no write can
  raise.

  Main results:
    * `setPairs_run` — the write loop returns.
    * `exec_error_state` — **a call that raises has written nothing**.
    * `caught_exec` — what it raises, a `try` catches.
-/
import TorSim.Vm.Store

namespace TorSim

open TorSim.Lib

namespace CtrBase

/-- `assert isinstance(arguments, list)`. -/
def listOf : Json → Except Exn (List Json)
  | .arr xs => .ok xs
  | _ => .error ⟨.assertion, "arguments should be list"⟩

/-- `for i in range(0, len(arguments), 2)`: one key and one value a round. -/
def setPairs : List Json → Comp BaseStore Unit
  | key :: value :: rest => do
      BaseStore.setValue key.toStr (.str value.toStr)
      setPairs rest
  | _ => pure ()

def exec (rawdata : Json) : Comp BaseStore Json := do
  let data ← Comp.lift (Json.loadsValue rawdata)
  let arguments ← Comp.lift (data.getItem "arguments")
  let args ← Comp.lift (listOf arguments)
  Comp.lift (assertE (args.length % 2 == 0) "arguments length must be even")
  setPairs args
  return .str ""

/-- The values at a list of keys, the empty string where there is none. -/
def readKeys (st : BaseStore) : List Json → Except Exn (List Json) :=
  mapE (fun key => do
    let r ← st.getValue key
    return .str (r.getD ""))

def query (rawdata : Json) : Comp BaseStore Json := do
  let data ← Comp.lift (Json.loadsValue rawdata)
  let arguments ← Comp.lift (data.getItem "arguments")
  let args ← Comp.lift (listOf arguments)
  let func ← Comp.lift (data.get "func" .null)
  if func.isFalsy then do
    let st ← Comp.gets id
    let rs ← Comp.lift (readKeys st args)
    return .arr rs
  else
    Comp.raise ⟨.attribute, "'CtrBase' object has no attribute '__" ++ func.toStr ++ "'"⟩

/-- The write loop returns. -/
theorem setPairs_run (args : List Json) :
    ∀ st : BaseStore, ∃ st', setPairs args st = (.ok (), st') := by
  induction args using setPairs.induct with
  | case1 key value rest ih =>
      intro st
      rw [setPairs]
      exact ih (st.set key.toStr value.toStr)
  | case2 args h =>
      intro st
      rw [setPairs]
      · exact ⟨st, rfl⟩
      · exact h

/-- **A call that raises has written nothing.** -/
theorem exec_error_state {rawdata : Json} {st st' : BaseStore} {e : Exn}
    (h : exec rawdata st = (.error e, st')) : st' = st := by
  have lift_error : ∀ {α : Type} {r : Except Exn α} {s s' : BaseStore},
      Comp.lift r s = (.error e, s') → s' = s :=
    fun hr => (Prod.mk.inj hr).2.symm
  have lift_ok : ∀ {α : Type} {r : Except Exn α} {a : α} {s s' : BaseStore},
      Comp.lift r s = (.ok a, s') → s' = s :=
    fun hr => (Prod.mk.inj hr).2.symm
  rcases Comp.bind_eq_error h with h1 | ⟨data, s1, h1, h⟩
  · exact lift_error h1
  rw [lift_ok h1] at h
  rcases Comp.bind_eq_error h with h2 | ⟨arguments, s2, h2, h⟩
  · exact lift_error h2
  rw [lift_ok h2] at h
  rcases Comp.bind_eq_error h with h3 | ⟨args, s3, h3, h⟩
  · exact lift_error h3
  rw [lift_ok h3] at h
  rcases Comp.bind_eq_error h with h4 | ⟨u, s4, h4, h⟩
  · exact lift_error h4
  rw [lift_ok h4] at h
  -- the write loop and the return behind it cannot raise
  obtain ⟨s5, h5⟩ := setPairs_run args st
  rw [Comp.bind_of_ok h5] at h
  cases (Prod.mk.inj h).1

theorem caughtE_listOf (v : Json) : Comp.CaughtE (listOf v) := by
  cases v with
  | arr xs => exact Comp.caughtE_ok xs
  | _ => exact Comp.caughtE_error rfl

/-- Whatever the request is, `exec` raises only what a `try` catches. -/
theorem caught_exec (rawdata : Json) : Comp.Caught (exec rawdata) := by
  refine Comp.caught_bind (Comp.caught_lift (Json.caughtE_loadsValue rawdata)) fun data => ?_
  refine Comp.caught_bind (Comp.caught_lift (Json.caughtE_getItem data _)) fun arguments => ?_
  refine Comp.caught_bind (Comp.caught_lift (caughtE_listOf arguments)) fun args => ?_
  refine Comp.caught_bind (Comp.caught_lift (Comp.caughtE_assert _ _)) fun _ => ?_
  refine Comp.caught_bind (fun st => ?_) fun _ => Comp.caught_pure _
  obtain ⟨st', h⟩ := setPairs_run args st
  rw [h]
  exact Comp.caughtE_ok ()

end CtrBase

end TorSim
