/-
  TorSim.Vm.Store — the key-value store of a chain, and what contracts are.

  One flat store of strings holds the code of every contract and all their
  data.  `Executor` unpickles a contract before each call, hands it the store
  and the context, and lets it write.  The two built-in contracts are part of
  this program; any other class a client deploys is outside it, and so is
  `pickle`: `Contracts` collects what the executor takes from there.
-/
import TorSim.Types.Block

namespace TorSim

open TorSim.Lib

/-! ## §1. The store. -/

/-- `BaseStore`: the dictionary from keys to values. -/
@[ext] structure BaseStore where
  get : String → Option String

namespace BaseStore

def empty : BaseStore := ⟨fun _ => none⟩

/-- `self._store[key] = value`. -/
def set (st : BaseStore) (key value : String) : BaseStore :=
  ⟨fun k => if k = key then some value else st.get k⟩

@[simp] theorem get_set_self (st : BaseStore) (key value : String) :
    (st.set key value).get key = some value := by
  simp [set]

theorem get_set_ne {k key : String} (h : k ≠ key) (st : BaseStore) (value : String) :
    (st.set key value).get k = st.get k := by
  simp [set, h]

/-- Writing what is there changes nothing. -/
theorem set_of_get {st : BaseStore} {key value : String} (h : st.get key = some value) :
    st.set key value = st := by
  ext1
  funext k
  by_cases hk : k = key
  · rw [hk, get_set_self, h]
  · rw [get_set_ne hk]

theorem set_set (st : BaseStore) (key v w : String) :
    (st.set key v).set key w = st.set key w := by
  ext1
  funext k
  by_cases hk : k = key
  · rw [hk, get_set_self, get_set_self]
  · rw [get_set_ne hk, get_set_ne hk, get_set_ne hk]

/-- `store.get(key)` on a key of any type. -/
def getValue (st : BaseStore) (key : Json) : Except Exn (Option String) :=
  match key with
  | .str k => .ok (st.get k)
  | _ => .error ⟨.assertion, "instance of key is not str"⟩

/-- `store.set(key, value)` on a value of any type. -/
def setValue (key : String) (value : Json) : Comp BaseStore Unit :=
  match value with
  | .str v => Comp.update (fun st => st.set key v)
  | _ => Comp.raise ⟨.assertion, "instance of value is not str"⟩

end BaseStore

/-! ## §2. The context. -/

/-- `Context`: the block that is being executed. -/
structure Context where
  block : Option Block := none

/-- `self.ctx.block.height`. -/
def Context.height (ctx : Context) : Except Exn Int :=
  match ctx.block with
  | some b => .ok b.height
  | none => .error ⟨.attribute, "'NoneType' object has no attribute 'height'"⟩

/-! ## §3. Contracts. -/

/-- A contract object: one of the built-in classes, or an object of a class a
client deployed. -/
inductive CodeMeta (Obj : Type) where
  | base
  | lightClient
  | user (obj : Obj)

/-- What the executor takes from `pickle` and from deployed classes.
`attach` is the assignment of `store` and `ctx`, which objects without
attributes refuse; `dumps` pickles the object together with them, once they are
assigned.  A deployed contract is one that keeps to its store. -/
class Contracts where
  Obj : Type
  loads : Bytes → Except Exn (CodeMeta Obj)
  dumps : CodeMeta Obj → Option (BaseStore × Context) → Except Exn Bytes
  attach : Obj → Except Exn Obj
  init : Obj → Context → Comp BaseStore Obj
  exec : Obj → Context → Json → Comp BaseStore Json
  query : Obj → Context → Json → Comp BaseStore Json

/-- A pickle for worked inputs: one byte for each built-in class, no other class. -/
@[reducible] def Contracts.plain : Contracts where
  Obj := Empty
  loads
    | [0] => .ok .base
    | [1] => .ok .lightClient
    | _ => .error ⟨.value, "pickle data was truncated"⟩
  dumps
    | .base, _ => .ok [0]
    | .lightClient, _ => .ok [1]
  attach obj := .ok obj
  init obj _ := pure obj
  exec _ _ _ := pure .null
  query _ _ _ := pure .null

end TorSim
