/-
  TorSim.Mempool.SyncMemPool — the bounded queue between clients and the chain.

  Every entry carries a tag that no code reads: it tells where the transaction
  came from, so that "none lost, none duplicated" can be said.

  Main results:
    * `putTx_cases` — a submission is accepted at the end of the queue, or
      refused without a change, or raises without a change.
    * `popTx_cons` — **taking never loses a transaction**, also when the mark
      fails.
    * `putTx_le` — the bound is kept.
-/
import TorSim.Types.Memo

namespace TorSim

open TorSim.Lib

structure SyncMemPool (τ : Type) where
  maxsize : Int := 0
  items : List (τ × Transaction) := []

/-- The part of a transaction that nothing on its way changes. -/
def Transaction.body (tx : Transaction) : Json × Json × Json := (tx.sender, tx.to_, tx.data)

namespace SyncMemPool

variable {τ : Type}

def qsize (mp : SyncMemPool τ) : Int := mp.items.length

/-- `qsize() >= maxsize and maxsize > 0`. -/
def isFull (mp : SyncMemPool τ) : Bool := decide (mp.maxsize ≤ mp.qsize) && decide (0 < mp.maxsize)

/-- `mark_tx(key, tx)`. -/
def markTx (key : String) (time : PyFloat) (tx : Transaction) : Except Exn Transaction := do
  let memo ← stampMemo key time tx.memo
  return { tx with memo := memo }

/-- `put_tx(newtx)`, at time `time`. -/
def putTx (time : PyFloat) (tag : τ) (newtx : Transaction) : Comp (SyncMemPool τ) Bool := do
  let mp ← Comp.gets id
  if mp.isFull then return false
  else do
    let newtx ← Comp.lift (markTx "mp_put" time newtx)
    Comp.update (fun mp => { mp with items := mp.items ++ [(tag, { newtx with status := .pending })] })
    return true

/-- `pop_tx()`: the `finally` returns the transaction whether or not the mark
succeeded. -/
def popTx (time : PyFloat) (mp : SyncMemPool τ) : Option (τ × Transaction) × SyncMemPool τ :=
  match mp.items with
  | [] => (none, mp)
  | (tag, tx) :: rest =>
      let tx := match markTx "mp_get" time tx with
        | .ok tx' => tx'
        | .error _ => tx
      (some (tag, tx), { mp with items := rest })

/-! ## Marks. -/

theorem markTx_eq_ok {key : String} {time : PyFloat} {tx tx' : Transaction}
    (h : markTx key time tx = .ok tx') :
    ∃ memo, stampMemo key time tx.memo = .ok memo ∧ tx' = { tx with memo := memo } := by
  obtain ⟨memo, hmemo, h⟩ := except_bind_ok h
  exact ⟨memo, hmemo, (Except.ok.inj h).symm⟩

/-- A mark changes the memo only, and in it the time entry only. -/
theorem markTx_keeps {key : String} {time : PyFloat} {tx tx' : Transaction}
    (h : markTx key time tx = .ok tx') :
    tx'.body = tx.body ∧ tx'.status = tx.status
      ∧ ∀ k, k ≠ "ts" → memoField tx'.memo k = memoField tx.memo k := by
  obtain ⟨memo, hmemo, rfl⟩ := markTx_eq_ok h
  exact ⟨rfl, rfl, fun k hk => memoField_stampMemo hmemo hk⟩

/-! ## What the two operations do. -/

/-- **A submission has three ends**: accepted at the end of the queue, refused, or
raised; only the first changes the pool. -/
theorem putTx_cases (time : PyFloat) (tag : τ) (newtx : Transaction) (mp : SyncMemPool τ) :
    (∃ tx, mp.isFull = false ∧ markTx "mp_put" time newtx = .ok tx
        ∧ putTx time tag newtx mp
            = (.ok true, { mp with items := mp.items ++ [(tag, { tx with status := .pending })] }))
      ∨ (mp.isFull = true ∧ putTx time tag newtx mp = (.ok false, mp))
      ∨ ∃ e, putTx time tag newtx mp = (.error e, mp) := by
  have hrun : putTx time tag newtx mp
      = (if mp.isFull then (pure false : Comp (SyncMemPool τ) Bool)
        else do
          let tx ← Comp.lift (markTx "mp_put" time newtx)
          Comp.update (fun mp => { mp with items := mp.items ++ [(tag, { tx with status := .pending })] })
          return true) mp := rfl
  rw [hrun]
  by_cases hf : mp.isFull = true
  · rw [if_pos hf]
    exact Or.inr (Or.inl ⟨hf, rfl⟩)
  · rw [if_neg hf]
    cases hm : markTx "mp_put" time newtx with
    | error e => exact Or.inr (Or.inr ⟨e, rfl⟩)
    | ok tx => exact Or.inl ⟨tx, by simpa using hf, rfl, rfl⟩

/-- A submission to a pool with room is accepted once its memo is marked. -/
theorem putTx_of_marked {time : PyFloat} {newtx tx : Transaction} {mp : SyncMemPool τ}
    (tag : τ) (hfull : mp.isFull = false) (h : markTx "mp_put" time newtx = .ok tx) :
    putTx time tag newtx mp
      = (.ok true, { mp with items := mp.items ++ [(tag, { tx with status := .pending })] }) := by
  rcases putTx_cases time tag newtx mp with ⟨tx', _, htx, hput⟩ | ⟨hfull', _⟩ | ⟨e, hput⟩
  · rw [h] at htx
    cases htx
    exact hput
  · rw [hfull] at hfull'
    cases hfull'
  · -- with room and a mark nothing is left that could raise
    unfold putTx at hput
    simp only [Comp.gets_bind_run, id, hfull, h] at hput
    cases (Prod.mk.inj hput).1

/-- **Taking never loses a transaction**: the head leaves the queue and is
returned, its body and tag as they were, also when the mark fails. -/
theorem popTx_cons (time : PyFloat) {mp : SyncMemPool τ} {tag : τ} {tx : Transaction}
    {rest : List (τ × Transaction)} (h : mp.items = (tag, tx) :: rest) :
    ∃ tx', popTx time mp = (some (tag, tx'), { mp with items := rest })
      ∧ tx'.body = tx.body
      ∧ ∀ k, k ≠ "ts" → memoField tx'.memo k = memoField tx.memo k := by
  unfold popTx
  rw [h]
  cases hm : markTx "mp_get" time tx with
  | error e => exact ⟨tx, by simp only [hm], rfl, fun _ _ => rfl⟩
  | ok tx' =>
      obtain ⟨hbody, _, hmemo⟩ := markTx_keeps hm
      exact ⟨tx', by simp only [hm], hbody, hmemo⟩

theorem popTx_nil (time : PyFloat) {mp : SyncMemPool τ} (h : mp.items = []) :
    popTx time mp = (none, mp) := by
  unfold popTx
  rw [h]

/-- A positive bound is kept. -/
def Bounded (mp : SyncMemPool τ) : Prop := 0 < mp.maxsize → mp.qsize ≤ mp.maxsize

theorem putTx_bounded (time : PyFloat) (tag : τ) (newtx : Transaction) {mp : SyncMemPool τ}
    (h : mp.Bounded) : (putTx time tag newtx mp).2.Bounded := by
  rcases putTx_cases time tag newtx mp with ⟨tx, hfull, _, hput⟩ | ⟨_, hput⟩ | ⟨e, hput⟩
  · rw [hput]
    intro hpos
    have hlt : ¬ (mp.maxsize ≤ mp.qsize ∧ 0 < mp.maxsize) := by
      intro hboth
      rw [isFull, decide_eq_true hboth.1, decide_eq_true hboth.2] at hfull
      cases hfull
    have hlen : (mp.items ++ [(tag, { tx with status := TxStatus.pending })]).length
        = mp.items.length + 1 := List.length_append
    unfold qsize at hlt ⊢
    simp only at hpos ⊢
    omega
  · rw [hput]
    exact h
  · rw [hput]
    exact h

theorem popTx_bounded (time : PyFloat) {mp : SyncMemPool τ} (h : mp.Bounded) :
    (popTx time mp).2.Bounded := by
  rcases hi : mp.items with _ | ⟨⟨tag, tx⟩, rest⟩
  · rw [popTx_nil time hi]
    exact h
  · obtain ⟨tx', hpop, _⟩ := popTx_cons time hi
    rw [hpop]
    intro hpos
    have hold := h hpos
    unfold qsize at hold ⊢
    rw [hi] at hold
    simp only [List.length_cons] at hold ⊢
    omega

end SyncMemPool

end TorSim
