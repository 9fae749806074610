/-
  TorSim.Lib.System — transition systems with a guarded executable step.

  `step s a` is `some s'` when action `a` is enabled in `s`.  Nondeterminism
  (scheduling, clocks, the environment) is in the choice of actions, so a
  concrete run is a list of actions that can be computed, and a statement about
  every run is a statement about every list.

  Main results:
    * `run_invariant` — what every step keeps, every run keeps.
    * `run_invariant_along` — the same for runs whose steps meet a condition.
    * `run_exact_under` — a property that a step keeps exactly when the step meets a
      condition holds at the end of a run exactly when every step met it.
    * `run_counts` — a number that some steps raise by one counts these steps.
    * `run_of_quick` — a step that agrees where it is defined has the same runs.
    * `along_of_invariant` — a condition that an invariant implies holds along a run.
    * `run_simulates` — steps answered by runs make runs answered by runs.
-/
import Mathlib.Tactic.Common

namespace TorSim.Lib

section System

variable {σ ι : Type}

/-- Run the actions in order; `none` if one of them is not enabled. -/
def runFrom (step : σ → ι → Option σ) : σ → List ι → Option σ
  | s, [] => some s
  | s, a :: acts =>
      match step s a with
      | some s' => runFrom step s' acts
      | none => none

/-- Every step of the run meets the condition. -/
def Along (step : σ → ι → Option σ) (ok : σ → ι → Prop) : σ → List ι → Prop
  | _, [] => True
  | s, a :: acts => ok s a ∧ ∀ s', step s a = some s' → Along step ok s' acts

variable {step : σ → ι → Option σ} {ok : σ → ι → Prop}

instance decidableAlong [∀ s a, Decidable (ok s a)] :
    ∀ (s : σ) (acts : List ι), Decidable (Along step ok s acts)
  | _, [] => .isTrue trivial
  | s, a :: acts =>
      match h : step s a with
      | none => decidable_of_iff (ok s a)
          ⟨fun ha => ⟨ha, fun _ hs' => absurd (h.symm.trans hs') (fun hn => nomatch hn)⟩,
            fun ha => ha.1⟩
      | some s' =>
          have := decidableAlong s' acts
          decidable_of_iff (ok s a ∧ Along step ok s' acts)
            ⟨fun ha => ⟨ha.1, fun _ ht => Option.some.inj (h.symm.trans ht) ▸ ha.2⟩,
              fun ha => ⟨ha.1, ha.2 s' h⟩⟩

/-- A run that takes a first step. -/
theorem runFrom_cons {s t : σ} {a : ι} {acts : List ι} (h : runFrom step s (a :: acts) = some t) :
    ∃ s', step s a = some s' ∧ runFrom step s' acts = some t := by
  rw [runFrom] at h
  cases hs : step s a with
  | none =>
      rw [hs] at h
      cases h
  | some s' =>
      rw [hs] at h
      exact ⟨s', rfl, h⟩

/-- **What every step that meets the condition keeps, such a run keeps.** -/
theorem run_invariant_along {P : σ → Prop}
    (hstep : ∀ s a s', P s → ok s a → step s a = some s' → P s') (acts : List ι) :
    ∀ {s t : σ}, Along step ok s acts → runFrom step s acts = some t → P s → P t := by
  induction acts with
  | nil =>
      intro s t _ h hs
      cases h
      exact hs
  | cons a acts ih =>
      intro s t halong h hs
      obtain ⟨s', ha, h⟩ := runFrom_cons h
      exact ih (halong.2 s' ha) h (hstep s a s' hs halong.1 ha)

/-- A condition that every action of a run meets in every state. -/
theorem along_of_forall {acts : List ι} (h : ∀ a ∈ acts, ∀ s, ok s a) (s : σ) :
    Along step ok s acts := by
  induction acts generalizing s with
  | nil => trivial
  | cons a acts ih =>
      exact ⟨h a List.mem_cons_self s, fun s' _ => ih (fun b hb => h b (List.mem_cons_of_mem _ hb)) s'⟩

/-- **What every step keeps, every run keeps.** -/
theorem run_invariant {P : σ → Prop} (hstep : ∀ s a s', P s → step s a = some s' → P s')
    (acts : List ι) {s t : σ} (h : runFrom step s acts = some t) (hs : P s) : P t :=
  run_invariant_along (fun s a s' hs _ h => hstep s a s' hs h) acts
    (along_of_forall (fun _ _ _ => trivial) s) h hs

/-- **A property that one step keeps exactly when the step meets a condition**
holds at the end of a run exactly when it held at the start and every step met
the condition; an invariant may help on the way. -/
theorem run_exact_under {J P : σ → Prop} (hinv : ∀ s a s', J s → step s a = some s' → J s')
    (hstep : ∀ s a s', J s → step s a = some s' → (P s' ↔ P s ∧ ok s a)) (acts : List ι) :
    ∀ {s t : σ}, J s → runFrom step s acts = some t → (P t ↔ P s ∧ Along step ok s acts) := by
  induction acts with
  | nil =>
      intro s t _ h
      cases h
      exact (and_iff_left trivial).symm
  | cons a acts ih =>
      intro s t hj h
      obtain ⟨s', ha, h⟩ := runFrom_cons h
      rw [ih (hinv s a s' hj ha) h, hstep s a s' hj ha, and_assoc]
      refine and_congr_right fun _ => and_congr_right fun _ => ?_
      constructor
      · intro hal s'' hs''
        cases ha.symm.trans hs''
        exact hal
      · exact fun hal => hal s' ha

/-- How many steps of the run meet `q`. -/
def countAlong (step : σ → ι → Option σ) (q : σ → ι → Bool) : σ → List ι → Nat
  | _, [] => 0
  | s, a :: acts =>
      (if q s a then 1 else 0)
        + match step s a with
          | some s' => countAlong step q s' acts
          | none => 0

/-- **A number that the steps meeting `q` raise by one** counts these steps. -/
theorem run_counts {q : σ → ι → Bool} {m : σ → Nat}
    (hstep : ∀ s a s', step s a = some s' → m s' = m s + if q s a then 1 else 0)
    (acts : List ι) :
    ∀ {s t : σ}, runFrom step s acts = some t → m t = m s + countAlong step q s acts := by
  induction acts with
  | nil =>
      intro s t h
      cases h
      rfl
  | cons a acts ih =>
      intro s t h
      obtain ⟨s', ha, h⟩ := runFrom_cons h
      have hrest := ih h
      have hfirst := hstep s a s' ha
      unfold countAlong
      rw [ha]
      show m t = m s + ((if q s a then 1 else 0) + countAlong step q s' acts)
      omega

/-- A step is a run. -/
theorem runFrom_one {s s' : σ} {a : ι} (h : step s a = some s') :
    runFrom step s [a] = some s' := by
  simp only [runFrom, h]

/-- A run followed by a run is a run. -/
theorem runFrom_append (acts acts' : List ι) :
    ∀ {s t u : σ}, runFrom step s acts = some t → runFrom step t acts' = some u →
      runFrom step s (acts ++ acts') = some u := by
  induction acts with
  | nil =>
      intro s t u h h'
      cases h
      exact h'
  | cons a acts ih =>
      intro s t u h h'
      obtain ⟨s', ha, h⟩ := runFrom_cons h
      rw [List.cons_append, runFrom, ha]
      exact ih h h'

/-- **Conditions that say the same where an invariant holds** hold along the same
runs. -/
theorem along_congr {P : σ → Prop} {ok' : σ → ι → Prop}
    (hstep : ∀ s a s', P s → step s a = some s' → P s')
    (heq : ∀ s a, P s → (ok s a ↔ ok' s a)) (acts : List ι) :
    ∀ {s : σ}, P s → (Along step ok s acts ↔ Along step ok' s acts) := by
  induction acts with
  | nil => exact fun _ => Iff.rfl
  | cons a acts ih =>
      intro s hs
      refine and_congr (heq s a hs) (forall_congr' fun s' => forall_congr' fun h => ?_)
      exact ih (hstep s a s' hs h)

/-- A weaker condition holds along the same run. -/
theorem along_mono {ok' : σ → ι → Prop} (himp : ∀ s a, ok' s a → ok s a) (acts : List ι) :
    ∀ {s : σ}, Along step ok' s acts → Along step ok s acts := by
  induction acts with
  | nil => exact fun _ => trivial
  | cons a acts ih =>
      intro s h
      exact ⟨himp s a h.1, fun s' hs' => ih (h.2 s' hs')⟩

/-- **A quicker step that agrees with the step wherever it is defined** has the same
runs, where an invariant may help to see that it agrees. -/
theorem run_of_quick {J : σ → Prop} {quick : σ → ι → Option σ}
    (hquick : ∀ s a s', J s → quick s a = some s' → step s a = some s')
    (hinv : ∀ s a s', J s → step s a = some s' → J s') (acts : List ι) :
    ∀ {s t : σ}, J s → runFrom quick s acts = some t → runFrom step s acts = some t := by
  induction acts with
  | nil => exact fun _ h => h
  | cons a acts ih =>
      intro s t hs h
      obtain ⟨s', ha, h⟩ := runFrom_cons h
      have hstep := hquick s a s' hs ha
      rw [runFrom, hstep]
      exact ih (hinv s a s' hs hstep) h

/-- **A condition that an invariant implies** holds along the runs whose actions keep the
invariant. -/
theorem along_of_invariant {P : σ → Prop} (hok : ∀ s a, P s → ok s a) {acts : List ι}
    (hstep : ∀ a ∈ acts, ∀ s s', P s → step s a = some s' → P s') :
    ∀ {s : σ}, P s → Along step ok s acts := by
  induction acts with
  | nil => exact fun _ => trivial
  | cons a acts ih =>
      intro s hs
      refine ⟨hok s a hs, fun s' h => ?_⟩
      apply ih (fun b hb => hstep b (List.mem_cons_of_mem _ hb))
      exact hstep a List.mem_cons_self s s' hs h

/-- Two conditions along the same run. -/
theorem along_and {ok' : σ → ι → Prop} (acts : List ι) :
    ∀ {s : σ}, Along step ok s acts → Along step ok' s acts →
      Along step (fun s a => ok s a ∧ ok' s a) s acts := by
  induction acts with
  | nil => exact fun _ _ => trivial
  | cons a acts ih =>
      intro s h h'
      exact ⟨⟨h.1, h'.1⟩, fun s' hs' => ih (h.2 s' hs') (h'.2 s' hs')⟩

/-- A condition along a run and what follows it. -/
theorem along_append (acts acts' : List ι) :
    ∀ {s : σ}, Along step ok s (acts ++ acts')
      ↔ Along step ok s acts ∧ ∀ t, runFrom step s acts = some t → Along step ok t acts' := by
  induction acts with
  | nil =>
      intro s
      constructor
      · intro h
        refine ⟨trivial, fun t ht => ?_⟩
        cases ht
        exact h
      · exact fun h => h.2 s rfl
  | cons b acts ih =>
      intro s
      constructor
      · intro h
        refine ⟨⟨h.1, fun s' hs' => (ih.mp (h.2 s' hs')).1⟩, fun t ht => ?_⟩
        obtain ⟨s', hs', ht⟩ := runFrom_cons ht
        exact (ih.mp (h.2 s' hs')).2 t ht
      · intro h
        refine ⟨h.1.1, fun s' hs' => ih.mpr ⟨h.1.2 s' hs', fun t ht => h.2 t ?_⟩⟩
        rw [runFrom, hs']
        exact ht

/-- A condition along a run and one more action. -/
theorem along_concat (acts : List ι) (a : ι) {s : σ} :
    Along step ok s (acts ++ [a])
      ↔ Along step ok s acts ∧ ∀ t, runFrom step s acts = some t → ok t a :=
  (along_append acts [a]).trans (and_congr_right fun _ => forall_congr' fun _ =>
    imp_congr_right fun _ => and_iff_left fun _ _ => trivial)

section Simulation

variable {ρ κ ω : Type} {step' : ρ → κ → Option ρ} {R : σ → ρ → Prop} {admissible : κ → Prop}
  {shows' : κ → List ω}

/-- A run of admissible steps of the other system that shows `ws` and ends beside `s`. -/
def Answers (step' : ρ → κ → Option ρ) (R : σ → ρ → Prop) (admissible : κ → Prop)
    (shows' : κ → List ω) (s : σ) (t : ρ) (ws : List ω) : Prop :=
  ∃ bs t', runFrom step' t bs = some t' ∧ R s t' ∧ (∀ b ∈ bs, admissible b)
    ∧ bs.flatMap shows' = ws

/-- No step at all. -/
theorem Answers.nil {s : σ} {t : ρ} (h : R s t) : Answers step' R admissible shows' s t [] :=
  ⟨[], t, rfl, h, fun _ hb => absurd hb List.not_mem_nil, rfl⟩

/-- A step that shows nothing, then an answer from there. -/
theorem Answers.cons {s : σ} {t t1 : ρ} {ws : List ω} (b : κ) (hb : step' t b = some t1)
    (hadm : admissible b) (hshow : shows' b = [])
    (h : Answers step' R admissible shows' s t1 ws) : Answers step' R admissible shows' s t ws := by
  obtain ⟨bs, t', hbs, hr, hall, hws⟩ := h
  refine ⟨b :: bs, t', ?_, hr, List.forall_mem_cons.mpr ⟨hadm, hall⟩, ?_⟩
  · rw [runFrom, hb]
    exact hbs
  · rw [List.flatMap_cons, hshow, hws]
    rfl

theorem Answers.one {s : σ} {t t' : ρ} {ws : List ω} (b : κ) (hb : step' t b = some t')
    (hr : R s t') (hadm : admissible b) (hshow : shows' b = ws) :
    Answers step' R admissible shows' s t ws := by
  refine ⟨[b], t', runFrom_one hb, hr, ?_, ?_⟩
  · exact List.forall_mem_singleton.mpr hadm
  · rw [List.flatMap_singleton, hshow]

end Simulation

/-- **Two folds over the same inputs stay related** as long as one input keeps
them related. -/
theorem foldl_simulates {ρ : Type} {R : σ → ρ → Prop} {f : σ → ι → σ} {g : ρ → ι → ρ}
    {good : ι → Prop} (hstep : ∀ s t a, good a → R s t → R (f s a) (g t a)) (as : List ι) :
    ∀ {s : σ} {t : ρ}, (∀ a ∈ as, good a) → R s t → R (as.foldl f s) (as.foldl g t) := by
  induction as with
  | nil => exact fun _ h => h
  | cons a as ih =>
      intro s t hgood h
      exact ih (fun b hb => hgood b (List.mem_cons_of_mem _ hb))
        (hstep s t a (hgood a List.mem_cons_self) h)

end System

end TorSim.Lib
