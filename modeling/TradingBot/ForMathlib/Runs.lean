import Mathlib.Data.List.Induction

/-!
# Runs of a labelled transition relation

`Runs step s labels t` says that the labels, taken in order, lead from `s` to `t`.
The relation grows at its end, so that an induction over it reads "after one more
step". The rules below package the two inductions that whole-run properties need:
an invariant of every state, and an invariant that may also look at the labels
taken so far.
-/

variable {σ ι : Type*}

/-- `labels`, taken in order, lead from one state to another. -/
inductive Runs (step : σ → ι → σ → Prop) (s : σ) : List ι → σ → Prop
  | nil : Runs step s [] s
  | snoc {labels : List ι} {t u : σ} {l : ι} :
      Runs step s labels t → step t l u → Runs step s (labels ++ [l]) u

namespace Runs

variable {step : σ → ι → σ → Prop} {s t : σ} {labels : List ι}

/-- What holds at the start and is kept by every step holds after every run. -/
theorem invariant {I : σ → Prop} (hrun : Runs step s labels t) (h0 : I s)
    (hstep : ∀ t l u, l ∈ labels → I t → step t l u → I u) : I t := by
  induction hrun with
  | nil => exact h0
  | snoc _ hlast ih =>
    refine hstep _ _ _ (by simp) (ih fun t l u hl => hstep t l u ?_) hlast
    exact List.mem_append_left _ hl

/-- The invariant rule for runs whose labels are pairwise related, as by a strictly
    increasing clock: the new label is related to every earlier one. -/
theorem invariant_of_pairwise {R : ι → ι → Prop} {P : List ι → σ → Prop}
    (hrun : Runs step s labels t) (hpair : labels.Pairwise R) (h0 : P [] s)
    (hstep : ∀ ls t l u, l ∈ labels → (∀ k ∈ ls, R k l) → P ls t → step t l u →
      P (ls ++ [l]) u) : P labels t := by
  induction hrun with
  | nil => exact h0
  | @snoc ls t u l _ hlast ih =>
    obtain ⟨hls, -, hcross⟩ := List.pairwise_append.mp hpair
    have hbefore : ∀ k ∈ ls, R k l := fun k hk => hcross k hk l (List.mem_singleton_self l)
    refine hstep ls t l u (by simp) hbefore (ih hls fun ks t k u hk => ?_) hlast
    exact hstep ks t k u (List.mem_append_left _ hk)

/-- A property that no step restores once it is broken holds at the end of a run exactly
    when every step of the run meets the condition under which a step keeps it. An
    invariant `I` of all runs may be used for this. -/
theorem keeps_iff {I P : σ → Prop} {Q : σ → ι → σ → Prop} (hrun : Runs step s labels t)
    (hI : I s) (h0 : P s) (hinv : ∀ t l u, l ∈ labels → I t → step t l u → I u)
    (hkeep : ∀ t l u, l ∈ labels → I t → P t → step t l u → (P u ↔ Q t l u))
    (hbroken : ∀ t l u, l ∈ labels → I t → step t l u → P u → P t) :
    P t ↔ Runs (fun t l u => step t l u ∧ Q t l u) s labels t := by
  constructor
  · -- from the end: the property holds before the last step, since it holds after it
    intro hgood
    induction hrun with
    | nil => exact nil
    | @snoc ls t u l hinit hlast ih =>
      have hmem : ∀ k, k ∈ ls → k ∈ ls ++ [l] := fun k hk => List.mem_append_left _ hk
      have hIt : I t := hinit.invariant hI fun t k u hk => hinv t k u (hmem k hk)
      have hbefore := hbroken t l u (by simp) hIt hlast hgood
      exact snoc (ih (fun t k u hk => hinv t k u (hmem k hk))
        (fun t k u hk => hkeep t k u (hmem k hk))
        (fun t k u hk => hbroken t k u (hmem k hk)) hbefore)
        ⟨hlast, (hkeep t l u (by simp) hIt hbefore hlast).mp hgood⟩
  · -- from the start: every step keeps both the invariant and the property
    intro hkept
    have hboth := hkept.invariant (I := fun t => I t ∧ P t) ⟨hI, h0⟩
      fun t l u hl ht hstep => ⟨hinv t l u hl ht.1 hstep.1,
        (hkeep t l u hl ht.1 ht.2 hstep.1).mpr hstep.2⟩
    exact hboth.2

/-- A property holds in every state of a run exactly when every step meets the condition
    under which a step keeps it. -/
theorem always_iff {I P : σ → Prop} {Q : σ → ι → σ → Prop} (hI : I s) (h0 : P s)
    (hinv : ∀ t l u, I t → step t l u → I u)
    (hkeep : ∀ t l u, I t → P t → step t l u → (P u ↔ Q t l u)) :
    Runs (fun t l u => step t l u ∧ P u) s labels t ↔
      Runs (fun t l u => step t l u ∧ Q t l u) s labels t := by
  -- the property holds where the run has come to, and so does the invariant
  have hgood : ∀ {labels t}, Runs (fun t l u => step t l u ∧ P u) s labels t →
      I t ∧ P t := fun hrun => hrun.invariant (I := fun t => I t ∧ P t) ⟨hI, h0⟩
    fun t l u _ ht hstep => ⟨hinv t l u ht.1 hstep.1, hstep.2⟩
  constructor
  · intro hrun
    induction hrun with
    | nil => exact nil
    | snoc hinit hlast ih =>
      obtain ⟨hIt, ht⟩ := hgood hinit
      exact snoc ih ⟨hlast.1, (hkeep _ _ _ hIt ht hlast.1).mp hlast.2⟩
  · intro hrun
    induction hrun with
    | nil => exact nil
    | snoc _ hlast ih =>
      obtain ⟨hIt, ht⟩ := hgood ih
      exact snoc ih ⟨hlast.1, (hkeep _ _ _ hIt ht hlast.1).mpr hlast.2⟩

/-- What holds of every step after what led to it holds of every step. -/
theorem strengthen {Q : σ → ι → σ → Prop} (hrun : Runs step s labels t)
    (h : ∀ ls t l u, ls ++ [l] <+: labels → Runs step s ls t → step t l u → Q t l u) :
    Runs (fun t l u => step t l u ∧ Q t l u) s labels t := by
  induction hrun with
  | nil => exact nil
  | @snoc ls t u l hinit hlast ih =>
    refine snoc (ih fun ks t k u hks => h ks t k u (hks.trans (List.prefix_append _ _)))
      ⟨hlast, h ls t l u List.prefix_rfl hinit hlast⟩

/-- What an invariant lets every step do, every step of a run does. -/
theorem invariant_and {I : σ → Prop} {Q : σ → ι → σ → Prop} (hrun : Runs step s labels t)
    (h0 : I s) (hstep : ∀ t l u, l ∈ labels → I t → step t l u → I u ∧ Q t l u) :
    Runs (fun t l u => step t l u ∧ Q t l u) s labels t ∧ I t := by
  induction hrun with
  | nil => exact ⟨nil, h0⟩
  | snoc _ hlast ih =>
    obtain ⟨hbefore, ht⟩ := ih fun t l u hl => hstep t l u (List.mem_append_left _ hl)
    obtain ⟨hu, hq⟩ := hstep _ _ _ (by simp) ht hlast
    exact ⟨snoc hbefore ⟨hlast, hq⟩, hu⟩

/-- The unwinding rule: where the labels that are left out do not show in a relation and the
    others can be followed through it, a run can be followed without the labels left out. -/
theorem filter {R : σ → σ → Prop} {s' : σ} (keep : ι → Bool) (hrun : Runs step s labels t)
    (h0 : R s s')
    (hkeep : ∀ t l u t', l ∈ labels → keep l = true → R t t' → step t l u →
      ∃ u', step t' l u' ∧ R u u')
    (hskip : ∀ t l u t', l ∈ labels → keep l = false → R t t' → step t l u → R u t') :
    ∃ t', Runs step s' (labels.filter keep) t' ∧ R t t' := by
  induction hrun with
  | nil => exact ⟨s', nil, h0⟩
  | @snoc ls t u l _ hlast ih =>
    -- the hypotheses are about the labels of the run, so of its first part too
    have hmem : ∀ k, k ∈ ls → k ∈ ls ++ [l] := fun k hk => List.mem_append_left _ hk
    obtain ⟨t', hinit, ht⟩ := ih (fun t k u t' hk => hkeep t k u t' (hmem k hk))
      fun t k u t' hk => hskip t k u t' (hmem k hk)
    rw [List.filter_append]
    cases hl : keep l with
    | true =>
      obtain ⟨u', hstep, hu⟩ := hkeep t l u t' (by simp) hl ht hlast
      refine ⟨u', ?_, hu⟩
      rw [List.filter_cons_of_pos hl, List.filter_nil]
      exact snoc hinit hstep
    | false =>
      refine ⟨t', ?_, hskip t l u t' (by simp) hl ht hlast⟩
      rwa [List.filter_cons_of_neg (by simp [hl]), List.filter_nil, List.append_nil]

/-- A run of one relation is a run of every larger one. -/
theorem mono {step' : σ → ι → σ → Prop} (hrun : Runs step s labels t)
    (hle : ∀ s l t, step s l t → step' s l t) : Runs step' s labels t := by
  induction hrun with
  | nil => exact nil
  | snoc _ hlast ih => exact snoc ih (hle _ _ _ hlast)

/-- The last step of a run. -/
theorem snoc_iff {l : ι} {u : σ} :
    Runs step s (labels ++ [l]) u ↔ ∃ t, Runs step s labels t ∧ step t l u := by
  refine ⟨fun hrun => ?_, fun ⟨t, hinit, hlast⟩ => snoc hinit hlast⟩
  generalize hall : labels ++ [l] = all at hrun
  cases hrun with
  | nil => simp at hall
  | snoc hinit hlast =>
    obtain ⟨rfl, hl⟩ := List.append_inj' hall rfl
    cases hl
    exact ⟨_, hinit, hlast⟩

/-- A run without labels stays where it is. -/
theorem nil_iff : Runs step s [] t ↔ t = s := by
  refine ⟨fun hrun => ?_, fun h => h ▸ nil⟩
  generalize hall : ([] : List ι) = all at hrun
  cases hrun with
  | nil => rfl
  | snoc _ _ => simp at hall

/-- The runs of a partial function are what folding it computes. -/
theorem foldlM_eq_some {f : σ → ι → Option σ} :
    labels.foldlM f s = some t ↔ Runs (fun s l t => f s l = some t) s labels t := by
  induction labels using List.reverseRecOn generalizing t with
  | nil => simp [nil_iff, eq_comm]
  | append_singleton labels l ih =>
    rw [snoc_iff, List.foldlM_append]
    simp only [List.foldlM_cons, List.foldlM_nil, bind_pure, ← ih]
    exact Option.bind_eq_some_iff

/-- The runs of a total function are what folding it computes. -/
theorem foldl_eq {f : σ → ι → σ} :
    Runs (fun s l t => t = f s l) s labels t ↔ t = labels.foldl f s := by
  induction labels using List.reverseRecOn generalizing t with
  | nil => exact nil_iff
  | append_singleton labels l ih =>
    rw [snoc_iff, List.foldl_append]
    simp only [ih, exists_eq_left, List.foldl_cons, List.foldl_nil]

end Runs
