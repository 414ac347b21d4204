import SnekCpp.Lib.Transition

/-!
# Independent processes

Every event belongs to a process.  Two events are independent if, whenever both
can happen, neither disables the other and their order makes no difference.
Where events of different processes are independent, a run is determined by
what each process does in it, and what every process can do alone can be done
in any interleaving.
-/

namespace SnekCpp.Lib

variable {σ ε π : Type*} {step : σ → ε → Option σ}

variable (step) in
/-- When both can happen, each can follow the other, and the end is the same. -/
def Independent (e f : ε) : Prop :=
  ∀ s t u, step s e = some t → step s f = some u → ∃ v, step t f = some v ∧ step u e = some v

theorem Independent.symm {e f : ε} (h : Independent step e f) : Independent step f e := by
  intro s t u ht hu
  obtain ⟨v, hv, hv'⟩ := h s u t hu ht
  exact ⟨v, hv', hv⟩

theorem run_append (s : σ) (xs ys : List ε) :
    run step s (xs ++ ys) = (run step s xs).bind (run step · ys) :=
  List.foldlM_append

theorem run_cons_eq_some {s t : σ} {e : ε} {events : List ε} :
    run step s (e :: events) = some t ↔ ∃ u, step s e = some u ∧ run step u events = some t :=
  Option.bind_eq_some_iff

theorem run_append_eq_some {s t : σ} {xs ys : List ε} :
    run step s (xs ++ ys) = some t ↔ ∃ u, run step s xs = some u ∧ run step u ys = some t := by
  rw [run_append, Option.bind_eq_some_iff]

/-- An event can wait until events that are independent of it have happened. -/
theorem run_independent {s t u : σ} {e : ε} {events : List ε}
    (h : ∀ f ∈ events, Independent step e f) (he : step s e = some t)
    (hevents : run step s events = some u) :
    ∃ v, run step t events = some v ∧ step u e = some v := by
  induction events generalizing s t with
  | nil =>
      have hsu : s = u := by simpa [run] using hevents
      exact ⟨t, rfl, hsu ▸ he⟩
  | cons f events ih =>
      obtain ⟨s', hf, hrest⟩ := run_cons_eq_some.mp hevents
      obtain ⟨t', ht', he'⟩ := h f (List.mem_cons_self ..) s t s' he hf
      obtain ⟨v, hv, hv'⟩ := ih (fun g hg ↦ h g (List.mem_cons_of_mem _ hg)) he' hrest
      exact ⟨v, run_cons_eq_some.mpr ⟨t', ht', hv⟩, hv'⟩

section Processes

variable [DecidableEq π] (process : ε → π)

/-- What one process does in a run. -/
def ofProcess (p : π) (events : List ε) : List ε := events.filter (process · = p)

variable {process}

theorem ofProcess_cons_self (e : ε) (events : List ε) :
    ofProcess process (process e) (e :: events) = e :: ofProcess process (process e) events := by
  simp [ofProcess]

theorem ofProcess_cons_ne {p : π} {e : ε} (h : process e ≠ p) (events : List ε) :
    ofProcess process p (e :: events) = ofProcess process p events := by
  simp [ofProcess, h]

theorem ofProcess_append (p : π) (xs ys : List ε) :
    ofProcess process p (xs ++ ys) = ofProcess process p xs ++ ofProcess process p ys :=
  List.filter_append ..

theorem process_of_mem_ofProcess {p : π} {e : ε} {events : List ε}
    (h : e ∈ ofProcess process p events) : process e = p := by
  simpa [ofProcess] using (List.mem_filter.mp h).2

/-- The first event of a process, and the events of the others in front of it. -/
theorem exists_of_ofProcess_eq_cons {p : π} {e : ε} {events rest : List ε}
    (h : ofProcess process p events = e :: rest) :
    ∃ before after, events = before ++ e :: after ∧ (∀ f ∈ before, process f ≠ p) ∧
      process e = p := by
  obtain ⟨before, after, hevents, hbefore, he, -⟩ := List.filter_eq_cons_iff.mp h
  exact ⟨before, after, hevents, by simpa using hbefore, by simpa using he⟩

theorem eq_nil_of_ofProcess {events : List ε} (h : ∀ p, ofProcess process p events = []) :
    events = [] := by
  cases events with
  | nil => rfl
  | cons e events =>
      have hself := h (process e)
      rw [ofProcess_cons_self] at hself
      cases hself

/-- Two runs in which every process does the same end in the same state, however
the processes are interleaved. -/
theorem run_eq_of_ofProcess
    (h : ∀ e f, process e ≠ process f → Independent step e f) {s t u : σ} {xs ys : List ε}
    (hxs : run step s xs = some t) (hys : run step s ys = some u)
    (hsame : ∀ p, ofProcess process p xs = ofProcess process p ys) : t = u := by
  induction xs generalizing s ys with
  | nil =>
      have hnil : ys = [] := eq_nil_of_ofProcess fun p ↦ (hsame p).symm
      subst hnil
      exact Option.some.inj (hxs.symm.trans hys)
  | cons e xs ih =>
      obtain ⟨s', he, hrest⟩ := run_cons_eq_some.mp hxs
      have hown := hsame (process e)
      rw [ofProcess_cons_self] at hown
      obtain ⟨before, after, rfl, hbefore, -⟩ := exists_of_ofProcess_eq_cons hown.symm
      obtain ⟨w, hw, hafter⟩ := run_append_eq_some.mp hys
      obtain ⟨w', he', hafter'⟩ := run_cons_eq_some.mp hafter
      -- The event can be moved to the front of the second run.
      obtain ⟨v, hv, hv'⟩ := run_independent
        (fun f hf ↦ h e f fun heq ↦ hbefore f hf heq.symm) he hw
      have heq : v = w' := Option.some.inj (hv'.symm.trans he')
      subst heq
      refine ih hrest (run_append_eq_some.mpr ⟨v, hv, hafter'⟩) fun p ↦ ?_
      have hp := hsame p
      rw [ofProcess_append] at hp ⊢
      by_cases hep : process e = p
      · subst hep
        have hnone : ofProcess process (process e) before = [] :=
          List.filter_eq_nil_iff.mpr fun f hf ↦ by simpa using hbefore f hf
        rw [ofProcess_cons_self, hnone, ofProcess_cons_self] at hp
        rw [hnone]
        exact List.cons.inj hp |>.2
      · rwa [ofProcess_cons_ne hep, ofProcess_cons_ne hep] at hp

/-- What every process can do alone, all of them can do in any interleaving. -/
theorem exists_run_of_ofProcess
    (h : ∀ e f, process e ≠ process f → Independent step e f) {s : σ} {events : List ε}
    (hruns : ∀ p, ∃ t, run step s (ofProcess process p events) = some t) :
    ∃ t, run step s events = some t := by
  induction events generalizing s with
  | nil => exact ⟨s, rfl⟩
  | cons e events ih =>
      obtain ⟨t, ht⟩ := hruns (process e)
      rw [ofProcess_cons_self] at ht
      obtain ⟨s', he, hown⟩ := run_cons_eq_some.mp ht
      have hrest : ∃ t, run step s' events = some t := by
        apply ih
        intro p
        by_cases hp : process e = p
        · exact ⟨t, hp ▸ hown⟩
        · obtain ⟨u, hu⟩ := hruns p
          rw [ofProcess_cons_ne hp] at hu
          obtain ⟨v, hv, -⟩ := run_independent (fun f hf ↦ h e f fun heq ↦
            hp (heq.trans (process_of_mem_ofProcess hf))) he hu
          exact ⟨v, hv⟩
      obtain ⟨u, hu⟩ := hrest
      exact ⟨u, run_cons_eq_some.mpr ⟨s', he, hu⟩⟩

end Processes

end SnekCpp.Lib
