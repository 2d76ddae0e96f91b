import Mathlib.Logic.Function.Basic

/-!
Runs of guarded machines. A machine is an executable step function: an action
that is not enabled gives none. Runs may be restricted by a condition on each
step, stated on the state before the step and the action, so that "every run
whose steps all meet the condition" is a path of its own. The invariant rules
are proved once here and used by name for every system of the development.
-/
namespace NcsProjects.TransitionRuns

structure Machine (S A : Type*) where
  init : S
  step : S → A → Option S

variable {S A : Type*}

/-- A path whose every step meets the condition `C` in the state it leaves. -/
inductive Path (M : Machine S A) (C : S → A → Prop) : S → S → Prop
  | refl (s : S) : Path M C s s
  | tail {s t u : S} {a : A} : Path M C s t → C t a → M.step t a = some u → Path M C s u

/-- The condition that every step meets. -/
def Anything (_ : S) (_ : A) : Prop := True

def Reachable (M : Machine S A) (s : S) : Prop := Path M Anything M.init s

def ReachableUnder (M : Machine S A) (C : S → A → Prop) (s : S) : Prop := Path M C M.init s

namespace Path

variable {M : Machine S A} {C D : S → A → Prop}

theorem mono (hCD : ∀ s a, C s a → D s a) {s t : S} (h : Path M C s t) : Path M D s t := by
  induction h with
  | refl => exact Path.refl s
  | tail _ hc hstep ih => exact Path.tail ih (hCD _ _ hc) hstep

theorem trans {s t u : S} (h : Path M C s t) (h' : Path M C t u) : Path M C s u := by
  induction h' with
  | refl => exact h
  | tail _ hc hstep ih => exact Path.tail ih hc hstep

theorem single {s t : S} {a : A} (hc : C s a) (hstep : M.step s a = some t) : Path M C s t :=
  Path.tail (Path.refl s) hc hstep

/-- Run rule: what one conditioned step preserves, a conditioned path preserves. -/
theorem preserves {I : S → Prop}
    (hstep : ∀ s a t, I s → C s a → M.step s a = some t → I t)
    {s t : S} (h : Path M C s t) (hs : I s) : I t := by
  induction h with
  | refl => exact hs
  | tail _ hc hst ih => exact hstep _ _ _ ih hc hst

/-- A condition may be exchanged for what it means under an invariant. -/
theorem mono_of_invariant {I : S → Prop}
    (hstep : ∀ s a t, I s → C s a → M.step s a = some t → I t)
    (hCD : ∀ s a, I s → C s a → D s a) {s t : S} (h : Path M C s t) (hs : I s) :
    Path M D s t := by
  induction h with
  | refl => exact Path.refl s
  | tail hpath hc hst ih => exact Path.tail ih (hCD _ _ (preserves hstep hpath hs) hc) hst

/-- Run rule relative to a fact that holds in every reachable state. -/
theorem preserves_of_reachable {I J : S → Prop} (hJ : ∀ s, Reachable M s → J s)
    (hstep : ∀ s a t, J s → I s → C s a → M.step s a = some t → I t)
    {s t : S} (hr : Reachable M s) (h : Path M C s t) (hs : I s) : I t := by
  have both : Reachable M t ∧ I t := by
    induction h with
    | refl => exact ⟨hr, hs⟩
    | tail _ hc hst ih =>
      exact ⟨Path.tail ih.1 trivial hst, hstep _ _ _ (hJ _ ih.1) ih.2 hc hst⟩
  exact both.2

end Path

theorem reachable_init (M : Machine S A) : Reachable M M.init := Path.refl _

theorem Reachable.step {M : Machine S A} {s t : S} {a : A}
    (h : Reachable M s) (hstep : M.step s a = some t) : Reachable M t :=
  Path.tail h trivial hstep

theorem ReachableUnder.reachable {M : Machine S A} {C : S → A → Prop} {s : S}
    (h : ReachableUnder M C s) : Reachable M s := Path.mono (fun _ _ _ => trivial) h

theorem reachable_invariant {M : Machine S A} {I : S → Prop} (hinit : I M.init)
    (hstep : ∀ s a t, I s → M.step s a = some t → I t) {s : S} (h : Reachable M s) : I s :=
  Path.preserves (fun s a t hs _ hst => hstep s a t hs hst) h hinit

theorem reachableUnder_invariant {M : Machine S A} {C : S → A → Prop} {I : S → Prop}
    (hinit : I M.init) (hstep : ∀ s a t, I s → C s a → M.step s a = some t → I t)
    {s : S} (h : ReachableUnder M C s) : I s := Path.preserves hstep h hinit

/-- Replay a list of actions; none when one of them is not enabled. -/
def exec (M : Machine S A) : S → List A → Option S
  | s, [] => some s
  | s, a :: rest => (M.step s a).bind fun t => exec M t rest

/-- The same machine with the steps that miss the condition taken out. -/
def restrict (M : Machine S A) (C : S → A → Prop) [∀ s a, Decidable (C s a)] : Machine S A where
  init := M.init
  step s a := if C s a then M.step s a else none

/-- A successful replay is a path. -/
theorem path_of_exec {M : Machine S A} (actions : List A) {s t : S}
    (h : exec M s actions = some t) : Path M Anything s t := by
  induction actions generalizing s with
  | nil =>
    have hst : s = t := Option.some.inj h
    subst t
    exact Path.refl s
  | cons a rest ih =>
    obtain ⟨u, hstep, hrest⟩ := Option.bind_eq_some_iff.mp h
    exact Path.trans (Path.single trivial hstep) (ih hrest)

theorem Reachable.exec {M : Machine S A} {s t : S} (h : Reachable M s) (actions : List A)
    (hexec : exec M s actions = some t) : Reachable M t :=
  Path.trans h (path_of_exec actions hexec)

theorem step_of_restrict {M : Machine S A} {C : S → A → Prop} [∀ s a, Decidable (C s a)]
    {s t : S} {a : A} (h : (restrict M C).step s a = some t) : C s a ∧ M.step s a = some t := by
  have hc : C s a := by
    by_contra hn
    simp [restrict, hn] at h
  exact ⟨hc, by simpa [restrict, hc] using h⟩

/-- A successful replay of the restricted machine meets the condition throughout. -/
theorem path_of_exec_restrict {M : Machine S A} {C : S → A → Prop} [∀ s a, Decidable (C s a)]
    (actions : List A) {s t : S} (h : exec (restrict M C) s actions = some t) :
    Path M C s t := by
  induction actions generalizing s with
  | nil =>
    have hst : s = t := Option.some.inj h
    subst t
    exact Path.refl s
  | cons a rest ih =>
    obtain ⟨u, hstep, hrest⟩ := Option.bind_eq_some_iff.mp h
    obtain ⟨hc, hu⟩ := step_of_restrict hstep
    exact Path.trans (Path.single hc hu) (ih hrest)

/-- A replay that ends in a state with the property `p` shows one reachable. -/
theorem exists_reachable_of_exec {M : Machine S A} {p : S → Bool} (actions : List A)
    (h : (exec M M.init actions).any p = true) : ∃ s, Reachable M s ∧ p s = true := by
  cases hexec : exec M M.init actions with
  | none => simp [hexec] at h
  | some s =>
    simp only [hexec, Option.any_some] at h
    exact ⟨s, path_of_exec actions hexec, h⟩

theorem exists_path_of_exec {M : Machine S A} {C : S → A → Prop} [∀ s a, Decidable (C s a)]
    {p : S → Bool} (actions : List A) {s : S}
    (h : (exec (restrict M C) s actions).any p = true) : ∃ t, Path M C s t ∧ p t = true := by
  obtain ⟨t, hexec, ht⟩ := (Option.any_eq_true _ _).mp h
  exact ⟨t, path_of_exec_restrict actions hexec, ht⟩

theorem exists_reachableUnder_of_exec {M : Machine S A} {C : S → A → Prop}
    [∀ s a, Decidable (C s a)] {p : S → Bool} (actions : List A)
    (h : (exec (restrict M C) M.init actions).any p = true) :
    ∃ s, ReachableUnder M C s ∧ p s = true := exists_path_of_exec actions h

/-- A replay in two parts, with a condition on each. -/
theorem exists_two_runs {M : Machine S A} {C D : S → A → Prop} [∀ s a, Decidable (C s a)]
    [∀ s a, Decidable (D s a)] {p : S → S → Bool} (before later : List A)
    (h : ((exec (restrict M C) M.init before).any fun s =>
      (exec (restrict M D) s later).any fun t => p s t) = true) :
    ∃ s t, ReachableUnder M C s ∧ Path M D s t ∧ p s t = true := by
  obtain ⟨s, hs, h⟩ := (Option.any_eq_true _ _).mp h
  obtain ⟨t, ht, h⟩ := (Option.any_eq_true _ _).mp h
  exact ⟨s, t, path_of_exec_restrict before hs, path_of_exec_restrict later ht, h⟩

/-- A replay cut at one of its steps, with a condition before it and one behind it. -/
theorem exists_split_run {M : Machine S A} {C D : S → A → Prop} [∀ s a, Decidable (C s a)]
    [∀ s a, Decidable (D s a)] {p : S → S → S → Bool} (before : List A) (a : A) (later : List A)
    (h : ((exec (restrict M C) M.init before).any fun s => (M.step s a).any fun t =>
      (exec (restrict M D) t later).any fun u => p s t u) = true) :
    ∃ s t u, ReachableUnder M C s ∧ M.step s a = some t ∧ Path M D t u ∧ p s t u = true := by
  obtain ⟨s, hs, h⟩ := (Option.any_eq_true _ _).mp h
  obtain ⟨t, ht, h⟩ := (Option.any_eq_true _ _).mp h
  obtain ⟨u, hu, h⟩ := (Option.any_eq_true _ _).mp h
  exact ⟨s, t, u, path_of_exec_restrict before hs, ht, path_of_exec_restrict later hu, h⟩

/-- The property holds in every state that the replay goes through. -/
def Throughout (M : Machine S A) (P : S → Prop) : S → List A → Prop
  | s, [] => P s
  | s, a :: rest => P s ∧ ∀ t, M.step s a = some t → Throughout M P t rest

/-- Every step that the replay takes meets the condition. -/
def EachStep (M : Machine S A) (C : S → A → Prop) : S → List A → Prop
  | _, [] => True
  | s, a :: rest => ∀ t, M.step s a = some t → C s a ∧ EachStep M C t rest

theorem throughout_of_path {M : Machine S A} {P : S → Prop} {s : S}
    (h : ∀ t, Path M Anything s t → P t) (actions : List A) : Throughout M P s actions := by
  induction actions generalizing s with
  | nil => exact h s (Path.refl s)
  | cons a rest ih =>
    refine ⟨h s (Path.refl s), ?_⟩
    intro t ht
    apply ih
    intro u hu
    exact h u (Path.trans (Path.single trivial ht) hu)

/-- When the condition is what keeps the invariant, and missing it breaks the
property in the very next state, the two are equivalent along every run. -/
theorem throughout_iff_eachStep {M : Machine S A} {C : S → A → Prop} {I P : S → Prop}
    (hIP : ∀ s, I s → P s)
    (hstep : ∀ s a t, I s → C s a → M.step s a = some t → I t)
    (hbreak : ∀ s a t, I s → ¬ C s a → M.step s a = some t → ¬ P t)
    (actions : List A) {s : S} (hs : I s) :
    Throughout M P s actions ↔ EachStep M C s actions := by
  induction actions generalizing s with
  | nil => exact ⟨fun _ => trivial, fun _ => hIP s hs⟩
  | cons a rest ih =>
    constructor
    · rintro ⟨_, hrest⟩ t ht
      have hhere : P t := by
        have h := hrest t ht
        cases rest with
        | nil => exact h
        | cons b rest' => exact h.1
      have hc : C s a := by
        by_contra hn
        exact hbreak s a t hs hn ht hhere
      exact ⟨hc, (ih (hstep s a t hs hc ht)).mp (hrest t ht)⟩
    · intro h
      refine ⟨hIP s hs, ?_⟩
      intro t ht
      have hc := (h t ht).1
      exact (ih (hstep s a t hs hc ht)).mpr (h t ht).2

/-- The machine with a history beside its state. The history only looks on: it is
written from the state before the step and the action. -/
def Machine.recorded {H : Type*} (M : Machine S A) (note : S → A → H → H) (start : H) :
    Machine (S × H) A where
  init := (M.init, start)
  step s a := (M.step s.1 a).map fun t => (t, note s.1 a s.2)

theorem Machine.recorded_step {H : Type*} {M : Machine S A} {note : S → A → H → H} {start : H}
    {s t : S × H} {a : A} (h : (M.recorded note start).step s a = some t) :
    M.step s.1 a = some t.1 ∧ t.2 = note s.1 a s.2 := by
  obtain ⟨u, hu, heq⟩ := Option.map_eq_some_iff.mp h
  subst heq
  exact ⟨hu, rfl⟩

/-- Every run has its history. -/
theorem ReachableUnder.recorded {H : Type*} {M : Machine S A} {C : S → A → Prop} {s : S}
    (note : S → A → H → H) (start : H) (h : ReachableUnder M C s) :
    ∃ g, ReachableUnder (M.recorded note start) (fun t a => C t.1 a) (s, g) := by
  induction h with
  | refl => exact ⟨start, Path.refl _⟩
  | @tail t u a _ hc hstep ih =>
    obtain ⟨g, hg⟩ := ih
    refine ⟨note t a g, Path.tail hg hc ?_⟩
    simp [Machine.recorded, hstep]

end NcsProjects.TransitionRuns
