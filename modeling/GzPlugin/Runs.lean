import Mathlib.Logic.Basic

/-!
# Runs of a system that takes one operation at a time

`step s o = none` means that the operation `o` cannot take place in `s`.
A run lists the operations together with the states they lead to, so that a
property of all states reached and a condition on all steps taken can be compared.
-/

namespace GzPlugin.Runs

set_option autoImplicit false

universe u v w

variable {σ : Type u} {ο : Type v} {τ : Type w}

/-- A finite run from a state; every entry is an operation and its outcome. -/
inductive Run (step : σ → ο → Option σ) : σ → List (ο × σ) → Prop where
  | nil (s : σ) : Run step s []
  | cons {s t : σ} {o : ο} {l : List (ο × σ)} (h : step s o = some t) (hl : Run step t l) :
      Run step s ((o, t) :: l)

/-- The state a run ends in. -/
def last : σ → List (ο × σ) → σ
  | s, [] => s
  | _, (_, t) :: l => last t l

/-- `P` holds in every state reached, the first one included. -/
def States (P : σ → Prop) : σ → List (ο × σ) → Prop
  | s, [] => P s
  | s, (_, t) :: l => P s ∧ States P t l

/-- Every operation meets `C` in the state it is applied to. -/
def Steps (C : σ → ο → Prop) : σ → List (ο × σ) → Prop
  | _, [] => True
  | s, (o, t) :: l => C s o ∧ Steps C t l

instance Steps.decidable (C : σ → ο → Prop) [∀ s o, Decidable (C s o)] (s : σ)
    (l : List (ο × σ)) : Decidable (Steps C s l) :=
  match l with
  | [] => isTrue trivial
  | (_, t) :: l =>
    have := Steps.decidable C t l
    inferInstanceAs (Decidable (_ ∧ _))

def Reachable (step : σ → ο → Option σ) (init s : σ) : Prop :=
  ∃ l, Run step init l ∧ last init l = s

/-- The run that takes the given operations, up to the first one that cannot take place. -/
def history (step : σ → ο → Option σ) : σ → List ο → List (ο × σ)
  | _, [] => []
  | s, o :: os =>
    match step s o with
    | none => []
    | some t => (o, t) :: history step t os

theorem history_run (step : σ → ο → Option σ) (s : σ) (os : List ο) :
    Run step s (history step s os) := by
  induction os generalizing s with
  | nil => exact .nil s
  | cons o os ih =>
    unfold history
    split
    · exact .nil s
    · rename_i t ht
      exact .cons ht (ih t)

/-- A history that stops at no operation takes all of them. -/
theorem history_map {step : σ → ο → Option σ} (f : ο → τ) {s : σ} {os : List ο}
    (h : (history step s os).length = os.length) :
    (history step s os).map (fun e => f e.1) = os.map f := by
  induction os generalizing s with
  | nil => rfl
  | cons o os ih =>
    unfold history at h ⊢
    split at h
    · cases h
    · rename_i t ht
      rw [List.map_cons, List.map_cons, ih (Nat.succ.inj h)]

theorem States.head {P : σ → Prop} {s : σ} {l : List (ο × σ)} (h : States P s l) : P s := by
  cases l with
  | nil => exact h
  | cons e l => exact h.1

theorem States.last {P : σ → Prop} {s : σ} {l : List (ο × σ)} (h : States P s l) :
    P (last s l) := by
  induction l generalizing s with
  | nil => exact h
  | cons e l ih => exact ih h.2

theorem States.imp {P Q : σ → Prop} (hPQ : ∀ s, P s → Q s) {s : σ} {l : List (ο × σ)}
    (h : States P s l) : States Q s l := by
  induction l generalizing s with
  | nil => exact hPQ s h
  | cons e l ih => exact ⟨hPQ s h.1, ih h.2⟩

theorem States.and {P Q : σ → Prop} {s : σ} {l : List (ο × σ)} (hP : States P s l)
    (hQ : States Q s l) : States (fun s => P s ∧ Q s) s l := by
  induction l generalizing s with
  | nil => exact ⟨hP, hQ⟩
  | cons e l ih => exact ⟨⟨hP.1, hQ.1⟩, ih hP.2 hQ.2⟩

theorem States.steps {P : σ → Prop} {C : σ → ο → Prop} (hPC : ∀ s o, P s → C s o) {s : σ}
    {l : List (ο × σ)} (h : States P s l) : Steps C s l := by
  induction l generalizing s with
  | nil => trivial
  | cons e l ih => exact ⟨hPC s e.1 h.1, ih h.2⟩

theorem Steps.intro {C : σ → ο → Prop} (hC : ∀ s o, C s o) {s : σ} {l : List (ο × σ)} :
    Steps C s l := by
  induction l generalizing s with
  | nil => trivial
  | cons e l ih => exact ⟨hC s e.1, ih⟩

section Guarded

variable {step : σ → ο → Option σ} {A C : σ → ο → Prop} {I P : σ → Prop}

/-- The guarded invariant rule: what every allowed step keeps holds in all states reached. -/
theorem Run.states {s : σ} {l : List (ο × σ)} (hrun : Run step s l) (hA : Steps A s l)
    (h0 : P s) (hstep : ∀ {s o t}, A s o → P s → step s o = some t → P t) : States P s l := by
  induction hrun with
  | nil s => exact h0
  | cons h hl ih => exact ⟨h0, ih hA.2 (hstep hA.1 h0 h)⟩

theorem Run.states_of_step {s : σ} {l : List (ο × σ)} (hrun : Run step s l) (h0 : P s)
    (hstep : ∀ {s o t}, P s → step s o = some t → P t) : States P s l := by
  induction hrun with
  | nil s => exact h0
  | cons h hl ih => exact ⟨h0, ih (hstep h0 h)⟩

/-- When, under the guard `A` and the invariant `I`, a step keeps `P` exactly if it meets
`C`, a run stays in `P` exactly if all its steps meet `C`. The invariant may rest on `P`. -/
theorem Run.states_iff_of_guard {s : σ} {l : List (ο × σ)} (hrun : Run step s l)
    (hA : Steps A s l) (hI0 : I s) (hP0 : P s)
    (hI : ∀ {s o t}, A s o → I s → P s → step s o = some t → I t)
    (hP : ∀ {s o t}, A s o → I s → P s → step s o = some t → (P t ↔ C s o)) :
    States P s l ↔ Steps C s l := by
  induction hrun with
  | nil s => exact ⟨fun _ => trivial, fun _ => hP0⟩
  | @cons s t o l h hl ih =>
    have hiff := hP hA.1 hI0 hP0 h
    have hIt := hI hA.1 hI0 hP0 h
    constructor
    · rintro ⟨_, hrest⟩
      have hPt := hrest.head
      exact ⟨hiff.mp hPt, (ih hA.2 hIt hPt).mp hrest⟩
    · rintro ⟨hC, hrest⟩
      have hPt := hiff.mpr hC
      exact ⟨hP0, (ih hA.2 hIt hPt).mpr hrest⟩

/-- The same without a guard, for an invariant of its own. -/
theorem Run.states_iff {s : σ} {l : List (ο × σ)} (hrun : Run step s l) (hI0 : I s) (hP0 : P s)
    (hI : ∀ {s o t}, I s → step s o = some t → I t)
    (hP : ∀ {s o t}, I s → P s → step s o = some t → (P t ↔ C s o)) :
    States P s l ↔ Steps C s l :=
  hrun.states_iff_of_guard (A := fun _ _ => True) (.intro fun _ _ => trivial) hI0 hP0
    (fun _ h _ hs => hI h hs) (fun _ h h' hs => hP h h' hs)

/-- Two conditions that agree on every step, under an invariant that the second one keeps. -/
theorem Run.steps_iff {D : σ → ο → Prop} {s : σ} {l : List (ο × σ)} (hrun : Run step s l)
    (hI0 : I s) (hI : ∀ {s o t}, I s → D s o → step s o = some t → I t)
    (hCD : ∀ {s o t}, I s → step s o = some t → (C s o ↔ D s o)) :
    Steps C s l ↔ Steps D s l := by
  induction hrun with
  | nil s => exact Iff.rfl
  | @cons s t o l h hl ih =>
    have hiff := hCD hI0 h
    constructor
    · rintro ⟨hC, hrest⟩
      exact ⟨hiff.mp hC, (ih (hI hI0 (hiff.mp hC) h)).mp hrest⟩
    · rintro ⟨hD, hrest⟩
      exact ⟨hiff.mpr hD, (ih (hI hI0 hD h)).mpr hrest⟩

end Guarded

section Reachability

variable {step : σ → ο → Option σ} {init s t : σ} {P : σ → Prop}

theorem Reachable.refl (step : σ → ο → Option σ) (s : σ) : Reachable step s s :=
  ⟨[], .nil s, rfl⟩

theorem Run.append {l l' : List (ο × σ)} (h : Run step s l) (h' : Run step (last s l) l') :
    Run step s (l ++ l') := by
  induction h with
  | nil s => exact h'
  | cons ht _ ih => exact .cons ht (ih h')

theorem last_append (s : σ) (l l' : List (ο × σ)) : last s (l ++ l') = last (last s l) l' := by
  induction l generalizing s with
  | nil => rfl
  | cons e l ih => exact ih e.2

theorem Reachable.trans (h : Reachable step init s) (h' : Reachable step s t) :
    Reachable step init t := by
  obtain ⟨l, hl, rfl⟩ := h
  obtain ⟨l', hl', rfl⟩ := h'
  exact ⟨l ++ l', hl.append hl', last_append init l l'⟩

theorem Reachable.invariant (h : Reachable step init s) (h0 : P init)
    (hstep : ∀ {s o t}, P s → step s o = some t → P t) : P s := by
  obtain ⟨l, hl, rfl⟩ := h
  exact (hl.states_of_step h0 hstep).last

end Reachability

/-- Two runs side by side, whose operations have the same images under `f` and `f'`: what
every pair of such steps keeps holds where the runs end. -/
theorem Run.pair {υ : Type u} {ο' : Type v} {step : σ → ο → Option σ} {step' : υ → ο' → Option υ}
    {f : ο → τ} {f' : ο' → τ} {R : σ → υ → Prop} {s : σ} {l : List (ο × σ)} (hrun : Run step s l)
    {s' : υ} {l' : List (ο' × υ)} (hrun' : Run step' s' l')
    (hops : l.map (fun e => f e.1) = l'.map fun e => f' e.1) (h0 : R s s')
    (hstep : ∀ {s s' o o' t t'}, R s s' → f o = f' o' → step s o = some t →
      step' s' o' = some t' → R t t') : R (last s l) (last s' l') := by
  induction hrun generalizing s' l' with
  | nil s =>
    cases hrun' with
    | nil => exact h0
    | cons h hl => cases hops
  | cons h hl ih =>
    cases hrun' with
    | nil => cases hops
    | cons h' hl' =>
      obtain ⟨hop, hrest⟩ := List.cons.inj hops
      have hend := ih hl' hrest (hstep h0 hop h h')
      exact hend

/-- Two systems fed with the same operations; the second one also sees the state of the
first, from which it may read the outcome of the operation. -/
def lockstep (step : σ → ο → Option σ) (spec : σ → τ → ο → τ) (st : σ × τ) (o : ο) :
    Option (σ × τ) :=
  (step st.1 o).map fun t => (t, spec st.1 st.2 o)

theorem lockstep_eq_some {step : σ → ο → Option σ} {spec : σ → τ → ο → τ} {st st' : σ × τ}
    {o : ο} : lockstep step spec st o = some st' ↔
      step st.1 o = some st'.1 ∧ st'.2 = spec st.1 st.2 o := by
  constructor
  · intro h
    obtain ⟨t, ht, rfl⟩ := Option.map_eq_some_iff.mp h
    exact ⟨ht, rfl⟩
  · rintro ⟨h, h'⟩
    exact Option.map_eq_some_iff.mpr ⟨st'.1, h, by rw [← h']⟩

end GzPlugin.Runs
