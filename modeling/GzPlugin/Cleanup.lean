import Mathlib.Algebra.BigOperators.Group.Finset.Basic
import GzPlugin.FiniteMaps
import GzPlugin.Ownership

/-!
# What CleanupLostProducts sets off

Clearing the list of lost products destroys factories, and their destructors may destroy other
objects, among them products of other factories. The thread runs the destructors one by one
from a stack; the mutex of the `LostProductManager` is not recursive.
-/

namespace GzPlugin

open FiniteMaps Ownership

set_option autoImplicit false

/-- An object that the last owner destroys: a plugin instance, a product, a handle with the
static objects of its library. -/
structure Object where
  /-- What it owns, in the order of destruction. -/
  members : List Nat
  /-- The reference of a product to its factory. -/
  factoryPluginInstancePtr : Option Nat
  /-- The owners delete it with a `ProductDeleter`. -/
  byDeleter : Bool
  deriving DecidableEq

/-- What the thread still has to do. -/
inductive Task where
  | release (x : Nat)
  /-- The body of `~FactoryCounter`, with this reference. -/
  | counter (factory : Nat)
  | cleanupLostProducts
  /-- The `unique_lock` of `CleanupLostProducts` goes away. -/
  | unlock
  deriving DecidableEq

/-- A program with one thread. -/
structure Thread where
  objects : Finmap fun _ : Nat => Object
  /-- What the rest of the program owns, destructors that called in included. -/
  outside : List Nat
  lostProducts : List Nat
  locked : Bool
  stack : List Task

namespace Object

def owned (o : Object) : List Nat := o.members ++ o.factoryPluginInstancePtr.toList

/-- The reference that `~FactoryCounter` finds. A `ProductDeleter` has taken it before. -/
def counted (o : Object) : Option Nat :=
  if o.byDeleter then none else o.factoryPluginInstancePtr

/-- The base class `FactoryCounter` comes last; the reference itself goes at its end, or at the
end of the `ProductDeleter`. -/
def destructor (o : Object) : List Task :=
  o.members.map .release ++ o.counted.toList.map .counter ++
    o.factoryPluginInstancePtr.toList.map .release

end Object

namespace Thread

def Held (s : Thread) (x : Nat) : Prop :=
  x ∈ s.outside ∨ x ∈ s.lostProducts ∨ Has (fun _ o => x ∈ o.owned) s.objects ∨
    .release x ∈ s.stack

instance (s : Thread) (x : Nat) : Decidable (s.Held x) := by
  unfold Held; infer_instance

/-- An owner of the object has gone away, and it was the last one. -/
def destroy (s : Thread) (x : Nat) : Thread :=
  match s.objects.lookup x with
  | none => s
  | some o => { s with objects := s.objects.erase x, stack := o.destructor ++ s.stack }

/-- One step, if the thread has something to do and does not wait for the mutex. -/
def next (s : Thread) : Option Thread :=
  match s.stack with
  | [] => none
  | .release x :: stack =>
    let s := { s with stack := stack }
    some (if s.Held x then s else s.destroy x)
  | .counter factory :: stack =>
    if s.locked then none
    else some { s with lostProducts := s.lostProducts ++ [factory], stack := stack }
  | .cleanupLostProducts :: stack =>
    if s.locked then none
    else some { s with
      lostProducts := []
      locked := true
      stack := s.lostProducts.map .release ++ .unlock :: stack }
  | .unlock :: stack => some { s with locked := false, stack := stack }

def run : Nat → Thread → Thread
  | 0, s => s
  | n + 1, s =>
    match s.next with
    | none => s
    | some s' => run n s'

/-- A bound on the steps that the objects can still cause. -/
def cost (s : Thread) : Nat :=
  s.stack.length + s.objects.keys.sum fun x => ((s.objects.lookup x).map
    fun o => o.owned.length + 1).getD 0

/-- Call `CleanupLostProducts`, and go on until it is done or waits for the mutex. -/
def cleanupLostProducts (s : Thread) : Thread :=
  run (s.cost + s.lostProducts.length + 2) { s with stack := .cleanupLostProducts :: s.stack }

def Owns (s : Thread) (x y : Nat) : Prop := ∃ o, s.objects.lookup x = some o ∧ y ∈ o.owned

/-- The rest of the program keeps the object alive. -/
def KeptOutside (s : Thread) : Nat → Prop := Kept s.Owns fun x => x ∈ s.outside

/-- No destructor is running, the mutex is free, every object has an owner, and the ownership
graph is acyclic. -/
structure Tidy (s : Thread) : Prop where
  idle : s.stack = []
  unlocked : s.locked = false
  held : ∀ x ∈ s.objects, s.Held x
  acyclic : Acyclic s.Owns

/-- `CleanupLostProducts` returns, and its references are gone: what only they kept alive is
destroyed, and nothing else is. -/
structure Completes (s : Thread) : Prop where
  returns : s.cleanupLostProducts.stack = []
  unlocked : s.cleanupLostProducts.locked = false
  empty : s.cleanupLostProducts.lostProducts = []
  released : ∀ x o, s.cleanupLostProducts.objects.lookup x = some o ↔
    s.objects.lookup x = some o ∧ s.KeptOutside x

/-- The products that plain `delete` will hand over are kept alive by the rest of the
program. -/
def KeepsCounted (s : Thread) : Prop :=
  ∀ x o, s.objects.lookup x = some o → o.counted ≠ none → s.KeptOutside x

/-! ### One step of clearing -/

variable {m s s' : Thread} {x y f : Nat} {o : Object} {stack : List Task}

theorem mem_destructor {t : Task} : t ∈ o.destructor ↔
    (∃ y ∈ o.owned, t = .release y) ∨ ∃ f, o.counted = some f ∧ t = .counter f := by
  simp only [Object.destructor, Object.owned, List.mem_append, List.mem_map, Option.mem_toList]
  constructor
  · rintro ((⟨y, hy, rfl⟩ | ⟨f, hf, rfl⟩) | ⟨y, hy, rfl⟩)
    · exact Or.inl ⟨y, Or.inl hy, rfl⟩
    · exact Or.inr ⟨f, hf, rfl⟩
    · exact Or.inl ⟨y, Or.inr hy, rfl⟩
  · rintro (⟨y, hy | hy, rfl⟩ | ⟨f, hf, rfl⟩)
    · exact Or.inl (Or.inl ⟨y, hy, rfl⟩)
    · exact Or.inr ⟨y, hy, rfl⟩
    · exact Or.inl (Or.inr ⟨f, hf, rfl⟩)

theorem length_destructor (o : Object) : o.destructor.length ≤ o.owned.length + 1 := by
  have hcounted : o.counted.toList.length ≤ 1 := by
    cases o.counted <;> simp
  simp only [Object.destructor, Object.owned, List.length_append, List.length_map]
  omega

/-- The state of clearing the list: `m` is the program at the call. -/
structure Clearing (m s : Thread) : Prop where
  outside : s.outside = m.outside
  empty : s.lostProducts = []
  locked : s.locked = true
  /-- Clearing ends with the release of the mutex. -/
  ends : ∃ tasks, s.stack = tasks ++ [.unlock] ∧ .unlock ∉ tasks ∧ .cleanupLostProducts ∉ tasks
  objects : ∀ {x o}, s.objects.lookup x = some o → m.objects.lookup x = some o
  /-- Only what the rest of the program does not keep is destroyed. -/
  kept : ∀ {x}, x ∈ m.objects → m.KeptOutside x → x ∈ s.objects
  held : ∀ {x}, x ∈ s.objects → s.Held x
  /-- The counter of a destroyed product is still to come: it waits for the mutex. -/
  pending : ∀ {x o f}, m.objects.lookup x = some o → x ∉ s.objects → o.counted = some f →
    .counter f ∈ s.stack
  origin : ∀ {f}, .counter f ∈ s.stack →
    ∃ x o, m.objects.lookup x = some o ∧ o.counted = some f ∧ ¬ m.KeptOutside x

theorem Clearing.owns (h : Clearing m s) (ho : s.Owns x y) : m.Owns x y := by
  obtain ⟨o, hl, hy⟩ := ho
  exact ⟨o, h.objects hl, hy⟩

theorem Clearing.not_kept (h : Clearing m s) (hout : x ∉ s.outside)
    (hown : ¬ Has (fun _ o => x ∈ o.owned) s.objects) : ¬ m.KeptOutside x := by
  intro hk
  cases hk with
  | root hr => exact hout (h.outside ▸ hr)
  | @owned z _ hz ho =>
    obtain ⟨o, hl, hy⟩ := ho
    have hz' := h.kept (Finmap.mem_of_lookup_eq_some hl) hz
    obtain ⟨o', hl'⟩ := Finmap.mem_iff.mp hz'
    have hsame := h.objects hl'
    rw [hl] at hsame
    cases hsame
    exact hown ⟨z, o, hl', hy⟩

theorem Clearing.next_stack (h : Clearing m s) {t : Task} (hs : s.stack = t :: stack)
    (ht : t ≠ .unlock) :
    ∃ tasks, stack = tasks ++ [.unlock] ∧ .unlock ∉ tasks ∧ .cleanupLostProducts ∉ tasks := by
  obtain ⟨tasks, he, hu, hc⟩ := h.ends
  rw [hs] at he
  cases tasks with
  | nil => exact absurd (List.cons.inj he).1 ht
  | cons t' tasks =>
    exact ⟨tasks, (List.cons.inj he).2, List.not_mem_of_not_mem_cons hu,
      List.not_mem_of_not_mem_cons hc⟩

theorem Clearing.pop (h : Clearing m s) (hs : s.stack = .release x :: stack)
    (hx : x ∈ s.objects → ({ s with stack := stack } : Thread).Held x) :
    Clearing m { s with stack := stack } where
  outside := h.outside
  empty := h.empty
  locked := h.locked
  ends := h.next_stack hs nofun
  objects := h.objects
  kept := h.kept
  held {y} hy := by
    by_cases hyx : y = x
    · rw [hyx] at hy ⊢
      exact hx hy
    · rcases h.held hy with hh | hh | hh | hh
      · exact Or.inl hh
      · exact Or.inr (Or.inl hh)
      · exact Or.inr (Or.inr (Or.inl hh))
      · rw [hs] at hh
        rcases List.mem_cons.mp hh with he | hh
        · exact absurd (Task.release.inj he) hyx
        · exact Or.inr (Or.inr (Or.inr hh))
  pending hl hn hf := by
    have hm := h.pending hl hn hf
    rw [hs] at hm
    exact (List.mem_cons.mp hm).resolve_left nofun
  origin {f} hm := h.origin (by rw [hs]; exact List.mem_cons_of_mem _ hm)

theorem Clearing.destroyed (h : Clearing m s) (hs : s.stack = .release x :: stack)
    (hx : ¬ ({ s with stack := stack } : Thread).Held x) (hl : s.objects.lookup x = some o) :
    Clearing m { s with objects := s.objects.erase x, stack := o.destructor ++ stack } where
  outside := h.outside
  empty := h.empty
  locked := h.locked
  ends := by
    obtain ⟨tasks, he, hu, hc⟩ := h.next_stack hs nofun
    refine ⟨o.destructor ++ tasks, by rw [he, List.append_assoc], ?_, ?_⟩
    · simp [mem_destructor, hu]
    · simp [mem_destructor, hc]
  objects {y o'} hy := by
    rw [lookup_erase_eq] at hy
    split at hy
    · cases hy
    · exact h.objects hy
  kept {y} hy hk := by
    refine Finmap.mem_erase.mpr ⟨?_, h.kept hy hk⟩
    rintro rfl
    refine h.not_kept (fun hout => hx (Or.inl hout)) (fun hown => hx ?_) hk
    exact Or.inr (Or.inr (Or.inl hown))
  held {y} hy := by
    obtain ⟨hne, hy⟩ := Finmap.mem_erase.mp hy
    rcases h.held hy with hh | hh | hh | hh
    · exact Or.inl hh
    · exact Or.inr (Or.inl hh)
    · rcases (has_of_lookup hl).mp hh with hh | hh
      · -- It was owned by the destroyed object, whose members are released next.
        refine Or.inr (Or.inr (Or.inr (List.mem_append_left _ ?_)))
        exact mem_destructor.mpr (Or.inl ⟨y, hh, rfl⟩)
      · exact Or.inr (Or.inr (Or.inl (has_erase.mpr hh)))
    · rw [hs] at hh
      rcases List.mem_cons.mp hh with he | hh
      · exact absurd (Task.release.inj he) hne
      · exact Or.inr (Or.inr (Or.inr (List.mem_append_right _ hh)))
  pending {y o' f} hy hn hf := by
    by_cases hyx : y = x
    · rw [hyx, h.objects hl] at hy
      cases hy
      exact List.mem_append_left _ (mem_destructor.mpr (Or.inr ⟨f, hf, rfl⟩))
    · have hold : y ∉ s.objects := fun hm => hn (Finmap.mem_erase.mpr ⟨hyx, hm⟩)
      have hm := h.pending hy hold hf
      rw [hs] at hm
      exact List.mem_append_right _ ((List.mem_cons.mp hm).resolve_left nofun)
  origin {f} hm := by
    rcases List.mem_append.mp hm with hm | hm
    · rcases mem_destructor.mp hm with ⟨y, _, he⟩ | ⟨f', hf, he⟩
      · cases he
      · cases he
        refine ⟨x, o, h.objects hl, hf, h.not_kept (fun hout => hx (Or.inl hout)) ?_⟩
        exact fun hown => hx (Or.inr (Or.inr (Or.inl hown)))
    · exact h.origin (by rw [hs]; exact List.mem_cons_of_mem _ hm)

theorem cost_erase (stack : List Task) (hl : s.objects.lookup x = some o) :
    ({ s with objects := s.objects.erase x, stack := stack } : Thread).cost +
      (s.stack.length + (o.owned.length + 1)) = s.cost + stack.length := by
  have hm : x ∈ s.objects.keys := Finmap.mem_keys.mpr (Finmap.mem_of_lookup_eq_some hl)
  have hsum := Finset.add_sum_erase s.objects.keys
    (fun y => ((s.objects.lookup y).map fun o => o.owned.length + 1).getD 0) hm
  have hrest : ((s.objects.erase x).keys.sum fun y =>
      (((s.objects.erase x).lookup y).map fun o => o.owned.length + 1).getD 0) =
      (s.objects.keys.erase x).sum fun y =>
        ((s.objects.lookup y).map fun o => o.owned.length + 1).getD 0 := by
    rw [Finmap.keys_erase]
    apply Finset.sum_congr rfl
    intro y hy
    rw [Finmap.lookup_erase_ne (Finset.ne_of_mem_erase hy)]
  simp only [hl, Option.map_some, Option.getD_some] at hsum
  simp only [cost, hrest]
  omega

theorem Clearing.release (h : Clearing m s) (hs : s.stack = .release x :: stack) :
    ∃ s', s.next = some s' ∧ Clearing m s' ∧ s'.cost < s.cost := by
  have hpop : ({ s with stack := stack } : Thread).cost < s.cost := by
    simp only [cost, hs, List.length_cons]
    omega
  by_cases hx : ({ s with stack := stack } : Thread).Held x
  · exact ⟨_, by simp only [next, hs, if_pos hx], h.pop hs fun _ => hx, hpop⟩
  · cases hl : s.objects.lookup x with
    | none =>
      refine ⟨_, by simp only [next, hs, if_neg hx, destroy, hl], h.pop hs ?_, hpop⟩
      exact fun hm => absurd hm (Finmap.lookup_eq_none.mp hl)
    | some o =>
      refine ⟨_, by simp only [next, hs, if_neg hx, destroy, hl], h.destroyed hs hx hl, ?_⟩
      have hcost := cost_erase (o.destructor ++ stack) hl
      have hlen := length_destructor o
      rw [hs, List.length_cons, List.length_append] at hcost
      omega

/-! ### The whole call -/

/-- With enough steps, the thread waits in a `~FactoryCounter` or it gets to the end. -/
theorem Clearing.run (h : Clearing m s) {n : Nat} (hn : s.cost ≤ n) :
    (∃ f stack, (run n s).stack = .counter f :: stack ∧ Clearing m (Thread.run n s)) ∨
    ∃ u, Clearing m u ∧ u.stack = [.unlock] ∧
      Thread.run n s = { u with locked := false, stack := [] } := by
  induction n generalizing s with
  | zero =>
    obtain ⟨tasks, hs, _⟩ := h.ends
    simp only [cost, hs, List.length_append, List.length_singleton] at hn
    omega
  | succ n ih =>
    obtain ⟨tasks, hs, hu, hc⟩ := h.ends
    cases tasks with
    | nil =>
      have hnext : s.next = some { s with locked := false, stack := [] } := by
        simp only [next, hs, List.nil_append]
      refine Or.inr ⟨s, h, hs, ?_⟩
      rw [Thread.run, hnext]
      cases n <;> rfl
    | cons t tasks =>
      cases t with
      | release x =>
        obtain ⟨s', hnext, h', hlt⟩ := h.release hs
        rw [Thread.run, hnext]
        exact ih h' (by omega)
      | counter f =>
        have hnext : s.next = none := by
          simp only [next, hs, List.cons_append, h.locked, if_true]
        rw [Thread.run, hnext]
        exact Or.inl ⟨f, _, hs, h⟩
      | cleanupLostProducts => exact absurd List.mem_cons_self hc
      | unlock => exact absurd List.mem_cons_self hu

/-- The state after `lock`, in which the elements of the vector go one by one. -/
def enter (s : Thread) : Thread :=
  { s with
    lostProducts := []
    locked := true
    stack := s.lostProducts.map .release ++ .unlock :: s.stack }

theorem Tidy.clearing (h : Tidy m) : Clearing m m.enter where
  outside := rfl
  empty := rfl
  locked := rfl
  ends := ⟨m.lostProducts.map .release, by rw [enter, h.idle], by simp, by simp⟩
  objects := id
  kept hx _ := hx
  held {x} hx := by
    rcases h.held x hx with hh | hh | hh | hh
    · exact Or.inl hh
    · refine Or.inr (Or.inr (Or.inr (List.mem_append_left _ ?_)))
      exact List.mem_map.mpr ⟨x, hh, rfl⟩
    · exact Or.inr (Or.inr (Or.inl hh))
    · rw [h.idle] at hh
      exact absurd hh List.not_mem_nil
  pending hl hn := absurd (Finmap.mem_of_lookup_eq_some hl) hn
  origin {f} hm := by
    simp [enter, h.idle] at hm

theorem cleanupLostProducts_eq (h : Tidy m) :
    m.cleanupLostProducts = run (m.cost + m.lostProducts.length + 1) m.enter := by
  have hnext : ({ m with stack := .cleanupLostProducts :: m.stack } : Thread).next =
      some m.enter := by
    simp only [next, h.unlocked, Bool.false_eq_true, if_false]
    rfl
  rw [cleanupLostProducts, run, hnext]

theorem cleanupLostProducts_cases (h : Tidy m) :
    (∃ f stack, m.cleanupLostProducts.stack = .counter f :: stack ∧
      Clearing m m.cleanupLostProducts) ∨
    ∃ u, Clearing m u ∧ u.stack = [.unlock] ∧
      m.cleanupLostProducts = { u with locked := false, stack := [] } := by
  rw [cleanupLostProducts_eq h]
  apply h.clearing.run
  simp only [cost, enter, h.idle, List.length_append, List.length_map, List.length_cons,
    List.length_nil]
  omega

theorem Clearing.all_kept (h : Clearing m s) (hm : Acyclic m.Owns) (hs : s.stack = [.unlock]) :
    ∀ x ∈ s.objects, m.KeptOutside x := by
  have hkept : ∀ x ∈ s.objects.keys, Kept m.Owns (fun x => x ∈ m.outside) x := by
    refine hm.kept ?_
    intro x hx
    rcases h.held (Finmap.mem_keys.mp hx) with hh | hh | ⟨z, o, hl, hy⟩ | hh
    · exact Or.inl (h.outside ▸ hh)
    · rw [h.empty] at hh
      exact absurd hh List.not_mem_nil
    · refine Or.inr ⟨z, Finmap.mem_keys.mpr (Finmap.mem_of_lookup_eq_some hl), ?_⟩
      exact h.owns ⟨o, hl, hy⟩
    · rw [hs] at hh
      exact absurd (List.mem_singleton.mp hh) nofun
  exact fun x hx => hkept x (Finmap.mem_keys.mpr hx)

/-- `CleanupLostProducts` returns, with the references of the list released, if and only if
the rest of the program keeps every product alive that would hand its reference over. -/
theorem completes_iff_keepsCounted {s : Thread} (h : Tidy s) :
    Completes s ↔ KeepsCounted s := by
  rcases cleanupLostProducts_cases h with ⟨f, stack, hstack, hc⟩ | ⟨u, hc, hu, he⟩
  · -- The thread waits for itself.
    obtain ⟨x, o, hl, hf, hnot⟩ := hc.origin (f := f) (by rw [hstack]; exact List.mem_cons_self)
    constructor
    · intro hcomplete
      rw [hcomplete.returns] at hstack
      cases hstack
    · intro hk
      exact absurd (hk x o hl (by rw [hf]; exact nofun)) hnot
  · have hkept := hc.all_kept h.acyclic hu
    constructor
    · intro _ x o hl hcounted
      obtain ⟨f, hf⟩ := Option.ne_none_iff_exists'.mp hcounted
      apply hkept
      by_contra hn
      have hm := hc.pending hl hn hf
      rw [hu] at hm
      exact absurd (List.mem_singleton.mp hm) nofun
    · intro _
      refine ⟨by rw [he], by rw [he], by rw [he]; exact hc.empty, ?_⟩
      intro x o
      rw [he]
      constructor
      · intro hl
        exact ⟨hc.objects hl, hkept x (Finmap.mem_of_lookup_eq_some hl)⟩
      · rintro ⟨hl, hk⟩
        obtain ⟨o', hl'⟩ := Finmap.mem_iff.mp (hc.kept (Finmap.mem_of_lookup_eq_some hl) hk)
        have hsame := hc.objects hl'
        rw [hl] at hsame
        cases hsame
        exact hl'

/-- The lost factory 0 owns the product 1 of the factory 2, of which the rest of the program has
the product 3. -/
def nestedProduct (byDeleter : Bool) : Thread where
  objects := ((((∅ : Finmap fun _ : Nat => Object).insert 0 ⟨[1], none, false⟩).insert 1
    ⟨[], some 2, byDeleter⟩).insert 2 ⟨[], none, false⟩).insert 3 ⟨[], some 2, false⟩
  outside := [3]
  lostProducts := [0]
  locked := false
  stack := []

theorem nestedProduct_tidy (byDeleter : Bool) : Tidy (nestedProduct byDeleter) where
  idle := rfl
  unlocked := rfl
  held := by
    have hheld : ∀ x ∈ (nestedProduct byDeleter).objects.keys,
        (nestedProduct byDeleter).Held x := by
      cases byDeleter <;> decide
    exact fun x hx => hheld x (Finmap.mem_keys.mpr hx)
  acyclic := by
    have hrank : ∀ x ∈ (nestedProduct byDeleter).objects.keys,
        ∀ o ∈ (nestedProduct byDeleter).objects.lookup x, ∀ y ∈ o.owned, x % 3 < y % 3 := by
      cases byDeleter <;> decide
    refine .of_rank (· % 3) ?_
    rintro x y ⟨o, hl, hy⟩
    have hx := Finmap.mem_keys.mpr (Finmap.mem_of_lookup_eq_some hl)
    exact hrank x hx o hl y hy

theorem completes_nestedProduct : Completes (nestedProduct true) := by
  refine (completes_iff_keepsCounted (nestedProduct_tidy true)).mpr ?_
  have hkept : ∀ x ∈ (nestedProduct true).objects.keys,
      ∀ o ∈ (nestedProduct true).objects.lookup x, o.counted ≠ none →
        x ∈ (nestedProduct true).outside := by decide
  intro x o hl hcounted
  have hx := Finmap.mem_keys.mpr (Finmap.mem_of_lookup_eq_some hl)
  exact .root (hkept x hx o hl hcounted)

/-- Plain `delete` of the product 1 waits for the mutex that the thread holds. -/
theorem not_completes_nestedProduct : ¬ ∀ s, Tidy s → Completes s := by
  intro h
  exact absurd (h _ (nestedProduct_tidy false)).returns (by decide)

end Thread

end GzPlugin
