import Mathlib.Logic.Relation
import Mathlib.Order.WellFoundedSet

/-!
# Who is kept by whom

A relation `owns x y` between objects, and roots that are kept from outside. What the roots
own, directly or not, is kept. Where nothing owns itself in the end, every finite set in which
each object is a root or has an owner is kept.
-/

namespace GzPlugin.Ownership

set_option autoImplicit false

universe u

variable {α : Type u} {owns : α → α → Prop} {roots : α → Prop}

inductive Kept (owns : α → α → Prop) (roots : α → Prop) : α → Prop where
  | root {x : α} (h : roots x) : Kept owns roots x
  | owned {x y : α} (h : Kept owns roots x) (ho : owns x y) : Kept owns roots y

/-- Nothing owns itself in the end. -/
def Acyclic (owns : α → α → Prop) : Prop := ∀ x, ¬ Relation.TransGen owns x x

theorem Acyclic.of_rank (rank : α → Nat) (h : ∀ x y, owns x y → rank x < rank y) :
    Acyclic owns := by
  have hlt : ∀ x y, Relation.TransGen owns x y → rank x < rank y := by
    intro x y hxy
    induction hxy with
    | single ho => exact h x _ ho
    | tail _ ho ih => exact ih.trans (h _ _ ho)
  exact fun x hx => Nat.lt_irrefl _ (hlt x x hx)

/-- Induction from the owners to what they own, within a finite set. -/
theorem Acyclic.induction (h : Acyclic owns) {S : Finset α} {P : α → Prop}
    (hstep : ∀ x ∈ S, (∀ z ∈ S, owns z x → P z) → P x) : ∀ x ∈ S, P x := by
  have : IsStrictOrder α (Relation.TransGen owns) :=
    { irrefl := h, trans := fun _ _ _ => Relation.TransGen.trans }
  intro x hx
  refine (S.wellFoundedOn (r := Relation.TransGen owns)).induction hx ?_
  intro y hy ih
  exact hstep y hy fun z hz ho => ih z hz (.single ho)

/-- A set of objects each of which is a root or has an owner in the set has no others than
kept ones. -/
theorem Acyclic.kept (h : Acyclic owns) {S : Finset α}
    (hheld : ∀ x ∈ S, roots x ∨ ∃ z ∈ S, owns z x) : ∀ x ∈ S, Kept owns roots x := by
  refine h.induction (P := Kept owns roots) ?_
  intro x hx ih
  rcases hheld x hx with hr | ⟨z, hz, ho⟩
  · exact .root hr
  · exact .owned (ih z hz ho) ho

end GzPlugin.Ownership
