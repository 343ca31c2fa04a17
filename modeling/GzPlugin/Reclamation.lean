import Mathlib.Logic.Basic

/-!
# Resources that are closed with their last holder

A resource is closed once, at the moment when nobody holds it any more. Which resources are
closed between two states is then a matter of who holds what in these two states, and of
nothing in between: the order in which the holders let go leaves no trace.
-/

namespace GzPlugin.Reclamation

set_option autoImplicit false

universe u v w

variable {ρ : Type u} {κ : Type v} {ν : Type w}

/-- From the holders `H` to the fewer holders `H'`, each resource that lost its holders was
closed once, and the value under every other key is as before. -/
structure Reclaimed (key : ρ → κ) (close : ν → ν) (H : ρ → Prop) (f : κ → ν) (H' : ρ → Prop)
    (f' : κ → ν) : Prop where
  fewer : ∀ {r}, H' r → H r
  closed : ∀ {r}, H r → ¬ H' r → f' (key r) = close (f (key r))
  kept : ∀ {k}, (∀ r, H r → key r = k → H' r) → f' k = f k

namespace Reclaimed

variable {key : ρ → κ} {close : ν → ν} {H H' H'' : ρ → Prop} {f f' f'' : κ → ν}

theorem refl (key : ρ → κ) (close : ν → ν) (H : ρ → Prop) (f : κ → ν) :
    Reclaimed key close H f H f where
  fewer h := h
  closed h hn := absurd h hn
  kept _ := rfl

/-- A resource that is gone by the first step has nobody left to lose in the second one. -/
theorem trans (hkey : ∀ {r r'}, H r → H r' → key r = key r' → r = r')
    (h : Reclaimed key close H f H' f') (h' : Reclaimed key close H' f' H'' f'') :
    Reclaimed key close H f H'' f'' where
  fewer hr := h.fewer (h'.fewer hr)
  closed {r} hr hn := by
    have honly : ∀ r', H r' → key r' = key r → r' = r := fun _ hr' he => hkey hr' hr he
    by_cases hr' : H' r
    · have hsame : f' (key r) = f (key r) := h.kept fun x hx he => honly x hx he ▸ hr'
      rw [h'.closed hr' hn, hsame]
    · have hsame : f'' (key r) = f' (key r) := by
        refine h'.kept fun x hx he => absurd ?_ hr'
        exact honly x (h.fewer hx) he ▸ hx
      rw [hsame, h.closed hr hr']
  kept {k} hk := by
    have hlast : f'' k = f' k := h'.kept fun r hr he => hk r (h.fewer hr) he
    have hfirst : f' k = f k := h.kept fun r hr he => h'.fewer (hk r hr he)
    exact hlast.trans hfirst

/-- Letting go of one reference, whether it was the last one or not. -/
theorem release {r : ρ} (hiff : ∀ x, H x ↔ x = r ∨ H' x)
    (hclosed : ¬ H' r → f' (key r) = close (f (key r)))
    (hkept : ∀ k, H' r ∨ key r ≠ k → f' k = f k) : Reclaimed key close H f H' f' where
  fewer hx := (hiff _).mpr (Or.inr hx)
  closed hx hn := by
    rcases (hiff _).mp hx with rfl | hx
    · exact hclosed hn
    · exact absurd hx hn
  kept {k} hk := by
    apply hkept
    by_cases he : key r = k
    · exact Or.inl (hk r ((hiff r).mpr (Or.inl rfl)) he)
    · exact Or.inr he

theorem congr_left {K : ρ → Prop} (h : Reclaimed key close H f H' f') (he : ∀ r, K r ↔ H r) :
    Reclaimed key close K f H' f' where
  fewer hr := (he _).mpr (h.fewer hr)
  closed hr hn := h.closed ((he _).mp hr) hn
  kept hk := h.kept fun r hr => hk r ((he r).mpr hr)

/-- The holders that are left decide what was closed. -/
theorem unique (h : Reclaimed key close H f H' f') (h' : Reclaimed key close H f H'' f'')
    (he : ∀ r, H' r ↔ H'' r) : f' = f'' := by
  funext k
  by_cases hlost : ∃ r, H r ∧ key r = k ∧ ¬ H' r
  · obtain ⟨r, hr, rfl, hn⟩ := hlost
    rw [h.closed hr hn, h'.closed hr fun hr'' => hn ((he r).mpr hr'')]
  · have hall : ∀ r, H r → key r = k → H' r := fun r hr hk =>
      by_contra fun hn => hlost ⟨r, hr, hk, hn⟩
    rw [h.kept hall, h'.kept fun r hr hk => (he r).mp (hall r hr hk)]

end Reclaimed

end GzPlugin.Reclamation
