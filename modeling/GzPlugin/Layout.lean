import Mathlib.Data.List.Basic

/-!
# Lists laid out in parts

A list that consists of several parts, each of which begins with an element that cannot
stand inside the part before it, determines these parts. Texts made of lines are such
lists of characters, and indented reports are such lists of lines.
-/

namespace GzPlugin.Layout

set_option autoImplicit false

universe u v w

variable {α : Type u} {β : Type v} {γ : Type w} {P : α → Prop} {xs xs' ys ys' : List α}

/-- A first part with elements in `P` ends where the rest begins outside of `P`. -/
theorem append_inj (hxs : ∀ x ∈ xs, P x) (hxs' : ∀ x ∈ xs', P x) (hys : ∀ y ∈ ys.head?, ¬ P y)
    (hys' : ∀ y ∈ ys'.head?, ¬ P y) (h : xs ++ ys = xs' ++ ys') : xs = xs' ∧ ys = ys' := by
  induction xs generalizing xs' with
  | nil =>
    cases xs' with
    | nil => exact ⟨rfl, h⟩
    | cons x' xs' =>
      subst h
      exact absurd (hxs' x' List.mem_cons_self) (hys x' rfl)
  | cons x xs ih =>
    cases xs' with
    | nil =>
      subst h
      exact absurd (hxs x List.mem_cons_self) (hys' x rfl)
    | cons x' xs' =>
      obtain ⟨hx, htail⟩ := List.cons.inj h
      obtain ⟨hinit, hrest⟩ := ih (fun y hy => hxs y (List.mem_cons_of_mem x hy))
        (fun y hy => hxs' y (List.mem_cons_of_mem x' hy)) htail
      exact ⟨by rw [hx, hinit], hrest⟩

theorem append_cons_inj {y y' : α} (hxs : ∀ x ∈ xs, P x) (hxs' : ∀ x ∈ xs', P x) (hy : ¬ P y)
    (hy' : ¬ P y') (h : xs ++ y :: ys = xs' ++ y' :: ys') : xs = xs' ∧ y = y' ∧ ys = ys' := by
  obtain ⟨hxs, hys⟩ := append_inj hxs hxs' (by simpa using hy) (by simpa using hy') h
  exact ⟨hxs, List.cons.inj hys⟩

/-- Blocks that each begin with an element outside of `P` and go on with elements in `P`. -/
def blocks (f : β → α × List α) (l : List β) : List α := l.flatMap fun b => (f b).1 :: (f b).2

theorem blocks_head {f : β → α × List α} {l : List β} (hf : ∀ b ∈ l, ¬ P (f b).1) :
    ∀ y ∈ (blocks f l).head?, ¬ P y := by
  cases l with
  | nil => nofun
  | cons b l =>
    intro y hy
    obtain rfl : (f b).1 = y := Option.some.inj hy
    exact hf b List.mem_cons_self

theorem blocks_inj {f : β → α × List α} {f' : γ → α × List α} {l : List β} {l' : List γ}
    (hhead : ∀ b ∈ l, ¬ P (f b).1) (hbody : ∀ b ∈ l, ∀ x ∈ (f b).2, P x)
    (hhead' : ∀ b ∈ l', ¬ P (f' b).1) (hbody' : ∀ b ∈ l', ∀ x ∈ (f' b).2, P x)
    (h : blocks f l = blocks f' l') : l.map f = l'.map f' := by
  induction l generalizing l' with
  | nil =>
    cases l' with
    | nil => rfl
    | cons b' l' => cases h
  | cons b l ih =>
    cases l' with
    | nil => cases h
    | cons b' l' =>
      have hrest : ∀ c ∈ l, c ∈ b :: l := fun c hc => List.mem_cons_of_mem b hc
      have hrest' : ∀ c ∈ l', c ∈ b' :: l' := fun c hc => List.mem_cons_of_mem b' hc
      obtain ⟨hfirst, h⟩ := List.cons.inj h
      obtain ⟨hsecond, h⟩ := append_inj (hbody b List.mem_cons_self) (hbody' b' List.mem_cons_self)
        (blocks_head fun c hc => hhead c (hrest c hc))
        (blocks_head fun c hc => hhead' c (hrest' c hc)) h
      have htail := ih (fun c hc => hhead c (hrest c hc)) (fun c hc => hbody c (hrest c hc))
        (fun c hc => hhead' c (hrest' c hc)) (fun c hc => hbody' c (hrest' c hc)) h
      rw [List.map_cons, List.map_cons, htail, Prod.ext hfirst hsecond]

/-! ### Text -/

/-- A text made of lines, each of them ended by a line break. -/
def unlines : List String → String
  | [] => ""
  | line :: lines => line ++ "\n" ++ unlines lines

/-- The string has no line break. -/
def OneLine (s : String) : Prop := '\n' ∉ s.toList

instance (s : String) : Decidable (OneLine s) := by unfold OneLine; infer_instance

@[simp] theorem oneLine_append {s t : String} : OneLine (s ++ t) ↔ OneLine s ∧ OneLine t := by
  simp [OneLine, not_or]

theorem oneLine_repr (n : Nat) : OneLine n.repr := by
  intro hm
  rw [Nat.toList_repr] at hm
  exact absurd (Nat.isDigit_of_mem_toDigits (by decide) (by decide) hm) (by decide)

theorem unlines_append (lines lines' : List String) :
    unlines (lines ++ lines') = unlines lines ++ unlines lines' := by
  induction lines with
  | nil => simp [unlines]
  | cons line lines ih => simp only [List.cons_append, unlines, ih, String.append_assoc]

theorem unlines_inj {lines lines' : List String} (hl : ∀ line ∈ lines, OneLine line)
    (hl' : ∀ line ∈ lines', OneLine line) (h : unlines lines = unlines lines') :
    lines = lines' := by
  induction lines generalizing lines' with
  | nil =>
    cases lines' with
    | nil => rfl
    | cons line' lines' => simp [unlines] at h
  | cons line lines ih =>
    cases lines' with
    | nil => simp [unlines] at h
    | cons line' lines' =>
      have hsplit : line.toList ++ '\n' :: (unlines lines).toList =
          line'.toList ++ '\n' :: (unlines lines').toList := by
        simpa [unlines] using congrArg String.toList h
      have hinside : ∀ {s : String}, OneLine s → ∀ c ∈ s.toList, c ≠ '\n' :=
        fun hs c hc he => hs (he ▸ hc)
      obtain ⟨hfirst, _, hrest⟩ := append_cons_inj (hinside (hl line List.mem_cons_self))
        (hinside (hl' line' List.mem_cons_self)) (not_not.mpr rfl) (not_not.mpr rfl) hsplit
      have htail := ih (fun l hm => hl l (List.mem_cons_of_mem line hm))
        (fun l hm => hl' l (List.mem_cons_of_mem line' hm)) (String.toList_inj.mp hrest)
      rw [String.toList_inj.mp hfirst, htail]

/-- A number is read off a text where it is followed by something else than a digit. -/
theorem repr_append_inj {n n' : Nat} {s s' : String} (hs : ∀ c ∈ s.toList.head?, ¬ c.isDigit)
    (hs' : ∀ c ∈ s'.toList.head?, ¬ c.isDigit) (h : n.repr ++ s = n'.repr ++ s') :
    n = n' ∧ s = s' := by
  have hdigits : ∀ n : Nat, ∀ c ∈ Nat.toDigits 10 n, c.isDigit := fun n c hc =>
    Nat.isDigit_of_mem_toDigits (by decide) (by decide) hc
  have hsplit : Nat.toDigits 10 n ++ s.toList = Nat.toDigits 10 n' ++ s'.toList := by
    rw [← Nat.toList_repr, ← Nat.toList_repr, ← String.toList_append, ← String.toList_append, h]
  obtain ⟨hn, hrest⟩ := append_inj (hdigits n) (hdigits n') hs hs' hsplit
  refine ⟨?_, String.toList_inj.mp hrest⟩
  rw [← Nat.ofDigitChars_ten_toDigits (n := n), hn, Nat.ofDigitChars_ten_toDigits]

/-- Texts that begin differently are different. -/
theorem append_ne {s s' t t' : String} (n : Nat) (hs : n ≤ s.toList.length)
    (hs' : n ≤ s'.toList.length) (hne : s.toList.take n ≠ s'.toList.take n) :
    s ++ t ≠ s' ++ t' := by
  intro h
  have htake := congrArg (fun text => text.toList.take n) h
  simp only [String.toList_append, List.take_append_of_le_length hs,
    List.take_append_of_le_length hs'] at htake
  exact hne htake

theorem repr_append_ne {n : Nat} {s s' : String} : n.repr ++ s ≠ "-" ++ s' := by
  intro h
  have hlist : Nat.toDigits 10 n ++ s.toList = '-' :: s'.toList := by
    simpa using congrArg String.toList h
  cases hd : Nat.toDigits 10 n with
  | nil => exact Nat.toDigits_ne_nil hd
  | cons c digits =>
    rw [hd, List.cons_append, List.cons.injEq] at hlist
    have hdigit : c.isDigit :=
      Nat.isDigit_of_mem_toDigits (by decide) (by decide) (hd ▸ List.mem_cons_self)
    rw [hlist.1] at hdigit
    exact absurd hdigit (by decide)

theorem int_append_inj {n n' : Int} {s s' : String} (hs : ∀ c ∈ s.toList.head?, ¬ c.isDigit)
    (hs' : ∀ c ∈ s'.toList.head?, ¬ c.isDigit) (h : n.repr ++ s = n'.repr ++ s') :
    n = n' ∧ s = s' := by
  rw [Int.repr_eq_if, Int.repr_eq_if] at h
  split at h <;> split at h
  · obtain ⟨hn, hrest⟩ := repr_append_inj hs hs' h
    exact ⟨by omega, hrest⟩
  · exact absurd (h.trans String.append_assoc) repr_append_ne
  · exact absurd (h.symm.trans String.append_assoc) repr_append_ne
  · rw [String.append_assoc, String.append_assoc, String.append_right_inj] at h
    obtain ⟨hn, hrest⟩ := repr_append_inj hs hs' h
    exact ⟨by omega, hrest⟩

end GzPlugin.Layout
