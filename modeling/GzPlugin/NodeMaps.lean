import Mathlib.Data.Finmap

/-!
# Maps made of nodes

A map whose entries sit in nodes, as those of a `std::map` do. An iterator is the name of a
node, so that it can be asked which entry it denotes after the map has changed. No operation
here erases a node.
-/

namespace GzPlugin.NodeMaps

set_option autoImplicit false

universe u v

variable {κ : Type u} {β : Type v}

theorem find?_of_distinct {α : Type u} {γ : Type v} [DecidableEq γ] {f : α → γ} {l : List α}
    (hl : l.Pairwise fun a b => f a ≠ f b) {a : α} (ha : a ∈ l) :
    l.find? (fun b => f b = f a) = some a := by
  induction l with
  | nil => cases ha
  | cons b l ih =>
    rw [List.pairwise_cons] at hl
    cases ha with
    | head => exact List.find?_cons_of_pos (decide_eq_true rfl)
    | tail _ ha =>
      rw [List.find?_cons_of_neg]
      · exact ih hl.2 ha
      · simpa using hl.1 a ha

structure Node (κ : Type u) (β : Type v) where
  id : Nat
  key : κ
  value : β

structure NodeMap (κ : Type u) (β : Type v) where
  nodes : List (Node κ β)
  /-- The next unused name of a node. -/
  next : Nat
  distinctKeys : nodes.Pairwise fun a b => a.key ≠ b.key
  distinctIds : nodes.Pairwise fun a b => a.id ≠ b.id
  fresh : ∀ n ∈ nodes, n.id < next

namespace NodeMap

def empty : NodeMap κ β := ⟨[], 0, .nil, .nil, fun _ h => nomatch h⟩

/-- The node that an iterator denotes. -/
def deref (m : NodeMap κ β) (it : Nat) : Option (Node κ β) := m.nodes.find? fun n => n.id = it

/-- Give every node the value that `f` computes. -/
def updateValues (f : Node κ β → β) (m : NodeMap κ β) : NodeMap κ β where
  nodes := m.nodes.map fun n => { n with value := f n }
  next := m.next
  distinctKeys := List.pairwise_map.mpr m.distinctKeys
  distinctIds := List.pairwise_map.mpr m.distinctIds
  fresh n hn := by
    obtain ⟨n', hn', rfl⟩ := List.mem_map.mp hn
    exact m.fresh n' hn'

variable [DecidableEq κ]

def find (m : NodeMap κ β) (k : κ) : Option (Node κ β) := m.nodes.find? fun n => n.key = k

def lookup (m : NodeMap κ β) (k : κ) : Option β := (m.find k).map (·.value)

theorem ne_of_find_none {m : NodeMap κ β} {k : κ} (h : m.find k = none) :
    ∀ n ∈ m.nodes, k ≠ n.key := by
  intro n hn he
  have hne := List.find?_eq_none.mp h n hn
  simp [he] at hne

/-- The insertion that keeps an existing entry, with an iterator to the entry. -/
def insertNew (k : κ) (x : β) (m : NodeMap κ β) : Nat × NodeMap κ β :=
  match h : m.find k with
  | some n => (n.id, m)
  | none => (m.next, {
      nodes := ⟨m.next, k, x⟩ :: m.nodes
      next := m.next + 1
      distinctKeys := .cons (ne_of_find_none h) m.distinctKeys
      distinctIds := .cons (fun n hn => (Nat.ne_of_lt (m.fresh n hn)).symm) m.distinctIds
      fresh := by
        intro n hn
        rcases List.mem_cons.mp hn with rfl | hn
        · exact Nat.lt_succ_self _
        · exact Nat.lt_succ_of_lt (m.fresh n hn) })

/-- `m[k] = x` -/
def assign (k : κ) (x : β) (m : NodeMap κ β) : NodeMap κ β :=
  (m.insertNew k x).2.updateValues fun n => if n.key = k then x else n.value

/-- Assign the pairs of a list, one after the other. -/
def assignAll (l : List (κ × β)) (m : NodeMap κ β) : NodeMap κ β :=
  l.foldl (fun m e => m.assign e.1 e.2) m

def entries (m : NodeMap κ β) : List (κ × β) := m.nodes.map fun n => (n.key, n.value)

/-! ### Iterators -/

variable {m m' m'' : NodeMap κ β} {k k' : κ} {x : β} {it : Nat} {n : Node κ β}

omit [DecidableEq κ] in
theorem deref_updateValues (f : Node κ β → β) (m : NodeMap κ β) (it : Nat) :
    (m.updateValues f).deref it = (m.deref it).map fun n => { n with value := f n } := by
  simp only [deref, updateValues, List.find?_map, Function.comp_def]

omit [DecidableEq κ] in
theorem deref_id (h : m.deref it = some n) : n.id = it := by
  have hid := List.find?_some h
  simpa using hid

theorem find_key (h : m.find k = some n) : n.key = k := by
  have hkey := List.find?_some h
  simpa using hkey

theorem find_of_deref (h : m.deref it = some n) : m.find n.key = some n :=
  find?_of_distinct m.distinctKeys (List.mem_of_find?_eq_some h)

theorem lookup_of_deref (h : m.deref it = some n) : m.lookup n.key = some n.value := by
  rw [lookup, find_of_deref h, Option.map_some]

theorem deref_insertNew (k : κ) (x : β) (h : m.deref it = some n) :
    (m.insertNew k x).2.deref it = some n := by
  unfold insertNew
  split
  · exact h
  · have hid := deref_id h
    have hlt := m.fresh n (List.mem_of_find?_eq_some h)
    unfold deref
    rw [List.find?_cons_of_neg]
    · exact h
    · simp only [decide_eq_true_eq]
      omega

theorem deref_insertNew_fst (k : κ) (x : β) (m : NodeMap κ β) :
    ∃ n, (m.insertNew k x).2.deref (m.insertNew k x).1 = some n ∧ n.key = k := by
  unfold insertNew
  split
  · rename_i n h
    refine ⟨n, ?_, find_key h⟩
    exact find?_of_distinct m.distinctIds (List.mem_of_find?_eq_some h)
  · exact ⟨⟨m.next, k, x⟩, List.find?_cons_of_pos (decide_eq_true rfl), rfl⟩

/-- Every iterator into `m` denotes an entry of `m'` with the same key. -/
def Keeps (m m' : NodeMap κ β) : Prop :=
  ∀ it n, m.deref it = some n → ∃ n', m'.deref it = some n' ∧ n'.key = n.key

omit [DecidableEq κ] in
theorem Keeps.refl (m : NodeMap κ β) : Keeps m m := fun _ n h => ⟨n, h, rfl⟩

omit [DecidableEq κ] in
theorem Keeps.trans (h : Keeps m m') (h' : Keeps m' m'') : Keeps m m'' := by
  intro it n hn
  obtain ⟨n', hn', hkey⟩ := h it n hn
  obtain ⟨n'', hn'', hkey'⟩ := h' it n' hn'
  exact ⟨n'', hn'', hkey'.trans hkey⟩

omit [DecidableEq κ] in
theorem updateValues_keeps (f : Node κ β → β) (m : NodeMap κ β) : Keeps m (m.updateValues f) := by
  intro it n hn
  exact ⟨{ n with value := f n }, by rw [deref_updateValues, hn, Option.map_some], rfl⟩

theorem insertNew_keeps (k : κ) (x : β) (m : NodeMap κ β) : Keeps m (m.insertNew k x).2 :=
  fun _ n hn => ⟨n, deref_insertNew k x hn, rfl⟩

theorem assign_keeps (k : κ) (x : β) (m : NodeMap κ β) : Keeps m (m.assign k x) :=
  (insertNew_keeps k x m).trans (updateValues_keeps _ _)

theorem assignAll_keeps (l : List (κ × β)) (m : NodeMap κ β) : Keeps m (m.assignAll l) := by
  induction l generalizing m with
  | nil => exact Keeps.refl m
  | cons e l ih => exact (assign_keeps e.1 e.2 m).trans (ih _)

/-! ### Lookups -/

theorem find_updateValues (f : Node κ β → β) (m : NodeMap κ β) (k : κ) :
    (m.updateValues f).find k = (m.find k).map fun n => { n with value := f n } := by
  simp only [find, updateValues, List.find?_map, Function.comp_def]

theorem lookup_updateValues (f : Node κ β → β) (m : NodeMap κ β) (k : κ) :
    (m.updateValues f).lookup k = (m.find k).map f := by
  rw [lookup, find_updateValues, Option.map_map]
  rfl

theorem lookup_empty (k : κ) : (empty : NodeMap κ β).lookup k = none := rfl

theorem lookup_insertNew (k k' : κ) (x : β) (m : NodeMap κ β) :
    (m.insertNew k x).2.lookup k' =
      if k' = k ∧ m.lookup k = none then some x else m.lookup k' := by
  unfold insertNew
  split
  · rename_i n h
    rw [if_neg]
    intro hc
    rw [lookup, h] at hc
    cases hc.2
  · rename_i h
    have hnone : m.lookup k = none := by rw [lookup, h, Option.map_none]
    by_cases he : k' = k
    · subst he
      have hfound : List.find? (fun n : Node κ β => n.key = k') (⟨m.next, k', x⟩ :: m.nodes) =
          some ⟨m.next, k', x⟩ := List.find?_cons_of_pos (decide_eq_true rfl)
      rw [if_pos ⟨rfl, hnone⟩]
      exact congrArg (Option.map Node.value) hfound
    · have hrest : List.find? (fun n : Node κ β => n.key = k') (⟨m.next, k, x⟩ :: m.nodes) =
          m.find k' := List.find?_cons_of_neg (by simpa using Ne.symm he)
      rw [if_neg fun hc => he hc.1]
      exact congrArg (Option.map Node.value) hrest

theorem lookup_assign (k k' : κ) (x : β) (m : NodeMap κ β) :
    (m.assign k x).lookup k' = if k' = k then some x else m.lookup k' := by
  have hins := lookup_insertNew k k' x m
  rw [assign, lookup_updateValues]
  unfold lookup at hins
  by_cases he : k' = k
  · subst he
    rw [if_pos rfl]
    cases hf : (m.insertNew k' x).2.find k' with
    | some n => rw [Option.map_some, if_pos (find_key hf)]
    | none =>
      rw [hf] at hins
      split at hins
      · cases hins
      · rename_i hc
        exact absurd ⟨rfl, hins.symm⟩ hc
  · rw [if_neg he]
    rw [if_neg fun hc => he hc.1] at hins
    refine Eq.trans ?_ hins
    cases hf : (m.insertNew k x).2.find k' with
    | none => rfl
    | some n =>
      have hne : n.key ≠ k := by
        rw [find_key hf]
        exact he
      rw [Option.map_some, Option.map_some, if_neg hne]

theorem lookup_assignAll_of_not_mem {l : List (κ × β)} (h : ∀ x, (k, x) ∉ l)
    (m : NodeMap κ β) : (m.assignAll l).lookup k = m.lookup k := by
  induction l generalizing m with
  | nil => rfl
  | cons e l ih =>
    have hne : k ≠ e.1 := by
      intro he
      apply h e.2
      rw [he]
      exact List.mem_cons_self
    refine (ih (fun x hx => h x (List.mem_cons_of_mem e hx)) _).trans ?_
    rw [lookup_assign, if_neg hne]

theorem lookup_assignAll_of_mem {l : List (κ × β)} (h : (k, x) ∈ l)
    (hfun : ∀ y, (k, y) ∈ l → y = x) (m : NodeMap κ β) :
    (m.assignAll l).lookup k = some x := by
  induction l generalizing m with
  | nil => cases h
  | cons e l ih =>
    have htail : ∀ y, (k, y) ∈ l → y = x := fun y hy => hfun y (List.mem_cons_of_mem e hy)
    by_cases hl : (k, x) ∈ l
    · exact ih hl htail _
    · have he : e = (k, x) := ((List.mem_cons.mp h).resolve_right hl).symm
      have hrest : ((m.assign e.1 e.2).assignAll l).lookup k = (m.assign e.1 e.2).lookup k :=
        lookup_assignAll_of_not_mem (fun y hy => hl (htail y hy ▸ hy)) _
      refine hrest.trans ?_
      rw [he, lookup_assign, if_pos rfl]

theorem lookup_assignAll {l : List (κ × β)} {s : κ → Option β}
    (hl : ∀ k x, (k, x) ∈ l ↔ s k = some x) (m : NodeMap κ β) (k : κ) :
    (m.assignAll l).lookup k = (s k).or (m.lookup k) := by
  cases hs : s k with
  | none =>
    refine lookup_assignAll_of_not_mem (fun x hx => ?_) m
    rw [hl, hs] at hx
    cases hx
  | some x =>
    refine lookup_assignAll_of_mem ((hl k x).mpr hs) (fun y hy => ?_) m
    rw [hl, hs] at hy
    exact (Option.some.inj hy).symm

theorem mem_entries : (k, x) ∈ m.entries ↔ m.lookup k = some x := by
  constructor
  · intro h
    obtain ⟨n, hn, he⟩ := List.mem_map.mp h
    cases he
    have hf : m.find n.key = some n := find?_of_distinct m.distinctKeys hn
    rw [lookup, hf, Option.map_some]
  · intro h
    obtain ⟨n, hn, rfl⟩ := Option.map_eq_some_iff.mp h
    rw [← find_key hn]
    exact List.mem_map.mpr ⟨n, List.mem_of_find?_eq_some hn, rfl⟩

/-! ### Without the nodes -/

/-- The finite map that the nodes stand for. -/
def toFinmap (m : NodeMap κ β) : Finmap fun _ : κ => β :=
  (m.nodes.map fun n => (⟨n.key, n.value⟩ : Sigma fun _ : κ => β)).toFinmap

@[simp] theorem lookup_toFinmap (m : NodeMap κ β) (k : κ) : m.toFinmap.lookup k = m.lookup k := by
  have hgo : ∀ l : List (Node κ β),
      (l.map fun n => (⟨n.key, n.value⟩ : Sigma fun _ : κ => β)).dlookup k =
        (l.find? fun n => n.key = k).map (·.value) := by
    intro l
    induction l with
    | nil => rfl
    | cons n l ih =>
      by_cases he : n.key = k
      · subst he
        rw [List.map_cons, List.dlookup_cons_eq, List.find?_cons_of_pos (by simp)]
        rfl
      · rw [List.map_cons, List.dlookup_cons_ne _ _ (Ne.symm he), ih,
          List.find?_cons_of_neg (by simpa using he)]
  rw [toFinmap, Finmap.dlookup_list_toFinmap]
  exact hgo m.nodes

end NodeMap

end GzPlugin.NodeMaps
