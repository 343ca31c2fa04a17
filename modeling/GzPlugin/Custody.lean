import GzPlugin.Products

/-!
# Who owns the references to factories

Every reference to a factory belongs to one product, with the deleter that deletes it, or to
one entry of the list of lost products. The steps hand references on or let go of them, and
everything else that the process does leaves them alone.
-/

namespace GzPlugin

open FiniteMaps Runs

set_option autoImplicit false

/-! ### Partial functions that do not repeat a value -/

section Distinct

variable {α β : Type} {f g : α → Option β} {a : α} {x : β}

def Distinct (f : α → Option β) : Prop := ∀ ⦃a b x⦄, f a = some x → f b = some x → a = b

theorem Distinct.of_le (h : Distinct f) (hle : ∀ a x, g a = some x → f a = some x) :
    Distinct g := fun _ _ x ha hb => h (hle _ x ha) (hle _ x hb)

variable [DecidableEq α]

theorem Distinct.update {y : Option β} (h : Distinct f)
    (hnew : ∀ x ∈ y, ∀ b, f b = some x → b = a) : Distinct (Function.update f a y) := by
  intro b c x hb hc
  rw [Function.update_apply] at hb hc
  split at hb <;> split at hc
  · rw [‹b = a›, ‹c = a›]
  · rw [‹b = a›, hnew x hb c hc]
  · rw [‹c = a›, hnew x hc b hb]
  · exact h hb hc

end Distinct

namespace Process

variable {env : Env} {p p' p'' : Process} {op : Op} {v : Var}

/-! ### What the process leaves alone -/

def instanceOf (p : Process) (v : Var) : Option InstancePtr :=
  (p.plugins.lookup v).bind (·.loadedInstancePtr)

/-- The process goes on; only the references and variables that are named keep their values. -/
structure Spares (env : Env) (refs : Nat → Prop) (vars : Var → Prop) (p p' : Process) : Prop where
  consistent : Consistent env p'
  shared : ∀ i, refs i → p'.shared.lookup i = p.shared.lookup i
  plugins : ∀ v, vars v → v ∈ p'.plugins ∧ p'.instanceOf v = p.instanceOf v
  fromThis : ∀ block, block ∈ p.fromThis → block ∈ p'.world.instances → block ∈ p'.fromThis
  next : p.world.next ≤ p'.world.next
  old : ∀ block, block < p.world.next → block ∈ p'.world.instances → block ∈ p.world.instances

theorem step_shared {i : Nat} (hs : step env p op = some p') (hi : i ∈ p.shared)
    (hop : op.drops ≠ some i) : p'.shared.lookup i = p.shared.lookup i := by
  have hnew : ∀ {k : Nat} {x : Option InstancePtr}, k ∉ p.shared →
      Function.update (fun i => p.shared.lookup i) k x i = p.shared.lookup i := by
    intro k x hk
    apply Function.update_of_ne
    rintro rfl
    exact hk hi
  have hen := (step_eq_some.mp hs).1
  refine (congrFun (step_binds hs).shared i).trans ?_
  cases op with
  | queryInterfaceSharedPtr k v interface => exact hnew hen.1
  | shareInstance k v => exact hnew hen.1
  | dropShared k =>
    apply Function.update_of_ne
    rintro rfl
    exact hop rfl
  | _ => rfl

theorem step_ref (hs : step env p op = some p') (hv : v ∈ p.plugins)
    (hop : op.overwrites ≠ some v) : p'.ref v = p.ref v := by
  obtain ⟨pl, hl⟩ := Finmap.mem_iff.mp hv
  cases ho : op.overwrites with
  | none => rw [step_ref_old ho hs (ref_eq hl), ref_eq hl]
  | some u =>
    rw [ho] at hop
    have hne : v ≠ u := fun he => hop (by rw [he])
    rw [(step_binds hs).ref]
    cases op with
    | assign u' w =>
      cases ho
      exact Function.update_of_ne hne _ _
    | clear u' =>
      cases ho
      exact Function.update_of_ne hne _ _
    | destroy u' =>
      cases ho
      exact Function.update_of_ne hne _ _
    | _ => cases ho

theorem rebind_self {κ β : Type} [DecidableEq κ] (f : κ → Option β) (k : κ) (x : Option β) :
    rebind f (some (k, x)) k = x := by
  rw [rebind, Function.update_self]

theorem instanceOf_eq (p : Process) (v : Var) : p.instanceOf v = (p.ref v).bind (·.instance_) :=
  (ref_bind_instance p v).symm

theorem Released.fromThis_mem {fails : Prop} {block : Nat} (h : Released fails p p')
    (hm : block ∈ p.fromThis) (halive : block ∈ p'.world.instances) : block ∈ p'.fromThis := by
  obtain ⟨i, hi⟩ := Finmap.mem_iff.mp halive
  rw [h.instances] at hi
  split at hi
  · rename_i hh
    rw [← Finmap.lookup_isSome, h.fromThis, if_pos hh, Finmap.lookup_isSome]
    exact hm
  · cases hi

theorem step_fromThis {block : Nat} (h : Consistent env p) (hs : step env p op = some p')
    (hm : block ∈ p.fromThis) (halive : block ∈ p'.world.instances) : block ∈ p'.fromThis := by
  cases step_effect h hs with
  | released _ hrel _ => exact hrel.fromThis_mem hm halive
  | made v new weak _ _ _ _ hmade =>
    rcases hmade.fromThis with he | he <;> rw [he]
    · exact hm
    · exact Finmap.mem_insert.mpr (Or.inr hm)

theorem step_spares {refs : Nat → Prop} {vars : Var → Prop} (h : Consistent env p)
    (hs : step env p op = some p')
    (hrefs : ∀ i, refs i → i ∈ p.shared ∧ op.drops ≠ some i)
    (hvars : ∀ v, vars v → v ∈ p.plugins ∧ op.overwrites ≠ some v) :
    Spares env refs vars p p' where
  consistent := step_consistent h hs
  shared i hi := step_shared hs (hrefs i hi).1 (hrefs i hi).2
  plugins v hv := by
    have hsame := step_ref hs (hvars v hv).1 (hvars v hv).2
    constructor
    · rw [mem_plugins_iff_ref, hsame, ← mem_plugins_iff_ref]
      exact (hvars v hv).1
    · rw [instanceOf_eq, hsame, ← instanceOf_eq]
  fromThis _ hm := step_fromThis h hs hm
  next := step_next_le h hs
  old _ := step_old_mem h hs

theorem Spares.refl {refs : Nat → Prop} {vars : Var → Prop} (h : Consistent env p)
    (hvars : ∀ v, vars v → v ∈ p.plugins) : Spares env refs vars p p :=
  ⟨h, fun _ _ => rfl, fun v hv => ⟨hvars v hv, rfl⟩, fun _ hm _ => hm, Nat.le_refl _,
    fun _ _ => id⟩

theorem Spares.trans {refs : Nat → Prop} {vars : Var → Prop} (hp : Consistent env p)
    (h : Spares env refs vars p p') (h' : Spares env refs vars p' p'') :
    Spares env refs vars p p'' where
  consistent := h'.consistent
  shared i hi := (h'.shared i hi).trans (h.shared i hi)
  plugins v hv := ⟨(h'.plugins v hv).1, (h'.plugins v hv).2.trans (h.plugins v hv).2⟩
  fromThis block hm halive := by
    have hlt := hp.lt_next (hp.this_alive block hm)
    have halive' := h'.old block (hlt.trans_le h.next) halive
    exact h'.fromThis block (h.fromThis block hm halive') halive
  next := h.next.trans h'.next
  old block hlt halive := h.old block hlt (h'.old block (hlt.trans_le h.next) halive)

theorem dropShared_spares {refs : Nat → Prop} {vars : Var → Prop} {i : Nat}
    (h : Consistent env p) (hrefs : ∀ k, refs k → k ∈ p.shared ∧ k ≠ i)
    (hvars : ∀ v, vars v → v ∈ p.plugins) : Spares env refs vars p (p.dropShared i) := by
  by_cases hi : i ∈ p.shared
  · have hs : step env p (.dropShared i) = some (p.dropShared i) := step_eq_some.mpr ⟨hi, rfl⟩
    refine step_spares h hs ?_ ?_
    · intro k hk
      refine ⟨(hrefs k hk).1, ?_⟩
      intro he
      exact (hrefs k hk).2 (Option.some.inj he).symm
    · exact fun v hv => ⟨hvars v hv, nofun⟩
  · have hsame : p.shared.erase i = p.shared := by
      apply Finmap.ext_lookup
      intro k
      rw [lookup_erase_eq]
      split
      · rw [‹k = i›, Finmap.lookup_eq_none.mpr hi]
      · rfl
    have hdrop : p.dropShared i = p := by
      rw [dropShared, Finmap.lookup_eq_none.mpr hi, hsame]
      rfl
    rw [hdrop]
    exact .refl h hvars

theorem dropAll_spares {refs : Nat → Prop} {vars : Var → Prop} (keys : List Nat)
    (h : Consistent env p) (hrefs : ∀ k, refs k → k ∈ p.shared ∧ k ∉ keys)
    (hvars : ∀ v, vars v → v ∈ p.plugins) :
    Spares env refs vars p (keys.foldl dropShared p) := by
  induction keys generalizing p with
  | nil => exact .refl h hvars
  | cons i keys ih =>
    have hfirst : Spares env refs vars p (p.dropShared i) := by
      refine dropShared_spares h ?_ hvars
      exact fun k hk => ⟨(hrefs k hk).1, List.ne_of_not_mem_cons (hrefs k hk).2⟩
    refine hfirst.trans h (ih hfirst.consistent ?_ fun v hv => (hfirst.plugins v hv).1)
    intro k hk
    refine ⟨?_, List.not_mem_of_not_mem_cons (hrefs k hk).2⟩
    rw [← Finmap.lookup_isSome, hfirst.shared k hk, Finmap.lookup_isSome]
    exact (hrefs k hk).1

theorem share_spares {refs : Nat → Prop} {vars : Var → Prop} {k : Nat} {ptr : InstancePtr}
    (h : Consistent env p) (hk : k ∉ p.shared) (hheld : p.InstanceHeld ptr.block)
    (hrefs : ∀ i, refs i → i ∈ p.shared) (hvars : ∀ v, vars v → v ∈ p.plugins) :
    Spares env refs vars p (p.share k (some ptr)) := by
  have href : ∀ ptr' ∈ some ptr, p.InstanceHeld ptr'.block := by
    rintro _ ⟨⟩
    exact hheld
  obtain ⟨hrel, hsame⟩ := share_released h hk href
  refine ⟨hrel.consistent h h.sound hsame, ?_, fun v hv => ⟨hvars v hv, rfl⟩,
    fun block hm halive => hrel.fromThis_mem hm halive, hrel.next, fun _ _ => id⟩
  intro i hi
  apply Finmap.lookup_insert_of_ne
  rintro rfl
  exact hk (hrefs i hi)

end Process

/-! ### Owners -/

inductive Owner where
  /-- The product, and the `ProductDeleter` that deletes it. -/
  | product (q : Nat)
  /-- An entry of the list of lost products. -/
  | lost (n : Nat)
  deriving DecidableEq

def Product.reference (product : Product) : Option Nat :=
  product.factoryPluginInstancePtr.or product.held

namespace Products

variable {env : Env} {s : Products} {l l' : Ledger} {p : Process} {q i k : Nat} {t : Var}
  {product : Product} {o : Owner}

def ref (s : Products) : Owner → Option Nat
  | .product q => (s.products.lookup q).bind Product.reference
  | .lost n => s.lostProducts[n]?

/-- The factory that the reference of an owner is for. -/
def target (s : Products) (l : Ledger) : Owner → Option Nat
  | .product q => (s.products.lookup q).bind (·.factory)
  | .lost n => l.handed[n]?.map Prod.snd

def temp (s : Products) (q : Nat) : Option Var :=
  (s.products.lookup q).bind fun product => product.stage.temporary

/-- What a product has at its stage. -/
def Orderly (p : Process) (l : Ledger) (q : Nat) (product : Product) : Prop :=
  match product.stage with
  | .constructed => product.factoryPluginInstancePtr = none ∧ product.held = none
  | .locked t => product.factoryPluginInstancePtr = none ∧ product.held = none ∧
      (p.instanceOf t).map (·.block) = product.factory
  | .assigned _ | .existing => product.held = none ∧
      (product.factory ≠ none → product.factoryPluginInstancePtr ≠ none)
  | .destructing false => product.held = none ∧
      (product.factoryPluginInstancePtr ≠ none → l.plain.lookup q = product.factory)
  | .leaving false => product.held = none
  | .destructing true | .leaving true | .destroyed =>
    product.factoryPluginInstancePtr = none ∧ l.taken.lookup q = some product.held

/-- The references are as the ledger says. -/
structure Accounts (env : Env) (s : Products) (l : Ledger) : Prop where
  consistent : Process.Consistent env s.process
  distinct : Distinct s.ref
  held : ∀ {o i}, s.ref o = some i → ∃ ptr, s.process.shared.lookup i = some ptr ∧
    s.target l o = some ptr.block
  length : s.lostProducts.length = l.handed.length
  temps : Distinct s.temp
  temp_mem : ∀ {q t}, s.temp q = some t → t ∈ s.process.plugins
  orderly : ∀ {q product}, s.products.lookup q = some product → Orderly s.process l q product
  constructing : ∀ {q product}, s.products.lookup q = some product →
    product.stage.constructing → ∀ block ∈ product.factory, block ∈ s.process.fromThis
  lt_next : ∀ {q}, q ∈ s.products → q < s.next
  plain : ∀ {q factory}, l.plain.lookup q = some factory →
    ∃ product, s.products.lookup q = some product ∧ product.stage = .destructing false ∧
      product.factory = some factory ∧ product.factoryPluginInstancePtr ≠ none
  handed : ∀ e ∈ l.handed, e.1 < s.next ∧
    ∀ product ∈ s.products.lookup e.1, product.stage = .leaving false
  once : (l.handed.map Prod.fst).Nodup

theorem init_accounts (env : Env) : Accounts env init .empty where
  consistent := Process.init_consistent env
  distinct := by
    rintro (q | n) b i h <;> simp [ref, init] at h
  held {o i} h := by
    cases o <;> simp [ref, init] at h
  length := rfl
  temps q q' t h := by simp [temp, init] at h
  temp_mem h := by simp [temp, init] at h
  orderly h := by simp [init] at h
  constructing h := by simp [init] at h
  lt_next h := absurd h Finmap.notMem_empty
  plain h := by simp [Ledger.empty] at h
  handed e h := absurd h List.not_mem_nil
  once := List.nodup_nil

theorem ref_of_lookup (h : s.products.lookup q = some product) :
    s.ref (.product q) = product.reference := by
  rw [ref, h, Option.bind_some]

theorem temp_of_lookup (h : s.products.lookup q = some product) :
    s.temp q = product.stage.temporary := by
  rw [temp, h, Option.bind_some]

theorem Orderly.one (h : Orderly p l q product) :
    product.factoryPluginInstancePtr = none ∨ product.held = none := by
  unfold Orderly at h
  split at h
  · exact Or.inl h.1
  · exact Or.inl h.1
  · exact Or.inr h.1
  · exact Or.inr h.1
  · exact Or.inr h.1
  · exact Or.inr h
  · exact Or.inl h.1
  · exact Or.inl h.1
  · exact Or.inl h.1

theorem Orderly.imp {p' : Process} (h : Orderly p l q product)
    (hinst : ∀ t ∈ product.stage.temporary, p'.instanceOf t = p.instanceOf t)
    (hplain : l'.plain.lookup q = l.plain.lookup q)
    (htaken : l'.taken.lookup q = l.taken.lookup q) : Orderly p' l' q product := by
  unfold Orderly at h ⊢
  cases hstage : product.stage with
  | locked t =>
    have ht : t ∈ product.stage.temporary := by rw [hstage]; rfl
    simp only [hstage] at h ⊢
    rw [hinst t ht]
    exact h
  | destructing byDeleter =>
    cases byDeleter <;> simp only [hstage] at h ⊢
    · rw [hplain]
      exact h
    · rw [htaken]
      exact h
  | leaving byDeleter =>
    cases byDeleter <;> simp only [hstage] at h ⊢
    · exact h
    · rw [htaken]
      exact h
  | destroyed =>
    simp only [hstage] at h ⊢
    rw [htaken]
    exact h
  | _ => simpa only [hstage] using h

theorem Accounts.owned_iff (h : Accounts env s l) : s.Owned i ↔ ∃ o, s.ref o = some i := by
  constructor
  · rintro (⟨q, product, hl, hi⟩ | hi)
    · refine ⟨.product q, ?_⟩
      rw [ref_of_lookup hl, Product.reference]
      rcases (h.orderly hl).one with hn | hn
      · rw [hn] at hi ⊢
        exact hi.resolve_left nofun
      · rw [hn] at hi ⊢
        rw [Option.or_none]
        exact hi.resolve_right nofun
    · obtain ⟨n, hn, he⟩ := List.mem_iff_getElem.mp hi
      exact ⟨.lost n, (List.getElem?_eq_getElem hn).trans (congrArg some he)⟩
  · rintro ⟨o, ho⟩
    cases o with
    | product q =>
      obtain ⟨product, hl, hr⟩ := Option.bind_eq_some_iff.mp ho
      refine Or.inl ⟨q, product, hl, ?_⟩
      rcases Option.or_eq_some_iff.mp hr with hi | ⟨_, hi⟩
      · exact Or.inl hi
      · exact Or.inr hi
    | lost n => exact Or.inr (List.mem_of_getElem? ho)

theorem temporary_iff : s.Temporary t ↔ ∃ q, s.temp q = some t := by
  constructor
  · rintro ⟨q, product, hl, ht⟩
    exact ⟨q, (temp_of_lookup hl).trans ht⟩
  · rintro ⟨q, ht⟩
    obtain ⟨product, hl, ht⟩ := Option.bind_eq_some_iff.mp ht
    exact ⟨q, product, hl, ht⟩

theorem Accounts.mem_shared (h : Accounts env s l) (ho : s.ref o = some i) :
    i ∈ s.process.shared := by
  obtain ⟨ptr, hptr, _⟩ := h.held ho
  exact Finmap.mem_of_lookup_eq_some hptr

theorem Accounts.own (h : Accounts env s l) (hl : s.products.lookup q = some product)
    (hi : product.reference = some i) : (∀ o, s.ref o = some i → o = .product q) ∧
      ∃ ptr, s.process.shared.lookup i = some ptr ∧ product.factory = some ptr.block := by
  have ho : s.ref (.product q) = some i := (ref_of_lookup hl).trans hi
  refine ⟨fun o h' => h.distinct h' ho, ?_⟩
  obtain ⟨ptr, hptr, ht⟩ := h.held ho
  rw [target, hl] at ht
  exact ⟨ptr, hptr, ht⟩

/-! ### The process goes on -/

/-- What is not touched by a step of the process: what products, deleters and the lost
products own, and the temporaries. -/
abbrev Spared (env : Env) (s : Products) (p : Process) : Prop :=
  Process.Spares env (fun i => ∃ o, s.ref o = some i) (fun t => ∃ q, s.temp q = some t)
    s.process p

theorem Accounts.process (h : Accounts env s l) (hp : Spared env s p)
    (hcalls : s.CallsSurvive p) : Accounts env { s with process := p } l where
  consistent := hp.consistent
  distinct := h.distinct
  held {o i} ho := by
    obtain ⟨ptr, hptr, ht⟩ := h.held ho
    exact ⟨ptr, (hp.shared i ⟨o, ho⟩).trans hptr, ht⟩
  length := h.length
  temps := h.temps
  temp_mem {q t} ht := (hp.plugins t ⟨q, ht⟩).1
  orderly {q product} hl := by
    refine (h.orderly hl).imp ?_ rfl rfl
    intro t ht
    exact (hp.plugins t ⟨q, (temp_of_lookup hl).trans ht⟩).2
  constructing {q product} hl hstage block hb := by
    refine hp.fromThis block (h.constructing hl hstage block hb) ?_
    by_contra hn
    exact hcalls ⟨q, product, hl, hstage, block, hb, hn⟩
  lt_next := h.lt_next
  plain := h.plain
  handed := h.handed
  once := h.once

/-! ### A product changes -/

/-- The product gets the value `x`, or is gone. -/
structure Puts (s : Products) (q : Nat) (x : Option Product) (s' : Products) : Prop where
  process : s'.process = s.process
  lostProducts : s'.lostProducts = s.lostProducts
  next : s'.next = s.next
  lookup : ∀ q', s'.products.lookup q' = if q' = q then x else s.products.lookup q'

theorem setProduct_puts (s : Products) (q : Nat) (product : Product) :
    Puts s q (some product) (s.setProduct q product) :=
  ⟨rfl, rfl, rfl, fun _ => lookup_insert_eq _ _ _ _⟩

theorem eraseProduct_puts (s : Products) (q : Nat) : Puts s q none (s.eraseProduct q) :=
  ⟨rfl, rfl, rfl, fun _ => lookup_erase_eq _ _ _⟩

/-- The product is in order and owns only what is its own. -/
structure Fits (s : Products) (l : Ledger) (q : Nat) (product : Product) : Prop where
  lt_next : q < s.next
  own : ∀ i, product.reference = some i → (∀ o, s.ref o = some i → o = .product q) ∧
    ∃ ptr, s.process.shared.lookup i = some ptr ∧ product.factory = some ptr.block
  temp : ∀ t ∈ product.stage.temporary,
    t ∈ s.process.plugins ∧ ∀ q', s.temp q' = some t → q' = q
  orderly : Orderly s.process l q product
  constructing : product.stage.constructing →
    ∀ block ∈ product.factory, block ∈ s.process.fromThis

/-- The ledgers differ in what they say about the product at most. -/
structure SameBut (q : Nat) (l l' : Ledger) : Prop where
  plain : ∀ q', q' ≠ q → l'.plain.lookup q' = l.plain.lookup q'
  taken : ∀ q', q' ≠ q → l'.taken.lookup q' = l.taken.lookup q'
  handed : l'.handed = l.handed

variable {s' : Products} {x : Option Product}

theorem Puts.ref (h : Puts s q x s') :
    s'.ref = Function.update s.ref (.product q) (x.bind Product.reference) := by
  funext o
  cases o with
  | product q' =>
    rw [Products.ref, h.lookup, Function.update_apply]
    by_cases hq : q' = q
    · rw [if_pos hq, if_pos (congrArg Owner.product hq)]
    · rw [if_neg hq, if_neg fun he => hq (Owner.product.inj he)]
      rfl
  | lost n =>
    have hne : Owner.lost n ≠ .product q := nofun
    rw [Function.update_of_ne hne, Products.ref, h.lostProducts]
    rfl

theorem Puts.temp (h : Puts s q x s') :
    s'.temp = Function.update s.temp q (x.bind fun product => product.stage.temporary) := by
  funext q'
  rw [Products.temp, h.lookup, Function.update_apply]
  split <;> rfl

theorem Accounts.put (h : Accounts env s l) (hs : Puts s q x s') (hl : SameBut q l l')
    (hfits : ∀ product ∈ x, Fits s l' q product)
    (hplain : ∀ factory, l'.plain.lookup q = some factory →
      ∃ product, x = some product ∧ product.stage = .destructing false ∧
        product.factory = some factory ∧ product.factoryPluginInstancePtr ≠ none)
    (hhanded : ∀ e ∈ l.handed, e.1 = q → ∀ product ∈ x, product.stage = .leaving false) :
    Accounts env s' l' where
  consistent := by
    rw [hs.process]
    exact h.consistent
  distinct := by
    rw [hs.ref]
    apply h.distinct.update
    intro i hi o ho
    obtain ⟨product, hx, hr⟩ := Option.bind_eq_some_iff.mp hi
    exact ((hfits product hx).own i hr).1 o ho
  held {o i} ho := by
    rw [hs.process]
    rw [hs.ref, Function.update_apply] at ho
    split at ho
    · rename_i he
      obtain ⟨product, hx, hr⟩ := Option.bind_eq_some_iff.mp ho
      obtain ⟨ptr, hptr, hfactory⟩ := ((hfits product hx).own i hr).2
      refine ⟨ptr, hptr, ?_⟩
      rw [he, target, hs.lookup, if_pos rfl, hx, Option.bind_some, hfactory]
    · rename_i hne
      obtain ⟨ptr, hptr, ht⟩ := h.held ho
      refine ⟨ptr, hptr, ht ▸ ?_⟩
      cases o with
      | product q' =>
        rw [target, target, hs.lookup, if_neg fun he => hne (congrArg Owner.product he)]
      | lost n => rw [target, target, hl.handed]
  length := by rw [hs.lostProducts, hl.handed, h.length]
  temps := by
    rw [hs.temp]
    apply h.temps.update
    intro t ht q' hq'
    obtain ⟨product, hx, hr⟩ := Option.bind_eq_some_iff.mp ht
    exact ((hfits product hx).temp t hr).2 q' hq'
  temp_mem {q' t} ht := by
    rw [hs.process]
    rw [hs.temp, Function.update_apply] at ht
    split at ht
    · obtain ⟨product, hx, hr⟩ := Option.bind_eq_some_iff.mp ht
      exact ((hfits product hx).temp t hr).1
    · exact h.temp_mem ht
  orderly {q' product} hp := by
    rw [hs.process]
    rw [hs.lookup] at hp
    split at hp
    · rename_i he
      rw [he]
      exact (hfits product hp).orderly
    · rename_i hne
      exact (h.orderly hp).imp (fun _ _ => rfl) (hl.plain q' hne) (hl.taken q' hne)
  constructing {q' product} hp := by
    rw [hs.process]
    rw [hs.lookup] at hp
    split at hp
    · exact (hfits product hp).constructing
    · exact h.constructing hp
  lt_next {q'} hm := by
    rw [hs.next]
    obtain ⟨product, hp⟩ := Finmap.mem_iff.mp hm
    rw [hs.lookup] at hp
    split at hp
    · rename_i he
      rw [he]
      exact (hfits product hp).lt_next
    · exact h.lt_next (Finmap.mem_of_lookup_eq_some hp)
  plain {q' factory} hf := by
    rw [hs.lookup]
    split
    · rename_i he
      rw [he] at hf
      exact hplain factory hf
    · rename_i hne
      rw [hl.plain q' hne] at hf
      exact h.plain hf
  handed e he := by
    rw [hl.handed] at he
    rw [hs.next, hs.lookup]
    refine ⟨(h.handed e he).1, ?_⟩
    split
    · exact hhanded e he ‹_›
    · exact (h.handed e he).2
  once := by
    rw [hl.handed]
    exact h.once

theorem CallsSurvive.put (h : s.CallsSurvive p) (hs : Puts s q x s')
    (hx : ∀ product ∈ x, product.stage.constructing = false) : s'.CallsSurvive p := by
  rintro ⟨q', product, hp, hstage, hdead⟩
  rw [hs.lookup] at hp
  split at hp
  · rw [hx product hp] at hstage
    cases hstage
  · exact h ⟨q', product, hp, hstage, hdead⟩

/-! ### The list of lost products -/

theorem ref_record (s : Products) (k : Nat) :
    ({ s with lostProducts := s.lostProducts ++ [k] } : Products).ref =
      Function.update s.ref (.lost s.lostProducts.length) (some k) := by
  funext o
  cases o with
  | product q =>
    have hne : Owner.product q ≠ .lost s.lostProducts.length := nofun
    rw [Function.update_of_ne hne]
    rfl
  | lost n =>
    rw [ref, Function.update_apply]
    by_cases hn : n = s.lostProducts.length
    · rw [hn, if_pos rfl, List.getElem?_concat_length]
    · rw [if_neg fun he => hn (Owner.lost.inj he), ref]
      rcases Nat.lt_or_gt_of_ne hn with hlt | hgt
      · exact List.getElem?_append_left hlt
      · rw [List.getElem?_eq_none hgt.le, List.getElem?_eq_none]
        rw [List.length_append]
        exact hgt

theorem Accounts.record (h : Accounts env s l) {ptr : InstancePtr}
    (hk : ∀ o, s.ref o ≠ some k) (hptr : s.process.shared.lookup k = some ptr)
    (hlt : q < s.next) (hstage : ∀ product ∈ s.products.lookup q, product.stage = .leaving false)
    (hq : q ∉ l.handed.map Prod.fst) :
    Accounts env { s with lostProducts := s.lostProducts ++ [k] }
      { l with handed := l.handed ++ [(q, ptr.block)] } where
  consistent := h.consistent
  distinct := by
    rw [ref_record]
    apply h.distinct.update
    rintro _ ⟨⟩ o ho
    exact absurd ho (hk o)
  held {o i} ho := by
    rw [ref_record, Function.update_apply] at ho
    split at ho
    · cases ho
      rename_i he
      refine ⟨ptr, hptr, ?_⟩
      rw [he, h.length, target, List.getElem?_concat_length]
      rfl
    · obtain ⟨ptr', hptr', ht⟩ := h.held ho
      refine ⟨ptr', hptr', ?_⟩
      cases o with
      | product q' => exact ht
      | lost n =>
        obtain ⟨e, he, hb⟩ := Option.map_eq_some_iff.mp ht
        obtain ⟨hn, _⟩ := List.getElem?_eq_some_iff.mp he
        rw [target, List.getElem?_append_left hn]
        exact ht
  length := by simp [h.length]
  temps := h.temps
  temp_mem := h.temp_mem
  orderly hl := (h.orderly hl).imp (fun _ _ => rfl) rfl rfl
  constructing := h.constructing
  lt_next := h.lt_next
  plain := h.plain
  handed e he := by
    rcases List.mem_append.mp he with he | he
    · exact h.handed e he
    · rw [List.mem_singleton.mp he]
      exact ⟨hlt, hstage⟩
  once := by
    rw [List.map_append, List.nodup_append]
    refine ⟨h.once, List.nodup_singleton _, ?_⟩
    rintro a ha b hb rfl
    rw [List.mem_singleton.mp hb] at ha
    exact hq ha

theorem Accounts.cleared (h : Accounts env s l) :
    Accounts env { s with lostProducts := [] } { l with handed := [] } where
  consistent := h.consistent
  distinct := by
    refine h.distinct.of_le ?_
    rintro (q | n) i hi
    · exact hi
    · simp [ref] at hi
  held {o i} ho := by
    cases o with
    | product q => exact h.held (o := .product q) ho
    | lost n => simp [ref] at ho
  length := rfl
  temps := h.temps
  temp_mem := h.temp_mem
  orderly hl := (h.orderly hl).imp (fun _ _ => rfl) rfl rfl
  constructing := h.constructing
  lt_next := h.lt_next
  plain := h.plain
  handed _ he := absurd he List.not_mem_nil
  once := List.nodup_nil

end Products

end GzPlugin
