import GzPlugin.Custody

/-!
# The count of lost products

Every step of the products keeps the accounts: a product keeps its factory alive, and
the list of lost products has one reference for every product that was deleted without a
`ProductDeleter` since the last cleanup.
-/

namespace GzPlugin

open FiniteMaps Runs

set_option autoImplicit false

namespace Products

variable {env : Env} {s s' : Products} {l l' : Ledger} {p : Process} {q i k : Nat} {t : Var}
  {product : Product} {op : Op}

/-! ### The steps -/

theorem forall_mem_none {α : Type} {P : α → Prop} : ∀ a ∈ (none : Option α), P a :=
  fun _ ha => absurd ha (Option.not_mem_none _)

theorem Accounts.spared {op : Process.Op} (h : Accounts env s l)
    (hs : Process.step env s.process op = some p) (hrefs : ∀ i ∈ op.drops, ¬ s.Owned i)
    (hvars : ∀ t ∈ op.overwrites, ¬ s.Temporary t) : Spared env s p := by
  apply Process.step_spares h.consistent hs
  · rintro i ⟨o, ho⟩
    refine ⟨h.mem_shared ho, fun hi => hrefs i hi ?_⟩
    exact h.owned_iff.mpr ⟨o, ho⟩
  · rintro t ⟨q, ht⟩
    exact ⟨h.temp_mem ht, fun hi => hvars t hi (temporary_iff.mpr ⟨q, ht⟩)⟩

theorem Accounts.drop (h : Accounts env s l) {r : Option Nat}
    (hr : ∀ i ∈ r, ∀ o, s.ref o ≠ some i) (hcalls : s.CallsSurvive (s.drop r).process) :
    Accounts env (s.drop r) l := by
  cases r with
  | none => exact h
  | some i =>
    refine h.process (Process.dropShared_spares h.consistent ?_ ?_) hcalls
    · rintro k ⟨o, ho⟩
      refine ⟨h.mem_shared ho, ?_⟩
      rintro rfl
      exact hr k rfl o ho
    · rintro t ⟨q, ht⟩
      exact h.temp_mem ht

theorem Accounts.not_handed (h : Accounts env s l) (hl : s.products.lookup q = some product)
    (hstage : product.stage ≠ .leaving false) : ∀ e ∈ l.handed, e.1 ≠ q := by
  rintro e he rfl
  exact hstage ((h.handed e he).2 product hl)

theorem Accounts.not_plain (h : Accounts env s l) (hl : s.products.lookup q = some product)
    (hno : product.stage ≠ .destructing false ∨ product.factoryPluginInstancePtr = none) :
    l.plain.lookup q = none := by
  cases hp : l.plain.lookup q with
  | none => rfl
  | some factory =>
    obtain ⟨product', hl', hstage, _, href⟩ := h.plain hp
    rw [hl] at hl'
    cases hl'
    rcases hno with hno | hno
    · exact absurd hstage hno
    · exact absurd hno href

theorem SameBut.refl (q : Nat) (l : Ledger) : SameBut q l l :=
  ⟨fun _ _ => rfl, fun _ _ => rfl, rfl⟩

theorem Accounts.move (h : Accounts env s l) (hl : s.products.lookup q = some product)
    {new : Product} (hs : Puts s q (some new) s') (hsame : SameBut q l l')
    (hp : l'.plain.lookup q = none) (hfits : Fits s l' q new)
    (hstage : product.stage ≠ .leaving false ∨ new.stage = .leaving false) :
    Accounts env s' l' := by
  refine h.put hs hsame ?_ ?_ ?_
  · rintro _ ⟨⟩
    exact hfits
  · intro factory hf
    rw [hp] at hf
    cases hf
  · rintro e he heq _ ⟨⟩
    rcases hstage with hne | hnew
    · exact absurd heq (h.not_handed hl hne e he)
    · exact hnew

theorem Accounts.fits (h : Accounts env s l) (hl : s.products.lookup q = some product)
    {new : Product} (hfactory : new.factory = product.factory)
    (href : new.reference = product.reference)
    (htemp : ∀ t ∈ new.stage.temporary,
      t ∈ s.process.plugins ∧ ∀ q', s.temp q' = some t → q' = q)
    (hconstructing : new.stage.constructing → product.stage.constructing)
    (horder : Orderly s.process l' q new) : Fits s l' q new where
  lt_next := h.lt_next (Finmap.mem_of_lookup_eq_some hl)
  own i hi := by
    rw [hfactory]
    exact h.own hl (href ▸ hi)
  temp := htemp
  orderly := horder
  constructing hstage := by
    rw [hfactory]
    exact h.constructing hl (hconstructing hstage)

/-- A stage without a temporary, in which nothing is being constructed. -/
theorem Accounts.fits_idle (h : Accounts env s l) (hl : s.products.lookup q = some product)
    {new : Product} (hfactory : new.factory = product.factory)
    (href : new.reference = product.reference) (htemp : new.stage.temporary = none)
    (hconstructing : new.stage.constructing = false)
    (horder : Orderly s.process l' q new) : Fits s l' q new := by
  refine h.fits hl hfactory href ?_ ?_ horder
  · intro t ht
    rw [htemp] at ht
    cases ht
  · intro hstage
    rw [hconstructing] at hstage
    cases hstage

theorem construct_accounts (h : Accounts env s l) {factory : Option Nat}
    (hfactory : ∀ block ∈ factory, block ∈ s.process.fromThis) :
    Accounts env (s.construct factory) l := by
  have hnext : Accounts env { s with next := s.next + 1 } l :=
    { h with
      lt_next := fun hm => (h.lt_next hm).trans (Nat.lt_succ_self _)
      handed := fun e he => ⟨(h.handed e he).1.trans (Nat.lt_succ_self _), (h.handed e he).2⟩ }
  refine hnext.put (q := s.next) (x := some ⟨factory, none, none, .constructed⟩)
    ⟨rfl, rfl, rfl, fun _ => lookup_insert_eq _ _ _ _⟩ (.refl _ l) ?_ ?_ ?_
  · rintro _ ⟨⟩
    exact ⟨Nat.lt_succ_self _, forall_mem_none, forall_mem_none, ⟨rfl, rfl⟩, fun _ => hfactory⟩
  · intro b hb
    obtain ⟨product, hl, _⟩ := h.plain hb
    exact absurd (h.lt_next (Finmap.mem_of_lookup_eq_some hl)) (Nat.lt_irrefl _)
  · intro e he heq
    exact absurd ((h.handed e he).1) (heq ▸ Nat.lt_irrefl _)

theorem lockThis_spec {p' : Process} {factory : Option Nat} (h : Process.Consistent env p)
    (hfactory : ∀ block ∈ factory, block ∈ p.fromThis)
    (hs : Process.step env p (lockThis p factory t) = some p') :
    t ∉ p.plugins ∧ t ∈ p'.plugins ∧ (p'.instanceOf t).map (·.block) = factory ∧
      (lockThis p factory t).drops = none ∧ (lockThis p factory t).overwrites = none := by
  have href := congrFun (Process.step_binds hs).ref t
  have hen := (Process.step_eq_some.mp hs).1
  rw [Process.mem_plugins_iff_ref, Process.mem_plugins_iff_ref, Process.instanceOf_eq, href]
  cases factory with
  | none =>
    have hnew : Process.rebind p.ref (p.rebinds env (lockThis p none t)) t =
        some ⟨none, none⟩ := Process.rebind_self _ _ _
    rw [hnew, ← Process.mem_plugins_iff_ref]
    exact ⟨hen, Option.some_ne_none _, rfl, rfl, rfl⟩
  | some block =>
    have hm := hfactory block rfl
    obtain ⟨weak, hw⟩ := Finmap.mem_iff.mp hm
    obtain ⟨halive, ptr, hptr, hb⟩ := h.fromThis hw
    have hop : lockThis p (some block) t = .pluginFromThis t block := if_pos hm
    rw [hop] at hen ⊢
    have hnew : Process.rebind p.ref (p.rebinds env (.pluginFromThis t block)) t =
        some (p.locked weak) := by
      rw [Process.rebinds, Process.rebind_self, hw]
      rfl
    have hinst : p.lockInstance weak = some ptr := by
      refine Option.filter_eq_some_iff.mpr ⟨hptr, decide_eq_true ?_⟩
      rw [hb]
      exact halive
    rw [hnew, ← Process.mem_plugins_iff_ref, Option.bind_some, Process.locked, hinst,
      Option.map_some, hb]
    exact ⟨hen.1, Option.some_ne_none _, rfl, rfl, rfl⟩

theorem lockThis_accounts (h : Accounts env s l) (hl : s.products.lookup q = some product)
    (hstage : product.stage = .constructed)
    (hs : Process.step env s.process (lockThis s.process product.factory t) = some p)
    (hcalls : s.CallsSurvive p) :
    Accounts env (({ s with process := p } : Products).setProduct q
      { product with stage := .locked t }) l := by
  have hfactory := h.constructing hl (by rw [hstage]; rfl)
  obtain ⟨hnew, ht, hblock, hdrops, hover⟩ := lockThis_spec h.consistent hfactory hs
  have hp : Accounts env { s with process := p } l := by
    refine h.process (h.spared hs ?_ ?_) hcalls
    · rw [hdrops]
      exact forall_mem_none
    · rw [hover]
      exact forall_mem_none
  have horder := h.orderly hl
  simp only [Orderly, hstage] at horder
  refine hp.move hl (setProduct_puts _ q _) (.refl q l) (h.not_plain hl (Or.inr horder.1)) ?_
    (Or.inl (by simp [hstage]))
  refine hp.fits hl rfl rfl ?_ (fun _ => by rw [hstage]; rfl) ⟨horder.1, horder.2, hblock⟩
  rintro _ ⟨⟩
  exact ⟨ht, fun q' hq' => absurd (h.temp_mem hq') hnew⟩

theorem assignReference_accounts (h : Accounts env s l)
    (hl : s.products.lookup q = some product) (hstage : product.stage = .locked t)
    (hs : Process.step env s.process (.shareInstance i t) = some p)
    (hcalls : s.CallsSurvive p) :
    Accounts env (({ s with process := p } : Products).setProduct q
      { product with
        factoryPluginInstancePtr := if i ∈ p.shared then some i else none
        stage := .assigned t }) l := by
  have hp : Accounts env { s with process := p } l :=
    h.process (h.spared hs forall_mem_none forall_mem_none) hcalls
  have horder := h.orderly hl
  simp only [Orderly, hstage] at horder
  obtain ⟨href, hheld, hblock⟩ := horder
  have htemp : s.temp q = some t := by rw [temp_of_lookup hl, hstage]; rfl
  have hi := (Process.step_eq_some.mp hs).1.1
  -- The new reference is the pointer that the temporary has.
  have hptr : p.shared.lookup i = s.process.instanceOf t := by
    have hshared := congrFun (Process.step_binds hs).shared i
    rw [Process.reshares, Process.rebind_self] at hshared
    rw [Process.instanceOf_eq]
    exact hshared
  refine hp.move hl (setProduct_puts _ q _) (.refl q l) (h.not_plain hl (Or.inr href)) ?_
    (Or.inl (by simp [hstage]))
  refine ⟨h.lt_next (Finmap.mem_of_lookup_eq_some hl), ?_, ?_, ⟨hheld, ?_⟩, ?_⟩
  · intro k hk
    rw [Product.reference, hheld, Option.or_none] at hk
    split at hk
    · cases hk
      rename_i hm
      obtain ⟨ptr, hp⟩ := Finmap.mem_iff.mp hm
      refine ⟨fun o ho => absurd (h.mem_shared ho) hi, ptr, hp, ?_⟩
      rw [← hblock, ← hptr, hp]
      rfl
    · cases hk
  · rintro _ ⟨⟩
    exact ⟨hp.temp_mem htemp, fun q' hq' => h.temps hq' htemp⟩
  · intro hne
    have hm : i ∈ p.shared := by
      rw [← Finmap.lookup_isSome, hptr, ← Option.isSome_map, hblock]
      exact Option.isSome_iff_ne_none.mpr hne
    rw [if_pos hm]
    exact Option.some_ne_none _
  · intro _
    have hfactory : ∀ block ∈ product.factory, block ∈ p.fromThis :=
      hp.constructing hl (by rw [hstage]; rfl)
    exact hfactory

theorem returnProduct_accounts (h : Accounts env s l) (hl : s.products.lookup q = some product)
    (hstage : product.stage = .assigned t)
    (hs : Process.step env s.process (.destroy t) = some p) (hcalls : s.CallsSurvive p) :
    Accounts env { s.setProduct q { product with stage := .existing } with process := p } l := by
  have horder := h.orderly hl
  simp only [Orderly, hstage] at horder
  have hputs := setProduct_puts s q { product with stage := .existing }
  have hfirst : Accounts env (s.setProduct q { product with stage := .existing }) l := by
    refine h.move hl hputs (.refl q l) ?_ ?_ (Or.inl (by simp [hstage]))
    · exact h.not_plain hl (Or.inl (by simp [hstage]))
    · exact h.fits_idle hl rfl rfl rfl rfl horder
  have htemp : s.temp q = some t := by rw [temp_of_lookup hl, hstage]; rfl
  refine hfirst.process (hfirst.spared hs forall_mem_none ?_) (hcalls.put hputs ?_)
  · rintro _ ⟨⟩ hm
    obtain ⟨q', hq'⟩ := temporary_iff.mp hm
    rw [hputs.temp, Function.update_apply] at hq'
    split at hq'
    · cases hq'
    · exact absurd (h.temps hq' htemp) ‹_›
  · rintro _ ⟨⟩
    rfl

theorem productDeleter_accounts (h : Accounts env s l)
    (hl : s.products.lookup q = some product) (hstage : product.stage = .existing) :
    Accounts env
      (s.setProduct q { product with
        factoryPluginInstancePtr := product.held
        held := product.factoryPluginInstancePtr
        stage := .destructing true })
      { l with taken := l.taken.insert q product.factoryPluginInstancePtr } := by
  have horder := h.orderly hl
  simp only [Orderly, hstage] at horder
  have hsame : SameBut q l
      { l with taken := l.taken.insert q product.factoryPluginInstancePtr } :=
    ⟨fun _ _ => rfl, fun _ hne => Finmap.lookup_insert_of_ne _ hne, rfl⟩
  refine h.move hl (setProduct_puts _ q _) hsame ?_ ?_ (Or.inl (by simp [hstage]))
  · exact h.not_plain hl (Or.inl (by simp [hstage]))
  · refine h.fits_idle hl rfl ?_ rfl rfl ⟨horder.1, Finmap.lookup_insert _⟩
    simp only [Product.reference, horder.1, Option.none_or, Option.or_none]

theorem delete_accounts (h : Accounts env s l) (hl : s.products.lookup q = some product)
    (hstage : product.stage = .existing) :
    Accounts env (s.setProduct q { product with stage := .destructing false })
      (l.next s (.delete q)) := by
  have horder := h.orderly hl
  simp only [Orderly, hstage] at horder
  have hmove : product.stage ≠ .leaving false := by simp [hstage]
  rcases Option.eq_none_or_eq_some product.factoryPluginInstancePtr with href | ⟨i, href⟩
  · have hledger : l.next s (.delete q) = l := by
      rw [Ledger.next, hl]
      cases product
      simp_all
    rw [hledger]
    refine h.move hl (setProduct_puts _ q _) (.refl q l) (h.not_plain hl (Or.inr href)) ?_
      (Or.inl hmove)
    exact h.fits_idle hl rfl rfl rfl rfl ⟨horder.1, fun hne => absurd href hne⟩
  · have hr : product.reference = some i := by rw [Product.reference, href]; rfl
    obtain ⟨_, ptr, _, hfactory⟩ := h.own hl hr
    have hledger : l.next s (.delete q) = { l with plain := l.plain.insert q ptr.block } := by
      rw [Ledger.next, hl]
      cases product
      simp_all
    have hsame : SameBut q l { l with plain := l.plain.insert q ptr.block } :=
      ⟨fun _ hne => Finmap.lookup_insert_of_ne _ hne, fun _ _ => rfl, rfl⟩
    have hplain : (l.plain.insert q ptr.block).lookup q = some ptr.block := Finmap.lookup_insert _
    rw [hledger]
    refine h.put (setProduct_puts s q _) hsame ?_ ?_ ?_
    · rintro _ ⟨⟩
      exact h.fits_idle hl rfl rfl rfl rfl ⟨horder.1, fun _ => hplain.trans hfactory.symm⟩
    · intro factory hf
      rw [hplain] at hf
      cases hf
      exact ⟨_, rfl, rfl, hfactory, by simp [href]⟩
    · intro e he heq
      exact absurd heq (h.not_handed hl hmove e he)

theorem destroyCounter_accounts {byDeleter : Bool} (h : Accounts env s l)
    (hl : s.products.lookup q = some product) (hstage : product.stage = .destructing byDeleter)
    (hk : k ∉ s.process.shared)
    (hcalls : s.CallsSurvive (s.handOff product.factoryPluginInstancePtr k).process) :
    Accounts env ((s.handOff product.factoryPluginInstancePtr k).setProduct q
      { product with stage := .leaving byDeleter }) (l.next s (.destroyCounter q k)) := by
  have horder := h.orderly hl
  have hmove : product.stage ≠ .leaving false := by simp [hstage]
  rcases Option.eq_none_or_eq_some product.factoryPluginInstancePtr with href | ⟨i, href⟩
  · have hplain := h.not_plain hl (Or.inr href)
    have hledger : l.next s (.destroyCounter q k) = l := by
      rw [Ledger.next, hplain]
    have hoff : s.handOff product.factoryPluginInstancePtr k = s := by
      rw [href]
      rfl
    rw [hledger, hoff]
    refine h.move hl (setProduct_puts _ q _) (.refl q l) hplain ?_ (Or.inl hmove)
    refine h.fits_idle hl rfl rfl rfl rfl ?_
    cases byDeleter
    · simp only [Orderly, hstage] at horder
      exact horder.1
    · simp only [Orderly, hstage] at horder
      exact horder
  · cases byDeleter with
    | true =>
      simp only [Orderly, hstage] at horder
      rw [href] at horder
      cases horder.1
    | false =>
      simp only [Orderly, hstage] at horder
      have hr : product.reference = some i := by rw [Product.reference, href]; rfl
      obtain ⟨_, ptr, hptr, hfactory⟩ := h.own hl hr
      have hplain : l.plain.lookup q = some ptr.block :=
        (horder.2 (by simp [href])).trans hfactory
      have hledger : l.next s (.destroyCounter q k) =
          { l with plain := l.plain.erase q, handed := l.handed ++ [(q, ptr.block)] } := by
        rw [Ledger.next, hplain]
      have hsame : SameBut q l { l with plain := l.plain.erase q } :=
        ⟨fun _ hne => Finmap.lookup_erase_ne hne, fun _ _ => rfl, rfl⟩
      have hoff : s.handOff product.factoryPluginInstancePtr k =
          { s with
            process := s.process.share k (some ptr)
            lostProducts := s.lostProducts ++ [k] } := by
        rw [href, handOff, hptr]
      rw [hledger, hoff]
      rw [hoff] at hcalls
      -- The copy is made, the product leaves `~FactoryCounter`, and the copy is recorded.
      have hshare : Accounts env { s with process := s.process.share k (some ptr) } l := by
        refine h.process (Process.share_spares h.consistent hk ?_ ?_ ?_) hcalls
        · exact Or.inr ⟨i, ptr, hptr, rfl⟩
        · rintro i' ⟨o, ho⟩
          exact h.mem_shared ho
        · rintro t ⟨q', ht⟩
          exact h.temp_mem ht
      have hputs := setProduct_puts { s with process := s.process.share k (some ptr) } q
        { product with stage := .leaving false }
      have hleave := hshare.move hl hputs hsame (Finmap.lookup_erase q _)
        (hshare.fits_idle hl rfl rfl rfl rfl horder.1) (Or.inl hmove)
      refine hleave.record (k := k) ?_ (Finmap.lookup_insert _)
        (h.lt_next (Finmap.mem_of_lookup_eq_some hl)) ?_ ?_
      · intro o ho
        rw [hputs.ref, Function.update_apply] at ho
        split at ho
        · exact hk (h.mem_shared ((ref_of_lookup hl).trans ho))
        · exact hk (h.mem_shared ho)
      · intro product' hp
        rw [Option.mem_def, hputs.lookup, if_pos rfl] at hp
        cases hp
        rfl
      · intro hm
        obtain ⟨e, he, heq⟩ := List.mem_map.mp hm
        exact h.not_handed hl hmove e he heq

theorem erase_accounts (h : Accounts env s l) (hl : s.products.lookup q = some product)
    {r : Option Nat} (hr : ∀ i ∈ r, product.reference = some i)
    (hstage : product.stage ≠ .destructing false)
    (hcalls : s.CallsSurvive ((s.eraseProduct q).drop r).process) :
    Accounts env ((s.eraseProduct q).drop r) l := by
  have hputs := eraseProduct_puts s q
  have hplain := h.not_plain hl (Or.inl hstage)
  have hfirst : Accounts env (s.eraseProduct q) l := by
    refine h.put hputs (.refl q l) forall_mem_none ?_ fun _ _ _ => forall_mem_none
    intro factory hf
    rw [hplain] at hf
    cases hf
  refine hfirst.drop ?_ (hcalls.put hputs forall_mem_none)
  intro i hi o ho
  rw [hputs.ref, Function.update_apply] at ho
  split at ho
  · cases ho
  · rename_i hne
    exact hne ((h.own hl (hr i hi)).1 o ho)

theorem destroyMembers_accounts (h : Accounts env s l)
    (hl : s.products.lookup q = some product) (hstage : product.stage = .leaving true) :
    Accounts env ((s.setProduct q { product with
      factoryPluginInstancePtr := none
      stage := .destroyed }).drop product.factoryPluginInstancePtr) l := by
  have horder := h.orderly hl
  simp only [Orderly, hstage] at horder
  rw [horder.1]
  refine h.move hl (setProduct_puts _ q _) (.refl q l) (h.not_plain hl (Or.inr horder.1)) ?_
    (Or.inl (by simp [hstage]))
  refine h.fits_idle hl rfl ?_ rfl rfl ⟨rfl, horder.2⟩
  rw [Product.reference, Product.reference, horder.1]

theorem cleanupLostProducts_accounts (h : Accounts env s l)
    (hcalls : s.CallsSurvive s.cleanupLostProducts.process) :
    Accounts env s.cleanupLostProducts { l with handed := [] } := by
  refine h.cleared.process (Process.dropAll_spares _ h.consistent ?_ ?_) hcalls
  · rintro i ⟨o, ho⟩
    cases o with
    | product q =>
      have hq : s.ref (.product q) = some i := ho
      refine ⟨h.mem_shared hq, ?_⟩
      intro hm
      obtain ⟨n, hn⟩ := List.getElem?_of_mem hm
      cases h.distinct (b := .lost n) hq hn
    | lost n => simp [ref] at ho
  · rintro t ⟨q, ht⟩
    exact h.temp_mem ht

theorem step_accounts (h : Accounts env s l) (hs : step env s op = some s') :
    Accounts env s' (l.next s op) := by
  obtain ⟨hs, hcalls⟩ := Option.filter_eq_some_iff.mp hs
  have hcalls : s.CallsSurvive s'.process := of_decide_eq_true hcalls
  cases op with
  | process op =>
    simp only [after] at hs
    split at hs
    · rename_i hen
      obtain ⟨p, hp, rfl⟩ := Option.map_eq_some_iff.mp hs
      exact h.process (h.spared hp hen.1 hen.2) hcalls
    · cases hs
  | construct factory =>
    simp only [after] at hs
    split at hs
    · cases hs
      exact construct_accounts h ‹_›
    · cases hs
  | lockThis q t =>
    obtain ⟨product, hl, hs⟩ := Option.bind_eq_some_iff.mp hs
    split at hs
    · rename_i hstage
      obtain ⟨_, hrun, rfl⟩ := Option.map_eq_some_iff.mp hs
      obtain ⟨p, hp, rfl⟩ := Option.map_eq_some_iff.mp hrun
      exact lockThis_accounts h hl hstage hp hcalls
    · cases hs
  | assignReference q i =>
    obtain ⟨product, hl, hs⟩ := Option.bind_eq_some_iff.mp hs
    split at hs
    · rename_i t hstage
      obtain ⟨_, hrun, rfl⟩ := Option.map_eq_some_iff.mp hs
      obtain ⟨p, hp, rfl⟩ := Option.map_eq_some_iff.mp hrun
      exact assignReference_accounts h hl hstage hp hcalls
    · cases hs
  | returnProduct q =>
    obtain ⟨product, hl, hs⟩ := Option.bind_eq_some_iff.mp hs
    split at hs
    · rename_i t hstage
      obtain ⟨p, hp, rfl⟩ := Option.map_eq_some_iff.mp hs
      exact returnProduct_accounts h hl hstage hp hcalls
    · cases hs
  | productDeleter q =>
    obtain ⟨product, hl, hs⟩ := Option.bind_eq_some_iff.mp hs
    split at hs
    · cases hs
      rw [Ledger.next, hl]
      exact productDeleter_accounts h hl ‹_›
    · cases hs
  | delete q =>
    obtain ⟨product, hl, hs⟩ := Option.bind_eq_some_iff.mp hs
    split at hs
    · cases hs
      exact delete_accounts h hl ‹_›
    · cases hs
  | destroyCounter q k =>
    obtain ⟨product, hl, hs⟩ := Option.bind_eq_some_iff.mp hs
    split at hs
    · rename_i byDeleter hstage
      split at hs
      · cases hs
      · cases hs
        exact destroyCounter_accounts h hl hstage ‹_› hcalls
    · cases hs
  | destroyMembers q =>
    obtain ⟨product, hl, hs⟩ := Option.bind_eq_some_iff.mp hs
    split at hs
    · cases hs
      exact destroyMembers_accounts h hl ‹_›
    · rename_i hstage
      cases hs
      have horder := h.orderly hl
      simp only [Orderly, hstage] at horder
      refine erase_accounts h hl ?_ (by simp [hstage]) hcalls
      intro i hi
      rw [Product.reference, horder, Option.or_none]
      exact hi
    · cases hs
  | dropLocal q =>
    obtain ⟨product, hl, hs⟩ := Option.bind_eq_some_iff.mp hs
    split at hs
    · rename_i hstage
      cases hs
      have horder := h.orderly hl
      simp only [Orderly, hstage] at horder
      refine erase_accounts h hl ?_ (by simp [hstage]) hcalls
      intro i hi
      rw [Product.reference, horder.1, Option.none_or]
      exact hi
    · cases hs
  | cleanupLostProducts =>
    cases hs
    exact cleanupLostProducts_accounts h hcalls

/-! ### What the accounts say -/

/-- The instance is alive, and so is the handle that it owns. -/
def FactoryAlive (p : Process) (block : Nat) : Prop :=
  ∃ i, p.world.instances.lookup block = some i ∧
    ∀ hp ∈ i.dlHandlePtr, p.world.Held hp ∧ p.world.OpenAt hp

/-- Products keep their factories alive, and `LostProductCount` counts those that were deleted
without a `ProductDeleter`. -/
structure Accounted (st : Products × Ledger) : Prop where
  living : ∀ {q product}, st.1.products.lookup q = some product → product.stage.living →
    ∀ block ∈ product.factory, FactoryAlive st.1.process block
  referenced : ∀ {q product}, st.1.products.lookup q = some product →
    product.stage = .existing → product.factory ≠ none → product.factoryPluginInstancePtr ≠ none
  count : st.1.lostProductCount = st.2.handed.length
  once : (st.2.handed.map Prod.fst).Nodup
  /-- Every entry of the list is a reference of its own, to the factory of its product. -/
  recorded : st.1.lostProducts.Nodup ∧ ∀ {n i : Nat}, st.1.lostProducts[n]? = some i →
    ∃ ptr, st.1.process.shared.lookup i = some ptr ∧
      st.2.handed[n]?.map Prod.snd = some ptr.block
  kept : ∀ e ∈ st.2.handed, FactoryAlive st.1.process e.2

/-- The product whose deletion an operation carries on. -/
def Op.deletes : Op → Option Nat
  | .productDeleter q | .destroyCounter q _ | .destroyMembers q | .dropLocal q => some q
  | _ => none

/-- The last step of a `ProductDeleter` lets go of the reference that the product had, after
its destructor has finished, and of nothing else. -/
structure Frees (q : Nat) (product : Product) (st st' : Products × Ledger) : Prop where
  stage : product.stage = .destroyed
  freed : ∃ r, st.2.taken.lookup q = some r ∧
    (∀ i ∈ r, ∃ ptr, st.1.process.shared.lookup i = some ptr ∧
      product.factory = some ptr.block) ∧
    st'.1.process = (st.1.drop r).process ∧
    ∀ k, st'.1.process.shared.lookup k =
      if r = some k then none else st.1.process.shared.lookup k

/-- In the steps of a `ProductDeleter`, nothing is added to the list of lost products, and no
reference goes away before the last one. -/
def FreesOwn (op : Op) (st st' : Products × Ledger) : Prop :=
  ∀ q product, op.deletes = some q → st.1.products.lookup q = some product →
    op = .productDeleter q ∨ product.stage.byDeleter →
    st'.1.lostProducts = st.1.lostProducts ∧
      (op = .dropLocal q → Frees q product st st') ∧
      (op ≠ .dropLocal q → st'.1.process = st.1.process)

theorem Accounts.alive (h : Accounts env s l) {block : Nat}
    (hm : block ∈ s.process.world.instances) : FactoryAlive s.process block := by
  obtain ⟨i, hi⟩ := Finmap.mem_iff.mp hm
  refine ⟨i, hi, ?_⟩
  intro hp hhp
  have hheld := World.held_of_instance hi hhp
  exact ⟨hheld, h.consistent.sound.linked.openAt hheld⟩

theorem Accounts.alive_of_ref (h : Accounts env s l) {ptr : InstancePtr}
    (hptr : s.process.shared.lookup i = some ptr) : FactoryAlive s.process ptr.block :=
  h.alive ((h.consistent.alive ptr.block).mpr (Or.inr ⟨i, ptr, hptr, rfl⟩))

theorem Accounts.living (h : Accounts env s l) (hl : s.products.lookup q = some product)
    (hstage : product.stage.living) {block : Nat} (hb : product.factory = some block) :
    FactoryAlive s.process block := by
  have hconstructing : product.stage.constructing → FactoryAlive s.process block := fun hc =>
    h.alive (h.consistent.this_alive block (h.constructing hl hc block hb))
  cases hs : product.stage with
  | constructed => exact hconstructing (by rw [hs]; rfl)
  | locked t => exact hconstructing (by rw [hs]; rfl)
  | assigned t => exact hconstructing (by rw [hs]; rfl)
  | existing =>
    have horder := h.orderly hl
    simp only [Orderly, hs] at horder
    have href := horder.2 (by rw [hb]; exact nofun)
    obtain ⟨i, hi⟩ := Option.ne_none_iff_exists'.mp href
    obtain ⟨_, ptr, hptr, hfactory⟩ := h.own hl (i := i) (by rw [Product.reference, hi]; rfl)
    rw [hb] at hfactory
    cases hfactory
    exact h.alive_of_ref hptr
  | _ =>
    rw [hs] at hstage
    cases hstage

theorem Accounts.accounted (h : Accounts env s l) : Accounted (s, l) where
  living hl hstage block hb := h.living hl hstage hb
  referenced {q product} hl hstage := by
    have horder := h.orderly hl
    simp only [Orderly, hstage] at horder
    exact horder.2
  count := h.length
  once := h.once
  recorded := by
    constructor
    · rw [List.nodup_iff_getElem?_ne_getElem?]
      intro m n hmn hn he
      have hm : s.lostProducts[m]? = some s.lostProducts[m] :=
        List.getElem?_eq_getElem (hmn.trans hn)
      have heq := h.distinct (a := .lost m) (b := .lost n) hm (he.symm.trans hm)
      exact absurd (Owner.lost.inj heq) (Nat.ne_of_lt hmn)
    · intro n i hi
      exact h.held (o := .lost n) hi
  kept e he := by
    obtain ⟨n, hn, rfl⟩ := List.mem_iff_getElem.mp he
    have hlt : n < s.lostProducts.length := h.length ▸ hn
    obtain ⟨ptr, hptr, ht⟩ := h.held (o := .lost n) (List.getElem?_eq_getElem hlt)
    rw [target, List.getElem?_eq_getElem hn] at ht
    rw [Option.some.inj ht]
    exact h.alive_of_ref hptr

theorem drop_shared (s : Products) (r : Option Nat) (k : Nat) :
    (s.drop r).process.shared.lookup k =
      if r = some k then none else s.process.shared.lookup k := by
  cases r with
  | none => rfl
  | some i =>
    have hshared : (s.process.dropShared i).shared = s.process.shared.erase i :=
      Process.releaseInstance_shared _ _
    rw [drop, hshared, lookup_erase_eq]
    by_cases hk : k = i
    · rw [if_pos hk, if_pos (congrArg some hk.symm)]
    · rw [if_neg hk, if_neg fun he => hk (Option.some.inj he).symm]

theorem dropLocal_frees (h : Accounts env s l) (hl : s.products.lookup q = some product)
    (hstage : product.stage = .destroyed) :
    Frees q product (s, l) ((s.eraseProduct q).drop product.held, l') := by
  have horder := h.orderly hl
  simp only [Orderly, hstage] at horder
  refine ⟨hstage, product.held, horder.2, ?_, ?_, drop_shared (s.eraseProduct q) product.held⟩
  · intro i hi
    refine (h.own hl ?_).2
    rw [Product.reference, horder.1, Option.none_or]
    exact hi
  · cases product.held <;> rfl

theorem step_freesOwn (h : Accounts env s l) (hs : step env s op = some s') :
    FreesOwn op (s, l) (s', l') := by
  obtain ⟨hs, _⟩ := Option.filter_eq_some_iff.mp hs
  intro q product hop hl hby
  have horder := h.orderly hl
  cases op with
  | productDeleter q' =>
    cases hop
    simp only [after, hl, Option.bind_some] at hs
    split at hs
    · cases hs
      exact ⟨rfl, fun he => absurd he (by simp), fun _ => rfl⟩
    · cases hs
  | destroyCounter q' k =>
    cases hop
    simp only [after, hl, Option.bind_some] at hs
    split at hs
    · rename_i byDeleter hstage
      have hdeleter : byDeleter = true := by
        rcases hby with he | hby
        · cases he
        · rw [hstage] at hby
          exact hby
      subst hdeleter
      simp only [Orderly, hstage] at horder
      rw [horder.1] at hs
      split at hs
      · cases hs
      · cases hs
        exact ⟨rfl, fun he => absurd he (by simp), fun _ => rfl⟩
    · cases hs
  | destroyMembers q' =>
    cases hop
    simp only [after, hl, Option.bind_some] at hs
    split at hs
    · rename_i hstage
      simp only [Orderly, hstage] at horder
      rw [horder.1] at hs
      cases hs
      exact ⟨rfl, fun he => absurd he (by simp), fun _ => rfl⟩
    · rename_i hstage
      rcases hby with he | hby
      · cases he
      · rw [hstage] at hby
        cases hby
    · cases hs
  | dropLocal q' =>
    cases hop
    simp only [after, hl, Option.bind_some] at hs
    split at hs
    · rename_i hstage
      cases hs
      refine ⟨?_, fun _ => dropLocal_frees h hl hstage, fun hne => absurd rfl hne⟩
      cases product.held <;> rfl
    · cases hs
  | _ => cases hop

/-- In every run, whatever the threads do in between, products keep their factories alive,
`ProductDeleter` frees its product's reference and nothing else, and `LostProductCount` is the
number of products that handed over their references since the last cleanup. If a call ends in
a closed library, that is so until then. -/
theorem accounted_of_run (env : Env) {st : Products × Ledger}
    (h : Reachable (lockstep (step env) Ledger.next) (init, .empty) st) :
    Accounted st ∧ ∀ op st', lockstep (step env) Ledger.next st op = some st' →
      FreesOwn op st st' := by
  have haccounts : Accounts env st.1 st.2 := by
    apply h.invariant (P := fun st => Accounts env st.1 st.2) (init_accounts env)
    rintro st op st' hst hs
    obtain ⟨hs, he⟩ := lockstep_eq_some.mp hs
    rw [he]
    exact step_accounts hst hs
  constructor
  · exact haccounts.accounted
  · intro op st' hs
    exact step_freesOwn haccounts (lockstep_eq_some.mp hs).1

/-- `Construct` on the factory in the block 3, with unused numbers for the temporary and the
reference. -/
def constructs (q i : Nat) : List Op :=
  [.construct (some 3), .lockThis q 0, .assignReference q i, .returnProduct q]

/-- A factory makes two products, and everything else that refers to it goes away. The first
one is deleted by a `ProductDeleter`, the second one by plain `delete`. -/
def twoProducts : List Op :=
  (Process.fileFactory.take 4).map .process ++ constructs 0 1 ++ constructs 1 2 ++
    [.process (.dropShared 0), .process (.loader (.forgetLibrary "a" (some 1) ["p"])),
      .productDeleter 0, .delete 1, .destroyCounter 0 3, .destroyCounter 1 3, .destroyMembers 1,
      .destroyMembers 0, .dropLocal 0]

def afterTwoProducts : Products × Ledger :=
  last (init, .empty) (history (lockstep (step Process.fromThisPlugins) Ledger.next)
    (init, .empty) twoProducts)

theorem accounted_twoProducts : Accounted afterTwoProducts ∧
    ∀ op st', lockstep (step Process.fromThisPlugins) Ledger.next afterTwoProducts op = some st' →
      FreesOwn op afterTwoProducts st' :=
  accounted_of_run Process.fromThisPlugins
    ⟨_, history_run (lockstep (step Process.fromThisPlugins) Ledger.next) (init, .empty) _, rfl⟩

/-- The factory lives until the cleanup. -/
example : afterTwoProducts.1.lostProductCount = 1 ∧
    3 ∈ afterTwoProducts.1.process.world.instances ∧
    3 ∉ afterTwoProducts.1.cleanupLostProducts.process.world.instances := by decide

end Products

end GzPlugin
