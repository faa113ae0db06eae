import WalaStack.Spec.Capabilities

/-!
# Validation and lookup

`validate_requirements` asks for a provider under any name, `get` for one that
the strategy of the capability selects. Lookups change the counters only
(`providers_afterLookups`, `strategy_afterLookups`), so what is registered,
and what is selected of it, is settled when the runtime is built.
-/

namespace WalaStack.Impl.Runtime

open WalaStack.Rust

variable {TypeId : Type} {Provider : TypeId → Type} [DecidableEq TypeId]

/-! ## Weighted picks -/

/-- The walk ends at a name of positive weight. -/
theorem exists_pickFrom {P : Type} (bucket : Bucket P) {pick : Nat} {weights : List (String × U32)}
    {accumulated : Nat} (hle : accumulated ≤ pick) (hlt : accumulated < 2 ^ 64)
    (h : pick < weights.foldl (fun total e => (total + e.2.val) % 2 ^ 64) accumulated) :
    ∃ e ∈ weights, e.2.val ≠ 0 ∧ pickFrom bucket pick accumulated weights = bucket.lookup e.1 := by
  induction weights generalizing accumulated with
  | nil => exact absurd h (Nat.not_lt_of_ge hle)
  | cons e weights ih =>
    obtain ⟨name, weight⟩ := e
    rw [List.foldl_cons] at h
    by_cases hw : weight.val = 0
    · rw [hw, Nat.add_zero, Nat.mod_eq_of_lt hlt] at h
      obtain ⟨e, he, hpos, hpick⟩ := ih hle hlt h
      exact ⟨e, List.mem_cons_of_mem _ he, hpos, by rw [pickFrom, if_pos hw, hpick]⟩
    · by_cases hp : pick < (accumulated + weight.val) % 2 ^ 64
      · exact ⟨_, List.mem_cons_self, hw, by rw [pickFrom, if_neg hw, if_pos hp]⟩
      · obtain ⟨e, he, hpos, hpick⟩ := ih (Nat.le_of_not_lt hp) (Nat.mod_lt _ (by decide)) h
        exact ⟨e, List.mem_cons_of_mem _ he, hpos, by rw [pickFrom, if_neg hw, if_neg hp, hpick]⟩

/-- A registry has a counter for each capability that is weighted. -/
theorem CapabilityRegistry.isSome_rotation {reg : CapabilityRegistry TypeId Provider} {c : TypeId}
    {strategy : SelectionStrategy} (h : reg.strategies.lookup c = some strategy) (hw : strategy.isWeighted = true) :
    (reg.rotation.lookup c).isSome = true := by
  have hm : (⟨c, strategy⟩ : Sigma fun _ => SelectionStrategy) ∈ reg.strategies.entries := AList.mem_lookup_iff.mp h
  rw [rotation]
  generalize reg.strategies.entries = entries at hm
  induction entries with
  | nil => cases hm
  | cons e entries ih =>
    rw [List.foldr_cons]
    by_cases hec : e.1 = c ∧ e.2.isWeighted = true
    · obtain ⟨rfl, he⟩ := hec
      rw [if_pos he, AList.lookup_insert]
      rfl
    · have hm' : (⟨c, strategy⟩ : Sigma fun _ => SelectionStrategy) ∈ entries := by
        rcases List.mem_cons.mp hm with rfl | hm
        · exact absurd ⟨rfl, hw⟩ hec
        · exact hm
      split
      · rename_i he
        rw [AList.lookup_insert_ne fun hc => hec ⟨hc.symm, he⟩]
        exact ih hm'
      · exact ih hm'

/-! ## Lookups -/

namespace Capabilities

variable {caps : Capabilities TypeId Provider} {c c' : TypeId}

/-- A counter for each capability that is weighted. -/
def Rotates (caps : Capabilities TypeId Provider) : Prop :=
  ∀ c weights, caps.strategy c = .weightedRoundRobin weights → (caps.rotation.lookup c).isSome = true

/-- A lookup sets at most its own counter. -/
theorem get_cases (caps : Capabilities TypeId Provider) (c : TypeId) :
    (caps.get c).2 = caps ∨
      ∃ counter, (caps.get c).2 = { caps with rotation := caps.rotation.insert c counter } := by
  rw [get]
  split
  · exact .inl rfl
  · split
    · exact .inl rfl
    · exact .inl rfl
    · rw [weightedPick]
      split
      · exact .inl rfl
      · split
        · exact .inl rfl
        · exact .inr ⟨_, rfl⟩

theorem get_providers (caps : Capabilities TypeId Provider) (c : TypeId) :
    (caps.get c).2.providers = caps.providers := by
  obtain h | ⟨counter, h⟩ := caps.get_cases c <;> rw [h]

theorem get_strategy (caps : Capabilities TypeId Provider) (c c' : TypeId) :
    (caps.get c).2.strategy c' = caps.strategy c' := by
  obtain h | ⟨counter, h⟩ := caps.get_cases c
  · rw [h]
  · rw [h, strategy, strategy]

/-- A lookup takes no counter away. -/
theorem isSome_rotation_get (h : (caps.rotation.lookup c').isSome = true) :
    ((caps.get c).2.rotation.lookup c').isSome = true := by
  obtain hg | ⟨counter, hg⟩ := caps.get_cases c
  · rw [hg]
    exact h
  · rw [hg]
    by_cases hc : c' = c
    · subst hc
      rw [AList.lookup_insert]
      rfl
    · rw [AList.lookup_insert_ne hc]
      exact h

theorem Rotates.get (h : caps.Rotates) (c : TypeId) : (caps.get c).2.Rotates := by
  intro c' weights hs
  rw [get_strategy] at hs
  exact isSome_rotation_get (h c' weights hs)

theorem containsTypedName_iff {name : String} :
    caps.containsTypedName c name = true ↔ (caps.getNamed c name).isSome = true := by
  rw [containsTypedName, getNamed]
  cases caps.providers.lookup c with
  | none => simp
  | some bucket => simp [AList.lookup_isSome]

/-- `contains_type` finds a bucket with a name in it. -/
theorem containsType_iff : caps.containsType c = true ↔ ∃ name, caps.containsTypedName c name = true := by
  rw [containsType]
  simp only [containsTypedName]
  cases caps.providers.lookup c with
  | none => simp
  | some bucket =>
    simp only [Bool.not_eq_true', decide_eq_true_eq, AList.mem_keys, AList.keys, List.keys]
    cases bucket.entries with
    | nil => simp
    | cons e entries => exact ⟨fun _ => ⟨e.1, by simp⟩, fun _ => rfl⟩

end Capabilities

end WalaStack.Impl.Runtime

namespace WalaStack.Proof.Capabilities

open WalaStack.Rust WalaStack.Impl.Runtime WalaStack.Spec.Capabilities

variable {TypeId : Type} {Provider : TypeId → Type} {S : Type} [DecidableEq TypeId]
variable {caps : Capabilities TypeId Provider} {c : TypeId}

/-! ## After other lookups -/

theorem providers_afterLookups (caps : Capabilities TypeId Provider) (cs : List TypeId) :
    (afterLookups caps cs).providers = caps.providers := by
  induction cs generalizing caps with
  | nil => rfl
  | cons c cs ih => exact (ih _).trans (caps.get_providers c)

theorem strategy_afterLookups (caps : Capabilities TypeId Provider) (cs : List TypeId) (c : TypeId) :
    (afterLookups caps cs).strategy c = caps.strategy c := by
  induction cs generalizing caps with
  | nil => rfl
  | cons c' cs ih => exact (ih _).trans (caps.get_strategy c' c)

theorem rotates_afterLookups (h : caps.Rotates) (cs : List TypeId) : (afterLookups caps cs).Rotates := by
  induction cs generalizing caps with
  | nil => exact h
  | cons c cs ih => exact ih (h.get c)

theorem containsTypedName_afterLookups (caps : Capabilities TypeId Provider) (cs : List TypeId) (c : TypeId)
    (name : String) : (afterLookups caps cs).containsTypedName c name = caps.containsTypedName c name := by
  rw [Capabilities.containsTypedName, providers_afterLookups, Capabilities.containsTypedName]

theorem selectsRegistered_afterLookups (caps : Capabilities TypeId Provider) (cs : List TypeId) (c : TypeId) :
    SelectsRegistered (afterLookups caps cs) c ↔ SelectsRegistered caps c := by
  simp only [SelectsRegistered, strategy_afterLookups, containsTypedName_afterLookups]

theorem selectsNone_afterLookups (caps : Capabilities TypeId Provider) (cs : List TypeId) (c : TypeId) :
    SelectsNone (afterLookups caps cs) c ↔ SelectsNone caps c := by
  simp only [SelectsNone, strategy_afterLookups, containsTypedName_afterLookups]

/-! ## One lookup -/

/-- A bucket holds the names that the validation finds. -/
theorem containsTypedName_of_bucket {bucket : Bucket (Provider c)} (h : caps.providers.lookup c = some bucket)
    (name : String) : caps.containsTypedName c name = (bucket.lookup name).isSome := by
  rw [Bool.eq_iff_iff, Capabilities.containsTypedName_iff, Capabilities.getNamed, h, Option.bind_some]

/-- What the walk over the weights ends at. -/
theorem exists_weightedPick {bucket : Bucket (Provider c)} {weights : List (String × U32)} (hr : caps.Rotates)
    (hs : caps.strategy c = .weightedRoundRobin weights) (ht : totalWeight weights ≠ 0) :
    ∃ e ∈ weights, e.2.val ≠ 0 ∧ (caps.weightedPick c bucket weights).1 = bucket.lookup e.1 := by
  obtain ⟨counter, hcounter⟩ := Option.isSome_iff_exists.mp (hr c weights hs)
  have hlt : counter % totalWeight weights < totalWeight weights := Nat.mod_lt _ (Nat.pos_of_ne_zero ht)
  obtain ⟨e, he, hpos, hpick⟩ := exists_pickFrom bucket (Nat.zero_le _) (by decide) hlt
  refine ⟨e, he, hpos, ?_⟩
  rw [Capabilities.weightedPick]
  simp only [if_neg ht, hcounter, hpick]

theorem isSome_get (hr : caps.Rotates) (h : SelectsRegistered caps c) (hc : caps.containsType c = true) :
    (caps.get c).1.isSome = true := by
  obtain ⟨name, hname⟩ := Capabilities.containsType_iff.mp hc
  obtain ⟨bucket, hb⟩ : ∃ bucket, caps.providers.lookup c = some bucket := by
    cases hb : caps.providers.lookup c with
    | none => simp [Capabilities.containsTypedName, hb] at hname
    | some bucket => exact ⟨bucket, rfl⟩
  have hmem := containsTypedName_of_bucket hb
  rw [Capabilities.get]
  simp only [hb]
  simp only [SelectsRegistered] at h
  split
  · rename_i hs
    rw [hs] at h
    rw [← hmem]
    exact h
  · rename_i chain hs
    rw [hs] at h
    obtain ⟨name, hn, hcn⟩ := h
    rw [List.findSome?_isSome_iff]
    exact ⟨name, hn, by rw [← hmem]; exact hcn⟩
  · rename_i weights hs
    rw [hs] at h
    obtain ⟨e, he, hpos, hpick⟩ := exists_weightedPick hr hs h.1
    rw [hpick, ← hmem]
    exact h.2 e he hpos

theorem get_eq_none (hr : caps.Rotates) (h : SelectsNone caps c) : (caps.get c).1 = none := by
  cases hb : caps.providers.lookup c with
  | none => simp [Capabilities.get, hb]
  | some bucket =>
    have hmem : ∀ name, caps.containsTypedName c name = false → bucket.lookup name = none := by
      intro name hn
      rw [containsTypedName_of_bucket hb] at hn
      simpa using hn
    rw [Capabilities.get]
    simp only [hb]
    simp only [SelectsNone] at h
    split
    · rename_i hs
      rw [hs] at h
      exact hmem _ h
    · rename_i chain hs
      rw [hs] at h
      exact List.findSome?_eq_none_iff.mpr fun name hn => hmem name (h name hn)
    · rename_i weights hs
      rw [hs] at h
      by_cases ht : totalWeight weights = 0
      · simp [Capabilities.weightedPick, ht]
      · obtain ⟨e, he, hpos, hpick⟩ := exists_weightedPick hr hs ht
        rw [hpick]
        exact hmem _ (h.resolve_left ht e he hpos)

/-! ## What was validated -/

theorem forM_eq_ok {α ε : Type} {f : α → Except ε Unit} {l : List α} :
    l.forM f = .ok () ↔ ∀ x ∈ l, f x = .ok () := by
  induction l with
  | nil => simp [pure, Except.pure]
  | cons x l ih =>
    rw [show (x :: l).forM f = (f x >>= fun _ => l.forM f) from rfl, List.forall_mem_cons, ← ih]
    cases hx : f x with
    | error e => simp [bind, Except.bind]
    | ok u => simp [bind, Except.bind]

/-- The validation succeeds if every requirement of every plugin is met. -/
theorem validateRequirements_eq_ok {plugins : List (Plugin TypeId Provider S)} :
    PluginManager.validateRequirements plugins caps = .ok () ↔
      ∀ plugin ∈ plugins, ∀ req ∈ plugin.requiredCapabilities, req.isSatisfiedBy caps = true := by
  rw [PluginManager.validateRequirements, forM_eq_ok]
  refine forall₂_congr fun plugin _ => ?_
  rw [forM_eq_ok]
  refine forall₂_congr fun req _ => ?_
  split <;> simp_all [pure, Except.pure, throw, throwThe, MonadExceptOf.throw]

theorem build_eq (b : RuntimeBuilder TypeId Provider S) :
    b.build =
      (PluginManager.validateRequirements b.plugins (PluginManager.applyAll b.plugins b.capabilities []).1.build).map
        fun _ =>
          ⟨(PluginManager.applyAll b.plugins b.capabilities []).1.build,
            b.services ++ (PluginManager.applyAll b.plugins b.capabilities []).2, b.shutdownDeadline⟩ := by
  simp only [RuntimeBuilder.build]
  cases PluginManager.validateRequirements b.plugins (PluginManager.applyAll b.plugins b.capabilities []).1.build with
  | error e => rfl
  | ok u => rfl

theorem build_eq_ok {b : RuntimeBuilder TypeId Provider S} {rt : BuiltRuntime TypeId Provider S}
    (h : b.build = .ok rt) :
    rt.capabilities = (PluginManager.applyAll b.plugins b.capabilities []).1.build ∧
      PluginManager.validateRequirements b.plugins rt.capabilities = .ok () ∧
      rt.services = b.services ++ (PluginManager.applyAll b.plugins b.capabilities []).2 := by
  rw [build_eq] at h
  cases hv : PluginManager.validateRequirements b.plugins
      (PluginManager.applyAll b.plugins b.capabilities []).1.build with
  | error e =>
    rw [hv] at h
    cases h
  | ok u =>
    rw [hv] at h
    cases h
    exact ⟨rfl, hv, rfl⟩

theorem rotates_build (reg : CapabilityRegistry TypeId Provider) : reg.build.Rotates := by
  intro c weights hs
  cases hl : reg.strategies.lookup c with
  | none => simp [CapabilityRegistry.build, Capabilities.strategy, hl] at hs
  | some strategy =>
    have hw : strategy = .weightedRoundRobin weights := by
      simpa [CapabilityRegistry.build, Capabilities.strategy, hl] using hs
    exact CapabilityRegistry.isSome_rotation hl (by rw [hw]; rfl)

/-- A capability that a plugin of a built runtime requires has a provider,
which every lookup by its name finds. The lookups by the strategy find one if
the strategy leads to registered providers, and none if it leads to no such. -/
theorem required_resolves {typeName : TypeId → String} {b : RuntimeBuilder TypeId Provider S}
    {rt : BuiltRuntime TypeId Provider S} (h : b.build = .ok rt) {plugin : Plugin TypeId Provider S}
    (hp : plugin ∈ b.plugins) {c : TypeId} (hreq : .any typeName c ∈ plugin.requiredCapabilities) :
    (∃ name, ∀ earlier, ((afterLookups rt.capabilities earlier).getNamed c name).isSome = true) ∧
      (SelectsRegistered rt.capabilities c → Resolves rt.capabilities c) ∧
      (SelectsNone rt.capabilities c → Missing rt.capabilities c) := by
  obtain ⟨hcaps, hvalid, -⟩ := build_eq_ok h
  have hr : rt.capabilities.Rotates := by
    rw [hcaps]
    exact rotates_build _
  have hc : rt.capabilities.containsType c = true := validateRequirements_eq_ok.mp hvalid plugin hp _ hreq
  obtain ⟨name, hname⟩ := Capabilities.containsType_iff.mp hc
  refine ⟨⟨name, fun earlier => ?_⟩, fun hs earlier => ?_, fun hs earlier => ?_⟩
  · rw [← Capabilities.containsTypedName_iff, containsTypedName_afterLookups]
    exact hname
  · refine isSome_get (rotates_afterLookups hr earlier) ((selectsRegistered_afterLookups _ earlier c).mpr hs) ?_
    rw [Capabilities.containsType_iff]
    exact ⟨name, by rw [containsTypedName_afterLookups]; exact hname⟩
  · exact get_eq_none (rotates_afterLookups hr earlier) ((selectsNone_afterLookups _ earlier c).mpr hs)

/-- Jobs that are to be stored by the provider registered as `sqlite`. -/
def jobs : RuntimeBuilder String (fun _ => String) String :=
  (RuntimeBuilder.new.withPlugin
    ⟨"sqlite", fun reg => (reg.register "dyn JobStore" "sqlite" "SqliteJobStore").1, id, []⟩).withPlugin
      ⟨"walastack-jobs", id, id, [.any id "dyn JobStore"]⟩

/-- The store is there, but not under the name that the workers look up. -/
theorem jobs_not_failFast : ¬ FailFast id jobs := by
  intro h
  have hget := h _ rfl _ (List.mem_append_right _ (List.mem_singleton_self _)) "dyn JobStore"
    (List.mem_singleton_self _) []
  exact absurd hget (by decide)

/-- The same with a strategy that names the store. -/
def jobsOnSqlite : RuntimeBuilder String (fun _ => String) String :=
  jobs.withPlugin ⟨"selection", fun reg => reg.setStrategy "dyn JobStore" (.fallback ["postgres", "sqlite"]), id, []⟩

theorem jobs_resolve : ∃ rt, jobsOnSqlite.build = .ok rt ∧ Resolves rt.capabilities "dyn JobStore" := by
  have hp : (⟨"walastack-jobs", id, id, [.any id "dyn JobStore"]⟩ : Plugin String (fun _ => String) String) ∈
      jobsOnSqlite.plugins := by simp [jobsOnSqlite, jobs, RuntimeBuilder.withPlugin]
  obtain ⟨rt, hb⟩ : ∃ rt, jobsOnSqlite.build = .ok rt := ⟨_, rfl⟩
  have hreq : .any id "dyn JobStore" ∈ [CapabilityRequirement.any id "dyn JobStore"] := List.mem_singleton_self _
  obtain ⟨-, hsel, -⟩ := required_resolves hb hp hreq
  refine ⟨rt, hb, hsel ?_⟩
  cases hb
  exact ⟨"sqlite", by simp, by decide⟩

end WalaStack.Proof.Capabilities
