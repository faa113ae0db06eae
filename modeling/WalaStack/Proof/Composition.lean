import WalaStack.Proof.StartOrder
import WalaStack.Spec.Composition

/-!
# What the plugins register together

A lookup by name in a registry finds what was registered last for it
(`getNamed_registerAll`), however the hooks are spread over the plugins
(`applyAll_capabilities`). What the validation asks is read off from this.
-/

namespace WalaStack.Proof.Capabilities

open WalaStack.Impl.Runtime WalaStack.Spec.Capabilities

variable {TypeId : Type} {Provider : TypeId → Type} {S : Type} [DecidableEq TypeId]
variable {reg : CapabilityRegistry TypeId Provider} {regs : List (Registration TypeId Provider)} {c : TypeId}
variable {name : String} {x : Composition TypeId Provider S}

/-! ## Registrations -/

/-- What a lookup by name finds once the registry is frozen. -/
theorem getNamed_build : reg.build.getNamed c name = (reg.providers.lookup c).bind fun b => b.lookup name := rfl

theorem getNamed_register (r : Registration TypeId Provider) :
    ((reg.register r.1 r.2.1 r.2.2).1.build).getNamed c name = (provides r c name).or (reg.build.getNamed c name) := by
  obtain ⟨c', name', provider⟩ := r
  simp only [getNamed_build, CapabilityRegistry.register, provides]
  by_cases hc : c' = c
  · subst hc
    rw [AList.lookup_insert, dif_pos rfl]
    by_cases hn : name' = name
    · subst hn
      simp
    · rw [if_neg hn, Option.none_or, Option.bind_some, AList.lookup_insert_ne (Ne.symm hn)]
      cases reg.providers.lookup c' <;> simp
  · rw [AList.lookup_insert_ne (Ne.symm hc), dif_neg hc, Option.none_or]

theorem getNamed_registerAll :
    (registerAll reg regs).build.getNamed c name =
      (lastRegistered c name regs).or (reg.build.getNamed c name) := by
  induction regs generalizing reg with
  | nil => rfl
  | cons r regs ih =>
    rw [registerAll, List.foldl_cons, ← registerAll, ih, getNamed_register, lastRegistered, Option.or_assoc]

theorem registerAll_append (regs regs' : List (Registration TypeId Provider)) :
    registerAll reg (regs ++ regs') = registerAll (registerAll reg regs) regs' :=
  List.foldl_append

theorem isSome_provides {r : Registration TypeId Provider} :
    (provides r c name).isSome = true ↔ r.1 = c ∧ r.2.1 = name := by
  unfold provides
  by_cases hc : r.1 = c
  · rw [dif_pos hc, Option.isSome_ite]
    exact (and_iff_right hc).symm
  · rw [dif_neg hc]
    exact iff_of_false (fun h => by cases h) fun h => hc h.1

theorem isSome_lastRegistered :
    (lastRegistered c name regs).isSome = true ↔ ∃ r ∈ regs, r.1 = c ∧ r.2.1 = name := by
  induction regs with
  | nil => simp [lastRegistered]
  | cons r regs ih =>
    rw [lastRegistered, Option.isSome_or, Bool.or_eq_true, ih, isSome_provides]
    simp only [List.mem_cons, exists_eq_or_imp]
    exact or_comm

theorem applyAll_capabilities (plugins : List (FixedPlugin TypeId Provider S)) (planner : ServicePlanner S) :
    (PluginManager.applyAll (plugins.map FixedPlugin.toPlugin) reg planner).1 =
      registerAll reg (plugins.flatMap FixedPlugin.registrations) := by
  induction plugins generalizing reg planner with
  | nil => rfl
  | cons plugin plugins ih =>
    have hstep : (PluginManager.applyAll ((plugin :: plugins).map FixedPlugin.toPlugin) reg planner).1 =
        (PluginManager.applyAll (plugins.map FixedPlugin.toPlugin) (plugin.registerCapabilities reg)
          (plugin.registerServices planner)).1 := rfl
    rw [hstep, ih, plugin.registers, List.flatMap_cons, registerAll_append]

/-! ## The frozen view -/

/-- The view that the validation is given. -/
def frozen (x : Composition TypeId Provider S) : Capabilities TypeId Provider :=
  (PluginManager.applyAll x.builder.plugins x.builder.capabilities []).1.build

theorem getNamed_frozen : (frozen x).getNamed c name = lastRegistered c name x.registered := by
  rw [frozen, Composition.builder, applyAll_capabilities, ← registerAll_append, getNamed_registerAll]
  exact Option.or_none

theorem isSatisfiedBy_frozen {req : CapabilityRequirement TypeId} :
    req.isSatisfiedBy (frozen x) = true ↔ Met x.registered req := by
  have htyped (c : TypeId) (name : String) :
      (frozen x).containsTypedName c name = true ↔ ∃ r ∈ x.registered, r.1 = c ∧ r.2.1 = name := by
    rw [Capabilities.containsTypedName_iff, getNamed_frozen, isSome_lastRegistered]
  unfold CapabilityRequirement.isSatisfiedBy Met
  cases req.name with
  | none =>
    simp only [Capabilities.containsType_iff, htyped]
    constructor
    · intro hex
      obtain ⟨name, r, hr, hc, _⟩ := hex
      exact ⟨r, hr, hc, fun _ hn => (by cases hn)⟩
    · intro hex
      obtain ⟨r, hr, hc, _⟩ := hex
      exact ⟨r.2.1, r, hr, hc, rfl⟩
  | some name =>
    simp only [htyped, Option.some.injEq]
    refine exists_congr fun r => and_congr_right fun _ => and_congr_right fun _ => ?_
    exact ⟨fun h _ hn => h.trans hn, fun h => h name rfl⟩

/-! ## The validation -/

theorem forM_eq_error {α ε : Type} {f : α → Except ε Unit} {l : List α} {e : ε} :
    l.forM f = .error e ↔ ∃ before y after, l = before ++ y :: after ∧ (∀ z ∈ before, f z = .ok ()) ∧ f y = .error e := by
  induction l with
  | nil =>
    refine iff_of_false (fun h => by cases h) ?_
    intro hex
    obtain ⟨before, y, after, h, _⟩ := hex
    cases (List.append_eq_nil_iff.mp h.symm).2
  | cons y l ih =>
    have hcons : (y :: l).forM f = (f y).bind fun _ => l.forM f := rfl
    rw [hcons]
    cases hy : f y with
    | error e' =>
      constructor
      · intro h
        exact ⟨[], y, l, rfl, fun _ hm => absurd hm List.not_mem_nil, by rw [hy]; exact h⟩
      · intro hex
        obtain ⟨before, z, after, hl, hb, hz⟩ := hex
        rcases List.append_eq_cons_iff.mp hl.symm with ⟨rfl, hzl⟩ | ⟨before', rfl, -⟩
        · cases hzl
          exact hy.symm.trans hz
        · rw [hb y List.mem_cons_self] at hy
          cases hy
    | ok u =>
      refine ih.trans ⟨?_, ?_⟩
      · intro hex
        obtain ⟨before, z, after, hl, hb, hz⟩ := hex
        refine ⟨y :: before, z, after, by rw [hl, List.cons_append], fun w hw => ?_, hz⟩
        rcases List.mem_cons.mp hw with rfl | hw
        · exact hy
        · exact hb w hw
      · intro hex
        obtain ⟨before, z, after, hl, hb, hz⟩ := hex
        rcases List.append_eq_cons_iff.mp hl.symm with ⟨rfl, hzl⟩ | ⟨before', rfl, hl'⟩
        · cases hzl
          rw [hy] at hz
          cases hz
        · exact ⟨before', z, after, hl', fun w hw => hb w (List.mem_cons_of_mem _ hw), hz⟩

variable {caps : Capabilities TypeId Provider}

/-- The validation fails with the first requirement, plugin by plugin, that is
not met. -/
theorem validateRequirements_eq_error {plugins : List (Plugin TypeId Provider S)} {e : PluginError} :
    PluginManager.validateRequirements plugins caps = .error e ↔
      ∃ before plugin after met req rest, plugins = before ++ plugin :: after ∧
        plugin.requiredCapabilities = met ++ req :: rest ∧
        (∀ p ∈ before, ∀ r ∈ p.requiredCapabilities, r.isSatisfiedBy caps = true) ∧
        (∀ r ∈ met, r.isSatisfiedBy caps = true) ∧ req.isSatisfiedBy caps = false ∧
        e = ⟨plugin.name, req.description⟩ := by
  have hok (name : String) (r : CapabilityRequirement TypeId) :
      (if r.isSatisfiedBy caps then pure () else throw ⟨name, r.description⟩ : Except PluginError Unit) = .ok () ↔
        r.isSatisfiedBy caps = true := by
    split <;> simp_all [pure, Except.pure, throw, throwThe, MonadExceptOf.throw]
  have herror (name : String) (r : CapabilityRequirement TypeId) :
      (if r.isSatisfiedBy caps then pure () else throw ⟨name, r.description⟩ : Except PluginError Unit) = .error e ↔
        r.isSatisfiedBy caps = false ∧ e = ⟨name, r.description⟩ := by
    split
    · rename_i h
      exact iff_of_false (fun he => by cases he) fun he => by simp [h] at he
    · rename_i h
      refine ⟨fun he => ⟨Bool.not_eq_true _ ▸ h, by cases he; rfl⟩, fun he => ?_⟩
      rw [he.2]
      rfl
  rw [PluginManager.validateRequirements, forM_eq_error]
  simp only [forM_eq_ok, hok, forM_eq_error, herror]
  constructor
  · intro hex
    obtain ⟨before, plugin, after, hl, hb, met, req, rest, hr, hm, hreq, he⟩ := hex
    exact ⟨before, plugin, after, met, req, rest, hl, hr, hb, hm, hreq, he⟩
  · intro hex
    obtain ⟨before, plugin, after, met, req, rest, hl, hr, hb, hm, hreq, he⟩ := hex
    exact ⟨before, plugin, after, hl, hb, met, req, rest, hr, hm, hreq, he⟩

/-! ## The build -/

theorem build_eq_error {b : RuntimeBuilder TypeId Provider S} {e : PluginError} :
    b.build = .error e ↔
      PluginManager.validateRequirements b.plugins (PluginManager.applyAll b.plugins b.capabilities []).1.build =
        .error e := by
  rw [build_eq]
  cases PluginManager.validateRequirements b.plugins (PluginManager.applyAll b.plugins b.capabilities []).1.build with
  | error e' => simp [Except.map]
  | ok u => exact iff_of_false (fun h => by cases h) fun h => by cases h

theorem builds_iff :
    x.Builds ↔ ∀ plugin ∈ x.plugins, ∀ req ∈ plugin.requiredCapabilities, Met x.registered req := by
  have hvalid : x.Builds ↔ PluginManager.validateRequirements x.builder.plugins (frozen x) = .ok () := by
    rw [Composition.Builds, build_eq]
    cases h : PluginManager.validateRequirements x.builder.plugins (frozen x) with
    | error e =>
      rw [frozen] at h
      rw [h]
      refine iff_of_false (fun hb => ?_) fun hk => by cases hk
      obtain ⟨rt, hrt⟩ := hb
      cases hrt
    | ok u =>
      rw [frozen] at h
      rw [h]
      exact iff_of_true ⟨_, rfl⟩ rfl
  rw [hvalid, validateRequirements_eq_ok]
  simp only [Composition.builder, List.forall_mem_map]
  exact forall₂_congr fun plugin _ => forall₂_congr fun req _ => isSatisfiedBy_frozen

/-- Which registrations there are does not depend on the order of the
plugins. -/
theorem met_perm {plugins : List (FixedPlugin TypeId Provider S)} (h : plugins.Perm x.plugins)
    {req : CapabilityRequirement TypeId} :
    Met ({ x with plugins := plugins } : Composition TypeId Provider S).registered req ↔ Met x.registered req := by
  have hm : ∀ r, r ∈ ({ x with plugins := plugins } : Composition TypeId Provider S).registered ↔
      r ∈ x.registered := fun r =>
    ((h.flatMap_right FixedPlugin.registrations).append_left x.own).mem_iff
  exact exists_congr fun r => and_congr_left fun _ => hm r

/-- The registrations of a chain's own. -/
def registrations (calls : List (BuilderCall TypeId Provider S)) : List (Registration TypeId Provider) :=
  calls.filterMap fun
    | .capability c name provider => some ⟨c, name, provider⟩
    | .service _ _ | .plugin _ => none

/-- A chain is the composition of what it registers, starts and plugs in. -/
theorem chain_eq_builder (calls : List (BuilderCall TypeId Provider S)) (plugins : List (FixedPlugin TypeId Provider S))
    (h : (RuntimeBuilder.chain calls).plugins = plugins.map FixedPlugin.toPlugin) :
    RuntimeBuilder.chain calls =
      (⟨registrations calls, Runtime.own calls, plugins, .fromSecs 10⟩ : Composition TypeId Provider S).builder := by
  have hcaps : (RuntimeBuilder.chain calls).capabilities = registerAll .new (registrations calls) := by
    clear h
    induction calls using List.reverseRecOn with
    | nil => rfl
    | append_singleton calls c ih =>
      rw [Runtime.chain_concat]
      cases c with
      | service service policy | plugin plugin =>
        simpa [registrations, RuntimeBuilder.call, RuntimeBuilder.withSupervised, RuntimeBuilder.withPlugin] using ih
      | capability c name provider =>
        simp only [RuntimeBuilder.call, RuntimeBuilder.withCapability, ih, registrations, List.filterMap_append,
          registerAll_append]
        rfl
  have hdeadline : (RuntimeBuilder.chain calls).shutdownDeadline = .fromSecs 10 := by
    clear h hcaps
    induction calls using List.reverseRecOn with
    | nil => rfl
    | append_singleton calls c ih =>
      rw [Runtime.chain_concat, ← ih]
      cases c <;> rfl
  rw [Composition.builder, ← hcaps, ← h, ← hdeadline, ← Runtime.services_chain]

/-- The builder and its plugins, all of whose hooks register fixed providers,
build exactly if every requirement is met by what they register together, in
any order of the plugins; the error is the first requirement that is not; and
what was registered last for a name is found under it. -/
theorem composes_exactly (x : Composition TypeId Provider S) : ComposesExactly x where
  builds := builds_iff
  order plugins h := by
    rw [builds_iff, builds_iff]
    simp only [met_perm h]
    exact forall_congr' fun plugin => imp_congr_left h.mem_iff
  error e := by
    rw [build_eq_error, ← frozen, validateRequirements_eq_error]
    simp only [Composition.FirstUnmet, ← isSatisfiedBy_frozen, Bool.not_eq_true]
    constructor
    · intro hex
      obtain ⟨before, plugin, after, met, req, rest, hl, hr, hb, hm, hreq, he⟩ := hex
      obtain ⟨before', tail, hx, rfl, ht⟩ := List.map_eq_append_iff.mp hl
      obtain ⟨plugin', after', rfl, rfl, -⟩ := List.map_eq_cons_iff.mp ht
      exact ⟨before', plugin', after', met, req, rest, hx, hr, List.forall_mem_map.mp hb, hm, hreq, he⟩
    · intro hex
      obtain ⟨before, plugin, after, met, req, rest, hl, hr, hb, hm, hreq, he⟩ := hex
      refine ⟨before.map FixedPlugin.toPlugin, plugin.toPlugin, after.map FixedPlugin.toPlugin, met, req, rest, ?_, hr,
        List.forall_mem_map.mpr hb, hm, hreq, he⟩
      rw [Composition.builder, hl, List.map_append, List.map_cons]
  lookup rt h c name := by
    rw [(build_eq_ok h).1]
    exact getNamed_frozen

/-! ## Jobs and their store -/

inductive JobsCapability
  | storage
  | secrets
deriving DecidableEq

/-- A plugin with two stores. -/
def storagePlugin : FixedPlugin JobsCapability (fun _ => Nat) Unit where
  name := "storage"
  registerCapabilities reg := ((reg.register .storage "memory" 1).1.register .storage "sqlite" 2).1
  registerServices planner := planner
  requiredCapabilities := []
  registrations := [⟨.storage, "memory", 1⟩, ⟨.storage, "sqlite", 2⟩]
  registers _ := rfl

/-- A plugin that has one of its own, and needs one of the others. -/
def jobsPlugin : FixedPlugin JobsCapability (fun _ => Nat) Unit where
  name := "jobs"
  registerCapabilities reg := (reg.register .storage "memory" 3).1
  registerServices planner := planner ++ [((), .oneShot)]
  requiredCapabilities := [⟨.storage, some "sqlite", "Storage (provider sqlite)"⟩, ⟨.secrets, none, "Secrets"⟩]
  registrations := [⟨.storage, "memory", 3⟩]
  registers _ := rfl

/-- The jobs come before what they need. -/
def jobsFirst (own : List (Registration JobsCapability fun _ => Nat)) : Composition JobsCapability (fun _ => Nat) Unit :=
  ⟨own, [], [jobsPlugin, storagePlugin], .fromSecs 10⟩

theorem composes_exactly_jobs :
    (∃ rt, (jobsFirst [⟨.secrets, "env", 4⟩]).builder.build = .ok rt ∧
      rt.capabilities.getNamed .storage "memory" = some 1) ∧
    (jobsFirst []).builder.build = .error ⟨"jobs", "Secrets"⟩ ∧
    ComposesExactly (jobsFirst [⟨.secrets, "env", 4⟩]) ∧ ComposesExactly (jobsFirst []) :=
  ⟨⟨_, rfl, rfl⟩, rfl, composes_exactly _, composes_exactly _⟩

end WalaStack.Proof.Capabilities
