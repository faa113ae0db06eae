import Mathlib.Data.List.Induction
import WalaStack.Framework.Log
import WalaStack.Proof.Capabilities
import WalaStack.Spec.StartOrder

/-!
# Where plugins' services start

`build` puts the services of the plugins behind those of the chain
(`services_build`), wherever in the chain the plugins are. So the order of the
chain is kept exactly if the chain's own services come first.
-/

namespace WalaStack.Proof.Runtime

open WalaStack.Impl.Runtime WalaStack.Spec.Runtime WalaStack.Proof.Capabilities

variable {TypeId : Type} {Provider : TypeId → Type} {S : Type}
variable {calls : List (BuilderCall TypeId Provider S)} {c : BuilderCall TypeId Provider S}

/-! ## The chain -/

/-- The services that the chain adds itself. -/
def own (calls : List (BuilderCall TypeId Provider S)) : List (S × RestartPolicy) :=
  calls.filterMap fun
    | .service service policy => some (service, policy)
    | .plugin _ | .capability _ _ _ => none

theorem planned_concat (calls : List (BuilderCall TypeId Provider S)) (c : BuilderCall TypeId Provider S) :
    planned (calls ++ [c]) =
      match c with
      | .plugin plugin => plugin.registerServices (planned calls)
      | .service _ _ | .capability _ _ _ => planned calls := by
  rw [planned, List.foldl_concat]
  rfl

theorem introducedAfter_concat (before calls : List (BuilderCall TypeId Provider S)) (c : BuilderCall TypeId Provider S) :
    introducedAfter before (calls ++ [c]) = introducedAfter before calls ++ introduces (before ++ calls) c := by
  induction calls generalizing before with
  | nil => simp [introducedAfter]
  | cons d calls ih => simp [introducedAfter, ih]

theorem introduced_concat (calls : List (BuilderCall TypeId Provider S)) (c : BuilderCall TypeId Provider S) :
    introduced (calls ++ [c]) = introduced calls ++ introduces calls c := by
  rw [introduced, introducedAfter_concat, List.nil_append]
  rfl

theorem ownServicesFirst_concat (calls : List (BuilderCall TypeId Provider S)) (c : BuilderCall TypeId Provider S) :
    OwnServicesFirst (calls ++ [c]) ↔
      OwnServicesFirst calls ∧ ∀ service policy, c = .service service policy → planned calls = [] := by
  simp only [OwnServicesFirst]
  constructor
  · intro h
    refine ⟨fun pre service policy post he => ?_, fun service policy he => ?_⟩
    · exact h pre service policy (post ++ [c]) (by rw [he, List.append_assoc, List.cons_append])
    · exact h calls service policy [] (by rw [he])
  · intro ⟨h, hc⟩ pre service policy post he
    rcases Log.split_concat he with ⟨rfl, hx, -⟩ | ⟨post', hh, -⟩
    · exact hc service policy hx
    · exact h pre service policy post' hh

theorem own_concat (calls : List (BuilderCall TypeId Provider S)) (c : BuilderCall TypeId Provider S) :
    own (calls ++ [c]) =
      match c with
      | .service service policy => own calls ++ [(service, policy)]
      | .plugin _ | .capability _ _ _ => own calls := by
  cases c <;> simp [own]

/-- What a plugin introduces is behind what was planned. -/
theorem planned_plugin {plugin : Plugin TypeId Provider S} (h : AddsServices plugin) :
    planned (calls ++ [.plugin plugin]) = planned calls ++ introduces calls (.plugin plugin) := by
  obtain ⟨added, ha⟩ := h (planned calls)
  rw [planned_concat, introduces]
  simp only [ha, List.drop_left]

/-- All that the chain introduces is started. -/
theorem introduced_perm (hadds : ∀ plugin, .plugin plugin ∈ calls → AddsServices plugin) :
    (introduced calls).Perm (own calls ++ planned calls) := by
  induction calls using List.reverseRecOn with
  | nil => exact .refl _
  | append_singleton calls c ih =>
    have hin := ih fun plugin hm => hadds plugin (List.mem_append_left _ hm)
    rw [introduced_concat, own_concat]
    refine (hin.append_right _).trans ?_
    cases c with
    | service service policy =>
      rw [planned_concat, List.append_assoc, List.append_assoc]
      exact List.perm_append_comm.append_left _
    | plugin plugin =>
      rw [planned_plugin (hadds plugin (List.mem_append_right _ (List.mem_singleton_self _))), List.append_assoc]
    | capability c name provider =>
      rw [planned_concat, introduces, List.append_nil]

/-! ## The order -/

/-- The chain's own services first keep the order of the chain, -/
theorem introduced_eq (hadds : ∀ plugin, .plugin plugin ∈ calls → AddsServices plugin) (h : OwnServicesFirst calls) :
    introduced calls = own calls ++ planned calls := by
  induction calls using List.reverseRecOn with
  | nil => rfl
  | append_singleton calls c ih =>
    obtain ⟨hfirst, hc⟩ := (ownServicesFirst_concat calls c).mp h
    have hin := ih (fun plugin hm => hadds plugin (List.mem_append_left _ hm)) hfirst
    rw [introduced_concat, hin, own_concat]
    cases c with
    | service service policy =>
      have hnone := hc service policy rfl
      rw [planned_concat, hnone, List.append_nil, List.append_nil]
      rfl
    | plugin plugin =>
      rw [planned_plugin (hadds plugin (List.mem_append_right _ (List.mem_singleton_self _))), List.append_assoc]
    | capability c name provider =>
      rw [planned_concat]
      exact List.append_nil _

/-- and nothing else does, where no service is introduced twice. -/
theorem ownServicesFirst_of_introduced (hadds : ∀ plugin, .plugin plugin ∈ calls → AddsServices plugin)
    (hnd : (introduced calls).Nodup) (h : introduced calls = own calls ++ planned calls) : OwnServicesFirst calls := by
  induction calls using List.reverseRecOn with
  | nil =>
    intro pre service policy post he
    cases (List.append_eq_nil_iff.mp he.symm).2
  | append_singleton calls c ih =>
    have hrest : ∀ plugin, .plugin plugin ∈ calls → AddsServices plugin :=
      fun plugin hm => hadds plugin (List.mem_append_left _ hm)
    rw [introduced_concat] at hnd
    rw [introduced_concat, own_concat] at h
    rw [ownServicesFirst_concat]
    cases c with
    | service service policy =>
      have hin : introduced calls ++ [(service, policy)] = own calls ++ (service, policy) :: planned calls := by
        rw [planned_concat, List.append_assoc] at h
        exact h
      have hnone : planned calls = [] := by
        -- the last service planned would be the one that the chain adds
        rcases List.eq_nil_or_concat (planned calls) with hp | ⟨planner, last, hp⟩
        · exact hp
        · rw [hp, List.concat_eq_append, ← List.cons_append, ← List.append_assoc] at hin
          obtain ⟨hl, hr⟩ := List.append_inj' hin rfl
          have hm : (service, policy) ∈ introduced calls := by
            rw [hl]
            exact List.mem_append_right _ List.mem_cons_self
          exact absurd rfl (List.nodup_append.mp hnd |>.2.2 _ hm _ (List.mem_singleton_self _))
      rw [hnone] at hin
      have hown := List.append_cancel_right hin
      refine ⟨ih hrest hnd.of_append_left ?_, fun _ _ _ => hnone⟩
      rw [hown, hnone, List.append_nil]
    | plugin plugin =>
      rw [planned_plugin (hadds plugin (List.mem_append_right _ (List.mem_singleton_self _))),
        ← List.append_assoc] at h
      exact ⟨ih hrest hnd.of_append_left (List.append_cancel_right h), fun _ _ hc => by cases hc⟩
    | capability c name provider =>
      rw [planned_concat] at h
      exact ⟨ih hrest hnd.of_append_left ((List.append_nil _).symm.trans h), fun _ _ hc => by cases hc⟩

/-! ## The builder -/

theorem applyAll_services (plugins : List (Plugin TypeId Provider S)) (capabilities : CapabilityRegistry TypeId Provider)
    (planner : ServicePlanner S) :
    (PluginManager.applyAll plugins capabilities planner).2 =
      plugins.foldl (fun planner plugin => plugin.registerServices planner) planner := by
  induction plugins generalizing capabilities planner with
  | nil => rfl
  | cons plugin plugins ih => exact ih _ _

section

variable [DecidableEq TypeId]

theorem chain_concat (calls : List (BuilderCall TypeId Provider S)) (c : BuilderCall TypeId Provider S) :
    RuntimeBuilder.chain (calls ++ [c]) = (RuntimeBuilder.chain calls).call c :=
  List.foldl_concat ..

theorem services_chain (calls : List (BuilderCall TypeId Provider S)) :
    (RuntimeBuilder.chain calls).services = own calls := by
  induction calls using List.reverseRecOn with
  | nil => rfl
  | append_singleton calls c ih => cases c <;> simp [chain_concat, own_concat, ← ih, RuntimeBuilder.call,
      RuntimeBuilder.withSupervised, RuntimeBuilder.withPlugin, RuntimeBuilder.withCapability]

theorem planned_chain (calls : List (BuilderCall TypeId Provider S)) :
    (RuntimeBuilder.chain calls).plugins.foldl (fun planner plugin => plugin.registerServices planner) [] =
      planned calls := by
  induction calls using List.reverseRecOn with
  | nil => rfl
  | append_singleton calls c ih => cases c <;> simp [chain_concat, planned_concat, ← ih, RuntimeBuilder.call,
      RuntimeBuilder.withSupervised, RuntimeBuilder.withPlugin, RuntimeBuilder.withCapability]

/-- The plugins' services come last. -/
theorem services_build {rt : BuiltRuntime TypeId Provider S} (h : (RuntimeBuilder.chain calls).build = .ok rt) :
    rt.services = own calls ++ planned calls := by
  rw [(build_eq_ok h).2.2, services_chain, applyAll_services, planned_chain]

end

/-! ## Starting -/

theorem startServices_prefix (services : List (S × RestartPolicy)) (outcomes : Nat → Except String Unit) :
    (startServices services outcomes).1 <+: services := by
  induction services generalizing outcomes with
  | nil => exact List.prefix_rfl
  | cons service services ih =>
    rw [startServices]
    split
    · exact (List.prefix_cons_inj service).mpr (ih _)
    · exact List.prefix_append [service] services

/-- When each start succeeds, all are started. -/
theorem startServices_ok (services : List (S × RestartPolicy)) :
    startServices services (fun _ => .ok ()) = (services, .ok ()) := by
  induction services with
  | nil => rfl
  | cons service services ih => rw [startServices, ih]

/-- A runtime that was built starts its services in the order of the chain if
no plugin before a service that the chain adds itself adds a service; and only
then, where no service is introduced twice. -/
theorem starts_in_order_iff [DecidableEq TypeId] {rt : BuiltRuntime TypeId Provider S}
    (hb : (RuntimeBuilder.chain calls).build = .ok rt)
    (hadds : ∀ plugin, .plugin plugin ∈ calls → AddsServices plugin) :
    (OwnServicesFirst calls → StartsInOrder rt calls) ∧
      ((introduced calls).Nodup → StartsInOrder rt calls → OwnServicesFirst calls) := by
  have hservices := services_build hb
  refine ⟨fun hfirst outcomes => ?_, fun hnd hstart => ownServicesFirst_of_introduced hadds hnd ?_⟩
  · rw [introduced_eq hadds hfirst, ← hservices]
    exact startServices_prefix rt.services outcomes
  · have hstarted := hstart fun _ => .ok ()
    rw [BuiltRuntime.start, startServices_ok, hservices] at hstarted
    exact (hstarted.eq_of_length (introduced_perm hadds).length_eq.symm).symm

/-! ## The observability plugin -/

/-- `ObservabilityPlugin` -/
def observabilityPlugin : Plugin String (fun _ => Unit) String where
  name := "observability"
  registerCapabilities reg := (reg.registerDefault "dyn HealthRegistry" ()).1
  registerServices planner := planner ++ [("observability", .oneShot)]
  requiredCapabilities := []

theorem addsServices_observabilityPlugin : AddsServices observabilityPlugin := fun _ => ⟨_, rfl⟩

/-- `App::run` with the plugin, as its docs recommend, starts the HTTP service
first. -/
theorem http_before_observability :
    ¬ ∀ (calls : List (BuilderCall String (fun _ => Unit) String)) rt,
      (RuntimeBuilder.chain calls).build = .ok rt →
        (∀ plugin, .plugin plugin ∈ calls → AddsServices plugin) → StartsInOrder rt calls := by
  intro h
  have hadds : ∀ plugin, .plugin plugin ∈ appChain [observabilityPlugin] "http" → AddsServices plugin := by
    intro plugin hm
    rcases List.mem_cons.mp hm with he | hm
    · cases he
      exact addsServices_observabilityPlugin
    · cases List.mem_singleton.mp hm
  obtain ⟨rest, hrest⟩ := h (appChain [observabilityPlugin] "http") _ rfl hadds fun _ => .ok ()
  have hfirst : some "http" = some "observability" :=
    congrArg (fun services => services.head?.map Prod.fst) hrest
  exact absurd hfirst (by decide)

/-- A chain with the HTTP service in front. -/
def httpFirst : List (BuilderCall String (fun _ => Unit) String) :=
  [.service "http" .oneShot, .plugin observabilityPlugin]

theorem http_in_order : ∃ rt, (RuntimeBuilder.chain httpFirst).build = .ok rt ∧ StartsInOrder rt httpFirst := by
  have hadds : ∀ plugin, .plugin plugin ∈ httpFirst → AddsServices plugin := by
    intro plugin hm
    rcases List.mem_cons.mp hm with he | hm
    · cases he
    · cases List.mem_singleton.mp hm
      exact addsServices_observabilityPlugin
  refine ⟨_, rfl, (starts_in_order_iff rfl hadds).1 fun pre service policy post he => ?_⟩
  rcases List.cons_eq_append_iff.mp he with ⟨rfl, -⟩ | ⟨pre', rfl, hpre⟩
  · rfl
  · rcases List.cons_eq_append_iff.mp hpre with ⟨-, hp⟩ | ⟨pre'', -, hnil⟩
    · cases hp
    · cases (List.append_eq_nil_iff.mp hnil.symm).2

end WalaStack.Proof.Runtime
