import WalaStack.Proof.Http.Handling
import WalaStack.Proof.Http.Routing
import WalaStack.Spec.Description

/-!
# The served document describes the application

A chain's registrations are in its router for good (`answeredBy_of_registered`),
the one of the document among them (`registrations_served`), so that the document
and the router are compared route by route.
-/

namespace WalaStack.Proof.Http

open WalaStack.Rust WalaStack.Impl.Http WalaStack.Impl.OpenApi WalaStack.Spec.Http WalaStack.Transition

variable {Ctx H Operation : Type} {matchit : Matchit} {platform : Platform Ctx}

theorem registrationsFrom_append (routes : List (RouteSpec Operation)) (before after : List (AppCall H Operation)) :
    registrationsFrom routes (before ++ after) =
      registrationsFrom routes before ++ registrationsFrom (before.foldl collect routes) after := by
  induction before generalizing routes with
  | nil => rfl
  | cons c before ih => rw [List.cons_append, registrationsFrom, ih, registrationsFrom, List.foldl_cons, List.cons_append]

theorem exists_of_forall₂ {α β : Type} {r : α → β → Prop} {l : List α} {l' : List β} {a : α} (h : List.Forall₂ r l l')
    (ha : a ∈ l) : ∃ b ∈ l', r a b := by
  induction h with
  | nil => cases ha
  | cons hr _ ih =>
    rcases List.mem_cons.mp ha with rfl | ha
    · exact ⟨_, List.mem_cons_self, hr⟩
    · obtain ⟨b, hb, hab⟩ := ih ha
      exact ⟨b, List.mem_cons_of_mem _ hb, hab⟩

/-- An operation of the document is that of a route. -/
theorem describes_of_mem {routes : List (RouteSpec Metadata)} {doc : Json.Value} {e : DocumentEntry}
    (h : ListsEach routes doc) (he : e ∈ operations doc) : ∃ spec ∈ routes, DescribesRoute e spec := by
  obtain ⟨entries, hperm, hall⟩ := h.each
  exact exists_of_forall₂ hall (hperm.mem_iff.mp he)

/-- What `openapi_route` has registered. -/
theorem mem_registrations_of_openapiRoute {calls : List (AppCall H Operation)} {h : H} {spec : RouteSpec Operation}
    (hc : AppCall.openapiRoute h spec ∈ calls) :
    ⟨methodFromOpenapi spec.method, spec.path, .handler h⟩ ∈ registrations calls := by
  obtain ⟨before, after, rfl⟩ := List.append_of_mem hc
  rw [registrations, registrationsFrom_append]
  exact List.mem_append_right _ List.mem_cons_self

/-- The document has the routes that were collected before it. -/
theorem registrations_served (before after : List (AppCall H Operation)) (path : Path) :
    ⟨.get, path, .openapi (collected before)⟩ ∈ registrations (before ++ .openapiServeAt path :: after) := by
  rw [registrations, registrationsFrom_append]
  exact List.mem_append_right _ List.mem_cons_self

theorem openapiRoute_of_collected {before : List (AppCall H Operation)} {spec : RouteSpec Operation}
    (hs : spec ∈ collected before) : ∃ h, AppCall.openapiRoute h spec ∈ before := by
  induction before using List.reverseRecOn with
  | nil => cases hs
  | append_singleton before c ih =>
    have hold : spec ∈ collected before → ∃ h, AppCall.openapiRoute h spec ∈ before ++ [c] := fun hs =>
      (ih hs).imp fun _ hc => List.mem_append_left _ hc
    rw [collected, List.foldl_concat] at hs
    cases c with
    | get path h | post path h | put path h | delete path h => exact hold hs
    | openapiServeAt path => cases hs
    | openapiRoute h last =>
      rcases List.mem_append.mp hs with hs | hs
      · exact hold hs
      · obtain rfl := List.mem_singleton.mp hs
        exact ⟨h, List.mem_append_right _ List.mem_cons_self⟩

variable {calls before after : List (AppCall (Handler Ctx) Metadata)} {app : App (Handler Ctx) Metadata}

/-- The document is served as its bytes. -/
theorem callHandler_openapi {routes : List (RouteSpec Metadata)} {config : OpenApiConfig} {runtime : Ctx}
    {clock : Nat → Nat} {req : Request Ctx} {params : PathParams} {bytes : List UInt8}
    (hc : platform.openApiConfig runtime = some config)
    (hb : platform.toVec (renderDocument config routes) = .ok bytes) :
    callHandler platform (.openapi routes) clock (inserted platform runtime params req) =
      (Response.new bytes).withContentType "application/json" := by
  have hdoc : openapiHandler routes ((inserted platform runtime params req).parts.runtime.map platform.openApiConfig) =
      some (renderDocument config routes) := by
    show openapiHandler routes (some (platform.openApiConfig runtime)) = _
    rw [hc]
    rfl
  simp only [callHandler, hdoc, hb]

/-- In every application that a chain builds without a panic, the document served
at the path of an `openapi_serve_at` is answered to its requests, and each
operation that it lists is one of a call before it, whose handler answers the
requests under its template, whatever the chain has registered since. A
template with an escaped closing brace could have the key of another. -/
theorem describes_application {path : Path} (hm : RefusesHeld matchit)
    (hclosed : ∀ h spec, AppCall.openapiRoute h spec ∈ before → ClosedOnce (translatePath spec.path))
    (hrun : exec (App.call matchit) .new (before ++ .openapiServeAt path :: after) = some app) (config : OpenApiConfig) :
    Describes platform (before ++ .openapiServeAt path :: after) app.router path (collected before) config := by
  have hsplit := hrun
  rw [exec_append, Option.bind_eq_some_iff] at hsplit
  obtain ⟨app₁, h₁, -⟩ := hsplit
  have hfresh : Fresh app₁ := exec_invariant (fun hf hs => fresh_call hm hf hs) fresh_new h₁
  have hcollected : app₁.openapiRoutes = collected before := exec_foldl (fun hs => openapiRoutes_call hs) h₁
  have happ : ∀ spec ∈ app₁.openapiRoutes, ClosedOnce (translatePath spec.path) := fun spec hs => by
    rw [hcollected] at hs
    obtain ⟨h, hc⟩ := openapiRoute_of_collected hs
    exact hclosed h spec hc
  have hlisted : ListsEach (collected before) (renderDocument config (collected before)) :=
    hcollected ▸ listsEach_renderDocument config (hfresh.keys_apart happ)
  constructor
  case served =>
    intro runtime clock req taken bytes hc hb hget hat
    rw [answeredBy_of_registered hm hrun (registrations_served before after path) runtime clock req taken hget hat]
    exact callHandler_openapi hc hb
  case listed => exact hlisted
  case answered =>
    intro e he
    obtain ⟨spec, hs, hdescribes⟩ := describes_of_mem hlisted he
    obtain ⟨h, hcall⟩ := openapiRoute_of_collected hs
    have hmem : AppCall.openapiRoute h spec ∈ before ++ .openapiServeAt path :: after := List.mem_append_left _ hcall
    exact ⟨h, spec, hmem, hdescribes, answeredBy_of_registered hm hrun (mem_registrations_of_openapiRoute hmem)⟩
  case keyed =>
    intro e _ spec _ hdescribes
    rw [hdescribes.path, ← normalizePath_eq_translatePath_iff]
    exact ⟨fun hk => String.ofList_injective hk, fun hp => congrArg String.ofList hp⟩

/-- A documented route, the document, and a route that is not in it. -/
def documentedUsers : List (AppCall (Handler Unit) Metadata) :=
  [.openapiRoute (Handler.arity0 notFound) ⟨.delete, "/users/:id".toList, { summary := some "Delete user" }⟩]

def usersConfig : OpenApiConfig := ⟨"Users", "1.0.0", none, [], none, none⟩

/-- It writes each document as an empty object. -/
def documenting : Platform Unit where
  matching := segmentwise
  order := (segments Unit).order
  openApiConfig _ := some usersConfig
  toVec _ := .ok (asBytes "\x7b\x7d")

theorem describes_application_users : ∃ app, exec (App.call strict) .new
      (documentedUsers ++ .openapiServeAt "/openapi.json".toList :: [.put "/users/:id".toList (userParams.handler renames)]) =
        some app ∧
    Describes documenting
      (documentedUsers ++ .openapiServeAt "/openapi.json".toList :: [.put "/users/:id".toList (userParams.handler renames)])
      app.router "/openapi.json".toList (collected documentedUsers) usersConfig := by
  refine ⟨_, rfl, describes_application refuses_strict.held (fun h spec hc => ?_) rfl usersConfig⟩
  cases List.mem_singleton.mp hc
  exact closedOnce_of_wellBraced rfl

end WalaStack.Proof.Http
