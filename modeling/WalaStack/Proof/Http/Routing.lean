import WalaStack.Proof.Http.Document
import WalaStack.Proof.Http.Handling
import WalaStack.Spec.Routing

/-!
# Routing

The router has of each method the templates in the order in which they were
registered (`routes_of_calls`), and none of them twice, so that a template leads
to the handler it was registered with.
-/

namespace WalaStack.Proof.Http

open WalaStack.Impl.Http WalaStack.Impl.OpenApi WalaStack.Spec.Http WalaStack.Transition

variable {Ctx H Operation : Type} {matchit : Matchit} {app app' : App H Operation} {c : AppCall H Operation}
variable {calls : List (AppCall H Operation)} {m : HttpMethod}

/-- The entry of a registration in its router. -/
def routeOf (r : Registration H Operation) : Path × BoxedHandler H Operation := (translatePath r.path, r.handler)

/-- A call adds its registration, of a template that is new. -/
theorem routes_call (hm : RefusesHeld matchit) (hcall : app.call matchit c = some app') :
    app'.router.routes = Function.update app.router.routes (registration app.openapiRoutes c).method
        (app.router.routes (registration app.openapiRoutes c).method ++ [routeOf (registration app.openapiRoutes c)]) ∧
      translatePath (registration app.openapiRoutes c).path ∉
        (app.router.routes (registration app.openapiRoutes c).method).map Prod.fst := by
  cases c with
  | get path h | post path h | put path h | delete path h | openapiRoute h spec | openapiServeAt path =>
    obtain ⟨router, hr, rfl⟩ := Option.map_eq_some_iff.mp hcall
    exact ⟨Router.route_eq_some hr, Router.route_fresh hm hr⟩

theorem routes_of_calls (hm : RefusesHeld matchit) (hrun : exec (App.call matchit) app calls = some app') (m : HttpMethod) :
    app'.router.routes m = app.router.routes m ++
      ((registrationsFrom app.openapiRoutes calls).filter fun r => r.method = m).map routeOf := by
  induction calls generalizing app with
  | nil =>
    cases hrun
    exact (List.append_nil _).symm
  | cons c calls ih =>
    rw [exec_cons, Option.bind_eq_some_iff] at hrun
    obtain ⟨app₁, hcall, hrest⟩ := hrun
    rw [ih hrest, (routes_call hm hcall).1, openapiRoutes_call hcall, registrationsFrom, List.filter_cons]
    by_cases h : (registration app.openapiRoutes c).method = m
    · subst h
      rw [Function.update_self, if_pos (decide_eq_true rfl), List.map_cons, List.append_assoc, List.singleton_append]
    · rw [Function.update_of_ne (Ne.symm h), if_neg (by simpa using h)]

/-- No template is in the router twice. -/
theorem nodup_of_calls (hm : RefusesHeld matchit) (hrun : exec (App.call matchit) .new calls = some app) (m : HttpMethod) :
    ((app.router.routes m).map Prod.fst).Nodup := by
  have hkept : ∀ {a : App H Operation} {c a'}, (∀ m, ((a.router.routes m).map Prod.fst).Nodup) →
      a.call matchit c = some a' → ∀ m, ((a'.router.routes m).map Prod.fst).Nodup := by
    intro a c a' hn hcall m
    obtain ⟨hroutes, hnew⟩ := routes_call hm hcall
    rw [hroutes]
    by_cases h : m = (registration a.openapiRoutes c).method
    · subst h
      rw [Function.update_self, List.map_append, List.nodup_append]
      refine ⟨hn _, List.nodup_singleton _, fun t ht t' ht' => ?_⟩
      rintro rfl
      have ht' : t = translatePath (registration a.openapiRoutes c).path := List.mem_singleton.mp ht'
      exact hnew (ht' ▸ ht)
    · rw [Function.update_of_ne h]
      exact hn m
  have hnew : ∀ m, (((App.new : App H Operation).router.routes m).map Prod.fst).Nodup := fun _ => List.nodup_nil
  exact exec_invariant hkept hnew hrun m

/-- A template leads to the handler that it was registered with. -/
theorem lookup_of_mem {α β : Type} [BEq α] [LawfulBEq α] {l : List (α × β)} {entry : α × β} (hn : (l.map Prod.fst).Nodup)
    (h : entry ∈ l) : l.lookup entry.1 = some entry.2 := by
  obtain ⟨before, after, rfl⟩ := List.append_of_mem h
  rw [List.lookup_eq_some_iff]
  refine ⟨before, after, rfl, fun e he => ?_⟩
  rw [List.map_append, List.nodup_append] at hn
  rw [bne_iff_ne]
  exact (hn.2.2 e.1 (List.mem_map_of_mem he) entry.1 (List.mem_map_of_mem List.mem_cons_self)).symm

theorem pairwise_of_nodup {l : List (Registration H Operation)}
    (h : ∀ m, ((l.filter fun r => r.method = m).map fun r => translatePath r.path).Nodup) :
    l.Pairwise fun r r' => r.method = r'.method → translatePath r.path ≠ translatePath r'.path := by
  induction l with
  | nil => exact .nil
  | cons r l ih =>
    refine List.pairwise_cons.mpr ⟨fun r' hr' hmethod hpath => ?_, ih fun m => ?_⟩
    · have hn := h r.method
      rw [List.filter_cons, if_pos (decide_eq_true rfl), List.map_cons, List.nodup_cons] at hn
      refine hn.1 (List.mem_map.mpr ⟨r', List.mem_filter.mpr ⟨hr', ?_⟩, hpath.symm⟩)
      exact decide_eq_true hmethod.symm
    · have hn := h m
      rw [List.filter_cons] at hn
      split at hn
      · rw [List.map_cons, List.nodup_cons] at hn
        exact hn.2
      · exact hn

theorem templates_of_calls {calls : List (AppCall H Operation)} (hm : RefusesHeld matchit)
    (hrun : exec (App.call matchit) .new calls = some app) (m : HttpMethod) :
    (app.router.routes m).map Prod.fst = templates calls m := by
  rw [routes_of_calls hm hrun, List.map_append, List.map_map]
  rfl

/-- What a chain has registered answers the requests under its template. -/
theorem answeredBy_of_registered {platform : Platform Ctx} {calls : List (AppCall (Handler Ctx) Metadata)}
    {app : App (Handler Ctx) Metadata} {r : Registration (Handler Ctx) Metadata} (hm : RefusesHeld matchit)
    (hrun : exec (App.call matchit) .new calls = some app) (hr : r ∈ registrations calls) :
    AnsweredBy platform calls app.router r.method (translatePath r.path) r.handler := by
  rintro runtime clock req taken hmethod h
  have hentry : routeOf r ∈ app.router.routes r.method := by
    rw [routes_of_calls hm hrun]
    exact List.mem_append_right _ (List.mem_map_of_mem (List.mem_filter.mpr ⟨hr, decide_eq_true rfl⟩))
  have hlookup : (app.router.routes r.method).lookup (translatePath r.path) = some r.handler :=
    lookup_of_mem (nodup_of_calls hm hrun _) hentry
  have hd : app.router.dispatch platform.matching req.parts.method req.parts.path =
      some (r.handler, collectParams taken) := by
    simp only [Router.dispatch, hmethod, templates_of_calls hm hrun, h, hlookup, Option.map_some]
  simp only [dispatchRequest, hd]

/-- In every application that a chain builds without a panic, a request is
answered by the handler of the one registration whose template `matchit`
matches its path with, whatever was registered before and after, and by no
other; and it is not found if there is none. -/
theorem routes_exactly {platform : Platform Ctx} {calls : List (AppCall (Handler Ctx) Metadata)}
    {app : App (Handler Ctx) Metadata} (hm : RefusesHeld matchit) (hmatch : MatchesHeld platform.matching)
    (hrun : exec (App.call matchit) .new calls = some app) : RoutesExactly platform calls app.router := by
  have hnodup : ∀ m, (templates calls m).Nodup := fun m => templates_of_calls hm hrun m ▸ nodup_of_calls hm hrun m
  refine ⟨pairwise_of_nodup hnodup, fun runtime clock req template taken h => ?_, fun runtime clock req h => ?_⟩
  · obtain ⟨r, hr, rfl⟩ := List.mem_map.mp (hmatch _ _ _ _ h)
    obtain ⟨hmem, hmethod⟩ := List.mem_filter.mp hr
    have hmethod : r.method = req.parts.method := of_decide_eq_true hmethod
    exact ⟨r, hmem, hmethod, rfl, answeredBy_of_registered hm hrun hmem runtime clock req taken hmethod.symm (hmethod ▸ h)⟩
  · have hd : app.router.dispatch platform.matching req.parts.method req.parts.path = none := by
      simp only [Router.dispatch, templates_of_calls hm hrun, h]
    simp only [dispatchRequest, hd]

theorem matchesHeld_segmentwise : MatchesHeld segmentwise := fun held path template taken h =>
  (onePerSegment_segmentwise held path template taken h).1

/-- A user's routes, and their document. -/
def userCalls : List (AppCall (Handler Unit) Metadata) :=
  [.put "/users/:id".toList (userParams.handler renames),
    .openapiRoute (Handler.arity0 notFound) ⟨.delete, "/users/:id".toList, { summary := some "Delete user" }⟩,
    .openapiServeAt "/openapi.json".toList]

theorem routes_exactly_users : ∃ app, exec (App.call strict) .new userCalls = some app ∧
    RoutesExactly (segments Unit) userCalls app.router :=
  ⟨_, rfl, routes_exactly refuses_strict.held matchesHeld_segmentwise rfl⟩

end WalaStack.Proof.Http
