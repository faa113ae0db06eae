import WalaStack.Framework.NestedMap
import WalaStack.Proof.Http.Metadata
import WalaStack.Proof.Http.Normalization

/-!
# Documents without loss

Two paths with one normal form have one template, or one of their templates
has two closing braces in a row (`translatePath_eq_of_normalizePath_eq`), where
its braces are not in order. So the routes that a router has
accepted have keys of their own, and the document, a map of maps that is filled
under these keys, has each of them (`listsEach_renderDocument`).
-/

namespace WalaStack.Proof.Http

open WalaStack.Impl.Http WalaStack.Impl.OpenApi WalaStack.Spec.Http WalaStack.Segments WalaStack.Transition
open WalaStack.Rust.Json (Value Map)

variable {H Operation : Type} {matchit : Matchit} {app app' : App H Operation} {a b segment : List Char}

/-! ## Braces -/

theorem foldlM_read_closing_twice (s : Braces) (rest : Path) : ('}' :: '}' :: rest).foldlM Braces.read s = none := by
  cases s with
  | outside | opened | named => rfl

/-- In a template whose braces are in order none is closed twice. -/
theorem closedOnce_of_wellBraced {template : Path} (h : WellBraced template) : ClosedOnce template := by
  rintro ⟨before, after, rfl⟩
  rw [WellBraced, List.append_assoc, List.foldlM_append, Option.bind_eq_bind, Option.bind_eq_some_iff] at h
  obtain ⟨s, -, hs⟩ := h
  rw [List.cons_append, List.cons_append, List.nil_append, foldlM_read_closing_twice] at hs
  cases hs

/-! ## Segments -/

/-- A parameter inside of braces is closed with them. -/
theorem closing_twice_suffix (hc : ':' ∈ segment) (hlast : segment.getLast? = some '}') :
    ['}', '}'] <:+ translateSegment segment := by
  induction segment with
  | nil => cases hc
  | cons c cs ih =>
    rw [translateSegment]
    have hcs : c ≠ '}' ∨ cs ≠ [] → cs.getLast? = some '}' := by
      intro hor
      cases cs with
      | nil =>
        rw [List.getLast?_singleton] at hlast
        exact hor.elim (absurd (Option.some.inj hlast)) (absurd rfl)
      | cons d ds => rwa [List.getLast?_cons_cons] at hlast
    split
    · rename_i hcolon
      subst hcolon
      obtain ⟨init, hinit⟩ := List.getLast?_eq_some_iff.mp (hcs (.inl (by decide)))
      rw [hinit]
      exact ⟨'{' :: init, by simp⟩
    · rename_i hcolon
      have hmem : ':' ∈ cs := (List.mem_cons.mp hc).resolve_left (Ne.symm hcolon)
      exact (ih hmem (hcs (.inr (List.ne_nil_of_mem hmem)))).trans (List.suffix_cons _ _)

/-- Unless a parameter in it is closed twice, a segment in braces is one of a
template. -/
theorem translateSegment_braced {x : List Char}
    (h : ¬ ['}', '}'] <:+: translateSegment ('{' :: x ++ ['}'])) :
    translateSegment ('{' :: x ++ ['}']) = '{' :: x ++ ['}'] := by
  rw [translateSegment_eq_self_iff]
  intro hc
  exact h (closing_twice_suffix hc List.getLast?_concat).isInfix

theorem translateSegment_parameter (x : List Char) : translateSegment (':' :: x) = '{' :: x ++ ['}'] := by
  rw [translateSegment, if_pos rfl]

/-- Segments with one normal form are one segment of a template. -/
theorem translateSegment_eq_of_normalizeSegment_eq (h : normalizeSegment a = normalizeSegment b)
    (ha : ¬ ['}', '}'] <:+: translateSegment a) (hb : ¬ ['}', '}'] <:+: translateSegment b) :
    translateSegment a = translateSegment b := by
  by_cases hpa : [':'] <+: a
  · obtain ⟨x, rfl⟩ := hpa
    change '{' :: x ++ ['}'] = normalizeSegment b at h
    by_cases hpb : [':'] <+: b
    · obtain ⟨y, rfl⟩ := hpb
      change '{' :: x ++ ['}'] = '{' :: y ++ ['}'] at h
      exact ((translateSegment_parameter x).trans h).trans (translateSegment_parameter y).symm
    · rw [normalizeSegment_literal hpb] at h
      subst h
      exact (translateSegment_parameter x).trans (translateSegment_braced hb).symm
  · rw [normalizeSegment_literal hpa] at h
    by_cases hpb : [':'] <+: b
    · obtain ⟨y, rfl⟩ := hpb
      change a = '{' :: y ++ ['}'] at h
      subst h
      exact (translateSegment_braced ha).trans (translateSegment_parameter y).symm
    · rw [normalizeSegment_literal hpb] at h
      rw [h]

/-! ## Paths -/

/-- A segment of a path is in its template. -/
theorem translateSegment_inside {path : Path} (h : segment ∈ path.splitOn '/') :
    translateSegment segment <:+: translatePath path := by
  rw [translatePath_eq]
  exact infix_intercalate (List.mem_map_of_mem h)

/-- Paths with one normal form have one template, if no brace is closed twice in
it. -/
theorem translatePath_eq_of_normalizePath_eq {p q : Path} (h : normalizePath p = normalizePath q)
    (hp : ClosedOnce (translatePath p)) (hq : ClosedOnce (translatePath q)) : translatePath p = translatePath q := by
  rw [normalizePath_eq, normalizePath_eq] at h
  rw [translatePath_eq p, translatePath_eq q]
  refine mapSegments_eq_of_eq (fun _ => not_mem_normalizeSegment) h fun a ha b hb hab => ?_
  refine translateSegment_eq_of_normalizeSegment_eq hab (fun hi => ?_) (fun hi => ?_)
  · exact hp (hi.trans (translateSegment_inside ha))
  · exact hq (hi.trans (translateSegment_inside hb))

/-! ## Accepted routes -/

/-- A route that the router accepts has a new template. -/
theorem Router.route_fresh {r r' : Router H} {method : HttpMethod} {path : Path} {h : H} (hm : RefusesHeld matchit)
    (hr : r.route matchit method path h = some r') : translatePath path ∉ (r.routes method).map Prod.fst := by
  obtain ⟨haccepts, -⟩ := Option.ite_none_right_eq_some.mp hr
  intro hheld
  rw [hm _ _ hheld] at haccepts
  cases haccepts

/-- Its braces are in order. -/
theorem Router.route_wellBraced {r r' : Router H} {method : HttpMethod} {path : Path} {h : H} (hm : Refuses matchit)
    (hr : r.route matchit method path h = some r') : WellBraced (translatePath path) := by
  obtain ⟨haccepts, -⟩ := Option.ite_none_right_eq_some.mp hr
  by_contra hbraces
  rw [hm.braces _ _ hbraces] at haccepts
  cases haccepts

/-- The routes that are to be in the next document. -/
structure Fresh (app : App H Operation) : Prop where
  documented : Documented app
  apart : app.openapiRoutes.Pairwise fun s s' => s.method = s'.method → translatePath s.path ≠ translatePath s'.path

theorem fresh_new : Fresh (App.new : App H Operation) := ⟨documented_new, .nil⟩

/-- A route that is registered is none of those that have been. -/
theorem fresh_call {c : AppCall H Operation} (hm : RefusesHeld matchit) (hf : Fresh app)
    (hcall : app.call matchit c = some app') : Fresh app' := by
  have hd : Documented app' := documented_call hf.documented hcall
  cases c with
  | get path h | post path h | put path h | delete path h =>
    obtain ⟨router, -, rfl⟩ := Option.map_eq_some_iff.mp hcall
    exact ⟨hd, hf.apart⟩
  | openapiServeAt path =>
    obtain ⟨router, -, rfl⟩ := Option.map_eq_some_iff.mp hcall
    exact ⟨hd, .nil⟩
  | openapiRoute h spec =>
    obtain ⟨router, hr, rfl⟩ := Option.map_eq_some_iff.mp hcall
    have hnew := Router.route_fresh hm hr
    refine ⟨hd, List.pairwise_append.mpr ⟨hf.apart, List.pairwise_singleton _ _, ?_⟩⟩
    intro old hold last hlast hmethod
    rw [List.mem_singleton.mp hlast] at hmethod ⊢
    obtain ⟨h', hrouted⟩ := hf.documented.pending old hold
    rw [RoutedAs, hmethod] at hrouted
    intro he
    exact hnew (List.mem_map.mpr ⟨_, hrouted, he⟩)

/-- No template that is to be in the next document closes a brace twice. -/
theorem closedOnce_call {c : AppCall H Operation} (hm : Refuses matchit)
    (hf : ∀ spec ∈ app.openapiRoutes, ClosedOnce (translatePath spec.path)) (hcall : app.call matchit c = some app') :
    ∀ spec ∈ app'.openapiRoutes, ClosedOnce (translatePath spec.path) := by
  cases c with
  | get path h | post path h | put path h | delete path h =>
    obtain ⟨router, -, rfl⟩ := Option.map_eq_some_iff.mp hcall
    exact hf
  | openapiServeAt path =>
    obtain ⟨router, -, rfl⟩ := Option.map_eq_some_iff.mp hcall
    exact fun _ hs => by cases hs
  | openapiRoute h spec =>
    obtain ⟨router, hr, rfl⟩ := Option.map_eq_some_iff.mp hcall
    intro s hs
    rcases List.mem_append.mp hs with hs | hs
    · exact hf s hs
    · rw [List.mem_singleton.mp hs]
      exact closedOnce_of_wellBraced (Router.route_wellBraced hm hr)

theorem openapiRoutes_call {c : AppCall H Operation} (hcall : app.call matchit c = some app') :
    app'.openapiRoutes = collect app.openapiRoutes c := by
  cases c with
  | get path h | post path h | put path h | delete path h | openapiRoute h spec | openapiServeAt path =>
    obtain ⟨router, -, rfl⟩ := Option.map_eq_some_iff.mp hcall
    rfl

/-- They have keys of their own. -/
theorem Fresh.keys_apart (hf : Fresh app) (hclosed : ∀ spec ∈ app.openapiRoutes, ClosedOnce (translatePath spec.path)) :
    app.openapiRoutes.Pairwise fun s s' => normalizePath s.path ≠ normalizePath s'.path ∨ s.method ≠ s'.method := by
  refine hf.apart.imp_of_mem fun hs hs' hapart => ?_
  by_contra hsame
  rw [not_or, not_not, not_not] at hsame
  obtain ⟨hpath, hmethod⟩ := hsame
  exact hapart hmethod (translatePath_eq_of_normalizePath_eq hpath (hclosed _ hs) (hclosed _ hs'))

/-! ## The map of the operations -/

variable {routes : List (RouteSpec Metadata)}

/-- What a turn of the loop inserts. -/
def keyed (route : RouteSpec Metadata) : String × String × Value :=
  (String.ofList (normalizePath route.path), route.method.asStr, renderOperation route.operation)

theorem foldl_insertOperation (routes : List (RouteSpec Metadata)) :
    routes.foldl insertOperation ∅ = NestedMap.insertAll ∅ (routes.map keyed) := by
  rw [NestedMap.insertAll, List.foldl_map]
  rfl

theorem asStr_injective {m m' : Method} (h : m.asStr = m'.asStr) : m = m' := by
  cases m <;> cases m' <;> first | rfl | exact absurd h (by decide)

theorem apart_keyed
    (h : routes.Pairwise fun s s' => normalizePath s.path ≠ normalizePath s'.path ∨ s.method ≠ s'.method) :
    (routes.map keyed).Pairwise NestedMap.Apart := by
  rw [List.pairwise_map]
  refine h.imp fun hapart => hapart.imp ?_ ?_
  · exact fun hpath he => hpath (String.ofList_injective he)
  · exact fun hmethod he => hmethod (asStr_injective he)

/-! ## The document -/

theorem get_paths (config : OpenApiConfig) (routes : List (RouteSpec Metadata)) :
    (renderDocument config routes).get "paths" =
      some (.ofMap ((routes.foldl insertOperation ∅).map fun _ item => .ofMap item)) := by
  rw [renderDocument, Value.get_ofMap, Std.TreeMap.getElem?_insert_self]

def toEntry (e : String × String × Value) : DocumentEntry := ⟨e.1, e.2.1, e.2.2⟩

/-- The operations of a document are the entries of the map. -/
theorem operations_renderDocument (config : OpenApiConfig) (routes : List (RouteSpec Metadata)) :
    operations (renderDocument config routes) =
      (NestedMap.entries (routes.foldl insertOperation ∅)).map toEntry := by
  rw [operations, get_paths, NestedMap.entries, List.map_flatMap]
  show List.flatMap _ (Std.TreeMap.toList (Std.TreeMap.map _ _)) = _
  rw [Std.TreeMap.toList_map, List.flatMap_map]
  refine List.flatMap_congr fun item _ => ?_
  rw [List.map_map]
  rfl

/-- A document of routes with keys of their own has each of them. -/
theorem listsEach_renderDocument (config : OpenApiConfig)
    (h : routes.Pairwise fun s s' => normalizePath s.path ≠ normalizePath s'.path ∨ s.method ≠ s'.method) :
    ListsEach routes (renderDocument config routes) := by
  constructor
  · rw [operations_renderDocument, foldl_insertOperation]
    have hperm := (NestedMap.perm_entries (apart_keyed h)).map toEntry
    rw [List.map_map] at hperm
    refine ⟨_, hperm, ?_⟩
    rw [List.forall₂_map_left_iff, List.forall₂_same]
    exact fun spec _ => ⟨rfl, rfl, describes_operation spec.operation⟩
  · rw [operations_renderDocument, List.pairwise_map]
    exact NestedMap.apart_entries

/-! ## What is served -/

/-- After any chain that the router accepts, the document that `openapi_serve_at`
has it serve has the operations of the routes that the chain has collected: of
each its own, and no other. -/
theorem served_listsEach {calls : List (AppCall H Metadata)} {path : Path} {app : App H Metadata} (hm : Refuses matchit)
    (hrun : exec (App.call matchit) .new (calls ++ [.openapiServeAt path]) = some app) (config : OpenApiConfig) :
    (∃ doc, Serves app path config doc) ∧ ∀ doc, Serves app path config doc → ListsEach (collected calls) doc := by
  rw [exec_append, Option.bind_eq_some_iff] at hrun
  obtain ⟨app₁, h₁, h₂⟩ := hrun
  have hfresh : Fresh app₁ := exec_invariant (fun hf hs => fresh_call hm.held hf hs) fresh_new h₁
  have hclosed : ∀ spec ∈ app₁.openapiRoutes, ClosedOnce (translatePath spec.path) :=
    exec_invariant (fun hf hs => closedOnce_call hm hf hs) (fun _ hs => by cases hs) h₁
  have hcollected : app₁.openapiRoutes = collected calls := exec_foldl (fun hs => openapiRoutes_call hs) h₁
  rw [exec_cons, Option.bind_eq_some_iff] at h₂
  obtain ⟨app₂, hcall, hlast⟩ := h₂
  obtain rfl := Option.some.inj hlast
  obtain ⟨router, hr, rfl⟩ := Option.map_eq_some_iff.mp hcall
  constructor
  · exact ⟨_, app₁.openapiRoutes, (Router.mem_route hr).mpr (.inr ⟨rfl, rfl⟩), rfl⟩
  · rintro doc ⟨routes, hmem, hdoc⟩
    rcases (Router.mem_route hr).mp hmem with hold | ⟨-, heq⟩
    · exact absurd (List.mem_map_of_mem hold) (Router.route_fresh hm.held hr)
    · obtain rfl := BoxedHandler.openapi.inj (Prod.mk.inj heq).2
      obtain rfl := Option.some.inj hdoc
      rw [← hcollected]
      exact listsEach_renderDocument config (hfresh.keys_apart hclosed)

/-- A chain of `openapi_route` alone has collected all its routes. -/
theorem collected_openapiRoute (calls : List (H × RouteSpec Operation)) :
    collected (calls.map fun c => AppCall.openapiRoute c.1 c.2) = calls.map Prod.snd := by
  have hfoldl : ∀ routes : List (RouteSpec Operation),
      (calls.map fun c => AppCall.openapiRoute c.1 c.2).foldl collect routes = routes ++ calls.map Prod.snd := by
    induction calls with
    | nil => simp
    | cons c calls ih =>
      intro routes
      rw [List.map_cons, List.foldl_cons, ih, collect, List.map_cons, List.append_assoc]
      rfl
  exact hfoldl []

/-- It refuses no other templates. -/
def strict : Matchit := ⟨fun templates template => !templates.contains template && decide (WellBraced template)⟩

theorem refuses_strict : Refuses strict where
  held templates template h := by simp [strict, h]
  braces templates template h := by simp [strict, h]

def users : List (AppCall Unit Metadata) :=
  [.openapiRoute () ⟨.get, "/users/:id".toList, { summary := some "Get user" }⟩,
    .openapiRoute () ⟨.delete, "/users/{id}".toList, { summary := some "Delete user" }⟩,
    .openapiRoute () ⟨.post, "/users".toList, { tags := ["users"] }⟩]

/-- A user's two operations, under one path. -/
theorem served_users : ∃ app doc, exec (App.call strict) .new (users ++ [.openapiServeAt "/openapi.json".toList]) = some app ∧
    Serves app "/openapi.json".toList ⟨"Users", "1.0.0", none, [], none, none⟩ doc ∧ ListsEach (collected users) doc := by
  obtain ⟨app, hrun⟩ : ∃ app, exec (App.call strict) .new (users ++ [.openapiServeAt "/openapi.json".toList]) = some app :=
    ⟨_, rfl⟩
  obtain ⟨⟨doc, hserves⟩, hlists⟩ := served_listsEach refuses_strict hrun ⟨"Users", "1.0.0", none, [], none, none⟩
  exact ⟨app, doc, hrun, hserves, hlists doc hserves⟩

end WalaStack.Proof.Http
