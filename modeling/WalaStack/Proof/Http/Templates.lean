import Mathlib.Data.List.Induction
import WalaStack.Framework.Segments
import WalaStack.Framework.Transition
import WalaStack.Spec.Templates

/-!
# The two translations of a path

`translatePath` goes by characters and `normalizePath` by segments. Each
rewrites the segments one by one (`translatePath_eq`, `normalizePath_eq`), so
they agree on a path exactly if they agree on each of its segments.
-/

namespace WalaStack.Proof.Http

open WalaStack.Impl.Http WalaStack.Impl.OpenApi WalaStack.Spec.Http WalaStack.Segments WalaStack.Transition

variable {H Operation : Type} {matchit : Matchit} {app app' : App H Operation}
variable {spec : RouteSpec Operation} {path segment : List Char}

/-! ## Segments -/

/-- What `translatePath` makes of a segment. -/
def translateSegment : List Char → List Char
  | [] => []
  | c :: cs => if c = ':' then '{' :: cs ++ ['}'] else c :: translateSegment cs

theorem translateSegment_eq_self_iff : translateSegment segment = segment ↔ ':' ∉ segment := by
  induction segment with
  | nil => simp [translateSegment]
  | cons c cs ih =>
    rw [translateSegment]
    split
    · rename_i hc
      subst hc
      simp
    · rename_i hc
      rw [List.cons.injEq, ih]
      simp [Ne.symm hc]

/-- They agree on a segment without literal text before a parameter. -/
theorem translateSegment_eq_normalizeSegment_iff :
    translateSegment segment = normalizeSegment segment ↔ (':' ∈ segment → [':'] <+: segment) := by
  cases segment with
  | nil => simp [translateSegment, normalizeSegment]
  | cons c cs =>
    by_cases hc : c = ':'
    · subst hc
      simp [translateSegment, normalizeSegment]
    · have hn : normalizeSegment (c :: cs) = c :: cs := by
        unfold normalizeSegment
        split
        · rename_i he
          cases he
          exact absurd rfl hc
        · rfl
      rw [hn, translateSegment_eq_self_iff]
      simp [Ne.symm hc]

theorem not_mem_translateSegment (h : '/' ∉ segment) : '/' ∉ translateSegment segment := by
  induction segment with
  | nil => exact h
  | cons c cs ih =>
    rw [List.mem_cons, not_or] at h
    rw [translateSegment]
    split
    · simp [h.2]
    · simp [h.1, ih h.2]

theorem not_mem_normalizeSegment (h : '/' ∉ segment) : '/' ∉ normalizeSegment segment := by
  unfold normalizeSegment
  split
  · rename_i rest
    rw [List.mem_cons, not_or] at h
    simp [h.2]
  · exact h

/-! ## `translatePath` -/

/-- Both loops, by the first segment of what is left. -/
theorem translatePath_takeName {first : List Char} {rest : List (List Char)} (h : path.splitOn '/' = first :: rest) :
    translatePath path = ['/'].intercalate ((first :: rest).map translateSegment) ∧
      takeName path = ['/'].intercalate ((first ++ ['}']) :: rest.map translateSegment) := by
  induction path generalizing first rest with
  | nil =>
    cases h
    exact ⟨rfl, rfl⟩
  | cons c iter ih =>
    obtain ⟨a, l, hs⟩ := List.exists_cons_of_ne_nil (List.splitOn_ne_nil '/' iter)
    obtain ⟨ht, hn⟩ := ih hs
    rw [List.splitOn_cons_eq_if_modifyHead, hs] at h
    rw [translatePath, takeName]
    by_cases hc : c = '/'
    · subst hc
      cases h
      rw [if_neg (by decide), if_pos rfl, ht]
      exact ⟨by simp [translateSegment], by simp⟩
    · rw [if_neg (by simpa using hc)] at h
      cases h
      rw [if_neg hc, hn, List.map_cons, translateSegment]
      split
      · exact ⟨cons_intercalate .., cons_intercalate ..⟩
      · rw [ht]
        exact ⟨cons_intercalate .., cons_intercalate ..⟩

theorem translatePath_eq (path : Path) : translatePath path = mapSegments '/' translateSegment path := by
  obtain ⟨first, rest, h⟩ := List.exists_cons_of_ne_nil (List.splitOn_ne_nil '/' path)
  rw [mapSegments, h]
  exact (translatePath_takeName h).1

/-! ## `normalizePath` -/

/-- Once something is pushed, and in a path with a leading slash from the
start, each segment has its slash. -/
theorem foldl_pushSegment {out : List Char} (h : out ≠ [] ∨ ['/'] <+: path) (segments : List (List Char)) :
    segments.foldl (pushSegment path) out = out ++ (segments.map normalizeSegment).flatMap fun s => '/' :: s := by
  induction segments generalizing out with
  | nil => simp
  | cons s segments ih =>
    have hpush : pushSegment path out s = out ++ '/' :: normalizeSegment s := by
      rw [pushSegment, if_pos h, List.append_assoc]
      rfl
    rw [List.foldl_cons, hpush, ih (.inl (by simp)), List.map_cons, List.flatMap_cons, List.append_assoc]

theorem normalizePath_eq (path : Path) : normalizePath path = mapSegments '/' normalizeSegment path := by
  rw [mapSegments]
  cases path with
  | nil => rfl
  | cons c iter =>
    obtain ⟨a, l, hs⟩ := List.exists_cons_of_ne_nil (List.splitOn_ne_nil '/' iter)
    rw [normalizePath, List.splitOn_cons_eq_if_modifyHead, hs]
    by_cases hc : c = '/'
    · subst hc
      have hslash : ['/'] <+: '/' :: iter := by simp
      have hout : ([] :: a :: l).foldl (pushSegment ('/' :: iter)) [] =
          [] ++ (([] :: a :: l).map normalizeSegment).flatMap fun s => '/' :: s :=
        foldl_pushSegment (.inr hslash) _
      simp only [beq_self_eq_true, if_true]
      rw [hout, if_pos ⟨hslash, by simp [normalizeSegment]⟩, List.map_cons, intercalate_cons]
      simp [normalizeSegment]
    · have hslash : ¬ ['/'] <+: c :: iter := by simp [Ne.symm hc]
      have hfirst : pushSegment (c :: iter) [] (c :: a) = normalizeSegment (c :: a) := by
        rw [pushSegment, if_neg (by simp [hslash])]
        rfl
      have hne : normalizeSegment (c :: a) ≠ [] := by
        unfold normalizeSegment
        split <;> simp
      have hbeq : ¬ (c == '/') = true := by simp [hc]
      rw [if_neg hbeq, List.modifyHead_cons, List.foldl_cons, hfirst,
        foldl_pushSegment (.inl hne), if_neg (fun h => hslash h.1), List.map_cons, intercalate_cons]

theorem normalizePath_eq_translatePath_iff (path : Path) :
    normalizePath path = translatePath path ↔ FillsSegments path := by
  rw [eq_comm, translatePath_eq, normalizePath_eq,
    mapSegments_inj (fun _ => not_mem_translateSegment) (fun _ => not_mem_normalizeSegment)]
  simp only [translateSegment_eq_normalizeSegment_iff, FillsSegments]

/-! ## Documents -/

theorem renderPaths_concat (routes : List (RouteSpec Operation)) (spec : RouteSpec Operation) :
    renderPaths (routes ++ [spec]) =
      Function.update (renderPaths routes) (normalizePath spec.path)
        (Function.update (renderPaths routes (normalizePath spec.path)) spec.method.asStr (some spec.operation)) := by
  rw [renderPaths, List.foldl_concat]
  rfl

/-- The keys of a document are those of its routes. -/
theorem exists_of_renderPaths {routes : List (RouteSpec Operation)} {key : Path} {method : String} {op : Operation}
    (h : renderPaths routes key method = some op) :
    ∃ spec ∈ routes, normalizePath spec.path = key ∧ spec.method.asStr = method ∧ spec.operation = op := by
  induction routes using List.reverseRecOn with
  | nil => cases h
  | append_singleton routes last ih =>
    rw [renderPaths_concat] at h
    by_cases hkey : key = normalizePath last.path
    · subst hkey
      rw [Function.update_self] at h
      by_cases hmethod : method = last.method.asStr
      · subst hmethod
        rw [Function.update_self] at h
        exact ⟨last, by simp, rfl, rfl, Option.some.inj h⟩
      · rw [Function.update_of_ne hmethod] at h
        obtain ⟨spec, hspec, hrest⟩ := ih h
        exact ⟨spec, by simp [hspec], hrest⟩
    · rw [Function.update_of_ne hkey] at h
      obtain ⟨spec, hspec, hrest⟩ := ih h
      exact ⟨spec, by simp [hspec], hrest⟩

theorem lists_concat (routes : List (RouteSpec Operation)) (spec : RouteSpec Operation) :
    ListedAs (routes ++ [spec]) (normalizePath spec.path) spec := by
  rw [ListedAs, renderPaths_concat, Function.update_self, Function.update_self]

/-! ## Routers -/

theorem Router.route_eq_some {r r' : Router H} {method : HttpMethod} {h : H}
    (hr : r.route matchit method path h = some r') :
    r'.routes = Function.update r.routes method (r.routes method ++ [(translatePath path, h)]) := by
  obtain ⟨-, heq⟩ := Option.ite_none_right_eq_some.mp hr
  cases heq
  rfl

/-- Registration keeps the routes, and adds its own. -/
theorem Router.mem_route {r r' : Router H} {method m : HttpMethod} {h : H} {entry : Path × H}
    (hr : r.route matchit method path h = some r') :
    entry ∈ r'.routes m ↔ entry ∈ r.routes m ∨ m = method ∧ entry = (translatePath path, h) := by
  rw [Router.route_eq_some hr]
  by_cases hm : m = method
  · subst hm
    rw [Function.update_self]
    simp
  · rw [Function.update_of_ne hm]
    simp [hm]

/-! ## `openapi_route` -/

/-- An operation that `openapi_route` registers without a panic is listed under
the template of its handler exactly if no parameter of its path has literal
text before it in its segment. -/
theorem listed_as_routed_iff {h : H} (hcall : app.openapiRoute matchit h spec = some app') :
    ListedAs app'.openapiRoutes (normalizePath spec.path) spec ∧ RoutedAs app' spec (translatePath spec.path) h ∧
      (normalizePath spec.path = translatePath spec.path ↔ FillsSegments spec.path) := by
  obtain ⟨router, hr, rfl⟩ := Option.map_eq_some_iff.mp hcall
  refine ⟨lists_concat _ _, ?_, normalizePath_eq_translatePath_iff _⟩
  exact (Router.mem_route hr).mpr (.inr ⟨rfl, rfl⟩)

/-! ## What is served -/

/-- Each route in a document, served or to be served, has its handler. -/
structure Documented (app : App H Operation) : Prop where
  pending : ∀ spec ∈ app.openapiRoutes, ∃ h, RoutedAs app spec (translatePath spec.path) h
  served : ∀ m t routes, (t, .openapi routes) ∈ app.router.routes m →
    ∀ spec ∈ routes, ∃ h, RoutedAs app spec (translatePath spec.path) h

theorem documented_new : Documented (App.new : App H Operation) where
  pending spec h := by cases h
  served m t routes h := by cases h

/-- A call registers one handler, for a route that it adds to the pending ones
or for a document of these. -/
theorem documented_route {method : HttpMethod} {b : BoxedHandler H Operation} (hd : Documented app)
    (hr : app.router.route matchit method path b = some app'.router)
    (hpending : ∀ spec ∈ app'.openapiRoutes, spec ∈ app.openapiRoutes ∨
      methodFromOpenapi spec.method = method ∧ spec.path = path ∧ ∃ h, b = .handler h)
    (hserved : ∀ routes, b = .openapi routes → routes = app.openapiRoutes) : Documented app' := by
  have keep : ∀ spec : RouteSpec Operation, (∃ h, RoutedAs app spec (translatePath spec.path) h) →
      ∃ h, RoutedAs app' spec (translatePath spec.path) h := by
    intro spec hspec
    obtain ⟨h, hspec⟩ := hspec
    exact ⟨h, (Router.mem_route hr).mpr (.inl hspec)⟩
  constructor
  · intro spec hspec
    rcases hpending spec hspec with hold | ⟨rfl, rfl, h, rfl⟩
    · exact keep spec (hd.pending spec hold)
    · exact ⟨h, (Router.mem_route hr).mpr (.inr ⟨rfl, rfl⟩)⟩
  · intro m t routes hmem spec hspec
    rcases (Router.mem_route hr).mp hmem with hold | ⟨-, heq⟩
    · exact keep spec (hd.served m t routes hold spec hspec)
    · rw [hserved routes (Prod.mk.inj heq).2.symm] at hspec
      exact keep spec (hd.pending spec hspec)

theorem documented_addRoute {method : HttpMethod} {h : H} (hd : Documented app)
    (hcall : app.addRoute matchit method path h = some app') : Documented app' := by
  obtain ⟨router, hr, rfl⟩ := Option.map_eq_some_iff.mp hcall
  exact documented_route hd hr (fun spec hspec => .inl hspec)
    (fun routes heq => by cases heq)

theorem documented_call {c : AppCall H Operation} (hd : Documented app) (hcall : app.call matchit c = some app') :
    Documented app' := by
  cases c with
  | get path h | post path h | put path h | delete path h => exact documented_addRoute hd hcall
  | openapiRoute h spec =>
    obtain ⟨router, hr, rfl⟩ := Option.map_eq_some_iff.mp hcall
    refine documented_route hd hr (fun s hs => ?_)
      (fun routes heq => by cases heq)
    rcases List.mem_append.mp hs with hs | hs
    · exact .inl hs
    · rw [List.mem_singleton.mp hs]
      exact .inr ⟨rfl, rfl, h, rfl⟩
  | openapiServeAt path =>
    obtain ⟨router, hr, rfl⟩ := Option.map_eq_some_iff.mp hcall
    refine documented_route hd hr (fun s hs => by cases hs) (fun routes heq => ?_)
    cases heq
    rfl

/-- Of an application built without a panic, a document whose routes have no
literal text before a parameter lists only templates with a handler. -/
theorem served_keys_routed {calls : List (AppCall H Operation)} {m : HttpMethod} {t key : Path} {method : String}
    {op : Operation} {routes : List (RouteSpec Operation)} (hrun : exec (App.call matchit) .new calls = some app)
    (hserved : (t, .openapi routes) ∈ app.router.routes m) (hfill : ∀ spec ∈ routes, FillsSegments spec.path)
    (hkey : renderPaths routes key method = some op) :
    ∃ spec ∈ routes, spec.method.asStr = method ∧ spec.operation = op ∧ ∃ h, RoutedAs app spec key h := by
  have hd : Documented app := exec_invariant (fun hd hs => documented_call hd hs) documented_new hrun
  obtain ⟨spec, hspec, rfl, hmethod, hop⟩ := exists_of_renderPaths hkey
  obtain ⟨h, hroute⟩ := hd.served m t routes hserved spec hspec
  rw [← (normalizePath_eq_translatePath_iff _).mpr (hfill spec hspec)] at hroute
  exact ⟨spec, hspec, hmethod, hop, h, hroute⟩

/-! ## A prefix before a parameter -/

/-- It takes each template once. -/
def distinct : Matchit where
  accepts held template := !held.contains template

def prefixed : RouteSpec Unit := ⟨.get, "/files/v:id".toList, ()⟩

def whole : RouteSpec Unit := ⟨.get, "/users/:id/posts".toList, ()⟩

theorem openapiRoute_prefixed (hm : AdmitsPrefix matchit) :
    ∃ app' : App Unit Unit, App.new.openapiRoute matchit () prefixed = some app' := by
  have haccepts : matchit.accepts [] (translatePath prefixed.path) = true :=
    hm ['f', 'i', 'l', 'e', 's', '/', 'v'] ['i', 'd'] (by simp) (by simp) (by simp)
  rw [← Option.isSome_iff_exists, App.openapiRoute, App.addRoute, Option.isSome_map, Router.route, if_pos]
  · rfl
  · exact haccepts

/-- The router matches `/files/v{id}`, and the document has `/files/v:id`. -/
theorem prefixed_parameter :
    ¬ ∀ matchit, AdmitsPrefix matchit → ∀ (app app' : App Unit Unit) h spec,
      app.openapiRoute matchit h spec = some app' → normalizePath spec.path = translatePath spec.path := by
  intro hall
  have hm : AdmitsPrefix distinct := fun _ _ _ _ _ => rfl
  obtain ⟨app', hcall⟩ := openapiRoute_prefixed hm
  have heq := hall distinct hm _ _ _ _ hcall
  exact absurd heq (by decide)

theorem whole_segment : normalizePath whole.path = translatePath whole.path := by
  have hcall : (App.new : App Unit Unit).openapiRoute distinct () whole = some _ := rfl
  exact (listed_as_routed_iff hcall).2.2.mpr (by decide)

end WalaStack.Proof.Http
