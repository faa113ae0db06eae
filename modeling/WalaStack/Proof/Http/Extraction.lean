import WalaStack.Proof.Http.Templates
import WalaStack.Spec.Extraction

/-!
# Path extraction

Any parameter comes first in some order (`exists_head`), so that the extraction
is determined by the request exactly if all parameters of the match are parsed
alike (`orderIndependent_iff_parsedAlike`). On a template with one parameter they
are (`orderIndependent_single`).
-/

namespace WalaStack.Proof.Http

open WalaStack.Impl.Http WalaStack.Spec.Http WalaStack.Segments

variable {H T E : Type} {matching : Matching} {fromStr : Path → Except E T} {display : E → String}
  {r : Router H} {method : HttpMethod} {path : Path} {params : PathParams}

/-! ## Orders -/

/-- Each entry is the first in an order. -/
theorem exists_head {entry : (_ : Path) × Path} (h : entry ∈ params.entries) :
    ∃ order : IterationOrder params, order.1.head? = some entry :=
  ⟨⟨entry :: params.entries.erase entry, (List.perm_cons_erase h).symm⟩, rfl⟩

/-- The extraction from an order is that from its first entry. -/
theorem pathFromRequestParts_of_head {order : IterationOrder params} {entry : (_ : Path) × Path}
    (h : order.1.head? = some entry) :
    pathFromRequestParts fromStr display (some ⟨params, order⟩) =
      (parsed fromStr display entry.2).mapError .pathDeserializationFailed := by
  simp only [pathFromRequestParts, h, parsed]
  cases fromStr entry.2 with
  | error e => rfl
  | ok value => rfl

theorem pathFromRequestParts_of_empty {order : IterationOrder params} (h : order.1.head? = none) :
    pathFromRequestParts fromStr display (some ⟨params, order⟩) =
      .error (.pathDeserializationFailed "no path parameter found") := by
  simp only [pathFromRequestParts, h]

theorem mapError_pathDeserializationFailed_inj {x y : Except String T}
    (h : x.mapError ExtractionRejection.pathDeserializationFailed = y.mapError ExtractionRejection.pathDeserializationFailed) :
    x = y := by
  cases x with
  | error e =>
    cases y with
    | error e' => rw [ExtractionRejection.pathDeserializationFailed.inj (Except.error.inj h)]
    | ok v => cases h
  | ok v =>
    cases y with
    | error e' => cases h
    | ok v' => rw [Except.ok.inj h]

/-- Of one map. -/
theorem forall_order_iff :
    (∀ order order' : IterationOrder params, pathFromRequestParts fromStr display (some ⟨params, order⟩) =
        pathFromRequestParts fromStr display (some ⟨params, order'⟩)) ↔
      ∀ entry ∈ params.entries, ∀ entry' ∈ params.entries,
        parsed fromStr display entry.2 = parsed fromStr display entry'.2 := by
  constructor
  · intro h entry he entry' he'
    obtain ⟨order, hhead⟩ := exists_head he
    obtain ⟨order', hhead'⟩ := exists_head he'
    have heq := h order order'
    rw [pathFromRequestParts_of_head hhead, pathFromRequestParts_of_head hhead'] at heq
    exact mapError_pathDeserializationFailed_inj heq
  · intro h order order'
    have hmem : ∀ {o : IterationOrder params} {entry : (_ : Path) × Path}, o.1.head? = some entry → entry ∈ params.entries :=
      fun {o} _ hhead => o.2.mem_iff.mp (List.mem_of_mem_head? hhead)
    cases hhead : order.1.head? with
    | none =>
      have hempty' : order'.1 = [] := by
        rw [List.head?_eq_none_iff] at hhead
        exact List.perm_nil.mp (order'.2.trans (by rw [← hhead]; exact order.2.symm))
      rw [pathFromRequestParts_of_empty hhead, pathFromRequestParts_of_empty (by rw [hempty']; rfl)]
    | some entry =>
      cases hhead' : order'.1.head? with
      | none =>
        rw [List.head?_eq_none_iff] at hhead'
        have hempty : order.1 = [] := List.perm_nil.mp (order.2.trans (by rw [← hhead']; exact order'.2.symm))
        rw [hempty] at hhead
        cases hhead
      | some entry' =>
        rw [pathFromRequestParts_of_head hhead, pathFromRequestParts_of_head hhead', h entry (hmem hhead) entry' (hmem hhead')]

/-- The extraction does not depend on the order exactly if the parameters are
parsed alike. -/
theorem orderIndependent_iff_parsedAlike (matching : Matching) (fromStr : Path → Except E T) (display : E → String)
    (r : Router H) (method : HttpMethod) (path : Path) :
    OrderIndependent matching fromStr display r method path ↔ ParsedAlike matching fromStr display r method path := by
  unfold OrderIndependent ParsedAlike
  simp only [forall_order_iff]

/-! ## One parameter -/

theorem dispatch_eq_some {handler : H} (h : r.dispatch matching method path = some (handler, params)) :
    ∃ template taken, matching.atPath ((r.routes method).map Prod.fst) path = some (template, taken) ∧
      (r.routes method).lookup template = some handler ∧ params = collectParams taken := by
  simp only [Router.dispatch] at h
  split at h
  · rename_i template taken hat
    obtain ⟨_, hl, heq⟩ := Option.map_eq_some_iff.mp h
    obtain ⟨rfl, rfl⟩ := Prod.mk.inj heq
    exact ⟨template, taken, hat, hl, rfl⟩
  · cases h

theorem length_foldl_insert_le (l : List (Path × Path)) (map : PathParams) :
    (l.foldl (fun map entry => map.insert entry.1 entry.2) map).entries.length ≤ map.entries.length + l.length := by
  induction l generalizing map with
  | nil => exact Nat.le_refl _
  | cons e l ih =>
    have hinsert : (map.insert e.1 e.2).entries.length ≤ map.entries.length + 1 := by
      rw [AList.entries_insert, List.length_cons]
      exact Nat.succ_le_succ (List.kerase_sublist _ _).length_le
    rw [List.foldl_cons, List.length_cons]
    exact Nat.le_trans (ih _) (by omega)

/-- On templates with one parameter at most. -/
theorem orderIndependent_single (hm : OnePerSegment matching)
    (hsingle : ∀ template ∈ (r.routes method).map Prod.fst, (parameterSegments template).length ≤ 1) :
    OrderIndependent matching fromStr display r method path := by
  intro handler params hd
  refine forall_order_iff.mpr fun entry he entry' he' => ?_
  obtain ⟨template, taken, hat, -, rfl⟩ := dispatch_eq_some hd
  obtain ⟨hmem, hlen⟩ := hm _ _ _ _ hat
  have hle := length_foldl_insert_le taken ∅
  have hone : (collectParams taken).entries.length ≤ 1 := by
    rw [AList.empty_entries, List.length_nil, Nat.zero_add] at hle
    exact Nat.le_trans hle (Nat.le_trans hlen (hsingle template hmem))
  obtain ⟨i, hi, rfl⟩ := List.mem_iff_getElem.mp he
  obtain ⟨j, hj, rfl⟩ := List.mem_iff_getElem.mp he'
  obtain rfl : i = j := by omega
  rfl

theorem mem_translateSegment_brace (segment : List Char) :
    '{' ∈ translateSegment segment ↔ ':' ∈ segment ∨ '{' ∈ segment := by
  induction segment with
  | nil => simp [translateSegment]
  | cons c cs ih =>
    rw [translateSegment]
    split
    · rename_i hc
      simp [hc]
    · rename_i hc
      simp only [List.mem_cons, ih, Ne.symm hc, false_or]
      exact or_left_comm

/-- The parameters of a route, in the router's syntax and in the application's. -/
theorem length_parameterSegments_translatePath (path : Path) :
    (parameterSegments (translatePath path)).length = (path.splitOn '/').countP fun s => ':' ∈ s ∨ '{' ∈ s := by
  rw [parameterSegments, translatePath_eq, splitOn_mapSegments (fun _ => not_mem_translateSegment),
    ← List.countP_eq_length_filter, List.countP_map]
  refine List.countP_congr fun s _ => ?_
  simp [mem_translateSegment_brace]

/-! ## Matching by segments -/

/-- The parameters of a path, segment by segment. -/
def takeSegments : List Path → List Path → Option (List (Path × Path))
  | [], [] => some []
  | t :: ts, p :: ps =>
    (takeSegments ts ps).bind fun params =>
      match t with
      | '{' :: name => if p = [] then none else some ((name.dropLast, p) :: params)
      | _ => if t = p then some params else none
  | _, _ => none

/-- Matching by whole segments. -/
def segmentwise : Matching where
  atPath templates path := templates.findSome? fun t =>
    (takeSegments (t.splitOn '/') (path.splitOn '/')).map fun params => (t, params)

theorem length_takeSegments {ts ps : List Path} {params : List (Path × Path)} (h : takeSegments ts ps = some params) :
    params.length ≤ (ts.filter fun s => '{' ∈ s).length := by
  induction ts generalizing ps params with
  | nil =>
    cases ps with
    | nil =>
      obtain rfl := Option.some.inj h
      exact Nat.le_refl 0
    | cons p ps => cases h
  | cons t ts ih =>
    cases ps with
    | nil => cases h
    | cons p ps =>
      simp only [takeSegments, Option.bind_eq_some_iff] at h
      obtain ⟨rest, hrest, h⟩ := h
      have hle := ih hrest
      rw [List.filter_cons]
      split at h
      · split at h
        · cases h
        · obtain rfl := Option.some.inj h
          rw [if_pos (by simp), List.length_cons, List.length_cons]
          exact Nat.succ_le_succ hle
      · split at h
        · obtain rfl := Option.some.inj h
          split
          · exact Nat.le_succ_of_le hle
          · exact hle
        · cases h

theorem onePerSegment_segmentwise : OnePerSegment segmentwise := by
  intro templates path template params h
  obtain ⟨t, hmem, ht⟩ := List.exists_of_findSome?_eq_some h
  obtain ⟨taken, htaken, heq⟩ := Option.map_eq_some_iff.mp ht
  obtain ⟨rfl, rfl⟩ := Prod.mk.inj heq
  exact ⟨hmem, length_takeSegments htaken⟩

def userById : Router Unit :=
  ⟨fun _ => [(translatePath "/users/:id".toList, ())]⟩

example : OrderIndependent segmentwise fromStr display userById method path :=
  orderIndependent_single onePerSegment_segmentwise
    (show ∀ template ∈ [translatePath "/users/:id".toList], (parameterSegments template).length ≤ 1 by decide)

def postsOfUser : Router Unit :=
  ⟨fun _ => [(translatePath "/users/:user/posts/:post".toList, ())]⟩

/-- Which of the two identifiers the handler gets depends on the order. -/
theorem not_orderIndependent_two : ¬ ∀ (matching : Matching) (r : Router Unit) (method : HttpMethod) (path : Path),
    OrderIndependent matching (T := Path) (E := Empty) .ok Empty.elim r method path := by
  intro h
  obtain ⟨params, hd, huser, hpost⟩ : ∃ params,
      postsOfUser.dispatch segmentwise .get "/users/1/posts/2".toList = some ((), params) ∧
        ⟨"user".toList, ['1']⟩ ∈ params.entries ∧ ⟨"post".toList, ['2']⟩ ∈ params.entries :=
    ⟨_, rfl, by decide, by decide⟩
  have hall := forall_order_iff.mp (h segmentwise postsOfUser .get _ () params hd)
  exact absurd (Except.ok.inj (hall _ huser _ hpost)) (by decide)

end WalaStack.Proof.Http
