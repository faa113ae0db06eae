import Mathlib.Data.List.Forall2
import WalaStack.Spec.Document

/-!
# The metadata in the document

Each `Serialize` implementation has its lemma, which says that what it renders
describes what it was given: `describes_schema` by induction on the schema, and
the others from it up to `describes_operation`.
-/

namespace WalaStack.Proof.Http

open WalaStack.Impl.OpenApi WalaStack.Rust.Json WalaStack.Spec.Http

/-! ## Objects -/

theorem getElem?_insert (map : Map) (key k : String) (v : Value) :
    (map.insert key v)[k]? = if key = k then some v else map[k]? := by
  rw [Std.TreeMap.getElem?_insert]
  simp only [Std.compare_eq_iff_eq]

theorem getElem?_insertSome (map : Map) (key k : String) (v : Option Value) :
    (map.insertSome key v)[k]? = if key = k then v.or map[k]? else map[k]? := by
  cases v with
  | none => simp [Map.insertSome]
  | some v => simp [Map.insertSome, getElem?_insert]

theorem unlessEmpty_array (elems : List Value) : unlessEmpty elems (.array elems) = listed elems := by
  cases elems <;> rfl

theorem unlessEmpty_map {α : Type} (f : α → Value) (elems : List α) :
    unlessEmpty elems (.array (elems.map f)) = listed (elems.map f) := by
  cases elems <;> rfl

/-! ## Schemas -/

theorem getElem?_serializeProperties (properties : List (String × Schema)) (name : String) :
    (Schema.serializeProperties properties)[name]? = (properties.lookup name).map Schema.serialize := by
  induction properties with
  | nil => simp [Schema.serializeProperties]
  | cons p properties ih =>
    obtain ⟨key, schema⟩ := p
    rw [Schema.serializeProperties, getElem?_insert, ih, List.lookup_cons]
    by_cases hk : key = name
    · subst hk
      simp
    · have hne : (name == key) = false := beq_false_of_ne (Ne.symm hk)
      simp [hk, hne]

theorem get_properties (properties : List (String × Schema)) (name : String) :
    (unlessEmpty properties (.ofMap (Schema.serializeProperties properties))).bind (Value.get name) =
      (properties.lookup name).map Schema.serialize := by
  cases properties with
  | nil => rfl
  | cons p properties => exact (Value.get_ofMap _ _).trans (getElem?_serializeProperties _ _)

theorem serializeItems_eq (items : Option Schema) : Schema.serializeItems items = items.map Schema.serialize := by
  cases items <;> rfl

theorem map_getD {α β : Type} (x : Option α) (f : α → β) (d : β) : (x.map fun _ => (x.map f).getD d) = x.map f := by
  cases x <;> rfl

mutual

theorem describes_schema : ∀ s : Schema, DescribesSchema s.serialize s
  | ⟨ty, format, description, properties, required, items, nullable, enumValues, exampleValue⟩ => by
    have hitems : ∀ schema, items = some schema → (items.map Schema.serialize).getD .null = schema.serialize :=
      fun schema h => by rw [h]; rfl
    have hproperties : ∀ name schema, properties.lookup name = some schema →
        ((properties.lookup name).map Schema.serialize).getD .null = schema.serialize :=
      fun name schema h => by rw [h]; rfl
    rw [Schema.serialize]
    apply DescribesSchema.intro (fun name => ((properties.lookup name).map Schema.serialize).getD .null)
      ((items.map Schema.serialize).getD .null)
    case object => exact ⟨_, rfl⟩
    case eachProperty =>
      intro name schema h
      rw [hproperties name schema h]
      exact describes_properties properties name schema h
    case eachItem =>
      intro schema h
      rw [hitems schema h]
      exact describes_items items schema h
    case properties =>
      intro name
      rw [map_getD, ← get_properties]
      simp [Value.get_ofMap, getElem?_insertSome]
    case items =>
      rw [map_getD, ← serializeItems_eq]
      simp [Value.get_ofMap, getElem?_insertSome]
    all_goals simp [Value.get_ofMap, getElem?_insertSome, unlessEmpty_array, unlessEmpty_map, Value.strings]

theorem describes_properties : ∀ (properties : List (String × Schema)) (name : String) (schema : Schema),
    properties.lookup name = some schema → DescribesSchema schema.serialize schema
  | [], name, schema, h => by cases h
  | (key, first) :: rest, name, schema, h => by
    rw [List.lookup_cons] at h
    split at h
    · cases h
      exact describes_schema first
    · exact describes_properties rest name schema h

theorem describes_items : ∀ (items : Option Schema) (schema : Schema),
    items = some schema → DescribesSchema schema.serialize schema
  | none, schema, h => by cases h
  | some item, schema, h => by
    cases h
    exact describes_schema item

end

/-! ## The parts of an operation -/

theorem describes_parameter (p : ParameterSpec) : DescribesParameter p.serialize p := by
  unfold ParameterSpec.serialize
  constructor
  case schema => exact ⟨_, by simp [Value.get_ofMap], describes_schema p.schema⟩
  all_goals simp only [Value.get_ofMap, getElem?_insert, getElem?_insertSome, String.reduceEq, reduceIte,
    Option.or_none, Std.TreeMap.getElem?_emptyc]

theorem describes_media (m : MediaTypeSpec) : DescribesMedia m.serialize m :=
  ⟨m.schema.serialize, by simp [MediaTypeSpec.serialize, Value.get_ofMap], describes_schema m.schema⟩

/-- The members of a rendered map describe its entries. -/
theorem rel_get_map {α : Type} {r : Value → α → Prop} {f : α → Value} (hr : ∀ a, r (f a) a)
    (map : Std.TreeMap String α) (key : String) :
    Option.Rel r ((Value.ofMap (map.map fun _ a => f a)).get key) map[key]? := by
  rw [Value.get_ofMap, Std.TreeMap.getElem?_map]
  cases map[key]? with
  | none => exact .none
  | some a => exact .some (hr a)

theorem describes_content (content : Std.TreeMap String MediaTypeSpec) :
    DescribesContent (.ofMap (content.map fun _ (m : MediaTypeSpec) => m.serialize)) content :=
  rel_get_map describes_media content

theorem describes_body (b : RequestBodySpec) : DescribesBody b.serialize b := by
  unfold RequestBodySpec.serialize
  constructor
  case content => exact ⟨_, by simp [Value.get_ofMap], describes_content b.content⟩
  all_goals simp only [Value.get_ofMap, getElem?_insert, getElem?_insertSome, String.reduceEq, reduceIte,
    Option.or_none, Std.TreeMap.getElem?_emptyc]

theorem describes_response (r : ResponseSpec) : DescribesResponse r.serialize r := by
  have hget : r.serialize.get "content" =
      unlessEmpty r.content.toList (.ofMap (r.content.map fun _ m => m.serialize)) := by
    simp [ResponseSpec.serialize, Value.get_ofMap, getElem?_insertSome]
  constructor
  · simp [ResponseSpec.serialize, Value.get_ofMap, getElem?_insertSome]
  · rw [hget, unlessEmpty, Std.TreeMap.isEmpty_toList]
    split
    · rfl
    · exact ⟨_, rfl, describes_content r.content⟩

/-! ## Operations -/

theorem get_renderOperation (m : Metadata) (key : String) (h : ((renderOperation m).get key).isSome = true) :
    key ∈ ["summary", "description", "tags", "parameters", "requestBody", "responses"] := by
  by_contra hno
  simp only [List.mem_cons, List.not_mem_nil, or_false, not_or] at hno
  obtain ⟨h₁, h₂, h₃, h₄, h₅, h₆⟩ := hno
  simp [renderOperation, Value.get_ofMap, getElem?_insert, getElem?_insertSome, Ne.symm h₁, Ne.symm h₂, Ne.symm h₃,
    Ne.symm h₄, Ne.symm h₅, Ne.symm h₆] at h

theorem getElem?_declaredResponses (m : Metadata) (status : String) :
    (if m.responses.isEmpty then m.responses.insert "default" ⟨"Default response", ∅⟩ else m.responses)[status]? =
      (declaredResponses m)[status]? := by
  unfold declaredResponses
  split
  · rename_i hempty
    simp only [Std.TreeMap.getElem?_insert, Std.TreeMap.getElem?_of_isEmpty hempty, Std.TreeMap.getElem?_emptyc]
  · rfl

/-- An operation is rendered with the metadata of its route. -/
theorem describes_operation (m : Metadata) : DescribesOperation (renderOperation m) m := by
  constructor
  case only => exact get_renderOperation m
  case parameters =>
    refine ⟨m.parameters.map ParameterSpec.serialize, ?_, ?_⟩
    · simp [renderOperation, Value.get_ofMap, getElem?_insert, getElem?_insertSome, unlessEmpty_map]
    · rw [List.forall₂_map_left_iff, List.forall₂_same]
      exact fun p _ => describes_parameter p
  case requestBody =>
    have hget : (renderOperation m).get "requestBody" = m.requestBody.map RequestBodySpec.serialize := by
      simp [renderOperation, Value.get_ofMap, getElem?_insert, getElem?_insertSome]
    rw [hget]
    cases m.requestBody with
    | none => exact .none
    | some b => exact .some (describes_body b)
  case responses =>
    refine ⟨_, by simp only [renderOperation, Value.get_ofMap, Std.TreeMap.getElem?_insert_self]; rfl, fun status => ?_⟩
    rw [← getElem?_declaredResponses]
    exact rel_get_map describes_response _ status
  all_goals simp [renderOperation, Value.get_ofMap, getElem?_insert, getElem?_insertSome, unlessEmpty_map, Value.strings]

end WalaStack.Proof.Http
