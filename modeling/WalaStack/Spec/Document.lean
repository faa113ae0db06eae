import WalaStack.Impl.Http.Document

/-!
# Documents without loss

The document that an application serves should have one operation for each
route that was registered with `openapi_route`, and no other (`ListsEach`). What
an operation says of its route is read off the document: `DescribesOperation`
goes through the members that the metadata should have there.
-/

namespace WalaStack.Spec.Http

open WalaStack.Impl.Http WalaStack.Impl.OpenApi WalaStack.Rust.Json

/-! ## Templates -/

/-- Where the reading of a template is: outside of braces, behind an opening
one, or in a name. -/
inductive Braces
  | outside
  | opened
  | named
deriving DecidableEq, Repr

/-- `none`: a name without text, a brace in a name, or one that closes
nothing. -/
def Braces.read : Braces → Char → Option Braces
  | .outside, '{' => some .opened
  | .outside, '}' => none
  | .outside, _ => some .outside
  | .opened, '{' | .opened, '}' => none
  | .opened, _ => some .named
  | .named, '{' => none
  | .named, '}' => some .outside
  | .named, _ => some .named

/-- No braces are empty, nested or unbalanced. -/
def WellBraced (template : Path) : Prop := template.foldlM Braces.read .outside = some .outside

instance (template : Path) : Decidable (WellBraced template) :=
  inferInstanceAs (Decidable (_ = _))

/-- No brace is closed twice in a row, as where a closing brace is escaped. -/
def ClosedOnce (template : Path) : Prop := ¬ ['}', '}'] <:+: template

/-- `matchit` refuses a template that it holds, -/
def RefusesHeld (matchit : Matchit) : Prop :=
  ∀ templates template, template ∈ templates → matchit.accepts templates template = false

/-- and one whose braces are not in order. -/
structure Refuses (matchit : Matchit) : Prop where
  held : RefusesHeld matchit
  braces : ∀ templates template, ¬ WellBraced template → matchit.accepts templates template = false

/-! ## Operations -/

/-- The routes that a chain has registered with `openapi_route` and not served
yet. -/
def collect {H Operation : Type} (routes : List (RouteSpec Operation)) :
    AppCall H Operation → List (RouteSpec Operation)
  | .openapiRoute _ spec => routes ++ [spec]
  | .openapiServeAt _ => []
  | .get .. | .post .. | .put .. | .delete .. => routes

def collected {H Operation : Type} (calls : List (AppCall H Operation)) : List (RouteSpec Operation) :=
  calls.foldl collect []

/-- An operation of a document, with its key. -/
structure DocumentEntry where
  path : String
  method : String
  operation : Value

/-- The members of an object. -/
def members : Value → List (String × Value)
  | .object entries => entries
  | _ => []

/-- The operations of a document: the members of the members of `paths`. -/
def operations (doc : Value) : List DocumentEntry :=
  ((doc.get "paths").elim [] members).flatMap fun item => (members item.2).map fun m => ⟨item.1, m.1, m.2⟩

/-! ## Metadata -/

/-- A list, absent where it is empty. -/
def listed (elems : List Value) : Option Value := if elems = [] then none else some (.array elems)

/-- The value is an object with what is set of the schema, each under its
keyword. -/
inductive DescribesSchema : Value → Schema → Prop
  | intro {v : Value} {s : Schema} (property : String → Value) (item : Value)
    (object : ∃ entries, v = .object entries)
    (ty : v.get "type" = s.ty.map fun t => .string t.asStr)
    (format : v.get "format" = s.format.map .string)
    (description : v.get "description" = s.description.map .string)
    (properties : ∀ name,
      (v.get "properties").bind (Value.get name) = (s.properties.lookup name).map fun _ => property name)
    (eachProperty : ∀ name schema, s.properties.lookup name = some schema → DescribesSchema (property name) schema)
    (required : v.get "required" = listed (s.required.map .string))
    (items : v.get "items" = s.items.map fun _ => item)
    (eachItem : ∀ schema, s.items = some schema → DescribesSchema item schema)
    (nullable : v.get "nullable" = s.nullable.map .bool)
    (enumValues : v.get "enum" = listed s.enumValues)
    (exampleValue : v.get "example" = s.exampleValue) :
    DescribesSchema v s

structure DescribesParameter (v : Value) (p : ParameterSpec) : Prop where
  name : v.get "name" = some (.string p.name)
  location : v.get "in" = some (.string p.location.asStr)
  required : v.get "required" = some (.bool p.required)
  description : v.get "description" = p.description.map .string
  schema : ∃ w, v.get "schema" = some w ∧ DescribesSchema w p.schema

def DescribesMedia (v : Value) (m : MediaTypeSpec) : Prop := ∃ w, v.get "schema" = some w ∧ DescribesSchema w m.schema

/-- The value is an object with the media types, and no others. -/
def DescribesContent (v : Value) (content : Std.TreeMap String MediaTypeSpec) : Prop :=
  ∀ media : String, Option.Rel DescribesMedia (v.get media) content[media]?

structure DescribesBody (v : Value) (b : RequestBodySpec) : Prop where
  description : v.get "description" = b.description.map .string
  required : v.get "required" = some (.bool b.required)
  content : ∃ w, v.get "content" = some w ∧ DescribesContent w b.content

structure DescribesResponse (v : Value) (r : ResponseSpec) : Prop where
  description : v.get "description" = some (.string r.description)
  content : if r.content.isEmpty then v.get "content" = none
    else ∃ w, v.get "content" = some w ∧ DescribesContent w r.content

/-- The responses of an operation: where none is declared, a default one. -/
def declaredResponses (m : Metadata) : Std.TreeMap String ResponseSpec :=
  if m.responses.isEmpty then (∅ : Std.TreeMap String ResponseSpec).insert "default" ⟨"Default response", ∅⟩
  else m.responses

/-- The value is an operation with the metadata. -/
structure DescribesOperation (v : Value) (m : Metadata) : Prop where
  summary : v.get "summary" = m.summary.map .string
  description : v.get "description" = m.description.map .string
  tags : v.get "tags" = listed (m.tags.map .string)
  parameters : ∃ params, v.get "parameters" = listed params ∧ List.Forall₂ DescribesParameter params m.parameters
  requestBody : Option.Rel DescribesBody (v.get "requestBody") m.requestBody
  responses : ∃ w, v.get "responses" = some w ∧
    ∀ status : String, Option.Rel DescribesResponse (w.get status) (declaredResponses m)[status]?
  /-- It has no other members. -/
  only : ∀ key, (v.get key).isSome = true →
    key ∈ ["summary", "description", "tags", "parameters", "requestBody", "responses"]

/-- What the document should have for a route: under its normal path and its
method, an operation with its own metadata. -/
structure DescribesRoute (e : DocumentEntry) (spec : RouteSpec Metadata) : Prop where
  path : e.path = String.ofList (normalizePath spec.path)
  method : e.method = spec.method.asStr
  operation : DescribesOperation e.operation spec.operation

/-- There is one operation for each route, under a key of its own, and no
other. -/
structure ListsEach (routes : List (RouteSpec Metadata)) (doc : Value) : Prop where
  each : ∃ entries, (operations doc).Perm entries ∧ List.Forall₂ DescribesRoute entries routes
  apart : (operations doc).Pairwise fun e e' => e.path ≠ e'.path ∨ e.method ≠ e'.method

/-- A request for `path` is answered with the document. -/
def Serves {H : Type} (app : App H Metadata) (path : Path) (config : OpenApiConfig) (doc : Value) : Prop :=
  ∃ routes, (translatePath path, .openapi routes) ∈ app.router.routes .get ∧
    openapiHandler routes (some (some config)) = some doc

end WalaStack.Spec.Http
