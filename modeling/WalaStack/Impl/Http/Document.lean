import WalaStack.Impl.Http.App
import WalaStack.Rust.Json

/-!
# Rendering the OpenAPI document

`render_document` and `render_operation` of `walastack-openapi/src/lib.rs`, with
the derived `Serialize` implementations of what they render, and the
`openapi_handler` of `walastack-app/src/lib.rs`. `serde_json::to_value` does not
fail on any of these types, so that no `unwrap_or_default` takes the default. A
`BTreeMap` in a schema is the list of its entries.
-/

namespace WalaStack.Impl.OpenApi

open WalaStack.Rust.Json

/-! ## Schemas -/

inductive SchemaType
  | string
  | integer
  | number
  | boolean
  | object
  | array
deriving DecidableEq, Repr

/-- `rename_all = "lowercase"` -/
def SchemaType.asStr : SchemaType → String
  | .string => "string"
  | .integer => "integer"
  | .number => "number"
  | .boolean => "boolean"
  | .object => "object"
  | .array => "array"

structure Schema where
  ty : Option SchemaType := none
  format : Option String := none
  description : Option String := none
  properties : List (String × Schema) := []
  required : List String := []
  items : Option Schema := none
  nullable : Option Bool := none
  enumValues : List Value := []
  exampleValue : Option Value := none

/-- A field with `skip_serializing_if = "Vec::is_empty"`. -/
def unlessEmpty {α : Type} (elems : List α) (v : Value) : Option Value := if elems.isEmpty then none else some v

mutual

def Schema.serialize : Schema → Value
  | ⟨ty, format, description, properties, required, items, nullable, enumValues, exampleValue⟩ =>
    let map : Map := ∅
    let map := map.insertSome "type" (ty.map fun t => .string t.asStr)
    let map := map.insertSome "format" (format.map .string)
    let map := map.insertSome "description" (description.map .string)
    let map := map.insertSome "properties" (unlessEmpty properties (.ofMap (Schema.serializeProperties properties)))
    let map := map.insertSome "required" (unlessEmpty required (.strings required))
    let map := map.insertSome "items" (Schema.serializeItems items)
    let map := map.insertSome "nullable" (nullable.map .bool)
    let map := map.insertSome "enum" (unlessEmpty enumValues (.array enumValues))
    .ofMap (map.insertSome "example" exampleValue)

def Schema.serializeProperties : List (String × Schema) → Map
  | [] => ∅
  | (name, schema) :: rest => (Schema.serializeProperties rest).insert name schema.serialize

def Schema.serializeItems : Option Schema → Option Value
  | none => none
  | some schema => some schema.serialize

end

/-! ## The parts of a route's specification -/

inductive ParameterLocation
  | path
  | query
  | header
  | cookie
deriving DecidableEq, Repr

/-- `rename_all = "lowercase"` -/
def ParameterLocation.asStr : ParameterLocation → String
  | .path => "path"
  | .query => "query"
  | .header => "header"
  | .cookie => "cookie"

structure ParameterSpec where
  name : String
  location : ParameterLocation
  required : Bool
  description : Option String
  schema : Schema

def ParameterSpec.serialize (p : ParameterSpec) : Value :=
  let map : Map := ∅
  let map := map.insert "name" (.string p.name)
  let map := map.insert "in" (.string p.location.asStr)
  let map := map.insert "required" (.bool p.required)
  let map := Map.insertSome map "description" (p.description.map .string)
  .ofMap (map.insert "schema" p.schema.serialize)

structure MediaTypeSpec where
  schema : Schema

def MediaTypeSpec.serialize (m : MediaTypeSpec) : Value := .ofMap ((∅ : Map).insert "schema" m.schema.serialize)

structure RequestBodySpec where
  description : Option String
  required : Bool
  content : Std.TreeMap String MediaTypeSpec

def RequestBodySpec.serialize (b : RequestBodySpec) : Value :=
  let map : Map := ∅
  let map := map.insertSome "description" (b.description.map .string)
  let map := map.insert "required" (.bool b.required)
  .ofMap (map.insert "content" (.ofMap (b.content.map fun _ m => m.serialize)))

structure ResponseSpec where
  description : String
  content : Std.TreeMap String MediaTypeSpec

def ResponseSpec.serialize (r : ResponseSpec) : Value :=
  let map : Map := ∅
  let map := map.insert "description" (.string r.description)
  .ofMap (Map.insertSome map "content" (unlessEmpty r.content.toList (.ofMap (r.content.map fun _ m => m.serialize))))

/-- Of a `RouteSpec`, all but the method and the path. -/
structure Metadata where
  summary : Option String := none
  description : Option String := none
  tags : List String := []
  parameters : List ParameterSpec := []
  requestBody : Option RequestBodySpec := none
  responses : Std.TreeMap String ResponseSpec := ∅

/-! ## The document -/

def renderOperation (route : Metadata) : Value :=
  let op : Map := ∅
  let op := op.insertSome "summary" (route.summary.map .string)
  let op := op.insertSome "description" (route.description.map .string)
  let op := op.insertSome "tags" (unlessEmpty route.tags (.strings route.tags))
  let op := op.insertSome "parameters"
    (unlessEmpty route.parameters (.array (route.parameters.map ParameterSpec.serialize)))
  let op := op.insertSome "requestBody" (route.requestBody.map RequestBodySpec.serialize)
  let responses :=
    if route.responses.isEmpty then route.responses.insert "default" ⟨"Default response", ∅⟩ else route.responses
  .ofMap (op.insert "responses" (.ofMap (responses.map fun _ r => r.serialize)))

structure ServerSpec where
  url : String
  description : Option String

def ServerSpec.serialize (s : ServerSpec) : Value :=
  let map : Map := ∅
  let map := map.insert "url" (.string s.url)
  .ofMap (Map.insertSome map "description" (s.description.map .string))

structure ContactSpec where
  name : Option String
  url : Option String
  email : Option String

def ContactSpec.serialize (c : ContactSpec) : Value :=
  let map : Map := ∅
  let map := map.insertSome "name" (c.name.map .string)
  let map := map.insertSome "url" (c.url.map .string)
  .ofMap (map.insertSome "email" (c.email.map .string))

structure LicenseSpec where
  name : String
  url : Option String

def LicenseSpec.serialize (l : LicenseSpec) : Value :=
  let map : Map := ∅
  let map := map.insert "name" (.string l.name)
  .ofMap (Map.insertSome map "url" (l.url.map .string))

structure OpenApiConfig where
  title : String
  version : String
  description : Option String := none
  servers : List ServerSpec := []
  contact : Option ContactSpec := none
  license : Option LicenseSpec := none

/-- A turn of the loop over the routes. -/
def insertOperation (paths : Std.TreeMap String Map) (route : RouteSpec Metadata) : Std.TreeMap String Map :=
  let normalized := String.ofList (normalizePath route.path)
  let pathItem := paths.getD normalized ∅
  paths.insert normalized (pathItem.insert route.method.asStr (renderOperation route.operation))

def renderDocument (config : OpenApiConfig) (routes : List (RouteSpec Metadata)) : Value :=
  let paths := routes.foldl insertOperation ∅
  let info : Map := ∅
  let info := info.insert "title" (.string config.title)
  let info := info.insert "version" (.string config.version)
  let info := Map.insertSome info "description" (config.description.map .string)
  let info := info.insertSome "contact" (config.contact.map ContactSpec.serialize)
  let info := info.insertSome "license" (config.license.map LicenseSpec.serialize)
  let doc : Map := ∅
  let doc := doc.insert "openapi" (.string "3.0.3")
  let doc := doc.insert "info" (.ofMap info)
  let doc := Map.insertSome doc "servers" (unlessEmpty config.servers (.array (config.servers.map ServerSpec.serialize)))
  let doc := doc.insert "paths" (.ofMap (paths.map fun _ item => .ofMap item))
  .ofMap doc

end WalaStack.Impl.OpenApi

namespace WalaStack.Impl.Http

open WalaStack.Impl.OpenApi WalaStack.Rust.Json

/-- `openapi_handler`, by the configuration in the registry of the request's
`RuntimeContext`; `none` is the internal server error. -/
def openapiHandler (routes : List (RouteSpec Metadata)) (runtime : Option (Option OpenApiConfig)) : Option Value := do
  let registry ← runtime
  let config ← registry
  return renderDocument config routes

end WalaStack.Impl.Http
