import Mathlib.Data.List.Forall2
import WalaStack.Impl.Mcp.Descriptors

/-!
# Descriptors on the wire

In the wire form of MCP a tool and a resource are objects whose keys are
written in camel case. What a server lists should reach the caller with its
schemas and MIME types, and a resource that it describes alike in its list and
in its contents should have one MIME type in both (`Survive`).
-/

namespace WalaStack.Spec.Mcp

open WalaStack.Rust.Json WalaStack.Impl.Mcp

/-- A key whose value, if there is one, is a string. -/
def StringIfPresent (v : Value) (key : String) : Prop := ∀ u, v.get key = some u → ∃ s, u = .string s

/-- A tool in the wire form. Other keys may be present, but not those of the
fields' own names. -/
structure WireTool (v : Value) : Prop where
  object : ∃ entries, v = .object entries
  name : ∃ s, v.get "name" = some (.string s)
  description : StringIfPresent v "description"
  inputSchema : v.get "input_schema" = none
  outputSchema : v.get "output_schema" = none

/-- A resource in the wire form. -/
structure WireResource (v : Value) : Prop where
  object : ∃ entries, v = .object entries
  uri : ∃ s, v.get "uri" = some (.string s)
  name : StringIfPresent v "name"
  description : StringIfPresent v "description"
  mimeType : StringIfPresent v "mimeType"
  mime_type : v.get "mime_type" = none

/-- A server whose lists are in the wire form. -/
structure WireForm (request : Request) (tools resources : List Value) : Prop where
  toolsList : ∃ result, request "tools/list" (.object []) = .ok result ∧ result.get "tools" = some (.array tools)
  resourcesList : ∃ result, request "resources/list" (.object []) = .ok result ∧
    result.get "resources" = some (.array resources)
  tool : ∀ v ∈ tools, WireTool v
  resource : ∀ v ∈ resources, WireResource v

/-- The descriptor has what is on the wire. -/
structure CarriesTool (v : Value) (d : ToolDescriptor) : Prop where
  name : v.get "name" = some (.string d.name)
  description : v.get "description" = d.description.map .string
  inputSchema : v.get "inputSchema" = d.inputSchema
  outputSchema : v.get "outputSchema" = d.outputSchema

structure CarriesResource (v : Value) (d : ResourceDescriptor) : Prop where
  uri : v.get "uri" = some (.string d.uri)
  name : v.get "name" = d.name.map .string
  description : v.get "description" = d.description.map .string
  mimeType : v.get "mimeType" = d.mimeType.map .string

/-- The contents that the server has for the URI have the MIME type of `v`. -/
def DescribedAlike (request : Request) (uri : String) (v : Value) : Prop :=
  ∃ result first, request "resources/read" (.object [("uri", .string uri)]) = .ok result ∧
    firstContent result = .ok first ∧ first.get "mimeType" = v.get "mimeType"

/-- What the server describes survives the client. -/
structure Survive (request : Request) (server : String) (tools resources : List Value) : Prop where
  carriesTools : ∃ ds, listTools (some request) server = .ok ds ∧ List.Forall₂ CarriesTool tools ds
  carriesResources : ∃ ds, listResources (some request) server = .ok ds ∧ List.Forall₂ CarriesResource resources ds
  agree : ∀ ds, listResources (some request) server = .ok ds → ∀ (i : Nat) v d, resources[i]? = some v →
    ds[i]? = some d → DescribedAlike request d.uri v →
      ∀ content, readResource (some request) server d.uri = .ok content → content.mimeType = d.mimeType

/-- No tool has a schema, and no resource a MIME type. -/
def Unschematic (tools resources : List Value) : Prop :=
  (∀ v ∈ tools, v.get "inputSchema" = none ∧ v.get "outputSchema" = none) ∧
    ∀ v ∈ resources, v.get "mimeType" = none

end WalaStack.Spec.Mcp
