import WalaStack.Spec.Descriptors

/-!
# Descriptors on the wire

The fields are decoded by their own names, under which the wire form has no
schema and no MIME type: every tool and resource is decoded without them
(`fromValue_tool`, `fromValue_resource`), while `read_resource` looks the MIME
type up under its name on the wire. What a server lists survives exactly if it
has neither (`survive_iff_unschematic`).
-/

namespace WalaStack.Proof.Mcp

open WalaStack.Rust.Json WalaStack.Impl.Mcp WalaStack.Spec.Mcp

variable {v : Value} {request : Request} {server : String} {tools resources : List Value}

/-! ## Traversals -/

/-- A traversal whose elements are all decoded. -/
theorem mapM_ok_of_forall {α β ε : Type} {f : α → Except ε β} {R : α → β → Prop} {l : List α}
    (h : ∀ a ∈ l, ∃ b, f a = .ok b ∧ R a b) : ∃ bs, l.mapM f = .ok bs ∧ List.Forall₂ R l bs := by
  induction l with
  | nil => exact ⟨[], rfl, .nil⟩
  | cons a l ih =>
    obtain ⟨b, hb, hr⟩ := h a List.mem_cons_self
    obtain ⟨bs, hbs, hrs⟩ := ih fun a' ha' => h a' (List.mem_cons_of_mem a ha')
    refine ⟨b :: bs, ?_, .cons hr hrs⟩
    rw [List.mapM_cons, hb, hbs]
    rfl

/-- Along related lists, what holds of a pair exactly if it does of its first. -/
theorem forall₂_iff_forall {α β : Type} {R S : α → β → Prop} {P : α → Prop} {l : List α} {bs : List β}
    (h : List.Forall₂ R l bs) (hiff : ∀ a b, R a b → (S a b ↔ P a)) : List.Forall₂ S l bs ↔ ∀ a ∈ l, P a := by
  induction h with
  | nil => simp
  | cons hr _ ih => rw [List.forall₂_cons, List.forall_mem_cons, hiff _ _ hr, ih]

/-! ## Decoding -/

theorem optionalString_of_present {key : String} (h : StringIfPresent v key) (name : String) :
    ∃ s, optionalString name (v.get key) = .ok s ∧ v.get key = s.map .string := by
  cases hk : v.get key with
  | none => exact ⟨none, rfl, rfl⟩
  | some u =>
    obtain ⟨s, rfl⟩ := h u hk
    exact ⟨some s, rfl, rfl⟩

/-- What is decoded of a tool in the wire form. -/
structure ReadTool (v : Value) (d : ToolDescriptor) : Prop where
  name : v.get "name" = some (.string d.name)
  description : v.get "description" = d.description.map .string
  inputSchema : d.inputSchema = none
  outputSchema : d.outputSchema = none

structure ReadResource (v : Value) (d : ResourceDescriptor) : Prop where
  uri : v.get "uri" = some (.string d.uri)
  name : v.get "name" = d.name.map .string
  description : v.get "description" = d.description.map .string
  mimeType : d.mimeType = none

theorem fromValue_tool (h : WireTool v) : ∃ d, ToolDescriptor.fromValue v = .ok d ∧ ReadTool v d := by
  obtain ⟨s, hname⟩ := h.name
  obtain ⟨description, hdecode, hdescription⟩ := optionalString_of_present h.description "description"
  refine ⟨⟨s, description, none, none⟩, ?_, hname, hdescription, rfl, rfl⟩
  obtain ⟨entries, rfl⟩ := h.object
  rw [ToolDescriptor.fromValue, h.inputSchema, h.outputSchema, ToolDescriptor.ofFields, hname, hdecode]
  rfl

theorem fromValue_resource (h : WireResource v) : ∃ d, ResourceDescriptor.fromValue v = .ok d ∧ ReadResource v d := by
  obtain ⟨s, huri⟩ := h.uri
  obtain ⟨name, hdecode, hname⟩ := optionalString_of_present h.name "name"
  obtain ⟨description, hdecode', hdescription⟩ := optionalString_of_present h.description "description"
  refine ⟨⟨s, name, description, none⟩, ?_, huri, hname, hdescription, rfl⟩
  obtain ⟨entries, rfl⟩ := h.object
  rw [ResourceDescriptor.fromValue, h.mime_type, ResourceDescriptor.ofFields, huri, hdecode, hdecode']
  rfl

theorem ReadTool.carries_iff {d : ToolDescriptor} (h : ReadTool v d) :
    CarriesTool v d ↔ v.get "inputSchema" = none ∧ v.get "outputSchema" = none := by
  constructor
  · intro hc
    exact ⟨hc.inputSchema.trans h.inputSchema, hc.outputSchema.trans h.outputSchema⟩
  · rintro ⟨hi, ho⟩
    exact ⟨h.name, h.description, hi.trans h.inputSchema.symm, ho.trans h.outputSchema.symm⟩

theorem ReadResource.carries_iff {d : ResourceDescriptor} (h : ReadResource v d) :
    CarriesResource v d ↔ v.get "mimeType" = none := by
  constructor
  · intro hc
    rw [hc.mimeType, h.mimeType]
    rfl
  · intro hm
    exact ⟨h.uri, h.name, h.description, by rw [hm, h.mimeType]; rfl⟩

/-! ## Lists -/

theorem listTools_wire (h : WireForm request tools resources) (server : String) :
    ∃ ds, listTools (some request) server = .ok ds ∧ List.Forall₂ ReadTool tools ds := by
  obtain ⟨ds, hds, hread⟩ := mapM_ok_of_forall fun v hv => fromValue_tool (h.tool v hv)
  obtain ⟨result, hresult, htools⟩ := h.toolsList
  refine ⟨ds, ?_, hread⟩
  simp only [listTools, connected, hresult, member, htools, vecFromValue, hds, bind, Except.bind, Except.mapError]

theorem listResources_wire (h : WireForm request tools resources) (server : String) :
    ∃ ds, listResources (some request) server = .ok ds ∧ List.Forall₂ ReadResource resources ds := by
  obtain ⟨ds, hds, hread⟩ := mapM_ok_of_forall fun v hv => fromValue_resource (h.resource v hv)
  obtain ⟨result, hresult, hresources⟩ := h.resourcesList
  refine ⟨ds, ?_, hread⟩
  simp only [listResources, connected, hresult, member, hresources, vecFromValue, hds, bind, Except.bind, Except.mapError]

/-- The MIME type that `read_resource` returns is that of the first contents, by
its name on the wire. -/
theorem readResource_mimeType {uri : String} {result first : Value} {content : ResourceContent}
    (hresult : request "resources/read" (.object [("uri", .string uri)]) = .ok result)
    (hfirst : firstContent result = .ok first) (h : readResource (some request) server uri = .ok content) :
    content.mimeType = (first.get "mimeType").bind Value.asStr := by
  simp only [readResource, connected, hresult, hfirst, bind, Except.bind, Except.mapError] at h
  split at h
  · cases h
  · obtain rfl := Except.ok.inj h
    rfl

/-- A MIME type of the wire is lost in the list, and found in the contents. -/
theorem mimeType_agree_iff {d : ResourceDescriptor} (hw : WireResource v) (hd : ReadResource v d)
    (halike : DescribedAlike request d.uri v) {content : ResourceContent}
    (h : readResource (some request) server d.uri = .ok content) :
    content.mimeType = d.mimeType ↔ v.get "mimeType" = none := by
  obtain ⟨result, first, hresult, hfirst, hmime⟩ := halike
  rw [readResource_mimeType hresult hfirst h, hmime, hd.mimeType]
  cases hm : v.get "mimeType" with
  | none => simp
  | some u =>
    obtain ⟨s, rfl⟩ := hw.mimeType u hm
    simp [Value.asStr]

/-- What the server lists survives exactly if it has no schema and no MIME type. -/
theorem survive_iff_unschematic (h : WireForm request tools resources) (server : String) :
    Survive request server tools resources ↔ Unschematic tools resources := by
  obtain ⟨ts, hts, htools⟩ := listTools_wire h server
  obtain ⟨rs, hrs, hresources⟩ := listResources_wire h server
  have ht := forall₂_iff_forall htools fun _ _ hr => hr.carries_iff
  have hr := forall₂_iff_forall hresources fun _ _ hr => hr.carries_iff
  constructor
  · rintro ⟨⟨ts', hts', hcarry⟩, ⟨rs', hrs', hcarry'⟩, -⟩
    rw [hts] at hts'
    rw [hrs] at hrs'
    obtain rfl := Except.ok.inj hts'
    obtain rfl := Except.ok.inj hrs'
    exact ⟨ht.mp hcarry, hr.mp hcarry'⟩
  · intro hu
    refine ⟨⟨ts, hts, ht.mpr hu.1⟩, ⟨rs, hrs, hr.mpr hu.2⟩, fun ds hds i v d hi hdi halike content hread => ?_⟩
    rw [hrs] at hds
    obtain rfl := Except.ok.inj hds
    have hm := List.mem_of_getElem? hi
    have hpair : ReadResource v d := by
      obtain ⟨hlt, rfl⟩ := List.getElem?_eq_some_iff.mp hi
      obtain ⟨hlt', rfl⟩ := List.getElem?_eq_some_iff.mp hdi
      exact hresources.get hlt hlt'
    exact (mimeType_agree_iff (h.resource v hm) hpair halike hread).mpr (hu.2 v hm)

/-! ## The test server -/

/-- The lists and the contents of `fake_mcp_server.rs`, with what it says of the
MIME type of its resource. -/
def fakeServer (mimeType : List (String × Value)) : Request := fun method params =>
  match method with
  | "tools/list" => .ok (.object [("tools", .array fakeTools)])
  | "resources/list" => .ok (.object [("resources", .array [greeting])])
  | "resources/read" =>
    match (params.get "uri").bind Value.asStr with
    | some "memo://greeting" => .ok (.object [("contents", .array [.object
        ([("uri", .string "memo://greeting"), ("text", .string "hello from fake mcp")] ++ mimeType)])])
    | _ => .error (.remoteError (-32602) "unknown resource")
  | _ => .error (.remoteError (-32601) "method not found")
where
  fakeTools : List Value := [
    .object [("name", .string "echo"), ("description", .string "Returns its arguments unchanged")],
    .object [("name", .string "fail"), ("description", .string "Always fails with a structured error")]]
  greeting : Value := .object ([("uri", .string "memo://greeting"), ("name", .string "greeting")] ++ mimeType)

theorem wireTool_fakeTools : ∀ v ∈ fakeServer.fakeTools, WireTool v := by
  intro v hv
  simp only [fakeServer.fakeTools, List.mem_cons, List.not_mem_nil, or_false] at hv
  rcases hv with rfl | rfl <;>
  · refine ⟨⟨_, rfl⟩, ⟨_, rfl⟩, fun u hu => ⟨_, (Option.some.inj hu).symm⟩, rfl, rfl⟩

/-- One resource with its name, and with its MIME type or not. -/
theorem wireForm_fakeServer {mimeType : List (String × Value)}
    (hw : WireResource (fakeServer.greeting mimeType)) :
    WireForm (fakeServer mimeType) fakeServer.fakeTools [fakeServer.greeting mimeType] :=
  ⟨⟨_, rfl, rfl⟩, ⟨_, rfl, rfl⟩, wireTool_fakeTools, fun _ hv => List.mem_singleton.mp hv ▸ hw⟩

theorem wireResource_bare : WireResource (fakeServer.greeting []) := by
  refine ⟨⟨_, rfl⟩, ⟨_, rfl⟩, fun u hu => ⟨_, (Option.some.inj hu).symm⟩, fun u hu => ?_, fun u hu => ?_, rfl⟩
  · cases hu
  · cases hu

theorem survive_bare : Survive (fakeServer []) "fake" fakeServer.fakeTools [fakeServer.greeting []] := by
  refine (survive_iff_unschematic (wireForm_fakeServer wireResource_bare) "fake").mpr ⟨fun v hv => ?_, fun v hv => ?_⟩
  · simp only [fakeServer.fakeTools, List.mem_cons, List.not_mem_nil, or_false] at hv
    rcases hv with rfl | rfl <;> exact ⟨rfl, rfl⟩
  · obtain rfl := List.mem_singleton.mp hv
    rfl

def plainText : List (String × Value) := [("mimeType", .string "text/plain")]

theorem wireResource_plainText : WireResource (fakeServer.greeting plainText) := by
  refine ⟨⟨_, rfl⟩, ⟨_, rfl⟩, fun u hu => ⟨_, (Option.some.inj hu).symm⟩, fun u hu => ?_,
    fun u hu => ⟨_, (Option.some.inj hu).symm⟩, rfl⟩
  cases hu

/-- The server's own resource has no MIME type in the list, and `text/plain` when
it is read. -/
theorem not_survive_plainText : ¬ ∀ request server tools resources, WireForm request tools resources →
    Survive request server tools resources := by
  intro h
  have hs := h _ "fake" _ _ (wireForm_fakeServer wireResource_plainText)
  have hlist : listResources (some (fakeServer plainText)) "fake" =
      .ok [⟨"memo://greeting", some "greeting", none, none⟩] := rfl
  have hread : readResource (some (fakeServer plainText)) "fake" "memo://greeting" =
      .ok ⟨"memo://greeting", some "text/plain", .text "hello from fake mcp"⟩ := rfl
  have hmime := hs.agree _ hlist 0 _ _ rfl rfl ⟨_, _, rfl, rfl, rfl⟩ _ hread
  cases hmime

end WalaStack.Proof.Mcp
