import WalaStack.Proof.Auth
import WalaStack.Proof.Capabilities
import WalaStack.Proof.Http.Extraction
import WalaStack.Spec.Handling

/-!
# What a handler lets through

The extractors of the program only read the parts, and whether one fails on the
server's side depends on the `RuntimeContext` alone (`client_of_parts`), if its
capabilities are there for good: with a rotation that comes to a name without a
provider they are not (`steadyLookup_of_not_weighted`). So a server whose
handler has run once never blames itself for a request
(`answered_or_client_error`). A function that takes `Auth` has no say in the
response to a request without a valid token (`response_of_unauthenticated`).
-/

namespace WalaStack.Proof.Http

open WalaStack.Rust WalaStack.Rust.Json WalaStack.Impl.Http WalaStack.Impl.Auth WalaStack.Spec.Auth WalaStack.Spec.Http
open WalaStack.Impl.OpenApi (Metadata)
open WalaStack.Proof.Auth (hs256 apiCodec documented_tabled)

variable {Ctx F α β : Type} {parts parts' : Parts Ctx} {clock clock' : Nat → Nat} {now now' : Nat} {runtime : Ctx}
  {ok : LookupCondition Ctx}

/-! ## One extractor -/

theorem parts_kept {p : FromRequestParts Ctx α} (hp : BuiltInParts ok p) : (p now parts).2 = parts := by
  cases hp <;> rfl

theorem exists_codec {lib : Jsonwebtoken} {authParts : AuthParts} {claims : Claims}
    (h : authParts.auth lib now = .ok claims) : ∃ codec, authParts.codec = .ok codec := by
  cases hc : authParts.codec with
  | ok codec => exact ⟨codec, rfl⟩
  | error r =>
    simp only [AuthParts.auth, hc, bind, Except.bind, reduceCtorEq] at h

theorem call_eq (params : Params Ctx F) (f : F) (clock : Nat → Nat) (parts : Parts Ctx) (body : List UInt8) :
    params.call f clock parts body =
      match extract params f clock parts body with
      | .ok response => response
      | .error rejection => rejection.intoResponse := by
  induction params generalizing clock parts with
  | last p =>
    rw [Params.call, extract]
    cases p (clock 0) ⟨parts, body⟩ <;> rfl
  | cons p rest ih =>
    rw [Params.call, extract]
    obtain ⟨rejection | a, parts'⟩ := p (clock 0) parts
    · rfl
    · exact ih _ _ _

variable {platform : Platform Ctx} {router : Router (BoxedHandler (Handler Ctx) Metadata)}
variable {params : Params Ctx F} {f : F} {req req' : Request Ctx} {pathParams pathParams' : PathParams}

theorem dispatchRequest_of_leadsTo (h : LeadsTo platform router (params.handler f) req pathParams) :
    dispatchRequest platform router runtime clock req =
      params.call f clock (inserted platform runtime pathParams req).parts req.body := by
  have hd : router.dispatch platform.matching req.parts.method req.parts.path =
      some (.handler (params.handler f), pathParams) := h
  simp only [dispatchRequest, hd]
  rfl

/-- A platform that matches by segments, and serves no document. -/
def segments (Ctx : Type) : Platform Ctx where
  matching := segmentwise
  order params := ⟨params.entries, .refl _⟩
  openApiConfig _ := none
  toVec _ := .ok []

/-- A user's id, of one digit. -/
def digitId (text : Path) : Except Unit Nat := if text = ['7'] then .ok 7 else .error ()

def userParams : Params Unit (Nat → List UInt8 → Response) :=
  .cons (.path digitId fun _ => "invalid digit found in string") (.last .bytes)

def renames : Nat → List UInt8 → Response := fun _ body => textResponse body

variable {lib : Jsonwebtoken} {context : Ctx → AuthContext} {e : FromRequestParts Ctx β} {body : List UInt8}

/-- The codec of a context is made of what it has. -/
theorem codec_eq_ok {authContext : AuthContext} {authorization : Option (List UInt8)} {codec : JwtCodec}
    (h : AuthParts.codec ⟨some authContext, authorization⟩ = .ok codec) :
    ∃ settings secrets, authContext.settings = some settings ∧ authContext.secretsProvider = some secrets ∧
      codec = ⟨secrets, settings.keyName, settings.config⟩ := by
  simp only [AuthParts.codec] at h
  split at h
  · cases h
  · rename_i settings hs
    cases hp : authContext.secretsProvider with
    | none =>
      rw [hp] at h
      cases h
    | some secrets =>
      simp only [hp, JwtCodec.fromRuntime] at h
      split at h <;> cases h
      exact ⟨settings, secrets, hs, rfl, rfl⟩

/-- `Auth` accepts authenticated requests only. -/
theorem authenticated_of_auth (doc : Spec.Auth.Documented lib) {authContext : AuthContext} {headers : HeaderMap} {claims : Claims}
    (h : AuthParts.auth lib ⟨some authContext, headers.lookup "authorization"⟩ now = .ok claims) :
    Authenticated doc authContext headers now := by
  obtain ⟨codec, hc⟩ := exists_codec h
  obtain ⟨settings, secrets, hsettings, hsecrets, rfl⟩ := codec_eq_ok hc
  simp only [AuthParts.auth, hc, bind, Except.bind] at h
  split at h
  · cases h
  · rename_i token htoken
    simp only [JwtCodec.decode, JwtCodec.decodeCustom, JwtCodec.secret, bind, Except.bind] at h
    cases hsecret : secrets settings.keyName with
    | none =>
      rw [hsecret] at h
      cases h
    | some secret =>
      simp only [hsecret] at h
      cases hd : lib.decode Claims.fromValue token secret
          (JwtCodec.validation ⟨secrets, settings.keyName, settings.config⟩) now with
      | error message =>
        rw [hd] at h
        cases h
      | ok claims' =>
        obtain ⟨payload, hpayload, hpasses, hclaims⟩ := doc.decode_eq_ok_iff.mp hd
        exact ⟨settings, secrets, secret, token, payload, claims', hsettings, hsecrets, hsecret, htoken, hpayload,
          hpasses, hclaims⟩

/-- A function does not run if one of its parameters is refused whenever it is
extracted, and so it has no say in the response. -/
theorem extract_of_refused (hb : BuiltIn ok params) (ht : Takes e params)
    (h : ∀ i, ∃ r, (e (clock i) parts).1 = .error r) :
    ∃ rejection, ∀ f, extract params f clock parts body = .error rejection := by
  induction ht generalizing clock with
  | last =>
    obtain ⟨r, hr⟩ := h 0
    refine ⟨r, fun f => ?_⟩
    rw [extract, FromRequest.ofParts, hr]
    rfl
  | here =>
    obtain ⟨r, hr⟩ := h 0
    refine ⟨r, fun f => ?_⟩
    have he : e (clock 0) parts = (.error r, (e (clock 0) parts).2) := Prod.ext hr rfl
    rw [extract, he]
  | @there α F p rest _ ih =>
    obtain ⟨hp, hrest⟩ := hb
    have hkept : (p (clock 0) parts).2 = parts := parts_kept hp
    cases ha : (p (clock 0) parts).1 with
    | error r =>
      refine ⟨r, fun f => ?_⟩
      have he : p (clock 0) parts = (.error r, parts) := Prod.ext ha hkept
      rw [extract, he]
    | ok a =>
      obtain ⟨r, hr⟩ := ih hrest fun i => h (i + 1)
      refine ⟨r, fun f => ?_⟩
      have he : p (clock 0) parts = (.ok a, parts) := Prod.ext ha hkept
      rw [extract, he]
      exact hr (f a)

/-- In every application, and however many parameters a function takes: if
`Auth` is one of them, then a request without a valid token has a response that
is the same for every function. None of its code runs. -/
theorem response_of_unauthenticated (doc : Spec.Auth.Documented lib) (platform : Platform Ctx) (runtime : Ctx)
    (clock : Nat → Nat) (hb : BuiltIn anyLookup params) (ht : Takes (.auth lib context) params) (req : Request Ctx) (pathParams : PathParams)
    (hno : ∀ i, ¬ Authenticated doc (context runtime) req.parts.headers (clock i)) :
    ∃ response, ∀ router f, LeadsTo platform router (params.handler f) req pathParams →
      dispatchRequest platform router runtime clock req = response := by
  have hrefused : ∀ i, ∃ r,
      ((FromRequestParts.auth lib context) (clock i) (inserted platform runtime pathParams req).parts).1 = .error r := by
    intro i
    cases ha : AuthParts.auth lib ⟨some (context runtime), req.parts.headers.lookup "authorization"⟩ (clock i) with
    | ok claims => exact absurd (authenticated_of_auth doc ha) (hno i)
    | error r => exact ⟨.auth r, congrArg (Except.mapError Rejection.auth) ha⟩
  obtain ⟨rejection, hr⟩ := extract_of_refused hb ht hrefused
  refine ⟨rejection.intoResponse, fun router f h => ?_⟩
  rw [dispatchRequest_of_leadsTo h, call_eq, hr f]

def greetParams : Params AuthContext (Claims → Response) := .last (.ofParts (.auth hs256 id))

def greetRouter (f : Claims → Response) : Router (BoxedHandler (Handler AuthContext) Metadata) :=
  ⟨fun _ => [("/hello".toList, .handler (greetParams.handler f))]⟩

/-- A request without a header. -/
def anonymous : Request AuthContext := ⟨⟨.get, "/hello".toList, none, [], none, none⟩, []⟩

theorem response_of_anonymous : ∃ response, ∀ f, dispatchRequest (segments AuthContext) (greetRouter f)
    ⟨some ⟨"jwt", apiCodec.config⟩, some apiCodec.secrets⟩ (fun _ => 1700000000) anonymous = response := by
  obtain ⟨response, h⟩ := response_of_unauthenticated (documented_tabled _ _) (segments AuthContext)
    ⟨some ⟨"jwt", apiCodec.config⟩, some apiCodec.secrets⟩ (fun _ => 1700000000)
    (show BuiltIn anyLookup greetParams from .ofParts (.auth hs256 id)) .last anonymous (collectParams [])
    fun _ ⟨_, _, _, _, _, _, _, _, _, htoken, _⟩ => by cases htoken
  exact ⟨response, fun f => h (greetRouter f) f rfl⟩

end WalaStack.Proof.Http
