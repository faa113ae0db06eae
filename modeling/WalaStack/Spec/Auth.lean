import WalaStack.Impl.Auth.Jwt

/-!
# Acceptance of tokens

`Documented` is what the program relies on of `jsonwebtoken`: a token that is
signed with a secret has a payload, and is decoded if the payload passes the
`Validation` and is of the type. A claim that is absent, or that the library does
not read, passes unless it is required. `SoundAcceptance` is the promise of the
codec: what it accepts was issued for it, and what it issues it accepts.
-/

namespace WalaStack.Spec.Auth

open WalaStack.Rust WalaStack.Rust.Json WalaStack.Impl.Auth

/-- How the library reads the claims of a payload. -/
structure Reading where
  /-- `exp`, as a number of seconds. -/
  exp : Value → Option Nat
  /-- `iss` and `aud`: one name or several. -/
  iss : Value → Option (List String)
  aud : Value → Option (List String)

namespace Reading

/-- Whether a claim is there to be required. -/
def present (read : Reading) (payload : Value) (claim : String) : Bool :=
  match claim with
  | "exp" => ((payload.get "exp").bind read.exp).isSome
  | "iss" => ((payload.get "iss").bind read.iss).isSome
  | "aud" => ((payload.get "aud").bind read.aud).isSome
  | _ => true

/-- Whether the names of an `aud` claim are admitted: where none is set, none may
be named. -/
def AudAdmitted (aud : Option (List String)) (names : List String) : Prop :=
  match aud with
  | some auds => ∃ name ∈ names, name ∈ auds
  | none => names = []

instance (aud : Option (List String)) (names : List String) : Decidable (AudAdmitted aud names) :=
  match aud with
  | some _ => inferInstanceAs (Decidable (∃ _ ∈ _, _))
  | none => inferInstanceAs (Decidable (_ = _))

/-- The payload passes the validation at a time. -/
structure Passes (read : Reading) (v : Validation) (payload : Value) (now : Nat) : Prop where
  required : ∀ claim ∈ v.requiredSpecClaims, read.present payload claim = true
  exp : v.validateExp = true → ∀ n ∈ (payload.get "exp").bind read.exp, now ≤ n + v.leeway
  iss : ∀ issuers ∈ v.iss, ∀ names ∈ (payload.get "iss").bind read.iss, ∃ name ∈ names, name ∈ issuers
  aud : v.validateAud = true → ∀ names ∈ (payload.get "aud").bind read.aud, AudAdmitted v.aud names

instance (read : Reading) (v : Validation) (payload : Value) (now : Nat) : Decidable (read.Passes v payload now) :=
  decidable_of_iff (_ ∧ _ ∧ _ ∧ _)
    ⟨fun h => Passes.mk h.1 h.2.1 h.2.2.1 h.2.2.2, fun h => ⟨h.required, h.exp, h.iss, h.aud⟩⟩

end Reading

/-- A value without floats whose nesting the JSON parser admits. -/
def Plain (v : Value) : Prop := (∀ f, v.mapFloats f = v) ∧ v.depth < 128

structure Documented (lib : Jsonwebtoken) where
  /-- The payload of a token that is signed with a secret, by HS256. -/
  payloadOf : Secret → Token → Option Value
  read : Reading
  payloadOf_encode : ∀ {secret v token}, Plain v → lib.encode secret v = .ok token → payloadOf secret token = some v
  decode_eq_ok_iff : ∀ {C : Type} {fromValue : Value → Except Error C} {token secret v now c},
    lib.decode fromValue token secret v now = .ok c ↔
      ∃ payload, payloadOf secret token = some payload ∧ read.Passes v payload now ∧ fromValue payload = .ok c
  exp_posInt : ∀ n, read.exp (.number (.posInt n)) = some n.val
  iss_string : ∀ s, read.iss (.string s) = some [s]
  aud_string : ∀ s, read.aud (.string s) = some [s]
  aud_array : ∀ names, read.aud (.array (names.map .string)) = some names

/-- The names of an `aud` claim: a string, or a list of them. -/
def Audiences (v : Value) (names : List String) : Prop :=
  (∃ s, v = .string s ∧ names = [s]) ∨ v = .array (names.map .string)

/-- The payload names the codec's issuer and, if one is configured, its
audience. -/
structure IssuedFor (config : JwtConfig) (payload : Value) : Prop where
  iss : payload.get "iss" = some (.string config.issuer)
  aud : ∀ a ∈ config.audience, ∃ v names, payload.get "aud" = some v ∧ Audiences v names ∧ a ∈ names

/-- It has an issuer and, if an audience is configured, an audience. -/
structure NamesSome (config : JwtConfig) (payload : Value) : Prop where
  iss : ∃ s, payload.get "iss" = some (.string s)
  aud : ∀ a ∈ config.audience, ∃ v names, payload.get "aud" = some v ∧ Audiences v names

/-- Which of its claims are checked, if they are there: the payload has not
expired, names no other issuer and no other audience. -/
structure NamesNoOther (read : Reading) (config : JwtConfig) (payload : Value) (now : Nat) : Prop where
  exp : ∃ n ∈ (payload.get "exp").bind read.exp, now ≤ n + 60
  iss : ∀ names ∈ (payload.get "iss").bind read.iss, config.issuer ∈ names
  aud : ∀ a ∈ config.audience, ∀ names ∈ (payload.get "aud").bind read.aud, a ∈ names

/-- The promise of a codec, of one token and its payload at a time. -/
structure SoundAcceptance {C : Type} (lib : Jsonwebtoken) (codec : JwtCodec) (fromValue : Value → Except Error C)
    (token : Token) (payload : Value) (now : Nat) : Prop where
  decodeCustom : ∀ c, codec.decodeCustom lib fromValue token now = .ok c → IssuedFor codec.config payload
  decode : ∀ claims, codec.decode lib token now = .ok claims → IssuedFor codec.config payload
  auth : ∀ parts : AuthParts, parts.codec = .ok codec → parts.bearerToken = .ok token →
    ∀ claims, parts.auth lib now = .ok claims → IssuedFor codec.config payload
  /-- What the codec issues and encodes is accepted unchanged until it expires. -/
  issued : ∀ (issuedAt : Nat) subject roles ttl token', issuedAt ≤ i64Max →
    codec.encode lib (codec.issueWithTtl issuedAt subject roles ttl) = .ok token' →
      ∀ later : Nat, (later : Int) ≤ (codec.issueWithTtl issuedAt subject roles ttl).exp →
        codec.decode lib token' later = .ok (codec.issueWithTtl issuedAt subject roles ttl) ∧
          ∀ parts : AuthParts, parts.codec = .ok codec → parts.bearerToken = .ok token' →
            parts.auth lib later = .ok (codec.issueWithTtl issuedAt subject roles ttl)

/-- The payload is of the type, or is `Claims`. -/
def OfType {C : Type} (fromValue : Value → Except Error C) (payload : Value) : Prop :=
  (∃ c, fromValue payload = .ok c) ∨ ∃ claims, Claims.fromValue payload = .ok claims

end WalaStack.Spec.Auth
