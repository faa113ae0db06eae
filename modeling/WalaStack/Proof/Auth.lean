import WalaStack.Spec.Auth

/-!
# Acceptance of tokens

The codec accepts a payload that names no other issuer and no other audience
(`decodeCustom_eq_ok_iff`): one that names none passes too, as only `exp` is a
required claim. So the promise is kept of the payloads that name some
(`soundAcceptance_iff`). What the codec issues does (`issued_accepted`).
-/

namespace WalaStack.Proof.Auth

open WalaStack.Rust WalaStack.Rust.Json WalaStack.Impl.Auth WalaStack.Spec.Auth

variable {C : Type} {lib : Jsonwebtoken} {codec : JwtCodec} {fromValue : Value → Except Error C} {token : Token}
  {secret : Secret} {payload : Value} {now : Nat}

theorem mapError_eq_ok_iff {ε ε' α : Type} {f : ε → ε'} {x : Except ε α} {a : α} : x.mapError f = .ok a ↔ x = .ok a := by
  cases x with
  | error e => simp [Except.mapError]
  | ok b => simp [Except.mapError]

/-! ## The validation -/

theorem present_exp_iff {read : Reading} : read.present payload "exp" = true ↔ ∃ n, n ∈ (payload.get "exp").bind read.exp :=
  Option.isSome_iff_exists

theorem passes_validation_iff {read : Reading} :
    read.Passes codec.validation payload now ↔ NamesNoOther read codec.config payload now := by
  have hone : ∀ {names : List String} {s : String}, (∃ name ∈ names, name ∈ [s]) ↔ s ∈ names := by simp
  unfold JwtCodec.validation
  constructor
  · intro h
    cases ha : codec.config.audience with
    | none =>
      simp only [ha] at h
      obtain ⟨n, hn⟩ := present_exp_iff.mp (h.required "exp" List.mem_cons_self)
      refine ⟨⟨n, hn, h.exp rfl n hn⟩, fun names hi => hone.mp (h.iss _ rfl names hi), fun a he => ?_⟩
      rw [ha] at he
      cases he
    | some audience =>
      simp only [ha] at h
      obtain ⟨n, hn⟩ := present_exp_iff.mp (h.required "exp" List.mem_cons_self)
      refine ⟨⟨n, hn, h.exp rfl n hn⟩, fun names hi => hone.mp (h.iss _ rfl names hi), fun a he names hread => ?_⟩
      rw [ha] at he
      obtain rfl := Option.some.inj he
      exact hone.mp (h.aud rfl names hread)
  · rintro ⟨⟨n, hn, hexp⟩, hiss, haud⟩
    have hrequired : ∀ claim ∈ ["exp"], read.present payload claim = true := by
      intro claim hc
      obtain rfl := List.mem_singleton.mp hc
      exact present_exp_iff.mpr ⟨n, hn⟩
    have hunexpired : ∀ m ∈ (payload.get "exp").bind read.exp, now ≤ m + 60 := by
      intro m hm
      obtain rfl := Option.some.inj (hn.symm.trans hm)
      exact hexp
    have hissuer : ∀ issuers ∈ some [codec.config.issuer], ∀ names ∈ (payload.get "iss").bind read.iss,
        ∃ name ∈ names, name ∈ issuers := by
      intro issuers he names hread
      obtain rfl := Option.some.inj he
      exact hone.mpr (hiss names hread)
    cases ha : codec.config.audience with
    | none => exact ⟨hrequired, fun _ => hunexpired, hissuer, fun hv => by cases hv⟩
    | some audience =>
      exact ⟨hrequired, fun _ => hunexpired, hissuer, fun _ names hread => hone.mpr (haud audience ha names hread)⟩

/-- What the codec accepts. -/
theorem decodeCustom_eq_ok_iff (doc : Documented lib) (hsecret : codec.secrets codec.keyName = some secret)
    (htoken : doc.payloadOf secret token = some payload) {c : C} :
    codec.decodeCustom lib fromValue token now = .ok c ↔
      NamesNoOther doc.read codec.config payload now ∧ fromValue payload = .ok c := by
  have hlib : codec.decodeCustom lib fromValue token now = .ok c ↔
      lib.decode fromValue token secret codec.validation now = .ok c := by
    simp only [JwtCodec.decodeCustom, JwtCodec.secret, hsecret, bind, Except.bind, mapError_eq_ok_iff]
  rw [hlib, doc.decode_eq_ok_iff, ← passes_validation_iff]
  constructor
  · rintro ⟨payload', hp, hpass, hc⟩
    rw [htoken] at hp
    obtain rfl := Option.some.inj hp
    exact ⟨hpass, hc⟩
  · rintro ⟨hpass, hc⟩
    exact ⟨payload, htoken, hpass, hc⟩

theorem namesSome_of_issuedFor {config : JwtConfig} (h : IssuedFor config payload) : NamesSome config payload := by
  refine ⟨⟨_, h.iss⟩, fun a ha => ?_⟩
  obtain ⟨v, names, hv, haud, -⟩ := h.aud a ha
  exact ⟨v, names, hv, haud⟩

/-- Names of which none is another's are the codec's. -/
theorem issuedFor_of_names (doc : Documented lib) {config : JwtConfig} (h : NamesSome config payload)
    (ho : NamesNoOther doc.read config payload now) : IssuedFor config payload := by
  refine ⟨?_, fun a ha => ?_⟩
  · obtain ⟨s, hs⟩ := h.iss
    have hmem := ho.iss [s] (by rw [hs]; exact doc.iss_string s)
    rw [hs, List.mem_singleton.mp hmem]
  · obtain ⟨v, names, hv, haud⟩ := h.aud a ha
    refine ⟨v, names, hv, haud, ho.aud a ha names ?_⟩
    rw [hv]
    rcases haud with ⟨s, rfl, rfl⟩ | rfl
    · exact doc.aud_string s
    · exact doc.aud_array names

/-! ## The extractor -/

theorem auth_eq_ok_iff {parts : AuthParts} (hcodec : parts.codec = .ok codec) (htoken : parts.bearerToken = .ok token)
    {claims : Claims} : parts.auth lib now = .ok claims ↔ codec.decode lib token now = .ok claims := by
  simp only [AuthParts.auth, hcodec, htoken, bind, Except.bind, mapError_eq_ok_iff]

example : AuthParts.bearerToken ⟨none, some [66, 101, 97, 114, 101, 114, 32, 97, 46, 98, 46, 99]⟩ = .ok "a.b.c".toList := by
  decide

/-! ## What the codec issues -/

theorem mapFloatsList_strings (f : Rat → Rat) (l : List String) :
    Value.mapFloatsList f (l.map .string) = l.map .string := by
  induction l with
  | nil => rfl
  | cons s l ih =>
    rw [List.map_cons, Value.mapFloatsList, ih]
    rfl

theorem depthList_strings (l : List String) : Value.depthList (l.map .string) = 0 := by
  induction l with
  | nil => rfl
  | cons s l ih =>
    rw [List.map_cons, Value.depthList, ih]
    rfl

theorem plain_ofI64 (n : Int) : Plain (.ofI64 n) := by
  cases n with
  | ofNat n => exact ⟨fun _ => rfl, Nat.zero_lt_succ _⟩
  | negSucc n => exact ⟨fun _ => rfl, Nat.zero_lt_succ _⟩

theorem depth_ofI64 (n : Int) : (Value.ofI64 n).depth = 0 := by
  cases n with
  | ofNat n => rfl
  | negSucc n => rfl

theorem plain_toValue (claims : Claims) : Plain claims.toValue := by
  obtain ⟨sub, iss, aud, exp, iat, roles⟩ := claims
  constructor
  · intro f
    cases aud with
    | none | some =>
      simp only [Claims.toValue, Option.toList, List.map_nil, List.map_cons, List.cons_append, List.nil_append,
        Value.mapFloats, Value.mapFloatsEntries, (plain_ofI64 _).1, mapFloatsList_strings]
  · cases aud with
    | none | some =>
      simp only [Claims.toValue, Option.toList, List.map_nil, List.map_cons, List.cons_append, List.nil_append,
        Value.depth, Value.depthEntries, depth_ofI64, depthList_strings]
      decide

theorem rolesOf_strings (roles : List String) : Claims.rolesOf (some (.array (roles.map .string))) = .ok roles := by
  show List.mapM Claims.roleOf (roles.map .string) = .ok roles
  induction roles with
  | nil => rfl
  | cons role roles ih =>
    rw [List.map_cons, List.mapM_cons, ih]
    rfl

/-- `Claims` are read back from what they are serialized as. -/
theorem fromValue_toValue {claims : Claims} {exp iat : Nat} (hexp : claims.exp = exp) (hiat : claims.iat = iat)
    (he : exp ≤ i64Max) (hi : iat ≤ i64Max) : Claims.fromValue claims.toValue = .ok claims := by
  obtain ⟨sub, iss, aud, exp', iat', roles⟩ := claims
  obtain rfl : exp' = exp := hexp
  obtain rfl : iat' = iat := hiat
  have hfields : Claims.ofFields (some (.string sub)) (some (.string iss)) (aud.map .string) (some (.ofI64 exp))
      (some (.ofI64 iat)) (some (.array (roles.map .string))) = .ok ⟨sub, iss, aud, exp, iat, roles⟩ := by
    cases aud with
    | none | some =>
      simp [Claims.ofFields, WalaStack.Impl.Mcp.required, Value.asStr, optionalString, Value.asI64_ofI64 he,
        Value.asI64_ofI64 hi, rolesOf_strings, bind, Except.bind, pure, Except.pure]
  cases aud with
  | none => exact hfields
  | some a => exact hfields

/-- The expiry of what is issued after the epoch. -/
theorem exp_issueWithTtl (codec : JwtCodec) (issuedAt : Nat) (subject : String) (roles : List String) (ttl : Duration) :
    ∃ exp : Nat, (codec.issueWithTtl issuedAt subject roles ttl).exp = exp ∧ exp ≤ i64Max :=
  ⟨min (issuedAt + min (ttl.nanos / 1000000000) i64Max) i64Max, by simp only [JwtCodec.issueWithTtl]; omega,
    Nat.min_le_right _ _⟩

theorem namesNoOther_issued (doc : Documented lib) {issuedAt : Nat} {subject : String} {roles : List String} {ttl : Duration}
    {later : Nat} (h : (later : Int) ≤ (codec.issueWithTtl issuedAt subject roles ttl).exp) :
    NamesNoOther doc.read codec.config (codec.issueWithTtl issuedAt subject roles ttl).toValue later := by
  obtain ⟨exp, hexp, hle⟩ := exp_issueWithTtl codec issuedAt subject roles ttl
  rw [hexp] at h
  have hget : (codec.issueWithTtl issuedAt subject roles ttl).toValue.get "exp" = some (.ofI64 exp) := by
    rw [← hexp]
    simp only [Claims.toValue, JwtCodec.issueWithTtl]
    cases codec.config.audience with
    | none | some => rfl
  have haud : (codec.issueWithTtl issuedAt subject roles ttl).toValue.get "aud" = codec.config.audience.map .string := by
    simp only [Claims.toValue, JwtCodec.issueWithTtl]
    cases codec.config.audience with
    | none | some => rfl
  have hread : doc.read.exp (.ofI64 exp) = some exp := by
    show doc.read.exp (.number (.posInt (.cast exp))) = _
    rw [doc.exp_posInt]
    exact congrArg some (Nat.mod_eq_of_lt (Nat.lt_of_le_of_lt hle (by decide)))
  refine ⟨⟨exp, by rw [hget]; exact hread, by omega⟩, fun names hnames => ?_, fun a ha names hnames => ?_⟩
  · have hiss : (some (Value.string codec.config.issuer)).bind doc.read.iss = some names := hnames
    rw [Option.bind_some, doc.iss_string] at hiss
    obtain rfl := Option.some.inj hiss
    exact List.mem_singleton_self _
  · rw [haud, ha, Option.map_some, Option.bind_some, doc.aud_string] at hnames
    obtain rfl := Option.some.inj hnames
    exact List.mem_singleton_self _

theorem encode_eq (hsecret : codec.secrets codec.keyName = some secret) (claims : Claims) :
    codec.encode lib claims = (lib.encode secret claims.toValue).mapError .jwt := by
  simp only [JwtCodec.encode, JwtCodec.encodeCustom, JwtCodec.secret, hsecret, bind, Except.bind]

/-- What the codec issues and encodes is accepted until it expires. -/
theorem issued_accepted (doc : Documented lib) (hsecret : codec.secrets codec.keyName = some secret) {issuedAt : Nat}
    {subject : String} {roles : List String} {ttl : Duration} (hnow : issuedAt ≤ i64Max)
    (henc : codec.encode lib (codec.issueWithTtl issuedAt subject roles ttl) = .ok token) {later : Nat}
    (h : (later : Int) ≤ (codec.issueWithTtl issuedAt subject roles ttl).exp) :
    codec.decode lib token later = .ok (codec.issueWithTtl issuedAt subject roles ttl) := by
  obtain ⟨exp, hexp, hle⟩ := exp_issueWithTtl codec issuedAt subject roles ttl
  have hlib : lib.encode secret (codec.issueWithTtl issuedAt subject roles ttl).toValue = .ok token := by
    rw [encode_eq hsecret] at henc
    exact mapError_eq_ok_iff.mp henc
  have htoken := doc.payloadOf_encode (plain_toValue _) hlib
  exact (decodeCustom_eq_ok_iff doc hsecret htoken).mpr
    ⟨namesNoOther_issued doc h, fromValue_toValue hexp rfl hle hnow⟩

/-! ## The promise -/

/-- The promise of the codec is kept of a token exactly if its payload names an
issuer and, if one is configured, an audience, or else is refused for what it
has: an expiry, an issuer or an audience, or its type. -/
theorem soundAcceptance_iff (doc : Documented lib) (hsecret : codec.secrets codec.keyName = some secret)
    (htoken : doc.payloadOf secret token = some payload) (fromValue : Value → Except Error C) (now : Nat) :
    SoundAcceptance lib codec fromValue token payload now ↔ NamesSome codec.config payload ∨
      ¬ NamesNoOther doc.read codec.config payload now ∨ ¬ OfType fromValue payload := by
  constructor
  · intro h
    by_contra hnot
    simp only [not_or, not_not] at hnot
    obtain ⟨hnames, hother, ⟨c, hc⟩ | ⟨claims, hclaims⟩⟩ := hnot
    · exact hnames (namesSome_of_issuedFor
        (h.decodeCustom c ((decodeCustom_eq_ok_iff doc hsecret htoken).mpr ⟨hother, hc⟩)))
    · exact hnames (namesSome_of_issuedFor
        (h.decode claims ((decodeCustom_eq_ok_iff doc hsecret htoken).mpr ⟨hother, hclaims⟩)))
  · intro h
    have hissued : NamesNoOther doc.read codec.config payload now → OfType fromValue payload →
        IssuedFor codec.config payload := fun ho ht => by
      rcases h with hn | hn | hn
      · exact issuedFor_of_names doc hn ho
      · exact absurd ho hn
      · exact absurd ht hn
    have hdecode : ∀ claims, codec.decode lib token now = .ok claims → IssuedFor codec.config payload := fun claims hd => by
      obtain ⟨ho, hc⟩ := (decodeCustom_eq_ok_iff doc hsecret htoken).mp hd
      exact hissued ho (.inr ⟨claims, hc⟩)
    refine ⟨fun c hd => ?_, hdecode, fun parts hcodec hbearer claims ha => ?_, ?_⟩
    · obtain ⟨ho, hc⟩ := (decodeCustom_eq_ok_iff doc hsecret htoken).mp hd
      exact hissued ho (.inl ⟨c, hc⟩)
    · exact hdecode claims ((auth_eq_ok_iff hcodec hbearer).mp ha)
    · intro issuedAt subject roles ttl token' hnow henc later hlater
      have hd := issued_accepted doc hsecret hnow henc hlater
      exact ⟨hd, fun parts hcodec hbearer => (auth_eq_ok_iff hcodec hbearer).mpr hd⟩

theorem asStr_of_required {name t : String} {field : Option Value} (h : WalaStack.Impl.Mcp.required name Value.asStr field = .ok t) :
    field = some (.string t) := by
  unfold WalaStack.Impl.Mcp.required at h
  split at h
  · cases h
  · rename_i v
    cases v with
    | string s => rw [Except.ok.inj h]
    | _ => cases h

/-- `Claims` have an issuer. -/
theorem iss_of_fromValue {entries : List (String × Value)} {claims : Claims}
    (h : Claims.fromValue (.object entries) = .ok claims) :
    ∃ s, (Value.object entries).get "iss" = some (.string s) := by
  simp only [Claims.fromValue, Claims.ofFields, bind, Except.bind] at h
  split at h
  · cases h
  · split at h
    · cases h
    · rename_i iss hiss
      exact ⟨iss, asStr_of_required hiss⟩

/-- Where no audience is configured, `decode` is sound. -/
theorem decode_sound_of_no_audience (doc : Documented lib) (hsecret : codec.secrets codec.keyName = some secret)
    (htoken : doc.payloadOf secret token = some payload) (haud : codec.config.audience = none) {claims : Claims}
    (h : codec.decode lib token now = .ok claims) : IssuedFor codec.config payload := by
  obtain ⟨ho, hc⟩ := (decodeCustom_eq_ok_iff doc hsecret htoken).mp h
  refine issuedFor_of_names doc ⟨?_, fun a ha => ?_⟩ ho
  · obtain ⟨n, hn, -⟩ := ho.exp
    obtain ⟨entries, rfl⟩ : ∃ entries, payload = .object entries := by
      cases payload with
      | object entries => exact ⟨entries, rfl⟩
      | _ => cases hn
    exact iss_of_fromValue hc
  · rw [haud] at ha
    cases ha

/-! ## Tokens by a table -/

/-- One name or several. -/
def namesOf : Value → Option (List String)
  | .string s => some [s]
  | .array elems => elems.mapM Value.asStr
  | _ => none

theorem namesOf_strings (names : List String) : namesOf (.array (names.map .string)) = some names := by
  show List.mapM Value.asStr (names.map .string) = some names
  induction names with
  | nil => rfl
  | cons s names ih =>
    rw [List.map_cons, List.mapM_cons, ih]
    rfl

def readings : Reading where
  exp := fun v => v.asU64.map (·.val)
  iss := namesOf
  aud := namesOf

/-- Payloads with their tokens, under one secret. -/
abbrev Table := List (Value × Token)

def payloadIn (table : Table) (key : Secret) (secret : Secret) (token : Token) : Option Value :=
  if secret = key then (table.find? fun entry => entry.2 == token).map Prod.fst else none

/-- The library, of the payloads and tokens of a table. -/
def tabled (table : Table) (key : Secret) : Jsonwebtoken where
  encode secret v :=
    match table.find? fun entry => payloadIn table key secret entry.2 = some v with
    | some entry => .ok entry.2
    | none => .error "InvalidKeyFormat"
  decode fromValue token secret v now :=
    match payloadIn table key secret token with
    | some payload =>
      if readings.Passes v payload now then (fromValue payload).mapError fun _ => "Json" else .error "InvalidClaims"
    | none => .error "InvalidSignature"

def documented_tabled (table : Table) (key : Secret) : Documented (tabled table key) where
  payloadOf := payloadIn table key
  read := readings
  payloadOf_encode := by
    intro secret v token _ h
    simp only [tabled] at h
    split at h
    · rename_i entry hfind
      have hfound := List.find?_some hfind
      rw [← Except.ok.inj h]
      exact of_decide_eq_true hfound
    · cases h
  decode_eq_ok_iff := by
    intro C fromValue token secret v now c
    simp only [tabled]
    cases hp : payloadIn table key secret token with
    | none => simp
    | some payload =>
      by_cases hpass : readings.Passes v payload now
      · simp only [Option.some.injEq, exists_eq_left', hpass, true_and]
        exact mapError_eq_ok_iff
      · simp [hpass]
  exp_posInt := fun _ => rfl
  iss_string := fun _ => rfl
  aud_string := fun _ => rfl
  aud_array := namesOf_strings

/-- `my-signing-secret` -/
def signingSecret : Secret := [109, 121, 45, 115, 105, 103, 110, 105, 110, 103, 45, 115, 101, 99, 114, 101, 116]

def apiCodec : JwtCodec where
  secrets := fun name => if name = "jwt" then some signingSecret else none
  keyName := "jwt"
  config := (JwtConfig.new "walastack").withAudience "api"

/-- What the codec issues to `alice` at 1 700 000 000 s. -/
def issuedToAlice : Claims := apiCodec.issue 1700000000 "alice" []

/-- The same without audience and roles. -/
def unaddressed : Value :=
  .object [("sub", .string "alice"), ("iss", .string "walastack"), ("exp", .number (.posInt 1700003600)),
    ("iat", .number (.posInt 1700000000))]

@[irreducible] def addressedToken : Token :=
  ("eyJ0eXAiOiJKV1QiLCJhbGciOiJIUzI1NiJ9.eyJzdWIiOiJhbGljZSIsImlzcyI6IndhbGFzdGFjayIsImF1ZCI6ImFwaSIsImV4cCI6MTcwMDAw" ++
    "MzYwMCwiaWF0IjoxNzAwMDAwMDAwLCJyb2xlcyI6W119.CkuFM-9M0NN6TlGwMz4OiuLGWvA54sUM6DSS1yJtikw").toList

@[irreducible] def unaddressedToken : Token :=
  ("eyJ0eXAiOiJKV1QiLCJhbGciOiJIUzI1NiJ9.eyJzdWIiOiJhbGljZSIsImlzcyI6IndhbGFzdGFjayIsImV4cCI6MTcwMDAwMzYwMCwiaWF0IjoxNzAw" ++
    "MDAwMDAwfQ.rvbVfP_67wqPcWUAKxbEFKFCVweRTSka8z3kNjQu_oo").toList

theorem payloadOf_singleton (v : Value) (key : Secret) (token : Token) :
    (documented_tabled [(v, token)] key).payloadOf key token = some v := by
  show payloadIn [(v, token)] key key token = some v
  simp [payloadIn]

theorem encode_singleton (v : Value) (key : Secret) (token : Token) : (tabled [(v, token)] key).encode key v = .ok token := by
  simp [tabled, payloadIn]

/-- The library, of what is issued to `alice`. -/
def hs256 : Jsonwebtoken := tabled [(issuedToAlice.toValue, addressedToken)] signingSecret

example : apiCodec.encode hs256 issuedToAlice = .ok addressedToken := by
  have hsecret : apiCodec.secrets apiCodec.keyName = some signingSecret := rfl
  have hencode : hs256.encode signingSecret issuedToAlice.toValue = .ok addressedToken := encode_singleton _ _ _
  rw [encode_eq hsecret, hencode, Except.mapError]

/-- The token of the codec's own claims. -/
theorem soundAcceptance_addressed :
    SoundAcceptance hs256 apiCodec Claims.fromValue addressedToken issuedToAlice.toValue 1700000000 := by
  have hpayload := payloadOf_singleton issuedToAlice.toValue signingSecret addressedToken
  refine (soundAcceptance_iff _ rfl hpayload Claims.fromValue _).mpr (.inl ?_)
  exact ⟨⟨_, rfl⟩, fun a _ => ⟨_, _, rfl, .inl ⟨_, rfl, rfl⟩⟩⟩

/-- A token without an audience is accepted by a codec that has one. -/
theorem not_soundAcceptance_unaddressed : ¬ ∀ (lib : Jsonwebtoken) (doc : Documented lib) (codec : JwtCodec)
    (secret : Secret) (token : Token) (payload : Value) (now : Nat), codec.secrets codec.keyName = some secret →
      doc.payloadOf secret token = some payload → SoundAcceptance lib codec Claims.fromValue token payload now := by
  intro h
  have hpayload := payloadOf_singleton unaddressed signingSecret unaddressedToken
  have hs := h _ _ apiCodec _ _ _ 1700000000 rfl hpayload
  have hother : NamesNoOther readings apiCodec.config unaddressed 1700000000 :=
    ⟨⟨1700003600, rfl, by decide⟩, by decide, fun a _ names hread => by cases hread⟩
  have haccepted : apiCodec.decode (tabled [(unaddressed, unaddressedToken)] signingSecret) unaddressedToken 1700000000 =
      .ok { issuedToAlice with aud := none } := (decodeCustom_eq_ok_iff _ rfl hpayload).mpr ⟨hother, rfl⟩
  obtain ⟨v, names, hv, -⟩ := (hs.decode _ haccepted).aud "api" rfl
  cases hv

end WalaStack.Proof.Auth
