import WalaStack.Spec.Env

/-!
# The environment that a server is opened with

One entry binds its variable to what it stands for (`entry_some`), or ends the
loop with its error (`entry_none`); the rest is by induction on the entries.
-/

namespace WalaStack.Proof.Mcp

open WalaStack.Rust WalaStack.Impl.Mcp WalaStack.Impl.Auth WalaStack.Spec.Mcp

variable {debug : String → String} {id : String} {secrets other : SecretsProvider}

/-! ## One entry -/

theorem entry_some {entry : EnvVar} {value : String} (h : valueOf (some secrets) entry = some value) (entries : List EnvVar)
    (out : EnvMap) : resolveEntries debug id secrets (entry :: entries) out =
      resolveEntries debug id secrets entries (out.insert entry.var value) := by
  cases entry with
  | literal var v =>
    obtain rfl := Option.some.inj h
    rfl
  | fromSecret var name =>
    obtain ⟨bytes, hb, hv⟩ := Option.bind_eq_some_iff.mp h
    have hs : secrets name = some bytes := hb
    simp only [resolveEntries, hs, hv, EnvVar.var]

theorem entry_none (debug : String → String) (id : String) {entry : EnvVar}
    (h : valueOf (some secrets) entry = none) :
    ∃ e, Refuses debug (some secrets) id entry e ∧
      ∀ entries out, resolveEntries debug id secrets (entry :: entries) out = .error e := by
  cases entry with
  | literal var v => cases h
  | fromSecret var name =>
    cases hs : secrets name with
    | none =>
      refine ⟨_, .notRegistered var name hs, fun entries out => ?_⟩
      simp only [resolveEntries, hs]
    | some bytes =>
      have hv : fromUtf8 bytes = none := by
        simpa [valueOf, hs] using h
      refine ⟨_, .notUtf8 var name bytes hs hv, fun entries out => ?_⟩
      simp only [resolveEntries, hs, hv]

theorem isSome_valueOf (h : SameSecrets (some secrets) (some other)) (entry : EnvVar) :
    (valueOf (some secrets) entry).isSome = (valueOf (some other) entry).isSome := by
  cases entry with
  | literal var v => rfl
  | fromSecret var name => exact (h.2 name).2

/-- The error names what is the same of both. -/
theorem refuses_same (h : SameSecrets (some secrets) (some other)) {entry : EnvVar} {e e' : ServiceError}
    (hp : Refuses debug (some secrets) id entry e) (hq : Refuses debug (some other) id entry e') : e = e' := by
  obtain ⟨var, name, hs⟩ | ⟨var, name, bytes, hs, hv⟩ := hp <;> obtain ⟨_, _, hs'⟩ | ⟨_, _, bytes', hs', hv'⟩ := hq
  · rfl
  · have hsome := (h.2 name).1
    rw [hs, hs'] at hsome
    cases hsome
  · have hsome := (h.2 name).1
    rw [hs, hs'] at hsome
    cases hsome
  · rfl

/-! ## The last entry of a variable -/

theorem lastOf_cons {entry e : EnvVar} {entries : List EnvVar} :
    LastOf (e :: entries) entry ↔ LastOf entries entry ∨ entry = e ∧ ∀ later ∈ entries, later.var ≠ e.var := by
  constructor
  · rintro ⟨before, after, henv, hlast⟩
    cases before with
    | nil =>
      obtain ⟨rfl, rfl⟩ := List.cons.inj henv
      exact .inr ⟨rfl, hlast⟩
    | cons b before => exact .inl ⟨before, after, (List.cons.inj henv).2, hlast⟩
  · rintro (⟨before, after, rfl, hlast⟩ | ⟨rfl, hlast⟩)
    · exact ⟨e :: before, after, rfl, hlast⟩
    · exact ⟨[], entries, rfl, hlast⟩

/-! ## The loop -/

theorem resolves_iff (entries : List EnvVar) (out : EnvMap) :
    (∃ env, resolveEntries debug id secrets entries out = .ok env) ↔
      ∀ entry ∈ entries, (valueOf (some secrets) entry).isSome := by
  induction entries generalizing out with
  | nil => simp [resolveEntries]
  | cons entry entries ih =>
    cases hv : valueOf (some secrets) entry with
    | some value => simp [entry_some hv, ih, hv]
    | none =>
      obtain ⟨e, -, herr⟩ := entry_none debug id hv
      simp [herr, hv]

/-- A variable without an entry keeps its value. -/
theorem lookup_resolved {entries : List EnvVar} {out env : EnvMap}
    (h : resolveEntries debug id secrets entries out = .ok env) (var value : String) :
    env.lookup var = some value ↔
      (∃ entry, LastOf entries entry ∧ entry.var = var ∧ valueOf (some secrets) entry = some value) ∨
        (∀ entry ∈ entries, entry.var ≠ var) ∧ out.lookup var = some value := by
  induction entries generalizing out with
  | nil =>
    obtain rfl := Except.ok.inj h
    simp [LastOf]
  | cons e entries ih =>
    cases hv : valueOf (some secrets) e with
    | none =>
      obtain ⟨err, -, herr⟩ := entry_none debug id hv
      rw [herr] at h
      cases h
    | some v =>
      rw [entry_some hv] at h
      rw [ih h]
      constructor
      · rintro (⟨entry, hlast, hvar, hval⟩ | ⟨hno, hlook⟩)
        · exact .inl ⟨entry, lastOf_cons.mpr (.inl hlast), hvar, hval⟩
        · by_cases hvar : e.var = var
          · subst hvar
            rw [AList.lookup_insert] at hlook
            exact .inl ⟨e, lastOf_cons.mpr (.inr ⟨rfl, hno⟩), rfl, hv.trans hlook⟩
          · rw [AList.lookup_insert_ne (Ne.symm hvar)] at hlook
            exact .inr ⟨List.forall_mem_cons.mpr ⟨hvar, hno⟩, hlook⟩
      · rintro (⟨entry, hlast, hvar, hval⟩ | ⟨hno, hlook⟩)
        · rcases lastOf_cons.mp hlast with hlast | ⟨rfl, hlast⟩
          · exact .inl ⟨entry, hlast, hvar, hval⟩
          · subst hvar
            exact .inr ⟨hlast, (AList.lookup_insert _).trans (hv.symm.trans hval)⟩
        · have hno' := List.forall_mem_cons.mp hno
          exact .inr ⟨hno'.2, (AList.lookup_insert_ne (Ne.symm hno'.1)).trans hlook⟩

theorem refuses_of_error {entries : List EnvVar} {out : EnvMap} {e : ServiceError}
    (h : resolveEntries debug id secrets entries out = .error e) :
    ∃ before entry after, entries = before ++ entry :: after ∧
      (∀ earlier ∈ before, (valueOf (some secrets) earlier).isSome) ∧ Refuses debug (some secrets) id entry e := by
  induction entries generalizing out with
  | nil => cases h
  | cons entry entries ih =>
    cases hv : valueOf (some secrets) entry with
    | some value =>
      rw [entry_some hv] at h
      obtain ⟨before, failed, after, rfl, hbefore, hrefuses⟩ := ih h
      exact ⟨entry :: before, failed, after, rfl, List.forall_mem_cons.mpr ⟨by simp [hv], hbefore⟩, hrefuses⟩
    | none =>
      obtain ⟨e', hrefuses, herr⟩ := entry_none debug id hv
      obtain rfl := Except.error.inj ((herr entries out).symm.trans h)
      exact ⟨[], entry, entries, rfl, by simp, hrefuses⟩

/-- Two maps with the same keys have the same keys after the loop. -/
theorem resolves_alike (hsame : SameSecrets (some secrets) (some other)) (entries : List EnvVar) {out out' : EnvMap}
    (hkeys : out.keys = out'.keys) :
    (∃ e, resolveEntries debug id secrets entries out = .error e ∧ resolveEntries debug id other entries out' = .error e) ∨
      ∃ env env', resolveEntries debug id secrets entries out = .ok env ∧
        resolveEntries debug id other entries out' = .ok env' ∧ env.keys = env'.keys := by
  induction entries generalizing out out' with
  | nil => exact .inr ⟨out, out', rfl, rfl, hkeys⟩
  | cons entry entries ih =>
    have hsome := isSome_valueOf hsame entry
    cases hv : valueOf (some secrets) entry with
    | some value =>
      rw [hv] at hsome
      obtain ⟨value', hv'⟩ := Option.isSome_iff_exists.mp hsome.symm
      rw [entry_some hv, entry_some hv']
      exact ih (by rw [AList.keys_insert, AList.keys_insert, hkeys])
    | none =>
      rw [hv] at hsome
      have hv' : valueOf (some other) entry = none := by simpa using hsome.symm
      obtain ⟨e, hrefuses, herr⟩ := entry_none debug id hv
      obtain ⟨e', hrefuses', herr'⟩ := entry_none debug id hv'
      obtain rfl := refuses_same hsame hrefuses hrefuses'
      exact .inl ⟨e, herr entries out, herr' entries out'⟩

/-! ## The call -/

variable {config : McpConfig} {provider : Option SecretsProvider} {spec : McpServerSpec}

/-- Either there is nothing to resolve, or no provider, or the loop runs. -/
theorem resolveEnv_cases (debug : String → String) (provider : Option SecretsProvider) (spec : McpServerSpec) :
    spec.env = [] ∧ resolveEnv debug provider spec = .ok ∅ ∨
      spec.env ≠ [] ∧ provider = none ∧ resolveEnv debug provider spec = .error secretsProviderMissing ∨
        ∃ secrets, spec.env ≠ [] ∧ provider = some secrets ∧
          resolveEnv debug provider spec = resolveEntries debug spec.id secrets spec.env ∅ := by
  cases henv : spec.env with
  | nil => exact .inl ⟨rfl, by simp [resolveEnv, henv]⟩
  | cons entry entries =>
    cases provider with
    | none => exact .inr (.inl ⟨by simp, rfl, by simp [resolveEnv, henv]⟩)
    | some secrets => exact .inr (.inr ⟨secrets, by simp, rfl, by simp [resolveEnv, henv]⟩)

/-- All but the environment is the spec's. -/
theorem openArguments_eq (config : McpConfig) (spec : McpServerSpec) : ∃ command args, ∀ debug provider,
    spec.openArguments debug config provider = (resolveEnv debug provider spec).map fun env =>
      ⟨spec.id, command, args, env, spec.requestTimeout.getD config.defaultRequestTimeout⟩ := by
  obtain ⟨id, ⟨command, args⟩, env, timeout⟩ := spec
  refine ⟨command, args, fun debug provider => ?_⟩
  simp only [McpServerSpec.openArguments]
  cases resolveEnv debug provider ⟨id, .stdio command args, env, timeout⟩ <;> rfl

theorem resolved_of_opened {args : OpenArguments} (h : spec.openArguments debug config provider = .ok args) :
    resolveEnv debug provider spec = .ok args.env := by
  obtain ⟨_, _, heq⟩ := openArguments_eq config spec
  rw [heq] at h
  cases henv : resolveEnv debug provider spec with
  | error e => simp [henv, Except.map] at h
  | ok env =>
    rw [henv] at h
    obtain rfl := Except.ok.inj h
    rfl

theorem opened_iff : (∃ args, spec.openArguments debug config provider = .ok args) ↔
    ∃ env, resolveEnv debug provider spec = .ok env := by
  refine ⟨fun ⟨args, h⟩ => ⟨args.env, resolved_of_opened h⟩, fun ⟨env, h⟩ => ?_⟩
  obtain ⟨_, _, heq⟩ := openArguments_eq config spec
  exact ⟨_, (heq debug provider).trans (by rw [h]; rfl)⟩

theorem error_of_refused {e : ServiceError} (h : spec.openArguments debug config provider = .error e) :
    resolveEnv debug provider spec = .error e := by
  obtain ⟨_, _, heq⟩ := openArguments_eq config spec
  rw [heq] at h
  cases henv : resolveEnv debug provider spec with
  | ok env => simp [henv, Except.map] at h
  | error e' =>
    rw [henv] at h
    exact congrArg _ (Except.error.inj h)

theorem lookup_opened {args : OpenArguments} (h : spec.openArguments debug config provider = .ok args)
    (var value : String) : args.env.lookup var = some value ↔
      ∃ entry, LastOf spec.env entry ∧ entry.var = var ∧ valueOf provider entry = some value := by
  have henv := resolved_of_opened h
  rcases resolveEnv_cases debug provider spec with ⟨hnil, hok⟩ | ⟨-, -, herr⟩ | ⟨secrets, -, rfl, hloop⟩
  · obtain hempty := Except.ok.inj (hok.symm.trans henv)
    rw [← hempty, hnil]
    simp [LastOf]
  · rw [herr] at henv
    cases henv
  · rw [lookup_resolved (hloop.symm.trans henv)]
    simp

theorem resolveEnv_alike (debug : String → String) (spec : McpServerSpec) {other : Option SecretsProvider}
    (hsame : SameSecrets provider other) :
    (∃ e, resolveEnv debug provider spec = .error e ∧ resolveEnv debug other spec = .error e) ∨
      ∃ env env', resolveEnv debug provider spec = .ok env ∧ resolveEnv debug other spec = .ok env' ∧
        env.keys = env'.keys := by
  rcases resolveEnv_cases debug provider spec with ⟨hnil, hok⟩ | ⟨hne, rfl, herr⟩ | ⟨secrets, hne, rfl, hloop⟩
  · have hok' : resolveEnv debug other spec = .ok ∅ := by simp [resolveEnv, hnil]
    exact .inr ⟨∅, ∅, hok, hok', rfl⟩
  · obtain rfl : other = none := by simpa using hsame.1.symm
    exact .inl ⟨_, herr, herr⟩
  · obtain ⟨secrets', rfl⟩ := Option.isSome_iff_exists.mp hsame.1.symm
    have hloop' : resolveEnv debug (some secrets') spec = resolveEntries debug spec.id secrets' spec.env ∅ := by
      rcases resolveEnv_cases debug (some secrets') spec with ⟨hnil, -⟩ | ⟨-, hnone, -⟩ | ⟨_, -, hs, hloop'⟩
      · exact (hne hnil).elim
      · cases hnone
      · obtain rfl := Option.some.inj hs
        exact hloop'
    rw [hloop, hloop']
    exact resolves_alike hsame spec.env rfl

/-- A server is opened with its entries' last values, and how it is opened
shows no secret. -/
theorem opens_with_env (debug : String → String) (config : McpConfig) (provider : Option SecretsProvider)
    (spec : McpServerSpec) : OpensWithEnv debug config provider spec where
  opens := by
    rw [opened_iff]
    rcases resolveEnv_cases debug provider spec with ⟨hnil, hok⟩ | ⟨hne, rfl, herr⟩ | ⟨secrets, -, rfl, hloop⟩
    · simp [hok, hnil]
    · simp [herr, hne]
    · rw [hloop, resolves_iff]
      simp
  bound _ h := lookup_opened h
  refused e h := by
    have herror := error_of_refused h
    rcases resolveEnv_cases debug provider spec with ⟨-, hok⟩ | ⟨-, rfl, herr⟩ | ⟨secrets, -, rfl, hloop⟩
    · rw [hok] at herror
      cases herror
    · exact .inl ⟨rfl, Except.error.inj (herror.symm.trans herr)⟩
    · exact .inr (refuses_of_error (hloop.symm.trans herror))
  conceals other hsame := by
    obtain ⟨command, args, heq⟩ := openArguments_eq config spec
    have hvalues {a b : OpenArguments} (ha : spec.openArguments debug config provider = .ok a)
        (hb : spec.openArguments debug config other = .ok b) (var value : String)
        (hlast : LastOf spec.env (.literal var value)) : a.env.lookup var = some value ∧ b.env.lookup var = some value :=
      ⟨(lookup_opened ha var value).mpr ⟨_, hlast, rfl, rfl⟩, (lookup_opened hb var value).mpr ⟨_, hlast, rfl, rfl⟩⟩
    rcases resolveEnv_alike debug spec hsame with ⟨e, herr, herr'⟩ | ⟨env, env', hok, hok', hkeys⟩
    · rw [heq, heq, herr, herr']
      exact .refused e
    · have ha := (heq debug provider).trans (congrArg _ hok)
      have hb := (heq debug other).trans (congrArg _ hok')
      rw [ha, hb]
      exact .opened _ _ rfl rfl rfl rfl hkeys (hvalues ha hb)

/-- A later entry shadows an earlier one. -/
example : (((McpServerSpec.new "files").withEnvLiteral "MCP_DEBUG" "0").withEnvFromSecret "MCP_DEBUG" "debug").openArguments
    (fun s => s) ⟨.fromSecs 30⟩ (some fun _ => some []) = .ok ⟨"files", "", [], AList.singleton "MCP_DEBUG" "", .fromSecs 30⟩ := rfl

end WalaStack.Proof.Mcp
