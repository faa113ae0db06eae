import WalaStack.Impl.Mcp.Env

/-!
# The environment that a server is opened with

Each variable should have the value of the last entry for it, with every secret
there; where one is not, the error should name the first that is missing
(`OpensWithEnv`). Beyond the values of the variables that are bound to them, the
values of secrets should decide nothing (`Alike`).
-/

namespace WalaStack.Spec.Mcp

open WalaStack.Rust WalaStack.Impl.Mcp WalaStack.Impl.Auth

/-- The value that an entry stands for. -/
def valueOf (provider : Option SecretsProvider) : EnvVar → Option String
  | .fromSecret _ secretName => (provider.bind (· secretName)).bind fromUtf8
  | .literal _ value => some value

/-- No later entry is for the same variable. -/
def LastOf (env : List EnvVar) (entry : EnvVar) : Prop :=
  ∃ before after, env = before ++ entry :: after ∧ ∀ later ∈ after, later.var ≠ entry.var

/-- The same secrets exist, and of these the same are UTF-8. -/
def SameSecrets (p q : Option SecretsProvider) : Prop :=
  p.isSome = q.isSome ∧ ∀ name, (p.bind (· name)).isSome = (q.bind (· name)).isSome ∧
    ((p.bind (· name)).bind fromUtf8).isSome = ((q.bind (· name)).bind fromUtf8).isSome

/-- At most the values of variables that are bound to secrets differ. -/
inductive Alike (env : List EnvVar) : Except ServiceError OpenArguments → Except ServiceError OpenArguments → Prop
  | refused (e : ServiceError) : Alike env (.error e) (.error e)
  | opened (a b : OpenArguments) : a.server = b.server → a.command = b.command → a.args = b.args →
    a.requestTimeout = b.requestTimeout → a.env.keys = b.env.keys →
    (∀ var value, LastOf env (.literal var value) → a.env.lookup var = some value ∧ b.env.lookup var = some value) →
    Alike env (.ok a) (.ok b)

/-- The entry's secret is missing, or no text, and the error says which. -/
inductive Refuses (debug : String → String) (provider : Option SecretsProvider) (id : String) : EnvVar → ServiceError → Prop
  | notRegistered (var secretName : String) : provider.bind (· secretName) = none →
    Refuses debug provider id (.fromSecret var secretName) (secretNotRegistered debug id secretName)
  | notUtf8 (var secretName : String) (bytes : Secret) : provider.bind (· secretName) = some bytes →
    fromUtf8 bytes = none → Refuses debug provider id (.fromSecret var secretName) (secretNotUtf8 debug secretName var)

structure OpensWithEnv (debug : String → String) (config : McpConfig) (provider : Option SecretsProvider)
    (spec : McpServerSpec) : Prop where
  /-- A server is opened exactly if all that its entries ask for is there. -/
  opens : (∃ args, spec.openArguments debug config provider = .ok args) ↔
    (spec.env = [] ∨ provider.isSome) ∧ ∀ entry ∈ spec.env, (valueOf provider entry).isSome
  /-- A variable has the value of the last entry for it. -/
  bound : ∀ args, spec.openArguments debug config provider = .ok args → ∀ var value,
    args.env.lookup var = some value ↔
      ∃ entry, LastOf spec.env entry ∧ entry.var = var ∧ valueOf provider entry = some value
  /-- An error is that of the first entry that fails. -/
  refused : ∀ e, spec.openArguments debug config provider = .error e →
    provider = none ∧ e = secretsProviderMissing ∨
      ∃ before entry after, spec.env = before ++ entry :: after ∧
        (∀ earlier ∈ before, (valueOf provider earlier).isSome) ∧ Refuses debug provider spec.id entry e
  conceals : ∀ other, SameSecrets provider other →
    Alike spec.env (spec.openArguments debug config provider) (spec.openArguments debug config other)

end WalaStack.Spec.Mcp
