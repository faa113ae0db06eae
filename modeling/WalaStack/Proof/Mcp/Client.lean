import WalaStack.Proof.Mcp.Registry
import WalaStack.Proof.Mcp.Dialogue.Answers
import WalaStack.Spec.Client

/-!
# The methods of the client

A lookup finds what the map has when its guard is entered (`Lookups`), and a
request that a method has made is returned with what its channel holds
(`Made`). Neither is changed by what others do, so that a method that returns
has the answer of the server that it has looked up.
-/

namespace WalaStack.Proof.Mcp

open WalaStack.Rust.Json WalaStack.Impl.Mcp WalaStack.Spec.Mcp WalaStack.Transition WalaStack.Parties

/-! ## Lookups -/

section

variable {s s' : StdioMcp} {a : RegistryAction}

theorem heldBetween_mono {first last last' : Nat} {server : String} {conn : Option StdioConnection}
    (h : HeldBetween s first last server conn) (hi : s.instants <+: s'.instants) (hl : last ≤ last') :
    HeldBetween s' first last' server conn := by
  obtain ⟨k, map, hf, hk, hmap, hlookup⟩ := h
  obtain ⟨later, he⟩ := hi
  refine ⟨k, map, hf, Nat.le_trans hk hl, ?_, hlookup⟩
  rw [← he, List.getElem?_append_left (List.getElem?_eq_some_iff.mp hmap).1, hmap]

theorem heldBetween_now {first last : Nat} {server : String} {conn : Option StdioConnection}
    (h : HeldBetween s first last server conn) : HeldBetween s first s.past.length server conn := by
  obtain ⟨k, map, hf, -, hmap, hlookup⟩ := h
  have hlt := (List.getElem?_eq_some_iff.mp hmap).1
  rw [length_instants] at hlt
  exact ⟨k, map, hf, Nat.le_of_lt_succ hlt, hmap, hlookup⟩

/-- What a lookup has found was in the map at an instant since its call. -/
def Lookups (s : StdioMcp) : Prop :=
  ∀ call ∈ s.calls, ∀ server, call.op = .get server → ∀ conn,
    (call.phase = .holding (.found conn) → HeldBetween s call.calledAt s.past.length server conn) ∧
      ∀ instant, call.phase = .returned (.found conn) instant → HeldBetween s call.calledAt instant server conn

theorem lookups_new : Lookups .new := fun call hm => by cases hm

/-- Under its guard, a lookup finds what the map has. -/
theorem holding_of_enter {i : Nat} {call : RegistryCall} {server : String} (h : s.step (.enter i) = some s')
    (hi : s.calls[i]? = some call) (hop : call.op = .get server) :
    s' = s.goto i call (.holding (.found (s.connections.lookup server))) := by
  simp only [StdioMcp.step, hi] at h
  split at h
  · simp only [StdioMcp.operate, hop] at h
    exact (Option.some.inj h).symm
  · cases h

theorem instants_of_step (h : s.step a = some s') : s.instants <+: s'.instants ∧ s.past.length ≤ s'.past.length := by
  rcases step_cases h with ⟨op, rfl, rfl⟩ | ⟨i, call, phase, hg, -⟩
  · exact ⟨List.prefix_rfl, Nat.le_refl _⟩
  · exact ⟨hg.instants, hg.past_le⟩

theorem lookups_step (hi : RegistryInv s) (h : Lookups s) (hs : s.step a = some s') : Lookups s' := by
  obtain ⟨hinst, hpast⟩ := instants_of_step hs
  have hold : ∀ call ∈ s.calls, ∀ server, call.op = .get server → ∀ conn,
      (call.phase = .holding (.found conn) → HeldBetween s' call.calledAt s'.past.length server conn) ∧
        ∀ instant, call.phase = .returned (.found conn) instant → HeldBetween s' call.calledAt instant server conn := by
    intro call hm server hop conn
    obtain ⟨hheld, hret⟩ := h call hm server hop conn
    exact ⟨fun hp => heldBetween_mono (hheld hp) hinst hpast, fun instant hp => heldBetween_mono (hret instant hp) hinst (Nat.le_refl _)⟩
  rcases step_cases hs with ⟨op, rfl, rfl⟩ | ⟨i, call, phase, hg, hr⟩
  · intro c hm server hop conn
    rcases List.mem_append.mp hm with hm | hm
    · exact hold c hm server hop conn
    · obtain rfl := List.mem_singleton.mp hm
      exact ⟨nofun, nofun⟩
  · intro c hm server hop conn
    rw [hg.calls] at hm
    rcases List.mem_or_eq_of_mem_set hm with hm | rfl
    · exact hold c hm server hop conn
    · have hcall := List.mem_of_getElem? hg.found
      cases hr with
      | waits | reads | yields | abandoned | collected | refused => exact ⟨nofun, nofun⟩
      | @entered result _ =>
        refine ⟨fun hp => ?_, nofun⟩
        have hgoto := holding_of_enter hs hg.found hop
        have hset : s.calls.set i { call with phase := .holding result } =
            s.calls.set i { call with phase := .holding (.found (s.connections.lookup server)) } := by
          rw [← hg.calls, hgoto]
          rfl
        have hat := congrArg (·[i]?) hset
        have hlt := (List.getElem?_eq_some_iff.mp hg.found).1
        simp only [List.getElem?_set_self hlt, Option.some.injEq, RegistryCall.mk.injEq, true_and, and_true] at hat
        obtain rfl := RegistryResult.found.inj (RegistryPhase.holding.inj (hat.symm.trans hp))
        refine heldBetween_mono ⟨_, _, hi.called call hcall, Nat.le_refl _, getElem?_instants s, rfl⟩ hinst hpast
      | leaves hphase =>
        refine ⟨nofun, fun instant hp => ?_⟩
        obtain ⟨rfl, rfl⟩ := RegistryPhase.returned.inj hp
        exact heldBetween_mono ((h call hcall server hop conn).1 hphase) hinst (Nat.le_refl _)

end

/-! ## Steps -/

variable {cfg : Nat → ConnectionConfig} {servers : Nat → LineServer} {m m' : Client} {a : ClientAction} {call : MethodCall}

/-- A method makes one request, and reads nothing of the connection but its
answer. -/
theorem run_request (method : Method) (server : String) (conn : Request) :
    method.run (some conn) server = method.run (some fun _ _ => conn method.request.1 method.request.2) server := by
  cases method <;> rfl

theorem run_none (method : Method) (server : String) : method.run none server = .error (.unknownServer server) := by
  cases method <;> rfl

theorem run_error (method : Method) (server : String) (e : McpError) :
    method.run (some fun _ _ => .error e) server = .error (.connection e) := by
  cases method <;> rfl

inductive ClientSteps (cfg : Nat → ConnectionConfig) (servers : Nat → LineServer) (m : Client) :
    ClientAction → Client → Prop
  | registry {a : RegistryAction} {r : StdioMcp} : m.registry.step a = some r →
    ClientSteps cfg servers m (.registry a) { m with registry := r }
  | dialogue {k : Nat} {a : DialogueAction} {d : Dialogue} : (m.dialogues k).step (cfg k) (servers k) a = some d →
    ClientSteps cfg servers m (.dialogue k a) { m with dialogues := Function.update m.dialogues k d }
  | call {server : String} {method : Method} {r : StdioMcp} : m.registry.step (.call (.get server)) = some r →
    ClientSteps cfg servers m (.call server method)
      { m with
        registry := r
        calls := m.calls ++ [⟨server, method, .finding m.registry.calls.length, none, m.registry.past.length⟩] }
  | missing {j c i instant : Nat} {call : MethodCall} {lookup : RegistryCall} : m.calls[j]? = some call →
    call.phase = .finding i → m.registry.calls[i]? = some lookup → lookup.phase = .returned (.found none) instant →
    ClientSteps cfg servers m (.found j c) (m.ends j call none)
  | requests {j c i instant : Nat} {call : MethodCall} {lookup : RegistryCall} {conn : StdioConnection} {d : Dialogue} :
    m.calls[j]? = some call → call.phase = .finding i → m.registry.calls[i]? = some lookup →
    lookup.phase = .returned (.found (some conn)) instant →
    (m.dialogues conn.connection).step (cfg conn.connection) (servers conn.connection)
      (.client (.request c call.method.request.1 call.method.request.2)) = some d →
    ClientSteps cfg servers m (.found j c)
      (({ m with dialogues := Function.update m.dialogues conn.connection d } : Client).goto j
        { call with made := some (conn.connection, c) } .requesting)
  | answered {j k c : Nat} {call : MethodCall} {result : Except McpError Value} : m.calls[j]? = some call →
    call.phase = .requesting → call.made = some (k, c) →
    ((m.dialogues k).connection.calls c).phase = .returned result →
    ClientSteps cfg servers m (.answered j) (m.ends j call (some fun _ _ => result))

theorem clientSteps_of_step (h : m.step cfg servers a = some m') : ClientSteps cfg servers m a m' := by
  cases a with
  | registry a =>
    obtain ⟨r, hr, rfl⟩ := Option.map_eq_some_iff.mp h
    exact .registry hr
  | dialogue k a =>
    obtain ⟨d, hd, rfl⟩ := Option.map_eq_some_iff.mp h
    exact .dialogue hd
  | call server method =>
    rw [Client.step, Option.map_eq_some_iff] at h
    obtain ⟨r, hr, rfl⟩ := h
    exact .call hr
  | found j c =>
    simp only [Client.step] at h
    split at h
    · rename_i call hj
      split at h
      · rename_i i hp
        split at h
        · rename_i instant hfound
          obtain ⟨lookup, hi, hl⟩ := Option.map_eq_some_iff.mp hfound
          obtain rfl := Option.some.inj h
          exact .missing hj hp hi hl
        · rename_i conn instant hfound
          obtain ⟨lookup, hi, hl⟩ := Option.map_eq_some_iff.mp hfound
          obtain ⟨m₁, hm₁, rfl⟩ := Option.map_eq_some_iff.mp h
          obtain ⟨d, hd, rfl⟩ := Option.map_eq_some_iff.mp hm₁
          exact .requests hj hp hi hl hd
        · cases h
      · cases h
    · cases h
  | answered j =>
    simp only [Client.step] at h
    split at h
    · rename_i call hj
      split at h
      · rename_i k c hp hmade
        split at h
        · rename_i result hret
          obtain rfl := Option.some.inj h
          exact .answered hj hp hmade hret
        · cases h
      · cases h
    · cases h

/-! ## What others leave -/

/-- Nothing that a method relies on is undone. -/
structure Grows (cfg : Nat → ConnectionConfig) (m m' : Client) : Prop where
  instants : m.registry.instants <+: m'.registry.instants ∧ m.registry.past.length ≤ m'.registry.past.length
  lookups : ∀ (i : Nat) (lookup : RegistryCall), m.registry.calls[i]? = some lookup →
    ∃ lookup', m'.registry.calls[i]? = some lookup' ∧ lookup'.op = lookup.op ∧ lookup'.calledAt = lookup.calledAt
  asked : ∀ k c method params, Dialogue.Asked (cfg k) (m.dialogues k).connection c method params →
    Dialogue.Asked (cfg k) (m'.dialogues k).connection c method params
  returns : ∀ k c x, Dialogue.Returns (m.dialogues k).connection c x → Dialogue.Returns (m'.dialogues k).connection c x

theorem grows_of_registry {a : RegistryAction} (h : m.registry.step a = some m'.registry)
    (hd : m'.dialogues = m.dialogues) : Grows cfg m m' := by
  refine ⟨instants_of_step h, fun i lookup hi => ?_, fun k c _ _ ha => hd ▸ ha, fun k c x hx => hd ▸ hx⟩
  rcases step_cases h with ⟨op, -, hs⟩ | ⟨i', rc, phase, hg, -⟩
  · refine ⟨lookup, ?_, rfl, rfl⟩
    rw [hs]
    exact List.getElem?_append_left (List.getElem?_eq_some_iff.mp hi).1 ▸ hi
  · by_cases hne : i = i'
    · subst hne
      obtain rfl := Option.some.inj (hi.symm.trans hg.found)
      refine ⟨{ lookup with phase := phase }, ?_, rfl, rfl⟩
      rw [hg.calls]
      exact List.getElem?_set_self (List.getElem?_eq_some_iff.mp hi).1
    · refine ⟨lookup, ?_, rfl, rfl⟩
      rw [hg.calls, List.getElem?_set_ne (Ne.symm hne)]
      exact hi

theorem returns_of_step {cfg : ConnectionConfig} {server : LineServer} {d d' : Dialogue} {b : DialogueAction} {c : Nat}
    {x : Except McpError Value} (hi : Dialogue.DialogueInv cfg server d) (h : d.step cfg server b = some d')
    (hx : Dialogue.Returns d.connection c x) : Dialogue.Returns d'.connection c x := by
  rcases Dialogue.connection_step (Dialogue.dialogueSteps_of_step h) with hsame | ⟨a, hs, -⟩
  · exact hsame ▸ hx
  · obtain ⟨e, moves⟩ := Stdio.moves_of_step hi.client.inv.owned hs
    exact hx.step moves

theorem grows_of_dialogue {k : Nat} {a : DialogueAction} {d : Dialogue}
    (hi : Dialogue.DialogueInv (cfg k) (servers k) (m.dialogues k)) (h : (m.dialogues k).step (cfg k) (servers k) a = some d)
    (hr : m'.registry = m.registry) (hd : m'.dialogues = Function.update m.dialogues k d) : Grows cfg m m' := by
  refine ⟨hr ▸ ⟨List.prefix_rfl, Nat.le_refl _⟩, fun i lookup hi => ⟨lookup, hr ▸ hi, rfl, rfl⟩, fun k' c method params ha => ?_,
    fun k' c x hx => ?_⟩
  · rw [hd]
    by_cases hk : k' = k
    · subst hk
      rw [Function.update_self]
      exact Dialogue.asked_step hi h ha
    · rw [Function.update_of_ne hk]
      exact ha
  · rw [hd]
    by_cases hk : k' = k
    · subst hk
      rw [Function.update_self]
      exact returns_of_step hi h hx
    · rw [Function.update_of_ne hk]
      exact hx

theorem grows_of_same (hr : m'.registry = m.registry) (hd : m'.dialogues = m.dialogues) : Grows cfg m m' :=
  ⟨hr ▸ ⟨List.prefix_rfl, Nat.le_refl _⟩, fun _ lookup hi => ⟨lookup, hr ▸ hi, rfl, rfl⟩, fun _ _ _ _ ha => hd ▸ ha,
    fun _ _ _ hx => hd ▸ hx⟩

/-! ## Methods -/

/-- The request that a method has made, of a connection that it has found. -/
def Made (cfg : Nat → ConnectionConfig) (m : Client) (call : MethodCall) (instant : Nat) (k c : Nat) : Prop :=
  call.made = some (k, c) ∧
    Dialogue.Asked (cfg k) (m.dialogues k).connection c call.method.request.1 call.method.request.2 ∧
      ∃ conn : StdioConnection, conn.connection = k ∧
        HeldBetween m.registry call.calledAt instant call.server (some conn)

def MethodInv (cfg : Nat → ConnectionConfig) (m : Client) (call : MethodCall) : Prop :=
  match call.phase with
  | .finding i => call.made = none ∧
      ∃ lookup, m.registry.calls[i]? = some lookup ∧ lookup.op = .get call.server ∧ lookup.calledAt = call.calledAt
  | .requesting => ∃ k c, Made cfg m call m.registry.past.length k c
  | .returned result instant =>
    call.made = none ∧ HeldBetween m.registry call.calledAt instant call.server none ∧
        result = call.method.run none call.server ∨
      ∃ k c x, Made cfg m call instant k c ∧ Dialogue.Returns (m.dialogues k).connection c x ∧
        result = call.method.run (some fun _ _ => x) call.server

theorem Made.grow {instant instant' k c : Nat} (hg : Grows cfg m m') (hle : instant ≤ instant')
    (h : Made cfg m call instant k c) : Made cfg m' call instant' k c := by
  obtain ⟨hmade, hasked, conn, hconn, hheld⟩ := h
  exact ⟨hmade, hg.asked k c _ _ hasked, conn, hconn, heldBetween_mono hheld hg.instants.1 hle⟩

theorem MethodInv.grow (hg : Grows cfg m m') (h : MethodInv cfg m call) : MethodInv cfg m' call := by
  unfold MethodInv at h ⊢
  split at h
  · obtain ⟨hnone, lookup, hi, hop, hat⟩ := h
    obtain ⟨lookup', hi', hop', hat'⟩ := hg.lookups _ lookup hi
    exact ⟨hnone, lookup', hi', hop'.trans hop, hat'.trans hat⟩
  · obtain ⟨k, c, hmade⟩ := h
    exact ⟨k, c, hmade.grow hg hg.instants.2⟩
  · rcases h with ⟨hnone, hheld, hresult⟩ | ⟨k, c, x, hmade, hret, hresult⟩
    · exact .inl ⟨hnone, heldBetween_mono hheld hg.instants.1 (Nat.le_refl _), hresult⟩
    · exact .inr ⟨k, c, x, hmade.grow hg (Nat.le_refl _), hg.returns k c x hret, hresult⟩

/-! ## Runs -/

structure ClientInv (cfg : Nat → ConnectionConfig) (servers : Nat → LineServer) (m : Client) : Prop where
  registry : RegistryInv m.registry
  lookups : Lookups m.registry
  dialogues : ∀ k, Dialogue.DialogueInv (cfg k) (servers k) (m.dialogues k)
  methods : ∀ call ∈ m.calls, MethodInv cfg m call
  apart : ∀ (j j' : Nat) p, (m.calls[j]?).bind MethodCall.made = some p → (m.calls[j']?).bind MethodCall.made = some p →
    j = j'

theorem clientInv_new (now : Nat) : ClientInv cfg servers (.new now) where
  registry := registryInv_new
  lookups := lookups_new
  dialogues _ := Dialogue.dialogueInv_init now
  methods := nofun
  apart _ _ _ h := by cases h

/-- A call that is asked cannot be asked again. -/
theorem not_asked_of_request {cfg : ConnectionConfig} {server : LineServer} {d d' : Dialogue} {c : Nat} {method : String}
    {params : Value} (h : d.step cfg server (.client (.request c method params)) = some d') {method' : String}
    {params' : Value} : ¬ Dialogue.Asked cfg d.connection c method' params' := by
  intro ha
  cases Dialogue.dialogueSteps_of_step h with
  | client _ hs =>
    cases Stdio.connectionSteps_of_step hs with
    | request hc =>
      have hrank := ha.1
      rw [Stdio.rankOf, hc] at hrank
      cases hrank

theorem asked_of_request {cfg : ConnectionConfig} {server : LineServer} {d d' : Dialogue} {c : Nat} {method : String}
    {params : Value} (h : d.step cfg server (.client (.request c method params)) = some d') :
    Dialogue.Asked cfg d'.connection c method params := by
  cases Dialogue.dialogueSteps_of_step h with
  | client _ hs => exact Dialogue.asked_of_request hs

/-- The request that a method has made was asked. -/
theorem MethodInv.asked {k c : Nat} (h : MethodInv cfg m call) (hm : call.made = some (k, c)) :
    ∃ method params, Dialogue.Asked (cfg k) (m.dialogues k).connection c method params := by
  have hof : ∀ {instant k' c' : Nat}, Made cfg m call instant k' c' →
      ∃ method params, Dialogue.Asked (cfg k) (m.dialogues k).connection c method params := by
    rintro instant k' c' ⟨hmade, hasked, -⟩
    obtain ⟨rfl, rfl⟩ := Prod.mk.inj (Option.some.inj (hm.symm.trans hmade))
    exact ⟨_, _, hasked⟩
  unfold MethodInv at h
  split at h
  · rw [h.1] at hm
    cases hm
  · obtain ⟨k', c', hmade⟩ := h
    exact hof hmade
  · rcases h with ⟨hnone, -⟩ | ⟨k', c', x, hmade, -⟩
    · rw [hnone] at hm
      cases hm
    · exact hof hmade

/-- One method goes on, by a step after which what the others rely on is there. -/
theorem methods_set {j : Nat} {call' : MethodCall} (hi : ClientInv cfg servers m) (hg : Grows cfg m m')
    (hc : m'.calls = m.calls.set j call') (hnew : MethodInv cfg m' call') : ∀ c ∈ m'.calls, MethodInv cfg m' c := by
  intro c hm
  rw [hc] at hm
  rcases List.mem_or_eq_of_mem_set hm with hm | rfl
  · exact (hi.methods c hm).grow hg
  · exact hnew

theorem made_set {j j' : Nat} {call' : MethodCall} (hj : m.calls[j]? = some call) (hmade : call'.made = call.made) :
    ((m.calls.set j call')[j']?).bind MethodCall.made = (m.calls[j']?).bind MethodCall.made := by
  by_cases h : j' = j
  · subst h
    rw [List.getElem?_set_self (List.getElem?_eq_some_iff.mp hj).1, hj, Option.bind_some, Option.bind_some, hmade]
  · rw [List.getElem?_set_ne (Ne.symm h)]

theorem apart_set {j : Nat} {call' : MethodCall} (hi : ClientInv cfg servers m) (hj : m.calls[j]? = some call)
    (hc : m'.calls = m.calls.set j call') (hmade : call'.made = call.made) (j₁ j₂ : Nat) (p : Nat × Nat)
    (h₁ : (m'.calls[j₁]?).bind MethodCall.made = some p) (h₂ : (m'.calls[j₂]?).bind MethodCall.made = some p) :
    j₁ = j₂ := by
  rw [hc, made_set hj hmade] at h₁ h₂
  exact hi.apart j₁ j₂ p h₁ h₂

/-- A request that no method has made is made by one. -/
theorem apart_requests {j : Nat} {phase : MethodPhase} {p : Nat × Nat} (hi : ClientInv cfg servers m)
    (hj : m.calls[j]? = some call) (hc : m'.calls = m.calls.set j { call with made := some p, phase := phase })
    (hnew : ∀ j' : Nat, (m.calls[j']?).bind MethodCall.made ≠ some p) (j₁ j₂ : Nat) (q : Nat × Nat)
    (h₁ : (m'.calls[j₁]?).bind MethodCall.made = some q) (h₂ : (m'.calls[j₂]?).bind MethodCall.made = some q) :
    j₁ = j₂ := by
  have hlt := (List.getElem?_eq_some_iff.mp hj).1
  have hof : ∀ {j' : Nat}, (m'.calls[j']?).bind MethodCall.made = some q →
      j' = j ∧ q = p ∨ j' ≠ j ∧ (m.calls[j']?).bind MethodCall.made = some q := by
    intro j' h
    rw [hc] at h
    by_cases hne : j' = j
    · subst hne
      rw [List.getElem?_set_self hlt] at h
      exact .inl ⟨rfl, (Option.some.inj h).symm⟩
    · rw [List.getElem?_set_ne (Ne.symm hne)] at h
      exact .inr ⟨hne, h⟩
  rcases hof h₁ with ⟨rfl, rfl⟩ | ⟨-, h₁⟩ <;> rcases hof h₂ with ⟨h, h'⟩ | ⟨-, h₂⟩
  · exact h.symm
  · exact absurd h₂ (hnew j₂)
  · exact absurd (h' ▸ h₁) (hnew j₁)
  · exact hi.apart j₁ j₂ q h₁ h₂

theorem made_concat {j : Nat} {call' : MethodCall} (hnone : call'.made = none) :
    ((m.calls ++ [call'])[j]?).bind MethodCall.made = (m.calls[j]?).bind MethodCall.made := by
  rcases Nat.lt_trichotomy j m.calls.length with h | rfl | h
  · rw [List.getElem?_append_left h]
  · rw [List.getElem?_concat_length, List.getElem?_eq_none (Nat.le_refl _), Option.bind_some, hnone]
    rfl
  · rw [List.getElem?_eq_none (by simp; omega), List.getElem?_eq_none (by omega)]

theorem clientInv_step (hl : ∀ k, OneLine (cfg k)) (hb : ∀ k, WellBehaved (cfg k) (servers k))
    (hi : ClientInv cfg servers m) (hok : LeavesAllWhole m a) (h : m.step cfg servers a = some m') :
    ClientInv cfg servers m' := by
  cases clientSteps_of_step h with
  | @registry a r hr =>
    have hg : Grows cfg m { m with registry := r } := grows_of_registry hr rfl
    exact ⟨registryInv_step hi.registry hr, lookups_step hi.registry hi.lookups hr, hi.dialogues,
      fun call hm => (hi.methods call hm).grow hg, hi.apart⟩
  | @dialogue k a d hd =>
    have hg : Grows cfg m { m with dialogues := Function.update m.dialogues k d } :=
      grows_of_dialogue (hi.dialogues k) hd rfl rfl
    refine ⟨hi.registry, hi.lookups, fun k' => ?_, fun call hm => (hi.methods call hm).grow hg, hi.apart⟩
    by_cases hk : k' = k
    · subst hk
      simp only [Function.update_self]
      exact Dialogue.dialogueInv_step (hl k') (hb k') (hi.dialogues k') hok hd
    · simp only [Function.update_of_ne hk]
      exact hi.dialogues k'
  | @call server method r hr =>
    have hg : ∀ calls, Grows cfg m { m with registry := r, calls := calls } := fun _ => grows_of_registry hr rfl
    refine ⟨registryInv_step hi.registry hr, lookups_step hi.registry hi.lookups hr, hi.dialogues, fun call hm => ?_,
      fun j j' p hj hj' => ?_⟩
    · rcases List.mem_append.mp hm with hm | hm
      · exact (hi.methods call hm).grow (hg _)
      · obtain rfl := List.mem_singleton.mp hm
        obtain rfl := Option.some.inj hr
        exact ⟨rfl, _, List.getElem?_concat_length, rfl, rfl⟩
    · simp only [made_concat] at hj hj'
      exact hi.apart j j' p hj hj'
  | @missing j c i instant call lookup hj hp hlookup hphase =>
    have hg : Grows cfg m (m.ends j call none) := grows_of_same rfl rfl
    refine ⟨hi.registry, hi.lookups, hi.dialogues, methods_set hi hg rfl ?_, apart_set hi hj rfl rfl⟩
    have hcall := hi.methods call (List.mem_of_getElem? hj)
    rw [MethodInv, hp] at hcall
    obtain ⟨hnone, lookup', hlookup', hop, hat⟩ := hcall
    obtain rfl := Option.some.inj (hlookup.symm.trans hlookup')
    have hheld := (hi.lookups lookup (List.mem_of_getElem? hlookup) call.server hop none).2 instant hphase
    exact .inl ⟨hnone, hat ▸ heldBetween_now hheld, rfl⟩
  | @requests j c i instant call lookup conn d hj hp hlookup hphase hd =>
    have hcall := hi.methods call (List.mem_of_getElem? hj)
    rw [MethodInv, hp] at hcall
    obtain ⟨-, lookup', hlookup', hop, hat⟩ := hcall
    obtain rfl := Option.some.inj (hlookup.symm.trans hlookup')
    have hheld := (hi.lookups lookup (List.mem_of_getElem? hlookup) call.server hop (some conn)).2 instant hphase
    have hg : Grows cfg m (({ m with dialogues := Function.update m.dialogues conn.connection d } : Client).goto j
        { call with made := some (conn.connection, c) } .requesting) := grows_of_dialogue (hi.dialogues _) hd rfl rfl
    have hwhole : LeavesWhole (m.dialogues conn.connection)
        (.client (.request c call.method.request.1 call.method.request.2)) := trivial
    refine ⟨hi.registry, hi.lookups, fun k => ?_, methods_set hi hg rfl ⟨conn.connection, c, rfl, ?_, conn, rfl, ?_⟩,
      apart_requests hi hj rfl fun j' h => ?_⟩
    · by_cases hk : k = conn.connection
      · subst hk
        show Dialogue.DialogueInv _ _ (Function.update m.dialogues conn.connection d conn.connection)
        rw [Function.update_self]
        exact Dialogue.dialogueInv_step (hl _) (hb _) (hi.dialogues _) hwhole hd
      · show Dialogue.DialogueInv _ _ (Function.update m.dialogues conn.connection d k)
        rw [Function.update_of_ne hk]
        exact hi.dialogues k
    · show Dialogue.Asked _ (Function.update m.dialogues conn.connection d conn.connection).connection c _ _
      rw [Function.update_self]
      exact asked_of_request hd
    · exact hat ▸ heldBetween_now hheld
    -- Another method's request is not idle any more.
    · obtain ⟨other, hother, hmade⟩ := Option.bind_eq_some_iff.mp h
      obtain ⟨method, params, hasked⟩ := (hi.methods other (List.mem_of_getElem? hother)).asked hmade
      exact not_asked_of_request hd hasked
  | @answered j k c call result hj hp hmade hret =>
    have hg : Grows cfg m (m.ends j call (some fun _ _ => result)) := grows_of_same rfl rfl
    refine ⟨hi.registry, hi.lookups, hi.dialogues, methods_set hi hg rfl (.inr ⟨k, c, result, ?_⟩), apart_set hi hj rfl rfl⟩
    have hcall := hi.methods call (List.mem_of_getElem? hj)
    rw [MethodInv, hp] at hcall
    obtain ⟨k', c', hmade', hasked, hheld⟩ := hcall
    obtain ⟨rfl, rfl⟩ := Prod.mk.inj (Option.some.inj (hmade.symm.trans hmade'))
    exact ⟨⟨hmade, hasked, hheld⟩, (hi.dialogues k).client.calls.returned c result hret, rfl⟩

/-- In every run of the registry, of any number of connections with their
servers, and of any number of methods on them, whatever interleaves: what a
method returns is made of the answer to the request that it alone has made, by
the server behind a connection that the registry had under the server's id
during the call; or no connection was there, or the request has failed on the
client's side. -/
theorem serves_methods {as : List ClientAction} {now : Nat} (hl : ∀ k, OneLine (cfg k))
    (hb : ∀ k, WellBehaved (cfg k) (servers k)) (h : exec (Client.step cfg servers) (.new now) as = some m)
    (hok : AlongSteps (Client.step cfg servers) LeavesAllWhole (.new now) as)
    (hle : ∀ k, requests (m.dialogues k).connection.history ≤ 2 ^ 64) : ServesMethods cfg servers m := by
  have hi : ClientInv cfg servers m := hok.invariant (clientInv_step hl hb) (clientInv_new now) h
  refine ⟨fun call hm result instant hp => ?_, hi.apart⟩
  have hcall := hi.methods call hm
  rw [MethodInv, hp] at hcall
  rcases hcall with ⟨-, hheld, hresult⟩ | ⟨k, c, x, ⟨hmade, hasked, conn, rfl, hheld⟩, hret, hresult⟩
  · exact .unknown hheld (hresult.trans (run_none _ _))
  · rcases hret with ⟨n, r, hch, rfl⟩ | ⟨e, rfl, he⟩
    · exact .answered conn c r hheld hmade
        (Dialogue.exchange_of_sent (hl _) (hb _) (hi.dialogues _) (hle _) hasked hch) hresult
    · exact .failed conn e hheld he (hresult.trans (run_error _ _ e))

/-! ## A tool of one server -/

/-- A run of a connection and its server is one of the client. -/
theorem exec_dialogue {k : Nat} {bs : List DialogueAction} {d : Dialogue}
    (h : exec (Dialogue.step (cfg k) (servers k)) (m.dialogues k) bs = some d) :
    ∃ m', exec (Client.step cfg servers) m (bs.map (.dialogue k)) = some m' ∧ m'.registry = m.registry ∧
      m'.calls = m.calls ∧ m'.dialogues = Function.update m.dialogues k d := by
  induction bs generalizing m with
  | nil =>
    obtain rfl := Option.some.inj h
    exact ⟨m, rfl, rfl, rfl, (Function.update_eq_self k _).symm⟩
  | cons b bs ih =>
    rw [exec_cons, Option.bind_eq_some_iff] at h
    obtain ⟨d₁, h₁, h₂⟩ := h
    have hstep : m.step cfg servers (.dialogue k b) = some { m with dialogues := Function.update m.dialogues k d₁ } := by
      rw [Client.step, Client.onDialogue, h₁, Option.map_some]
    have hat : exec (Dialogue.step (cfg k) (servers k)) (Function.update m.dialogues k d₁ k) bs = some d := by
      rw [Function.update_self]
      exact h₂
    obtain ⟨m', hrun, hr, hc, hd⟩ := ih (m := { m with dialogues := Function.update m.dialogues k d₁ }) hat
    refine ⟨m', (exec_cons_of hstep _).trans hrun, hr, hc, ?_⟩
    rw [hd, Function.update_idem]

def arguments : Value := .object [("text", .string "hi")]

/-- A tool that returns its arguments. -/
def echoTool : Method := .invokeTool "echo" arguments

def echoClient : ConnectionConfig := plainClient arguments

def echoServer : LineServer := Dialogue.plainServer arguments

/-- A connection is inserted, and a tool of its server called: up to the lookup. -/
def looking : List ClientAction :=
  [.registry (.call (.insert "files" ⟨0, none⟩)), .registry (.lock 0), .registry (.enter 0), .registry (.leave 0),
    .call "files" echoTool, .registry (.lock 1), .registry (.enter 1), .registry (.leave 1)]

/-- From its request to the answer. -/
def echoing : List DialogueAction :=
  (Dialogue.answered echoClient echoTool.request.1 echoTool.request.2).tail ++ [.client (.receive 0)]

/-- The tool's result is the server's. -/
def calledTool : List ClientAction := looking ++ .found 0 0 :: (echoing.map (.dialogue 0) ++ [.answered 0])

theorem leavesAllWhole_calledTool : ∀ a ∈ calledTool, ∀ m, LeavesAllWhole m a := by
  simp [calledTool, looking, echoing, Dialogue.answered, LeavesAllWhole, LeavesWhole, KeepsFrames]

theorem exec_echoing : ∃ d₁ d, (Dialogue.init 0).step echoClient echoServer
      (.client (.request 0 echoTool.request.1 echoTool.request.2)) = some d₁ ∧
    exec (Dialogue.step echoClient echoServer) d₁ echoing = some d ∧
      (d.connection.calls 0).phase = .returned (.ok arguments) ∧ requests d.connection.history = 1 := by
  have hx : exchange echoClient echoServer (JsonRpcRequest.toValue ⟨1, echoTool.request.1, echoTool.request.2⟩) =
      some ⟨1, some arguments, none⟩ := Dialogue.exchange_plain _
  obtain ⟨d, hrun, -, hwait, -, hch, hreq⟩ :=
    Dialogue.exec_answered oneLine_plainClient Dialogue.wellBehaved_plain hx
  rw [Dialogue.answered, exec_cons, Option.bind_eq_some_iff] at hrun
  obtain ⟨d₁, hrequest, hrest⟩ := hrun
  obtain ⟨d', hstep, hret, hreq'⟩ : ∃ d', d.step echoClient echoServer (.client (.receive 0)) = some d' ∧
      (d'.connection.calls 0).phase = .returned (Connection.resultOf ⟨1, some arguments, none⟩) ∧
        requests d'.connection.history = requests d.connection.history := by
    simp [Dialogue.step, Connection.step, hwait, hch, Connection.log, Connection.goto, requests, isCalled]
  exact ⟨d₁, d', hrequest, (exec_append_of hrest _).trans (exec_cons_of hstep []), hret, hreq'.trans hreq⟩

def echoClients : Nat → ConnectionConfig := fun _ => echoClient

def echoServers : Nat → LineServer := fun _ => echoServer

theorem serves_methods_echo : ∃ m, exec (Client.step echoClients echoServers) (.new 0) calledTool = some m ∧
    m.calls.map MethodCall.phase = [.returned (.ok (.invoked arguments)) 1] ∧ ServesMethods echoClients echoServers m := by
  obtain ⟨d₁, d, hrequest, hechoing, hret, hreq⟩ := exec_echoing
  obtain ⟨m₀, hlooking, hd₀, hc₀, hr₀, hi₀⟩ :
      ∃ m₀, exec (Client.step echoClients echoServers) (.new 0) looking = some m₀ ∧
        m₀.dialogues = (fun _ => .init 0) ∧ m₀.calls = [⟨"files", echoTool, .finding 1, none, 1⟩] ∧
        (m₀.registry.calls[1]?).map RegistryCall.phase = some (.returned (.found (some ⟨0, none⟩)) 1) ∧
        m₀.registry.past.length = 1 := ⟨_, rfl, rfl, rfl, rfl, rfl⟩
  -- The request is made,
  obtain ⟨m₁, hfound, hd₁, hc₁, hi₁⟩ :
      ∃ m₁, m₀.step echoClients echoServers (.found 0 0) = some m₁ ∧
        m₁.dialogues = Function.update (fun _ => .init 0) 0 d₁ ∧
        m₁.calls = [⟨"files", echoTool, .requesting, some (0, 0), 1⟩] ∧ m₁.registry.past.length = 1 := by
    simp [Client.step, Client.onDialogue, Client.goto, hd₀, hc₀, hr₀, hi₀, echoClients, echoServers, hrequest]
  -- and answered.
  have hat : exec (Dialogue.step (echoClients 0) (echoServers 0)) (m₁.dialogues 0) echoing = some d := by
    rw [hd₁, Function.update_self]
    exact hechoing
  obtain ⟨m₂, hrun, hr₂, hc₂, hd₂⟩ := exec_dialogue hat
  obtain ⟨m, hanswered, hd, hphase⟩ :
      ∃ m, m₂.step echoClients echoServers (.answered 0) = some m ∧
        m.dialogues = m₂.dialogues ∧ m.calls.map MethodCall.phase = [.returned (.ok (.invoked arguments)) 1] := by
    simp [Client.step, Client.ends, Client.goto, hc₂, hc₁, hd₂, hret, hr₂, hi₁]
    rfl
  have hexec : exec (Client.step echoClients echoServers) (.new 0) calledTool = some m :=
    (exec_append_of hlooking _).trans ((exec_cons_of hfound _).trans ((exec_append_of hrun _).trans (exec_cons_of hanswered [])))
  refine ⟨m, hexec, hphase, serves_methods (fun _ => oneLine_plainClient) (fun _ => Dialogue.wellBehaved_plain) hexec
    (.of_forall leavesAllWhole_calledTool _) fun k => ?_⟩
  rw [hd, hd₂, hd₁, Function.update_idem]
  by_cases hk : k = 0
  · subst hk
    rw [Function.update_self, hreq]
    decide
  · rw [Function.update_of_ne hk]
    decide

end WalaStack.Proof.Mcp
