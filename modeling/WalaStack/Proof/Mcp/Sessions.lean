import WalaStack.Framework.Parties
import WalaStack.Spec.Sessions

/-!
# The balance of the sessions

`SessionSteps` sorts the steps of a session by what they do to the map and to
the log. A task that comes to the end of its clean-up has removed itself and
published its end (`SessionsInv`); one that is dropped or panics before has
not. `balanced_step` puts this together.
-/

namespace WalaStack.Proof.Mcp

open WalaStack.Impl.Mcp WalaStack.Spec.Mcp WalaStack.Transition WalaStack.Parties

variable {s s' : Sessions} {a : SessionsAction} {b : SessionAction} {i j : Nat} {st st' : Session}
variable {down : Bool} {held held' : Option Nat} {entries entries' : List SessionEntry} {server : String}

/-! ## Phases -/

/-- `McpServerConnected` has been published. -/
def isAnnounced : SessionPhase → Bool
  | .selecting | .pinging | .closing | .removing | .publishing | .finishing | .ended => true
  | .opening | .inserting | .announcing | .refused => false

/-- The map may hold the session's connection. -/
def mayHold : SessionPhase → Bool
  | .announcing | .selecting | .pinging | .closing | .removing | .ended => true
  | .opening | .inserting | .publishing | .finishing | .refused => false

def isUnhealthy : SessionEntry → Bool
  | .unhealthy _ _ => true
  | .connected _ | .removed _ _ | .disconnected _ => false

@[simp] theorem session_goto_phase (p : SessionPhase) : (st.goto p).phase = p := rfl

/-! ## Steps -/

/-- What a step of a session does. -/
inductive SessionSteps (i : Nat) (held : Option Nat) (st : Session) :
    SessionAction → Session → Option Nat → List SessionEntry → Prop
  | kept {b : SessionAction} {st' : Session} {entries : List SessionEntry} :
    b ≠ .cancelled → b ≠ .panicked → b ≠ .removed → st.phase ≠ .ended → st'.phase ≠ .ended →
    st'.server = st.server → isAnnounced st'.phase = isAnnounced st.phase →
    (st'.phase = .finishing ↔ st.phase = .finishing) → (mayHold st.phase = true → mayHold st'.phase = true) →
    entries.all isUnhealthy = true → SessionSteps i held st b st' held entries
  | inserted : st.phase = .inserting → SessionSteps i held st .inserted (st.goto .announcing) (some i) []
  | announced : st.phase = .announcing →
    SessionSteps i held st .announced (st.goto .selecting) held [.connected i]
  | removed : st.phase = .removing →
    SessionSteps i held st .removed (st.goto .publishing) none [.removed i held]
  | published : st.phase = .publishing →
    SessionSteps i held st .published (st.goto .finishing) held [.disconnected i]
  | returned : st.phase = .finishing → SessionSteps i held st .returned (st.goto .ended) held []
  | cancelled : st.phase.awaits = true → SessionSteps i held st .cancelled (st.goto .ended) held []
  | panicked : st.phase.runs = true → SessionSteps i held st .panicked (st.goto .ended) held []

/-- A move between two phases that are alike for the map and the log. -/
theorem kept_of_goto {p q : SessionPhase} (hp : st.phase = p) (hb : b ≠ .cancelled ∧ b ≠ .panicked ∧ b ≠ .removed)
    (hpe : p ≠ .ended) (hqe : q ≠ .ended) (ha : isAnnounced q = isAnnounced p) (hf : q = .finishing ↔ p = .finishing)
    (hh : mayHold p = true → mayHold q = true) (he : entries.all isUnhealthy = true) :
    SessionSteps i held st b (st.goto q) held entries := by
  subst hp
  exact .kept hb.1 hb.2.1 hb.2.2 hpe hqe rfl ha hf hh he

/-- The same of a step of the code. -/
theorem kept_of_ite {p q : SessionPhase} {c : Prop} [Decidable c]
    (h : (if c then some (st.goto q, held, entries) else none) = some (st', held', entries')) (hp : c → st.phase = p)
    (hb : b ≠ .cancelled ∧ b ≠ .panicked ∧ b ≠ .removed) (hpe : p ≠ .ended) (hqe : q ≠ .ended)
    (ha : isAnnounced q = isAnnounced p) (hf : q = .finishing ↔ p = .finishing)
    (hh : mayHold p = true → mayHold q = true) (he : entries.all isUnhealthy = true) :
    SessionSteps i held st b st' held' entries' := by
  obtain ⟨hc, heq⟩ := Option.ite_none_right_eq_some.mp h
  cases heq
  exact kept_of_goto (hp hc) hb hpe hqe ha hf hh he

theorem sessionSteps_of_step (h : st.step down i held b = some (st', held', entries)) :
    SessionSteps i held st b st' held' entries := by
  cases b with
  | opened result =>
    cases result with
    | ok u => exact kept_of_ite h id (by simp) (by decide) (by decide) rfl (by decide) (by decide) rfl
    | error e => exact kept_of_ite h id (by simp) (by decide) (by decide) rfl (by decide) (by decide) rfl
  | abandon =>
    obtain ⟨hp, heq⟩ := Option.ite_none_right_eq_some.mp h
    cases heq
    rcases hp with hp | hp
    · exact kept_of_goto hp (by simp) (by decide) (by decide) rfl (by decide) (by decide) rfl
    · exact kept_of_goto hp (by simp) (by decide) (by decide) rfl (by decide) (by decide) rfl
  | inserted =>
    obtain ⟨hp, heq⟩ := Option.ite_none_right_eq_some.mp h
    cases heq
    exact .inserted hp
  | announced =>
    obtain ⟨hp, heq⟩ := Option.ite_none_right_eq_some.mp h
    cases heq
    exact .announced hp
  | slept | closed => exact kept_of_ite h id (by simp) (by decide) (by decide) rfl (by decide) (by decide) rfl
  | answered result =>
    cases result with
    | ok u => exact kept_of_ite h id (by simp) (by decide) (by decide) rfl (by decide) (by decide) rfl
    | error e => exact kept_of_ite h id (by simp) (by decide) (by decide) rfl (by decide) (by decide) rfl
  | shutdown => exact kept_of_ite h And.left (by simp) (by decide) (by decide) rfl (by decide) (by decide) rfl
  | removed =>
    obtain ⟨hp, heq⟩ := Option.ite_none_right_eq_some.mp h
    cases heq
    exact .removed hp
  | published =>
    obtain ⟨hp, heq⟩ := Option.ite_none_right_eq_some.mp h
    cases heq
    exact .published hp
  | returned =>
    obtain ⟨hp, heq⟩ := Option.ite_none_right_eq_some.mp h
    cases heq
    exact .returned hp
  | abort =>
    obtain ⟨hp, heq⟩ := Option.ite_none_right_eq_some.mp h
    cases heq
    have hne : st.phase ≠ .ended := fun he => by simp [he, SessionPhase.runs] at hp
    exact .kept (by simp) (by simp) (by simp) hne hne rfl rfl Iff.rfl id rfl
  | cancelled =>
    obtain ⟨hp, heq⟩ := Option.ite_none_right_eq_some.mp h
    cases heq
    exact .cancelled hp.1
  | panicked =>
    obtain ⟨hp, heq⟩ := Option.ite_none_right_eq_some.mp h
    cases heq
    exact .panicked hp

/-- A step of the sessions is one of a session, or leaves them alone. -/
inductive SessionsSteps (s : Sessions) : SessionsAction → Sessions → Prop
  | signal : SessionsSteps s .signal { s with down := true }
  | start (server : String) :
    SessionsSteps s (.start server) { s with sessions := s.sessions ++ [⟨server, .opening, false⟩] }
  | session {i : Nat} {b : SessionAction} {st st' : Session} {held : Option Nat} {entries : List SessionEntry} :
    s.sessions[i]? = some st → SessionSteps i (s.connections st.server) st b st' held entries →
    SessionsSteps s (.session i b)
      { s with
        connections := Function.update s.connections st.server held
        sessions := s.sessions.set i st'
        log := s.log ++ entries }

theorem sessionsSteps_of_step (h : s.step a = some s') : SessionsSteps s a s' := by
  cases a with
  | signal =>
    cases h
    exact .signal
  | start server =>
    cases h
    exact .start server
  | session i b =>
    simp only [Sessions.step] at h
    split at h
    · rename_i st hst
      obtain ⟨⟨st', held, entries⟩, hs, rfl⟩ := Option.map_eq_some_iff.mp h
      exact .session hst (sessionSteps_of_step hs)
    · cases h

/-! ## What a step of a session changes -/

namespace SessionSteps

theorem server_eq (h : SessionSteps i held st b st' held' entries) : st'.server = st.server := by
  cases h <;> first | rfl | assumption

theorem phase_ne_ended (h : SessionSteps i held st b st' held' entries) : st.phase ≠ .ended := by
  cases h with
  | kept _ _ _ hne => exact hne
  | inserted hp | announced hp | removed hp | published hp | returned hp => simp [hp]
  | cancelled hp | panicked hp => exact fun he => by simp [he, SessionPhase.awaits, SessionPhase.runs] at hp

theorem count_unhealthy (h : entries.all isUnhealthy = true) (j : Nat) :
    entries.count (.connected j) = 0 ∧ entries.count (.disconnected j) = 0 := by
  rw [List.all_eq_true] at h
  refine ⟨List.count_eq_zero.mpr fun hm => ?_, List.count_eq_zero.mpr fun hm => ?_⟩
  · cases h _ hm
  · cases h _ hm

/-- The entries are about the session alone. -/
theorem count_other (h : SessionSteps i held st b st' held' entries) (hj : j ≠ i) :
    entries.count (.connected j) = 0 ∧ entries.count (.disconnected j) = 0 := by
  cases h with
  | kept _ _ _ _ _ _ _ _ _ he => exact count_unhealthy he j
  | inserted | returned | cancelled | panicked => exact ⟨rfl, rfl⟩
  | announced | removed | published => simp [Ne.symm hj]

/-- The map holds nothing new of the others. -/
theorem held_other (h : SessionSteps i held st b st' held' entries) (hj : j ≠ i) (hh : held' = some j) :
    held = some j := by
  cases h with
  | kept | announced | published | returned | cancelled | panicked => exact hh
  | inserted => exact absurd (Option.some.inj hh).symm hj
  | removed => cases hh

/-- It holds the session from its insertion up to its removal. -/
theorem mayHold_of_held (h : SessionSteps i held st b st' held' entries)
    (hold : held = some i → mayHold st.phase = true) (hh : held' = some i) : mayHold st'.phase = true := by
  cases h with
  | kept _ _ _ _ _ _ _ _ hm => exact hm (hold hh)
  | inserted | announced | returned | cancelled | panicked => rfl
  | removed => cases hh
  | published hp =>
    have hm := hold hh
    rw [hp] at hm
    cases hm

end SessionSteps

/-! ## The invariant -/

/-- How often an entry is in the log, for a session that has come this far. -/
structure Logged (log : List SessionEntry) (i : Nat) (p : SessionPhase) : Prop where
  connected : log.count (.connected i) = if isAnnounced p then 1 else 0
  disconnected : p ≠ .ended → log.count (.disconnected i) = if p = .finishing then 1 else 0

theorem logged_step {log : List SessionEntry} (hl : Logged log i st.phase)
    (h : SessionSteps i held st b st' held' entries) : Logged (log ++ entries) i st'.phase := by
  have hd := hl.disconnected h.phase_ne_ended
  have hc := hl.connected
  cases h with
  | kept _ _ _ _ _ _ ha hf _ he =>
    obtain ⟨h₁, h₂⟩ := SessionSteps.count_unhealthy he i
    refine ⟨?_, fun _ => ?_⟩
    · rw [List.count_append, h₁, hc, ha, Nat.add_zero]
    · rw [List.count_append, h₂, hd, Nat.add_zero]
      simp only [hf]
  | inserted hp | announced hp | removed hp | published hp =>
    rw [hp] at hc hd
    refine ⟨?_, fun _ => ?_⟩ <;> simp [List.count_append, hc, hd, isAnnounced, Session.goto]
  | returned hp =>
    rw [hp] at hc
    exact ⟨by simp [hc, isAnnounced, Session.goto], fun hne => absurd rfl hne⟩
  | cancelled hp | panicked hp =>
    refine ⟨?_, fun hne => absurd rfl hne⟩
    rw [List.append_nil, hc]
    cases hst : st.phase <;> simp_all [SessionPhase.awaits, SessionPhase.runs, isAnnounced, Session.goto]

structure SessionsInv (s : Sessions) : Prop where
  held : ∀ server i, s.connections server = some i →
    ∃ st, s.sessions[i]? = some st ∧ st.server = server ∧ mayHold st.phase = true
  logged : ∀ i st, s.sessions[i]? = some st → Logged s.log i st.phase
  fresh : ∀ i, s.sessions.length ≤ i → s.log.count (.connected i) = 0 ∧ s.log.count (.disconnected i) = 0

theorem sessionsInv_new : SessionsInv .new where
  held server i h := by cases h
  logged i st h := by cases h
  fresh i _ := ⟨rfl, rfl⟩

theorem sessionsInv_step (hi : SessionsInv s) (h : SessionsSteps s a s') : SessionsInv s' := by
  cases h with
  | signal => exact ⟨hi.held, hi.logged, hi.fresh⟩
  | start server =>
    refine ⟨fun server' i hc => ?_, fun i st hst => ?_, fun i hle => hi.fresh i ?_⟩
    · obtain ⟨st, hst, hserver⟩ := hi.held server' i hc
      exact ⟨st, by rw [List.getElem?_append_left (List.getElem?_eq_some_iff.mp hst).1, hst], hserver⟩
    · rcases getElem?_concat_cases hst with hst | ⟨rfl, rfl⟩
      · exact hi.logged i st hst
      · obtain ⟨hc, hd⟩ := hi.fresh _ (Nat.le_refl _)
        exact ⟨hc, fun _ => hd⟩
    · simp only [List.length_append, List.length_singleton] at hle
      omega
  | @session i b st st' held entries hst hs =>
    have hlt := (List.getElem?_eq_some_iff.mp hst).1
    refine ⟨fun server j hc => ?_, fun j stj hj => ?_, fun j hle => ?_⟩
    · by_cases hserver : server = st.server
      · subst hserver
        simp only [Function.update_self] at hc
        by_cases hj : j = i
        · subst hj
          refine ⟨st', by rw [List.getElem?_set_self hlt], hs.server_eq, hs.mayHold_of_held (fun hh => ?_) hc⟩
          obtain ⟨st₀, hst₀, -, hm⟩ := hi.held _ _ hh
          rw [hst] at hst₀
          cases hst₀
          exact hm
        · obtain ⟨stj, hstj, hrest⟩ := hi.held _ _ (hs.held_other hj hc)
          exact ⟨stj, by rw [List.getElem?_set_ne (Ne.symm hj), hstj], hrest⟩
      · simp only [Function.update_of_ne hserver] at hc
        obtain ⟨stj, hstj, hserver', hm⟩ := hi.held _ _ hc
        have hj : j ≠ i := by
          intro he
          rw [he, hst] at hstj
          cases hstj
          exact hserver hserver'.symm
        exact ⟨stj, by rw [List.getElem?_set_ne (Ne.symm hj), hstj], hserver', hm⟩
    · rcases getElem?_set_cases hst hj with ⟨rfl, rfl⟩ | ⟨hji, hj⟩
      · exact logged_step (hi.logged _ _ hst) hs
      · obtain ⟨hc, hd⟩ := hi.logged j stj hj
        obtain ⟨h₁, h₂⟩ := hs.count_other hji
        exact ⟨by rw [List.count_append, h₁, hc, Nat.add_zero],
          fun hne => by rw [List.count_append, h₂, hd hne, Nat.add_zero]⟩
    · rw [List.length_set] at hle
      obtain ⟨hc, hd⟩ := hi.fresh j hle
      obtain ⟨h₁, h₂⟩ := hs.count_other (j := j) (by omega)
      exact ⟨by rw [List.count_append, h₁, hc], by rw [List.count_append, h₂, hd]⟩

/-! ## Balance -/

/-- The sessions have ended that had, if this one has not. -/
theorem balanced_set (hb : Balanced s) (hst : s.sessions[i]? = some st)
    (hs : SessionSteps i (s.connections st.server) st b st' held entries) (hne : st'.phase ≠ .ended)
    (hown : ∀ j k, .removed j (some k) ∈ entries → k = j) :
    Balanced
      { s with
        connections := Function.update s.connections st.server held
        sessions := s.sessions.set i st'
        log := s.log ++ entries } := by
  have other : ∀ {j stj}, (s.sessions.set i st')[j]? = some stj → stj.phase = .ended →
      j ≠ i ∧ s.sessions[j]? = some stj := by
    intro j stj hj he
    rcases getElem?_set_cases hst hj with ⟨rfl, rfl⟩ | hother
    · exact absurd he hne
    · exact hother
  refine ⟨fun j stj hj he server hc => ?_, fun j stj hj he => ?_, fun j k hm => ?_⟩
  · obtain ⟨hji, hstj⟩ := other hj he
    by_cases hserver : server = st.server
    · subst hserver
      simp only [Function.update_self] at hc
      exact hb.out j stj hstj he _ (hs.held_other hji hc)
    · simp only [Function.update_of_ne hserver] at hc
      exact hb.out j stj hstj he _ hc
  · obtain ⟨hji, hstj⟩ := other hj he
    obtain ⟨hc, hd⟩ := hb.once j stj hstj he
    obtain ⟨h₁, h₂⟩ := hs.count_other hji
    exact ⟨by rw [List.count_append, h₁, hc], by rw [List.count_append, h₂, hd]⟩
  · rcases List.mem_append.mp hm with hm | hm
    · exact hb.own j k hm
    · exact hown j k hm

/-- A task that ends has cleaned up if it is behind its last publish. -/
theorem balanced_ended (hi : SessionsInv s) (hb : Balanced s) (hst : s.sessions[i]? = some st)
    (hne : st.phase ≠ .ended) :
    Balanced
      { s with
        connections := Function.update s.connections st.server (s.connections st.server)
        sessions := s.sessions.set i (st.goto .ended)
        log := s.log ++ [] } ↔ st.phase = .finishing := by
  have hlt := (List.getElem?_eq_some_iff.mp hst).1
  obtain ⟨hc, hd⟩ := hi.logged i st hst
  rw [Function.update_eq_self, List.append_nil]
  constructor
  · intro hbal
    have hone := (hbal.once i _ (List.getElem?_set_self hlt) rfl).2
    have hcount := hd hne
    by_cases hp : st.phase = .finishing
    · exact hp
    · rw [if_neg hp] at hcount
      simp only at hone
      omega
  · intro hp
    refine ⟨fun j stj hj he server hheld => ?_, fun j stj hj he => ?_, hb.own⟩
    · rcases getElem?_set_cases hst hj with ⟨rfl, -⟩ | ⟨-, hj⟩
      · obtain ⟨st₀, hst₀, -, hm⟩ := hi.held server _ hheld
        rw [hst] at hst₀
        cases hst₀
        rw [hp] at hm
        cases hm
      · exact hb.out j stj hj he server hheld
    · rcases getElem?_set_cases hst hj with ⟨rfl, -⟩ | ⟨-, hj⟩
      · rw [hp] at hc hd
        exact ⟨hc, hd (by decide)⟩
      · exact hb.once j stj hj he

theorem balanced_step (hi : SessionsInv s) (hb : Balanced s) (h : SessionsSteps s a s') :
    Balanced s' ↔ CleansUp s a := by
  cases h with
  | signal => exact iff_of_true ⟨hb.out, hb.once, hb.own⟩ trivial
  | start server =>
    refine iff_of_true ⟨fun i st hst he => ?_, fun i st hst he => ?_, hb.own⟩ trivial
    · rcases getElem?_concat_cases hst with hst | ⟨-, rfl⟩
      · exact hb.out i st hst he
      · cases he
    · rcases getElem?_concat_cases hst with hst | ⟨-, rfl⟩
      · exact hb.once i st hst he
      · cases he
  | @session i b st st' held entries hst hs =>
    have hne := hs.phase_ne_ended
    cases hs with
    | kept hcancelled hpanicked hremoved _ hne' hserver ha hf hm he =>
      refine iff_of_true (balanced_set hb hst (.kept hcancelled hpanicked hremoved hne hne' hserver ha hf hm he) hne' ?_) ?_
      · intro j k hr
        cases List.all_eq_true.mp he _ hr
      · cases b <;> trivial
    | inserted hp => exact iff_of_true (balanced_set hb hst (.inserted hp) (by simp) (by simp)) trivial
    | announced hp => exact iff_of_true (balanced_set hb hst (.announced hp) (by simp) (by simp)) trivial
    | published hp => exact iff_of_true (balanced_set hb hst (.published hp) (by simp) (by simp)) trivial
    | removed hp =>
      constructor
      · intro hbal st₀ hst₀
        rw [hst] at hst₀
        cases hst₀
        cases hheld : s.connections st.server with
        | none => exact .inl rfl
        | some k =>
          have hk := hbal.own i k (by simp [hheld])
          exact .inr (by rw [hk])
      · intro hclean
        refine balanced_set hb hst (.removed hp) (by simp) fun j k hm => ?_
        obtain ⟨rfl, hheld⟩ := SessionEntry.removed.inj (List.mem_singleton.mp hm)
        rcases hclean st hst with hnone | hown
        · rw [hnone] at hheld
          cases hheld
        · rw [hown] at hheld
          exact Option.some.inj hheld
    | returned hp => exact iff_of_true ((balanced_ended hi hb hst hne).mpr hp) trivial
    | cancelled hp =>
      refine iff_of_false (fun hbal => ?_) id
      rw [balanced_ended hi hb hst hne] at hbal
      rw [hbal] at hp
      cases hp
    | panicked hp =>
      rw [balanced_ended hi hb hst hne]
      constructor
      · intro hf st₀ hst₀
        rw [hst] at hst₀
        cases hst₀
        exact hf
      · intro hclean
        exact hclean st hst

/-- In every run of any number of sessions, each task that has ended has its
connection out of the map and its end published once, and no clean-up has taken
the connection of another session, exactly if no step of the run drops a task,
lets one panic before its last publish, or removes another's connection. -/
theorem balanced_iff {as : List SessionsAction} (h : exec Sessions.step .new as = some s) :
    AlongStates Sessions.step Balanced .new as ↔ AlongSteps Sessions.step CleansUp .new as := by
  refine alongStates_iff_alongSteps (fun hi hs => ?_) (fun hi hb hs => ?_) sessionsInv_new ?_ h
  · exact sessionsInv_step hi (sessionsSteps_of_step hs)
  · exact balanced_step hi hb (sessionsSteps_of_step hs)
  · exact ⟨fun _ _ h => (by cases h), fun _ _ h => (by cases h), fun _ _ h => (by cases h)⟩

/-! ## The abort on shutdown -/

/-- The start of a session of server `fs`, up to its task. -/
def fsStarts : List SessionsAction :=
  [.start "fs", .session 0 (.opened (.ok ())), .session 0 .inserted, .session 0 .announced]

/-- The watcher's abort takes the task out of its select. -/
theorem aborted_in_select :
    ¬ ∀ as s, exec Sessions.step .new as = some s → Balanced s := by
  intro h
  have hbal := h (fsStarts ++ [.signal, .session 0 .abort, .session 0 .cancelled]) _ rfl
  exact absurd (hbal.once 0 _ rfl rfl).2 (by decide)

/-- A failed ping, with the clean-up run to its end. -/
theorem failed_ping_balanced :
    AlongStates Sessions.step Balanced .new
      (fsStarts ++ [.session 0 .slept, .session 0 (.answered (.error "closed")), .session 0 .closed,
        .session 0 .removed, .session 0 .published, .session 0 .returned]) :=
  (balanced_iff rfl).mpr (by decide)

end WalaStack.Proof.Mcp
