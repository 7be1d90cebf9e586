import Mathlib.Data.List.Perm.Subperm
import BoothOperator.Access.Logins
import BoothOperator.Lib.Digest

/-! A login state is used once, and by the browser it was given to. The entry of
a state is taken out in the turn that checks the cookie, so that of all the
callbacks with the state one goes on, and states are generated once. -/
namespace BoothOperator.Access

variable {signValue : String → String}

/-- What a ticket attests: the cookie verified and was that of the state in the
query, a login had answered with it, and the entry was young enough. -/
structure Ticket.Valid (signValue : String → String) (world : LoginWorld) (ticket : Ticket) :
    Prop where
  cookie : LoginWorld.readLoginTxCookie signValue world.production ticket.cookieHeader =
    .ok (some ticket.state)
  query : ticket.query.state = some ticket.state
  answered : ticket.state ∈ world.cookies
  issued : (ticket.state, ticket.pending) ∈ world.issued
  recent : ticket.matchedAt ≤ ticket.pending.createdAt + pendingLoginTtlMs

theorem Ticket.Valid.mono {world after : LoginWorld} {ticket : Ticket}
    (valid : ticket.Valid signValue world) (production : after.production = world.production)
    (cookies : world.cookies ⊆ after.cookies) (issued : world.issued ⊆ after.issued) :
    ticket.Valid signValue after where
  cookie := by
    rw [production]
    exact valid.cookie
  query := valid.query
  answered := cookies valid.answered
  issued := issued valid.issued
  recent := valid.recent

namespace LoginWorld

variable {world after : LoginWorld} {state text : String} {pending : PendingLogin}

structure Sound (signValue : String → String) (world : LoginWorld) : Prop where
  pending : ∀ state pending, world.pendingLogins.get state = some pending →
    (state, pending) ∈ world.issued ∧ state ∉ world.exchanges.map Ticket.state
  distinct : (world.issued.map Prod.fst).Nodup
  sessionIds : ∀ id ∈ world.sessionIds, id ∉ world.issued.map Prod.fst
  valid : ∀ ticket ∈ world.exchanges, ticket.Valid signValue world
  once : (world.exchanges.map Ticket.state).Nodup
  callbacks : ∀ callback ∈ world.callbacks, callback.ticket ∈ world.exchanges
  sessions : ∀ ticket ∈ world.sessions, ticket ∈ world.exchanges
  /-- A ticket is in flight or has its session, and once. -/
  flight : (world.callbacks.map (fun callback => callback.ticket.state) ++
    world.sessions.map Ticket.state).Nodup

theorem unused_eq_true : world.unused text = true ↔
    text ∉ world.issued.map Prod.fst ∧ text ∉ world.sessionIds := by
  simp [unused]

theorem eq_of_truthy {value : Option String} (read : truthy value = some text) :
    value = some text := (Option.filter_eq_some_iff.mp read).1

theorem get_prunePendingLogins {now : Int} {pendingLogins : OrderedMap String PendingLogin} :
    (prunePendingLogins now pendingLogins).get state = some pending ↔
      pendingLogins.get state = some pending ∧ now ≤ pending.createdAt + pendingLoginTtlMs := by
  unfold prunePendingLogins
  simp only [OrderedMap.get_filter, decide_eq_true_eq, Int.not_lt]
  constructor
  · rintro ⟨read, young⟩
    exact ⟨read, by omega⟩
  · rintro ⟨read, young⟩
    exact ⟨read, by omega⟩

/-- A callback that goes on has a cookie of the state in its query and takes the
entry of that state out; any other at most drops entries. -/
theorem callback_cases (world : LoginWorld) (cookieHeader : Option String) (query : CallbackQuery) :
    (∃ pendingLogins, world.callback signValue cookieHeader query = { world with pendingLogins } ∧
      ∀ state pending, pendingLogins.get state = some pending →
        world.pendingLogins.get state = some pending) ∨
    ∃ state pending,
      readLoginTxCookie signValue world.production cookieHeader = .ok (some state) ∧
      query.state = some state ∧ world.pendingLogins.get state = some pending ∧
      world.now ≤ pending.createdAt + pendingLoginTtlMs ∧
      world.callback signValue cookieHeader query = { world with
        pendingLogins := (prunePendingLogins world.now world.pendingLogins).delete state
        callbacks := world.callbacks ++
          [{ ticket := { cookieHeader, query, state, pending, matchedAt := world.now }
             stage := .exchangeCode }]
        exchanges := world.exchanges ++
          [{ cookieHeader, query, state, pending, matchedAt := world.now }] } := by
  have refused : ∃ pendingLogins, world = { world with pendingLogins } ∧
      ∀ state pending, pendingLogins.get state = some pending →
        world.pendingLogins.get state = some pending :=
    ⟨world.pendingLogins, rfl, fun _ _ read => read⟩
  unfold callback
  by_cases failed : (truthy query.error).isSome = true
  · rw [if_pos failed]
    exact Or.inl refused
  · rw [if_neg failed]
    split
    · rename_i code state hasCode hasState
      split
      · exact Or.inl refused
      · rename_i txState cookie
        by_cases mismatched : (truthy txState).isNone = true ∨ txState ≠ some state
        · rw [if_pos mismatched]
          exact Or.inl refused
        · rw [if_neg mismatched]
          have same : txState = some state := by
            by_contra apart
            exact mismatched (Or.inr apart)
          subst same
          simp only
          split
          · refine Or.inl ⟨_, rfl, ?_⟩
            intro other pending read
            exact (get_prunePendingLogins.mp (OrderedMap.get_delete_eq_some.mp read).2).1
          · rename_i pending read
            obtain ⟨there, young⟩ := get_prunePendingLogins.mp read
            exact Or.inr ⟨state, pending, cookie, eq_of_truthy hasState, there, young, rfl⟩
    · exact Or.inl refused

/-! ## Steps -/

/-- A step that takes no entry out, and adds neither a ticket nor a state. -/
theorem Sound.of_pendingLogins (sound : world.Sound signValue)
    {pendingLogins : OrderedMap String PendingLogin}
    (kept : ∀ state pending, pendingLogins.get state = some pending →
      world.pendingLogins.get state = some pending) :
    { world with pendingLogins := pendingLogins }.Sound signValue :=
  { sound with
    pending := fun state pending read => sound.pending state pending (kept state pending read)
    valid := fun ticket member => (sound.valid ticket member).mono rfl
      (List.Subset.refl _) (List.Subset.refl _) }

/-- Callbacks that go on, or are over without a session. -/
theorem Sound.of_callbacks (sound : world.Sound signValue) {callbacks : List Callback}
    (kept : (callbacks.map Callback.ticket).Subperm (world.callbacks.map Callback.ticket)) :
    { world with callbacks := callbacks }.Sound signValue := by
  refine { sound with valid := ?_, callbacks := ?_, flight := ?_ }
  · intro ticket member
    exact (sound.valid ticket member).mono rfl (List.Subset.refl _) (List.Subset.refl _)
  · intro callback member
    obtain ⟨old, there, same⟩ :=
      List.mem_map.mp (kept.subset (List.mem_map_of_mem member))
    exact same ▸ sound.callbacks old there
  · obtain ⟨middle, perm, sub⟩ := kept
    have states : (middle.map Ticket.state).Perm
        (callbacks.map fun callback => callback.ticket.state) := by
      simpa [List.map_map, Function.comp_def] using perm.map Ticket.state
    have fewer : (middle.map Ticket.state).Sublist
        (world.callbacks.map fun callback => callback.ticket.state) := by
      simpa [List.map_map, Function.comp_def] using sub.map Ticket.state
    apply (states.append_right _).nodup_iff.mp
    exact sound.flight.sublist (fewer.append (List.Sublist.refl _))

theorem Sound.login (sound : world.Sound signValue) {nonce codeVerifier returnTo : String}
    (fresh : world.unused state = true) :
    (world.login state nonce codeVerifier returnTo).Sound signValue := by
  obtain ⟨unissued, unstored⟩ := unused_eq_true.mp fresh
  have states : (world.login state nonce codeVerifier returnTo).issued.map Prod.fst =
      world.issued.map Prod.fst ++ [state] := by
    simp [LoginWorld.login]
  have grown : world.issued ⊆ (world.login state nonce codeVerifier returnTo).issued :=
    List.subset_append_left _ _
  refine { sound with pending := ?_, distinct := ?_, sessionIds := ?_, valid := ?_ }
  · intro other pending read
    rcases OrderedMap.get_set_eq_some.mp read with ⟨rfl, rfl⟩ | ⟨-, kept⟩
    · refine ⟨List.mem_append_right _ List.mem_cons_self, ?_⟩
      intro used
      obtain ⟨ticket, member, rfl⟩ := List.mem_map.mp used
      apply unissued
      exact List.mem_map.mpr ⟨_, (sound.valid ticket member).issued, rfl⟩
    · obtain ⟨issued, unused⟩ := sound.pending other pending (get_prunePendingLogins.mp kept).1
      exact ⟨grown issued, unused⟩
  · rw [states]
    apply sound.distinct.append (List.nodup_singleton _)
    exact List.disjoint_singleton.mpr unissued
  · intro id member
    rw [states, List.mem_append, List.mem_singleton]
    rintro (old | rfl)
    · exact sound.sessionIds id member old
    · exact unstored member
  · intro ticket member
    exact (sound.valid ticket member).mono rfl (List.Subset.refl _) grown

theorem Sound.callback (sound : world.Sound signValue) {cookieHeader : Option String}
    {query : CallbackQuery} (unforged : world.Unforged signValue (.callback cookieHeader query)) :
    (world.callback signValue cookieHeader query).Sound signValue := by
  obtain ⟨pendingLogins, refused, kept⟩ | ⟨state, pending, cookie, asked, there, young, taken⟩ :=
    @callback_cases signValue world cookieHeader query
  · rw [refused]
    exact sound.of_pendingLogins kept
  · obtain ⟨issued, unused⟩ := sound.pending state pending there
    have answered : state ∈ world.cookies := by
      have signed : state ∈ world.signed := by simpa [Unforged, cookie] using unforged
      rcases List.mem_append.mp signed with own | other
      · exact own
      · exact absurd (List.mem_map.mpr ⟨_, issued, rfl⟩) (sound.sessionIds state other)
    rw [taken]
    refine { sound with
      pending := ?_, valid := ?_, once := ?_, callbacks := ?_, sessions := ?_, flight := ?_ }
    · intro other entry read
      obtain ⟨apart, read⟩ := OrderedMap.get_delete_eq_some.mp read
      obtain ⟨issued, unused⟩ := sound.pending other entry (get_prunePendingLogins.mp read).1
      refine ⟨issued, ?_⟩
      simpa [apart] using unused
    · intro ticket member
      rcases List.mem_append.mp member with old | new
      · exact (sound.valid ticket old).mono rfl (List.Subset.refl _) (List.Subset.refl _)
      · rw [List.mem_singleton] at new
        subst new
        exact ⟨cookie, asked, answered, issued, young⟩
    · rw [List.map_append]
      apply sound.once.append (List.nodup_singleton _)
      exact List.disjoint_singleton.mpr unused
    · intro callback member
      rcases List.mem_append.mp member with old | new
      · exact List.mem_append_left _ (sound.callbacks callback old)
      · rw [List.mem_singleton] at new
        subst new
        exact List.mem_append_right _ List.mem_cons_self
    · intro ticket member
      exact List.mem_append_left _ (sound.sessions ticket member)
    · have absent : state ∉ world.callbacks.map (fun callback => callback.ticket.state) ++
          world.sessions.map Ticket.state := by
        rw [List.mem_append]
        rintro (flying | stored)
        · obtain ⟨callback, member, rfl⟩ := List.mem_map.mp flying
          exact unused (List.mem_map_of_mem (sound.callbacks callback member))
        · obtain ⟨ticket, member, rfl⟩ := List.mem_map.mp stored
          exact unused (List.mem_map_of_mem (sound.sessions ticket member))
      rw [List.map_append, List.append_assoc]
      apply (List.perm_middle.nodup_iff).mpr
      exact List.nodup_cons.mpr ⟨absent, sound.flight⟩

theorem perm_of_getElem? {callback : Callback} {index : Nat}
    (there : world.callbacks[index]? = some callback) :
    (callback :: world.callbacks.eraseIdx index).Perm world.callbacks := by
  obtain ⟨inside, rfl⟩ := List.getElem?_eq_some_iff.mp there
  exact List.getElem_cons_eraseIdx_perm inside

theorem Sound.proceed (sound : world.Sound signValue) {index : Nat} {sessionId : String}
    (taken : world.proceed index sessionId = some after) : after.Sound signValue := by
  obtain ⟨callback, there, taken⟩ := Option.bind_eq_some_iff.mp taken
  have perm := perm_of_getElem? there
  have next (stage : CallbackStage) :
      ((world.callbacks.eraseIdx index ++ [{ callback with stage }]).map Callback.ticket).Subperm
        (world.callbacks.map Callback.ticket) := by
    rw [List.map_append]
    exact (List.perm_append_singleton _ _).subperm.trans (perm.map Callback.ticket).subperm
  cases stage : callback.stage with
  | exchangeCode =>
    simp only [stage] at taken
    cases taken
    exact sound.of_callbacks (next _)
  | authorizeAndUpsertOperator =>
    simp only [stage] at taken
    cases taken
    exact sound.of_callbacks (next _)
  | createSession =>
    simp only [stage] at taken
    split at taken
    · rename_i fresh
      obtain ⟨unissued, -⟩ := unused_eq_true.mp fresh
      cases taken
      have own : callback.ticket ∈ world.exchanges :=
        sound.callbacks callback (List.mem_of_getElem? there)
      refine { sound with sessionIds := ?_, valid := ?_, callbacks := ?_, sessions := ?_, flight := ?_ }
      · intro id member
        rcases List.mem_append.mp member with old | new
        · exact sound.sessionIds id old
        · rw [List.mem_singleton] at new
          exact new ▸ unissued
      · intro ticket member
        exact (sound.valid ticket member).mono rfl (List.Subset.refl _) (List.Subset.refl _)
      · intro other member
        exact sound.callbacks other ((List.eraseIdx_sublist _ _).subset member)
      · intro ticket member
        rcases List.mem_append.mp member with old | new
        · exact sound.sessions ticket old
        · rw [List.mem_singleton] at new
          exact new ▸ own
      · have moved : ((world.callbacks.eraseIdx index).map (fun other => other.ticket.state) ++
            (world.sessions ++ [callback.ticket]).map Ticket.state).Perm
              (world.callbacks.map (fun other => other.ticket.state) ++
                world.sessions.map Ticket.state) := by
          rw [List.map_append, ← List.append_assoc]
          refine (List.perm_append_singleton _ _).trans ?_
          exact (perm.map fun other => other.ticket.state).append_right _
        exact moved.nodup_iff.mpr sound.flight
    · cases taken

theorem Sound.step (sound : world.Sound signValue) {action : Action}
    (unforged : world.Unforged signValue action)
    (taken : world.step signValue action = some after) : after.Sound signValue := by
  cases action with
  | login state nonce codeVerifier returnTo =>
    simp only [LoginWorld.step] at taken
    split at taken
    · rename_i fresh
      cases taken
      exact sound.login fresh
    · cases taken
  | answerLogin index ready =>
    obtain ⟨state, -, rfl⟩ := Option.map_eq_some_iff.mp taken
    refine { sound with valid := ?_ }
    intro ticket member
    have grown : world.cookies ⊆ if ready then world.cookies ++ [state] else world.cookies := by
      cases ready with
      | true => exact List.subset_append_left _ _
      | false => exact List.Subset.refl _
    exact (sound.valid ticket member).mono rfl grown (List.Subset.refl _)
  | callback cookieHeader query =>
    cases taken
    exact sound.callback unforged
  | proceed index sessionId => exact sound.proceed taken
  | fail index =>
    obtain ⟨callback, -, rfl⟩ := Option.map_eq_some_iff.mp taken
    apply sound.of_callbacks
    exact ((List.eraseIdx_sublist _ _).map Callback.ticket).subperm
  | prune =>
    cases taken
    exact sound.of_pendingLogins fun _ _ read => (get_prunePendingLogins.mp read).1
  | tick ms =>
    cases taken
    refine { sound with valid := ?_ }
    intro ticket member
    exact (sound.valid ticket member).mono rfl (List.Subset.refl _) (List.Subset.refl _)

theorem Fresh.sound (fresh : world.Fresh) : world.Sound signValue := by
  rw [fresh]
  constructor <;> simp

/-- In every interleaving of logins and callbacks whose cookies are not forged, a
session comes from a callback whose transaction cookie verified, was that of the
state in the query, had been given out by a login, and matched an entry of that
state that was young enough; and a state leads to one exchange and one session
at most. -/
theorem login_state_single_use
    (reached : Run.ReachableUnder (step signValue) Fresh (Unforged signValue) world) :
    (∀ ticket ∈ world.sessions, ticket.Valid signValue world ∧ ticket ∈ world.exchanges) ∧
    (world.issued.map Prod.fst).Nodup ∧
    (world.exchanges.map Ticket.state).Nodup ∧ (world.sessions.map Ticket.state).Nodup := by
  have sound : world.Sound signValue :=
    reached.invariant (fun _ => Fresh.sound) fun _ _ _ kept unforged => kept.step unforged
  refine ⟨?_, sound.distinct, sound.once, (List.nodup_append.mp sound.flight).2.1⟩
  intro ticket member
  have exchanged := sound.sessions ticket member
  exact ⟨sound.valid ticket exchanged, exchanged⟩

/-! ## A run -/

def sessionSecret : String → String :=
  Digest.digest [("Zp3kQ1", "htxlF0BHCnqlMn_YGWzuwN4EeTMpsycLSaPpd_15KI0")]

/-- A login, its callback, and the same callback again while the first is in flight. -/
def replayed : List Action :=
  let cookieHeader := some "theme=dark; __Host-booth_login_tx=Zp3kQ1.htxlF0BHCnqlMn_YGWzuwN4EeTMpsycLSaPpd_15KI0"
  let query : CallbackQuery := { code := some "code", state := some "Zp3kQ1" }
  [.login "Zp3kQ1" "nonce" "verifier" "/messages", .answerLogin 0 true, .tick 30000,
    .callback cookieHeader query, .callback cookieHeader query,
    .proceed 0 "", .proceed 0 "", .proceed 0 "session", .callback cookieHeader query]

def afterReplayed : LoginWorld := (Run.exec (step sessionSecret) {} replayed).getD {}

theorem login_state_single_use_replayed :
    afterReplayed.sessions.map Ticket.state = ["Zp3kQ1"] ∧
      (∀ ticket ∈ afterReplayed.sessions,
        ticket.Valid sessionSecret afterReplayed ∧ ticket ∈ afterReplayed.exchanges) ∧
      (afterReplayed.issued.map Prod.fst).Nodup ∧
      (afterReplayed.exchanges.map Ticket.state).Nodup ∧
      (afterReplayed.sessions.map Ticket.state).Nodup := by
  have fresh : Run.ReachableUnder (step sessionSecret) Fresh (Unforged sessionSecret) {} :=
    .initial rfl
  have unforged : Run.Along (step sessionSecret)
      (fun world action _ => world.Unforged sessionSecret action) {} replayed := by
    decide +kernel
  have ran : Run.exec (step sessionSecret) {} replayed = some afterReplayed := by decide +kernel
  exact ⟨by decide +kernel, login_state_single_use (fresh.exec unforged ran)⟩

end LoginWorld

end BoothOperator.Access
