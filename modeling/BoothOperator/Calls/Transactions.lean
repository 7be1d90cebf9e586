import BoothOperator.Calls.Requests
import BoothOperator.Events.Derivation

/-! What a request that holds an installation has behind it: the installation is the
only open one, and whatever the request has changed or is going to create belongs to
it, or refers to a session that is filed elsewhere for good. -/
namespace BoothOperator.Calls

open BoothOperator.Schema
open BoothOperator.Installations
open BoothOperator.Events

def eraIds (db : Db) : List Id := db.installations.map (·.id)

/-- The sessions by id, each with its installation. -/
def filed (db : Db) : List (String × Option Id) :=
  db.callSessions.map fun row => (row.id, row.installationId)

/-! ## Changes -/

section Changes

variable {db : Db} {changes : List Change} {change : Change}

/-- The stored sessions that a change writes. -/
def Change.rewrites : Change → List String
  | .patched init => [init.id]
  | .reconciled ids _ => ids
  | _ => []

theorem filed_apply : filed (change.apply db) =
    filed db ++ change.session?.toList.map fun row => (row.id, row.installationId) := by
  cases change with
  | patched init =>
    have kept : filed (Change.apply db (.patched init)) = filed db :=
      Table.map_updateMany (fun row : CallSession => (row.id, row.installationId))
        (by intro row; rfl) db.callSessions
    rw [kept]
    exact (List.append_nil _).symm
  | reconciled ids idleTime =>
    have kept : filed (Change.apply db (.reconciled ids idleTime)) = filed db :=
      Table.map_updateMany (fun row : CallSession => (row.id, row.installationId))
        (by intro row; rfl) db.callSessions
    rw [kept]
    exact (List.append_nil _).symm
  | created session => simp [filed, Change.apply, Change.session?]
  | _ => simp [filed, Change.apply, Change.session?]

theorem events_apply : (change.apply db).boothEvents = db.boothEvents ++ change.event?.toList := by
  cases change <;> simp [Change.apply, Change.event?]

theorem installations_apply : (change.apply db).installations = db.installations ∧
    (change.apply db).nextId = db.nextId := by
  cases change <;> exact ⟨rfl, rfl⟩

theorem view_nil : view [] db = db := rfl

theorem view_cons : view (change :: changes) db = view changes (change.apply db) := rfl

theorem filed_view : filed (view changes db) =
    filed db ++ (changes.filterMap Change.session?).map fun row => (row.id, row.installationId) := by
  induction changes generalizing db with
  | nil => simp [view_nil]
  | cons change rest ih =>
    rw [view_cons, ih, filed_apply, List.append_assoc, ← List.map_append]
    cases shown : change.session? <;> simp [shown]

theorem events_view : (view changes db).boothEvents =
    db.boothEvents ++ changes.filterMap Change.event? := by
  induction changes generalizing db with
  | nil => simp [view_nil]
  | cons change rest ih =>
    rw [view_cons, ih, events_apply, List.append_assoc]
    cases shown : change.event? <;> simp [shown]

theorem installations_view : (view changes db).installations = db.installations ∧
    (view changes db).nextId = db.nextId := by
  induction changes generalizing db with
  | nil => exact ⟨rfl, rfl⟩
  | cons change rest ih =>
    obtain ⟨same, nextId⟩ := @ih (change.apply db)
    exact ⟨same.trans installations_apply.1, nextId.trans installations_apply.2⟩

theorem openEras_view : EraLock.openEras (view changes db) = EraLock.openEras db := by
  unfold EraLock.openEras
  rw [installations_view.1]

theorem lock_view {era : Id} :
    (view changes db).lockInstallationForWrite era = db.lockInstallationForWrite era := by
  unfold Db.lockInstallationForWrite Db.installation
  rw [installations_view.1]

theorem mem_filed {id : String} {era : Option Id} :
    (id, era) ∈ filed db ↔ ∃ row ∈ db.callSessions, row.id = id ∧ row.installationId = era := by
  simp [filed]

theorem ids_filed : (filed db).map (·.1) = db.callSessions.map (·.id) := by
  simp [filed]

/-- A session that no change writes is there as it was. -/
theorem callSession_view {id : String} {session : CallSession}
    (found : db.callSession id = some session) (spared : ∀ change ∈ changes, id ∉ change.rewrites) :
    (view changes db).callSession id = some session := by
  induction changes generalizing db with
  | nil => exact found
  | cons change rest ih =>
    refine ih ?_ fun other member => spared other (List.mem_cons_of_mem _ member)
    have named : session.id = id := (Table.findUnique_mem found).2
    have own := spared change List.mem_cons_self
    unfold Db.callSession at found ⊢
    cases change with
    | patched init =>
      have other : session.id ≠ init.id := by
        intro same
        exact own (List.mem_singleton.mpr (named.symm.trans same))
      simp only [Change.apply]
      rw [Table.findUnique_updateMany (by intro row; rfl), found]
      simp [other]
    | reconciled ids idleTime =>
      have other : session.id ∉ ids := named ▸ own
      simp only [Change.apply]
      rw [Table.findUnique_updateMany (by intro row; rfl), found]
      simp [other]
    | created row =>
      simp only [Change.apply]
      rw [Table.findUnique_append_single, found]
      rfl
    | _ => exact found

end Changes

/-! ## Requests -/

/-- The entries and the events of a batch that are still to be written. -/
def Phase.inits : Phase → List SessionInit
  | .patch _ inits => inits
  | .upsert _ init inits => init :: inits
  | _ => []

def Phase.events : Phase → List EventInput
  | .insert _ events => events
  | _ => []

/-- The installation of a batch that has read its sessions again under the lock. -/
def Phase.reread : Phase → Option Id
  | .patch era _ | .upsert era _ _ | .insert era _ => some era
  | _ => none

/-- What a booth sends for an outcome is not what a rollover writes. -/
def Reported (init : SessionInit) : Prop := init.outcome.join ≠ some .installationEnded

/-- What an open transaction has changed under the installation it holds. -/
def Change.Sound (db : Db) (created : List CallSession) (era : Id) : Change → Prop
  | .patched init => Reported init ∧ ∀ other, (init.id, other) ∈ filed db → other = some era
  | .created session => session.installationId = some era ∧ session.outcome ≠ some .installationEnded
  | .inserted event => ∀ id, event.sessionId = some id →
      (id, event.installationId) ∈ filed db ∨
        ∃ session ∈ created, session.id = id ∧ session.installationId = event.installationId
  | .reconciled ids _ => ∀ id ∈ ids, ∀ other, (id, other) ∈ filed db → other = some era
  | _ => True

structure Request.Sound (db : Db) (request : Request) : Prop where
  /-- A session read before is where it was, as long as its installation is there. -/
  known : ∀ row ∈ request.known.sessions, ∃ era, row.installationId = some era ∧ era < db.nextId ∧
    (era ∈ eraIds db → (row.id, some era) ∈ filed db)
  held : ∀ era, request.phase.era = some era → EraLock.openEras db = [era]
  unheld : request.phase.era = none → request.changes = []
  fresh : ∀ era, request.phase = .findLate era → request.changes = []
  /-- A session that was not there under the lock can only be in the held installation. -/
  late : ∀ era, request.phase.reread = some era → ∀ id ∈ referenced request.body.events,
    request.known.session id = none → ∀ other, (id, other) ∈ filed db → other = some era
  inits : ∀ init ∈ request.phase.inits, Reported init
  events : ∀ event ∈ request.phase.events, event ∈ request.body.events
  changes : ∀ era, request.phase.era = some era → ∀ change ∈ request.changes,
    change.Sound db request.created era

def Purge.Sound (db : Db) (self : Purge) : Prop :=
  match self.phase with
  | .deleteEvents | .deleteRows _ =>
    self.installationId < db.nextId ∧ self.installationId ∉ EraLock.openEras db
  | _ => True

/-- The sessions that open transactions have created. -/
def claims (requests : List Request) : List String := requests.flatMap fun request =>
  request.created.map (·.id)

structure Sound (world : World) : Prop where
  tabled : EraLock.Tabled world.db
  sessions : (world.db.callSessions.map (·.id) ++ claims world.requests).Nodup
  filed : ∀ pair ∈ Calls.filed world.db, ∃ era ∈ eraIds world.db, pair.2 = some era
  together : ∀ event ∈ world.db.boothEvents, ∀ id, event.sessionId = some id →
    (id, event.installationId) ∈ Calls.filed world.db
  stamped : ∀ session ∈ world.db.callSessions, session.outcome = some .installationEnded →
    ∀ era, session.installationId = some era → era ∉ EraLock.openEras world.db
  requests : ∀ request ∈ world.requests, request.Sound world.db
  purges : ∀ purge ∈ world.purges, purge.Sound world.db

section Requests

variable {db after : Db} {self : Request}

theorem view_sound {era : Id} (sound : self.Sound db) (holds : self.phase.era = some era) :
    ∀ pair ∈ filed (view self.changes db), pair ∈ filed db ∨ pair.2 = some era := by
  intro pair member
  rw [filed_view] at member
  rcases List.mem_append.mp member with old | new
  · exact .inl old
  · obtain ⟨row, created, rfl⟩ := List.mem_map.mp new
    obtain ⟨change, inside, shown⟩ := List.mem_filterMap.mp created
    have own := sound.changes era holds change inside
    cases change with
    | created session =>
      cases shown
      exact .inr own.1
    | _ => cases shown

theorem mem_created {row : CallSession} : row ∈ self.created ↔ .created row ∈ self.changes := by
  unfold Request.created
  rw [List.mem_filterMap]
  constructor
  · rintro ⟨change, inside, shown⟩
    cases change with
    | created session =>
      cases shown
      exact inside
    | _ => cases shown
  · exact fun inside => ⟨_, inside, rfl⟩

theorem mem_inserted {row : BoothEvent} : row ∈ self.inserted ↔ .inserted row ∈ self.changes := by
  unfold Request.inserted
  rw [List.mem_filterMap]
  constructor
  · rintro ⟨change, inside, shown⟩
    cases change with
    | inserted event =>
      cases shown
      exact inside
    | _ => cases shown
  · exact fun inside => ⟨_, inside, rfl⟩

/-- What others may do to the database while a request stands where it is. -/
structure Still (db after : Db) (request : Request) : Prop where
  nextId : db.nextId ≤ after.nextId
  /-- No installation comes back, and one that stays keeps its sessions. -/
  eras : ∀ era, era < db.nextId → era ∈ eraIds after →
    era ∈ eraIds db ∧ ∀ id, (id, some era) ∈ filed db → (id, some era) ∈ filed after
  open_ : ∀ era, request.phase.era = some era → EraLock.openEras db = [era] →
    EraLock.openEras after = [era]
  filed : ∀ era, request.phase.era = some era → EraLock.openEras db = [era] →
    ∀ pair ∈ filed after, pair ∈ filed db ∨ pair.2 = some era
  /-- The sessions that an uncommitted row refers to cannot be deleted. -/
  referred : ∀ row ∈ request.inserted, ∀ id, row.sessionId = some id →
    (id, row.installationId) ∈ Calls.filed db → (id, row.installationId) ∈ Calls.filed after

theorem Request.Sound.still (sound : self.Sound db) (still : Still db after self) :
    self.Sound after := by
  have only : ∀ {era}, self.phase.era = some era → ∀ {id},
      (∀ other, (id, other) ∈ filed db → other = some era) →
        ∀ other, (id, other) ∈ filed after → other = some era := by
    intro era holds id before other member
    rcases still.filed era holds (sound.held era holds) _ member with old | new
    · exact before other old
    · exact new
  refine ⟨fun row member => ?_, fun era holds => still.open_ era holds (sound.held era holds),
    sound.unheld, sound.fresh, fun era rereads id named unknown => ?_, sound.inits, sound.events,
    fun era holds change inside => ?_⟩
  · obtain ⟨era, its, used, there⟩ := sound.known row member
    refine ⟨era, its, Nat.lt_of_lt_of_le used still.nextId, fun stays => ?_⟩
    obtain ⟨before, kept⟩ := still.eras era used stays
    exact kept _ (there before)
  · have holds : self.phase.era = some era := by
      revert rereads
      cases self.phase <;> simp [Phase.reread, Phase.era]
    exact only holds (sound.late era rereads id named unknown)
  · have own := sound.changes era holds change inside
    cases change with
    | patched init => exact ⟨own.1, only holds own.2⟩
    | reconciled ids idleTime => exact fun id member => only holds (own id member)
    | inserted event =>
      intro id named
      rcases own id named with stored | created
      · exact .inl (still.referred event (mem_inserted.mpr inside) id named stored)
      · exact .inr created
    | _ => exact own

/-! ### One statement -/

theorem Request.Sound.goto {phase : Phase} (sound : self.Sound db) (same : phase.era = self.phase.era)
    (begun : ∀ era, phase = .findLate era → self.changes = [])
    (late : ∀ era, phase.reread = some era → self.phase.reread = some era)
    (inits : ∀ init ∈ phase.inits, init ∈ self.phase.inits)
    (events : ∀ event ∈ phase.events, event ∈ self.body.events) : (self.goto phase).Sound db :=
  ⟨sound.known, fun era holds => sound.held era (same ▸ holds), fun none => sound.unheld (same ▸ none),
    begun, fun era rereads => sound.late era (late era rereads),
    fun init member => sound.inits init (inits init member), events,
    fun era holds => sound.changes era (same ▸ holds)⟩

/-- A request that is over. -/
theorem Request.Sound.settle {phase : Phase} (sound : self.Sound db) (free : phase.era = none)
    (unread : phase.reread = none) (noInits : phase.inits = []) (noEvents : phase.events = []) :
    ({ self with phase, changes := [] } : Request).Sound db := by
  refine ⟨sound.known, fun era holds => (nomatch free.symm.trans holds), fun _ => rfl, fun _ _ => rfl,
    fun era rereads => (nomatch unread.symm.trans rereads), ?_, ?_, fun _ _ _ inside => nomatch inside⟩
  · simp [noInits]
  · simp [noEvents]

theorem Request.Sound.refuse (sound : self.Sound db) : self.refuse.Sound db :=
  sound.settle rfl rfl rfl rfl

theorem created_write {change : Change} {phase : Phase} :
    (self.write change phase).created = self.created ++ change.session?.toList := by
  cases shown : change.session? <;> simp [Request.created, Request.write, shown]

theorem Change.Sound.mono {change : Change} {era : Id} {created more : List CallSession}
    (sound : change.Sound db created era) (grown : created ⊆ more) : change.Sound db more era := by
  cases change with
  | inserted event =>
    intro id named
    rcases sound id named with stored | ⟨session, inside, its⟩
    · exact .inl stored
    · exact .inr ⟨session, grown inside, its⟩
  | _ => exact sound

theorem Request.Sound.write {change : Change} {phase : Phase} {era : Id} (sound : self.Sound db)
    (holds : self.phase.era = some era) (same : phase.era = some era)
    (goes : ∀ era, phase ≠ .findLate era)
    (late : ∀ era, phase.reread = some era → self.phase.reread = some era)
    (inits : ∀ init ∈ phase.inits, init ∈ self.phase.inits)
    (events : ∀ event ∈ phase.events, event ∈ self.body.events)
    (new : change.Sound db self.created era) : (self.write change phase).Sound db := by
  refine ⟨sound.known, fun other holds' => sound.held other ?_, fun none => ?_,
    fun other begun => absurd begun (goes other), fun other rereads => sound.late other (late other rereads),
    fun init member => sound.inits init (inits init member), events, fun other holds' other' inside => ?_⟩
  · exact holds.trans (same.symm.trans holds')
  · exact nomatch same.symm.trans none
  · have grown : self.created ⊆ (self.write change phase).created := by
      rw [created_write]
      exact List.subset_append_left _ _
    cases same.symm.trans holds'
    rcases List.mem_append.mp inside with old | last
    · exact (sound.changes era holds other' old).mono grown
    · cases List.mem_singleton.mp last
      exact new.mono grown

/-- The tables that requests read, as `Sound` has them. -/
structure Tables (db : Db) (others : List Request) (request : Request) : Prop where
  tabled : EraLock.Tabled db
  sessions : (db.callSessions.map (·.id) ++ (request.created.map (·.id) ++ claims others)).Nodup
  filed : ∀ pair ∈ Calls.filed db, ∃ era ∈ eraIds db, pair.2 = some era

/-- What one statement makes of a request, and of what it has created. -/
structure Advanced (db : Db) (others : List Request) (request next : Request) : Prop where
  sound : next.Sound db
  created : next.created.Sublist request.created ∨ ∃ row, next.created = request.created ++ [row] ∧
    row.id ∉ db.callSessions.map (·.id) ∧ row.id ∉ request.created.map (·.id) ∧ row.id ∉ claims others

section Statements

variable {others : List Request} {columns : ColumnTypes} {now : Time} {next : Request} {era : Id}

theorem Advanced.goto {phase : Phase} (sound : (self.goto phase).Sound db) :
    Advanced db others self (self.goto phase) := ⟨sound, .inl (List.Sublist.refl _)⟩

theorem Advanced.refuse (sound : self.Sound db) : Advanced db others self self.refuse :=
  ⟨sound.refuse, .inl (List.nil_sublist _)⟩

theorem Advanced.write {change : Change} {phase : Phase} (sound : (self.write change phase).Sound db)
    (plain : change.session? = none) : Advanced db others self (self.write change phase) := by
  refine ⟨sound, .inl ?_⟩
  rw [created_write, plain]
  exact (List.append_nil _).symm ▸ List.Sublist.refl _

theorem lock_held (tabled : EraLock.Tabled db) (locked : db.lockInstallationForWrite era = true) :
    EraLock.openEras db = [era] :=
  EraLock.openEras_eq tabled.one ((EraLock.lock_iff tabled.ids).mp locked)

/-- A session that was read, in an installation that is there. -/
theorem known_of_stored (tables : Tables db others self) {row : CallSession}
    (stored : row ∈ db.callSessions) : ∃ era, row.installationId = some era ∧ era < db.nextId ∧
      (era ∈ eraIds db → (row.id, some era) ∈ filed db) := by
  have pair : (row.id, row.installationId) ∈ filed db := mem_filed.mpr ⟨row, stored, rfl, rfl⟩
  obtain ⟨era, there, its⟩ := tables.filed _ pair
  obtain ⟨installation, inside, named⟩ := List.mem_map.mp there
  exact ⟨era, its, named ▸ tables.tabled.used installation inside, fun _ => its ▸ pair⟩

theorem advanceArrived_sound (sound : self.Sound db) (phase : self.phase = .arrived) :
    Advanced db others self (advanceArrived (view self.changes db) self) := by
  have plain : ∀ phase : Phase, phase.era = none → phase.reread = none → phase.inits = [] →
      phase.events = [] → Advanced db others self (self.goto phase) := by
    intro next free unread noInits noEvents
    refine .goto (sound.goto ?_ ?_ ?_ ?_ ?_)
    · rw [free, phase]
      rfl
    · rintro era rfl
      cases free
    · intro era rereads
      cases unread.symm.trans rereads
    · simp [noInits]
    · simp [noEvents]
  unfold advanceArrived
  split
  · split
    · exact plain _ rfl rfl rfl rfl
    split
    · exact .refuse sound
    split
    · exact .refuse sound
    · exact plain _ rfl rfl rfl rfl
  · exact plain _ rfl rfl rfl rfl

theorem holding_locked {writer writer' : EraLock.Writer}
    (taken : EraLock.advance db writer = some (after, writer')) (holds : writer'.phase = .holding era) :
    db.lockInstallationForWrite era = true := by
  unfold EraLock.advance at taken
  split at taken
  · split at taken
    · cases taken
      cases holds
    · cases taken
      cases holds
  · split at taken
    · rename_i locked
      cases taken
      cases holds
      exact locked
    · cases taken
      cases holds
  · split at taken
    · cases taken
      cases holds
    · cases taken
      cases holds
  · split at taken
    · cases taken
      cases holds
    · cases taken
      cases holds
  · cases taken

theorem advanceLock_sound (tables : Tables db others self) (sound : self.Sound db)
    {preferred : Option Id} {writer : EraLock.Phase} (phase : self.phase = .lock preferred writer)
    (taken : advanceLock (view self.changes db) self preferred writer = some next) :
    Advanced db others self next := by
  have free : self.changes = [] := sound.unheld (by rw [phase]; rfl)
  obtain ⟨⟨db', writer'⟩, moved, rfl⟩ := Option.map_eq_some_iff.mp taken
  simp only
  split
  · rename_i era holds
    have held : EraLock.openEras db = [era] := by
      have locked := holding_locked moved holds
      rw [lock_view] at locked
      exact lock_held tables.tabled locked
    refine .goto ⟨sound.known, fun other holds => ?_, fun _ => free, fun _ _ => free, fun other rereads => ?_,
      fun init member => ?_, fun event member => ?_, fun other _ change inside => ?_⟩
    · cases body : self.body <;>
      · simp only [Request.goto, body, Body.first, Phase.era, Option.some.injEq] at holds
        exact holds ▸ held
    · cases body : self.body <;> simp [Request.goto, body, Body.first, Phase.reread] at rereads
    · cases body : self.body <;> simp [Request.goto, body, Body.first, Phase.inits] at member
    · cases body : self.body <;> simp [Request.goto, body, Body.first, Phase.events] at member
    · rw [Request.goto, free] at inside
      cases inside
  · exact .refuse sound
  · refine .goto (sound.goto ?_ ?_ ?_ ?_ ?_)
    · rw [phase]
      rfl
    · exact fun _ begun => nomatch begun
    · exact fun _ rereads => nomatch rereads
    · exact fun _ member => nomatch member
    · exact fun _ member => nomatch member

theorem findSessions_sound (tables : Tables db others self) (sound : self.Sound db) {active : Id}
    (phase : self.phase = .findSessions active) :
    Advanced db others self (findSessions (view self.changes db) self active) := by
  have free : self.changes = [] := sound.unheld (by rw [phase]; rfl)
  refine ⟨⟨fun row member => ?_, fun _ holds => (nomatch holds), fun _ => free, fun _ _ => free,
    fun _ rereads => (nomatch rereads), fun _ member => (nomatch member),
    fun _ member => (nomatch member), fun _ holds => nomatch holds⟩, .inl (List.Sublist.refl _)⟩
  rw [free] at member
  exact known_of_stored tables (List.mem_filter.mp member).1

theorem findEndedEras_sound (sound : self.Sound db) {active : Id}
    (phase : self.phase = .findEndedEras active) :
    Advanced db others self (findEndedEras (view self.changes db) self active) := by
  have free : self.changes = [] := sound.unheld (by rw [phase]; rfl)
  exact ⟨⟨sound.known, fun _ holds => (nomatch holds), fun _ => free, fun _ _ => free,
    fun _ rereads => (nomatch rereads), fun _ member => (nomatch member),
    fun _ member => (nomatch member), fun _ holds => nomatch holds⟩, .inl (List.Sublist.refl _)⟩

theorem reported_setInit {inits : List SessionInit} {next : SessionInit} (new : Reported next)
    (old : ∀ init ∈ inits, Reported init) : ∀ init ∈ setInit inits next, Reported init := by
  intro init member
  unfold setInit Table.upsert at member
  split at member
  · obtain ⟨before, inside, rfl⟩ := Table.mem_updateMany.mp member
    split
    · have own := old before inside
      unfold Reported SessionInit.spread at *
      cases given : next.outcome with
      | none => simpa using own
      | some outcome => simpa [given] using new
    · exact old before inside
  · rcases List.mem_append.mp member with inside | last
    · exact old init inside
    · cases List.mem_singleton.mp last
      exact new

theorem reported_collect {inits : List SessionInit} (event : EventInput)
    (old : ∀ init ∈ inits, Reported init) : ∀ init ∈ collect inits event, Reported init := by
  have start : ∀ next, callStartedData event = some next → Reported next := by
    intro next
    unfold callStartedData
    split
    · rintro ⟨⟩
      nofun
    · nofun
  have finish : ∀ next, callEndedData event = some next → Reported next := by
    intro next
    unfold callEndedData
    split
    · rintro ⟨⟩
      exact reportedOutcome_ne event
    · nofun
  have begun : ∀ init ∈ (callStartedData event).elim inits (setInit inits), Reported init := by
    cases started : callStartedData event with
    | none => exact old
    | some next => exact reported_setInit (start next started) old
  unfold collect
  cases ended : callEndedData event with
  | none => exact begun
  | some next => exact reported_setInit (finish next ended) begun

theorem reported_inits (events : List EventInput) : ∀ init ∈ sessionInits events, Reported init := by
  have collected : ∀ inits : List SessionInit, (∀ init ∈ inits, Reported init) →
      ∀ init ∈ events.foldl collect inits, Reported init := by
    induction events with
    | nil => exact fun _ old => old
    | cons event rest ih =>
      intro inits old
      rw [List.foldl_cons]
      exact ih _ (reported_collect event old)
  exact collected [] fun _ member => nomatch member

theorem findLate_sound (tables : Tables db others self) (sound : self.Sound db)
    (phase : self.phase = .findLate era) :
    Advanced db others self (findLate (view self.changes db) self era) := by
  have free : self.changes = [] := sound.fresh era phase
  have held : EraLock.openEras db = [era] := sound.held era (by rw [phase]; rfl)
  refine ⟨⟨fun row member => ?_, fun other holds => ?_, fun none => (nomatch none), fun _ _ => free,
    fun other rereads id named unknown => ?_, fun init member => reported_inits _ init member,
    fun _ member => (nomatch member), fun _ _ change inside => ?_⟩, .inl (List.Sublist.refl _)⟩
  · rcases List.mem_append.mp member with old | late
    · exact sound.known row old
    · rw [free] at late
      exact known_of_stored tables (List.mem_filter.mp late).1
  · cases holds
    exact held
  · -- the session is in no row that the second look-up had to choose from
    intro filedUnder stored
    obtain ⟨row, inside, rfl, -⟩ := mem_filed.mp stored
    have missing := Table.findUnique_eq_none.mp unknown
    have unread : self.known.session row.id = none := Table.findUnique_eq_none.mpr fun other there =>
      missing other (List.mem_append_left _ there)
    refine absurd rfl (missing row (List.mem_append_right _ (List.mem_filter.mpr ⟨?_, ?_⟩)))
    · rw [free]
      exact inside
    · exact decide_eq_true ⟨named, unread⟩
  · simp only [findLate, free] at inside
    cases inside

/-- The rows of one session, as a transaction sees them, are one row. -/
theorem one_era (tables : Tables db others self) {row : CallSession} {other : Option Id}
    (stored : (row.id, other) ∈ filed db) (inside : row ∈ (view self.changes db).callSessions) :
    other = row.installationId := by
  have distinct : ((filed (view self.changes db)).map (·.1)).Nodup := by
    rw [filed_view, List.map_append, ids_filed, List.map_map]
    exact tables.sessions.sublist ((List.Sublist.refl _).append (List.sublist_append_left _ _))
  have one : (row.id, other) ∈ filed (view self.changes db) := by
    rw [filed_view]
    exact List.mem_append_left _ stored
  have two : (row.id, row.installationId) ∈ filed (view self.changes db) :=
    mem_filed.mpr ⟨row, inside, rfl, rfl⟩
  exact congrArg Prod.snd (Table.eq_of_key_eq distinct one two rfl)

theorem patchSession_sound (tables : Tables db others self) (sound : self.Sound db)
    {inits : List SessionInit} (phase : self.phase = .patch era inits)
    (taken : patchSession others columns (view self.changes db) self era inits = some next) :
    Advanced db others self next := by
  have holds : self.phase.era = some era := by
    rw [phase]
    rfl
  have rereads : self.phase.reread = some era := by
    rw [phase]
    rfl
  have held := sound.held era holds
  cases inits with
  | nil =>
    cases taken
    exact .goto (sound.goto holds.symm (fun _ begun => nomatch begun) (fun _ same => rereads.trans same)
      (fun _ member => nomatch member) (fun _ member => member))
  | cons init inits =>
    have rest : ∀ other ∈ inits, other ∈ self.phase.inits := by
      intro other member
      rw [phase]
      exact List.mem_cons_of_mem _ member
    have reported : Reported init := by
      refine sound.inits init ?_
      rw [phase]
      exact List.mem_cons_self
    simp only [patchSession] at taken
    split at taken
    · cases taken
      exact .goto (sound.goto holds.symm (fun _ begun => nomatch begun)
        (fun _ same => rereads.trans same) rest (fun _ member => nomatch member))
    split at taken
    · cases taken
      exact .refuse sound
    split at taken
    · rename_i found
      split at taken
      · cases taken
      · cases taken
        obtain ⟨row, inside, matched⟩ := List.any_eq_true.mp found
        obtain ⟨named, -, running⟩ := of_decide_eq_true matched
        refine .write (sound.write holds rfl (fun _ begun => nomatch begun)
          (fun _ same => rereads.trans same) rest (fun _ member => nomatch member)
          ⟨reported, fun other stored => ?_⟩) rfl
        -- one row has the id, and its installation is open
        have same := one_era tables (named ▸ stored) inside
        obtain ⟨owner, -, its⟩ := tables.filed _ stored
        replace its : other = some owner := its
        rw [← same, its] at running
        have alone := lock_held tables.tabled (lock_view.symm.trans running)
        rw [held] at alone
        exact its.trans (congrArg some (List.singleton_inj.mp alone).symm)
    · cases taken
      refine .goto (sound.goto holds.symm (fun _ begun => nomatch begun)
        (fun _ same => rereads.trans same) (fun other member => ?_) (fun _ member => nomatch member))
      rw [phase]
      exact member

/-- The installation of a session that is not there is the held one. -/
theorem eraFor_missing (sound : self.Sound db) {id : String}
    (missing : ∀ other, (id, other) ∉ filed db) (stays : self.known.eraFor era (some id) ∈ eraIds db) :
    self.known.eraFor era (some id) = era := by
  unfold Known.eraFor at stays ⊢
  cases known : self.known.session id with
  | none => simp [known]
  | some row =>
    obtain ⟨inside, rfl⟩ := Table.findUnique_mem known
    obtain ⟨owner, its, -, there⟩ := sound.known row inside
    simp only [Option.bind_some, known, its, Option.getD_some] at stays
    exact absurd (there stays) (missing _)

theorem mem_eraIds {id : Id} (there : db.installation id ≠ none) : id ∈ eraIds db := by
  obtain ⟨row, found⟩ := Option.ne_none_iff_exists'.mp there
  obtain ⟨member, rfl⟩ := Table.findUnique_mem found
  exact List.mem_map_of_mem member

theorem upsertSession_sound (sound : self.Sound db) {init : SessionInit} {inits : List SessionInit}
    (phase : self.phase = .upsert era init inits)
    (taken : upsertSession others now (view self.changes db) self era init inits = some next) :
    Advanced db others self next := by
  have holds : self.phase.era = some era := by
    rw [phase]
    rfl
  have rereads : self.phase.reread = some era := by
    rw [phase]
    rfl
  have rest : ∀ other ∈ inits, other ∈ self.phase.inits := by
    intro other member
    rw [phase]
    exact List.mem_cons_of_mem _ member
  simp only [upsertSession] at taken
  split at taken
  · cases taken
    exact .goto (sound.goto holds.symm (fun _ begun => nomatch begun)
      (fun _ same => rereads.trans same) rest (fun _ member => nomatch member))
  rename_i absent
  split at taken
  · cases taken
  rename_i unlocked
  split at taken
  · cases taken
    exact .refuse sound
  rename_i there
  cases taken
  have missing : ∀ other, (init.id, other) ∉ filed (view self.changes db) := by
    intro other stored
    obtain ⟨row, inside, named, -⟩ := mem_filed.mp stored
    have none := Table.findUnique_eq_none.mp (Option.not_isSome_iff_eq_none.mp absent)
    exact none row inside named
  rw [filed_view] at missing
  have stays : self.known.eraFor era (some init.id) ∈ eraIds db := by
    have there' := mem_eraIds fun none => there (Option.isNone_iff_eq_none.mpr none)
    rwa [eraIds, installations_view.1] at there'
  have owner := eraFor_missing sound
    (fun other stored => missing other (List.mem_append_left _ stored)) stays
  have reported : Reported init := by
    refine sound.inits init ?_
    rw [phase]
    exact List.mem_cons_self
  refine ⟨sound.write holds rfl (fun _ begun => nomatch begun)
    (fun _ same => rereads.trans same) rest (fun _ member => nomatch member)
    ⟨congrArg some owner, reported⟩, .inr ⟨_, created_write, fun stored => ?_, fun own => ?_,
      fun claimed => unlocked ?_⟩⟩
  · obtain ⟨row, inside, named⟩ := List.mem_map.mp stored
    exact missing _ (List.mem_append_left _ (mem_filed.mpr ⟨row, inside, named, rfl⟩))
  · obtain ⟨row, inside, named⟩ := List.mem_map.mp own
    refine missing row.installationId (List.mem_append_right _ (List.mem_map.mpr ⟨row, inside, ?_⟩))
    exact Prod.ext named rfl
  · obtain ⟨request, inside, its⟩ := List.mem_flatMap.mp claimed
    obtain ⟨row, created, named⟩ := List.mem_map.mp its
    refine List.any_eq_true.mpr ⟨request, inside, List.any_eq_true.mpr
      ⟨_, mem_created.mp created, decide_eq_true ?_⟩⟩
    exact List.mem_singleton.mpr named.symm

theorem insertEvents_sound (sound : self.Sound db) {events : List EventInput}
    (phase : self.phase = .insert era events)
    (taken : insertEvents others columns now (view self.changes db) self era events = some next) :
    Advanced db others self next := by
  have holds : self.phase.era = some era := by
    rw [phase]
    rfl
  have rereads : self.phase.reread = some era := by
    rw [phase]
    rfl
  cases events with
  | nil =>
    cases taken
    exact .goto (sound.goto holds.symm (fun _ begun => nomatch begun) (fun _ same => nomatch same)
      (fun _ member => nomatch member) (fun _ member => nomatch member))
  | cons event events =>
    have todo : ∀ other ∈ event :: events, other ∈ self.body.events := by
      intro other member
      refine sound.events other ?_
      rw [phase]
      exact member
    have rest := fun other member => todo other (List.mem_cons_of_mem _ member)
    simp only [insertEvents] at taken
    split at taken
    · cases taken
      exact .refuse sound
    split at taken
    · cases taken
      exact .goto (sound.goto holds.symm (fun _ begun => nomatch begun)
        (fun _ same => rereads.trans same) (fun _ member => nomatch member) rest)
    split at taken
    · cases taken
    split at taken
    · cases taken
      exact .refuse sound
    · rename_i refers
      cases taken
      refine .write (sound.write holds rfl (fun _ begun => nomatch begun)
        (fun _ same => rereads.trans same) (fun _ member => nomatch member) rest
        fun id named => ?_) rfl
      replace named : event.sessionId = some id := named
      obtain ⟨session, there⟩ := of_decide_eq_true (Bool.not_eq_false _ ▸ refers)
      replace session : ((view self.changes db).callSession id).isSome = true := by
        simpa [buildRow, named] using session
      replace there : (view self.changes db).installation (self.known.eraFor era (some id)) ≠ none := by
        simpa [buildRow, named, Option.isSome_iff_ne_none] using there
      have stays : self.known.eraFor era (some id) ∈ eraIds db := by
        have there' := mem_eraIds there
        rwa [eraIds, installations_view.1] at there'
      have owner : (buildRow now self.known era event (view self.changes db).nextId).installationId =
          some (self.known.eraFor era (some id)) := congrArg some (congrArg _ named)
      rw [owner]
      cases known : self.known.session id with
      | some row =>
        obtain ⟨inside, rfl⟩ := Table.findUnique_mem known
        obtain ⟨other, its, -, kept⟩ := sound.known row inside
        have same : self.known.eraFor era (some row.id) = other := by
          simp [Known.eraFor, known, its]
        rw [same] at stays ⊢
        exact .inl (kept stays)
      | none =>
        have same : self.known.eraFor era (some id) = era := by simp [Known.eraFor, known]
        rw [same]
        have referred : id ∈ referenced self.body.events :=
          List.mem_filterMap.mpr ⟨event, todo event List.mem_cons_self, named⟩
        obtain ⟨row, found⟩ := Option.isSome_iff_exists.mp session
        obtain ⟨inside, rfl⟩ := Table.findUnique_mem found
        have pair : (row.id, row.installationId) ∈ filed (view self.changes db) :=
          mem_filed.mpr ⟨row, inside, rfl, rfl⟩
        rw [filed_view] at pair
        rcases List.mem_append.mp pair with old | new
        · have its := sound.late era rereads row.id referred known _ old
          exact .inl (its ▸ old)
        · obtain ⟨created, inside, same⟩ := List.mem_map.mp new
          obtain ⟨named, -⟩ := Prod.ext_iff.mp same
          have its := sound.changes era holds _ (mem_created.mp inside)
          exact .inr ⟨created, inside, named, its.1⟩

theorem recordStatus_sound (sound : self.Sound db) {run : Option BoothStatusSnapshot}
    {update : Status.StatusUpdate} {reportedAt : Time} (phase : self.phase = .record era run)
    (taken : recordStatus others (view self.changes db) self era update reportedAt run = some next) :
    Advanced db others self next := by
  have holds : self.phase.era = some era := by
    rw [phase]
    rfl
  have writes : ∀ (change : Change) (idleTime : Time), change.session? = none →
      change.Sound db self.created era →
        Advanced db others self (self.write change
          (if update.state = .idle then .reconcile era idleTime else .commit era)) := by
    intro change idleTime plain new
    refine .write (sound.write holds ?_ ?_ ?_ ?_ ?_ new) plain
    · split <;> rfl
    · intro other
      split <;> nofun
    · intro other
      split <;> nofun
    · intro init
      split <;> nofun
    · intro event
      split <;> nofun
  unfold recordStatus at taken
  split at taken
  · split at taken
    · cases taken
    split at taken
    · cases taken
      exact writes _ _ rfl trivial
    · cases taken
      exact .refuse sound
  · cases taken
    exact writes _ _ rfl trivial

theorem reconcile_sound (tables : Tables db others self) (sound : self.Sound db) {idleTime : Time}
    (phase : self.phase = .reconcile era idleTime)
    (taken : reconcileStaleSessions others (view self.changes db) self era idleTime = some next) :
    Advanced db others self next := by
  have holds : self.phase.era = some era := by
    rw [phase]
    rfl
  simp only [reconcileStaleSessions] at taken
  split at taken
  · cases taken
  · cases taken
    refine .write (sound.write holds rfl (fun _ begun => nomatch begun) (fun _ same => nomatch same)
      (fun _ member => nomatch member) (fun _ member => nomatch member)
      fun id member other stored => ?_) rfl
    obtain ⟨row, matched, rfl⟩ := List.mem_map.mp member
    obtain ⟨inside, closes⟩ := List.mem_filter.mp matched
    obtain ⟨-, -, its⟩ := of_decide_eq_true closes
    exact (one_era tables stored inside).trans its

theorem Request.Sound.advance (tables : Tables db others self) (sound : self.Sound db)
    (taken : Calls.advance others columns now (view self.changes db) self = some next) :
    Advanced db others self next := by
  have reads : ∀ {era : Id} {phase : Phase}, self.phase.era = some era → phase.era = some era →
      (∀ era, phase ≠ .findLate era) → phase.reread = none → phase.inits = [] → phase.events = [] →
        Advanced db others self (self.goto phase) := by
    intro era phase holds same goes unread noInits noEvents
    refine .goto (sound.goto (same.trans holds.symm) (fun era begun => absurd begun (goes era)) ?_ ?_ ?_)
    · intro other rereads
      cases unread.symm.trans rereads
    · simp [noInits]
    · simp [noEvents]
  unfold Calls.advance at taken
  split at taken
  case h_1 _ phase =>
    cases taken
    exact advanceArrived_sound sound phase
  case h_2 active _ phase =>
    cases taken
    exact findSessions_sound tables sound phase
  case h_3 active _ phase =>
    cases taken
    exact findEndedEras_sound sound phase
  case h_4 preferred writer _ phase => exact advanceLock_sound tables sound phase taken
  case h_5 era _ phase =>
    cases taken
    exact findLate_sound tables sound phase
  case h_6 era inits _ phase => exact patchSession_sound tables sound phase taken
  case h_7 era init inits _ phase => exact upsertSession_sound sound phase taken
  case h_8 era events _ phase => exact insertEvents_sound sound phase taken
  case h_9 era update reportedAt phase _ =>
    cases taken
    exact reads (congrArg Phase.era phase) rfl nofun rfl rfl rfl
  case h_10 era enclosing update reportedAt phase _ =>
    cases taken
    exact reads (congrArg Phase.era phase) rfl nofun rfl rfl rfl
  case h_11 era run update reportedAt phase _ => exact recordStatus_sound sound phase taken
  case h_12 era idleTime _ phase => exact reconcile_sound tables sound phase taken
  case h_13 => cases taken

end Statements

end Requests

end BoothOperator.Calls
