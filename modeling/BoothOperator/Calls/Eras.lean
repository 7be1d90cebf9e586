import Mathlib.Data.List.Perm.Basic
import BoothOperator.Calls.Transactions
import BoothOperator.Events.Acceptance

/-! A call and its events are filed under one installation, and once that has ended
no batch and no report changes the call. -/
namespace BoothOperator.Calls

open BoothOperator.Schema
open BoothOperator.Installations
open BoothOperator.Events
open BoothOperator.Run

/-! ## What a call is owed -/

/-- Every stored event of a call has the installation of its call. -/
def Together (db : Db) : Prop :=
  ∀ event ∈ db.boothEvents, ∀ id, event.sessionId = some id →
    ∃ session, db.callSession id = some session ∧ session.installationId = event.installationId

/-- A rollover has stamped the session, or its installation has ended. -/
def ClosedOut (db : Db) (session : CallSession) : Prop :=
  session.outcome = some .installationEnded ∨
    ∃ era ∈ db.installations, session.installationId = some era.id ∧ era.endedAt ≠ none

/-- The sessions that are closed out stay closed out, and as they are. -/
def Terminal (before after : Db) : Prop :=
  ∀ id session, before.callSession id = some session → ClosedOut before session →
    after.callSession id = some session ∧ ClosedOut after session

/-- Nobody is at work, and every row is filed under an installation that is there. -/
structure Initial (world : World) : Prop where
  tabled : EraLock.Tabled world.db
  sessions : (world.db.callSessions.map (·.id)).Nodup
  filed : ∀ session ∈ world.db.callSessions, ∃ era ∈ eraIds world.db,
    session.installationId = some era
  together : Together world.db
  /-- What a rollover has stamped is not in the open installation. -/
  stamped : ∀ session ∈ world.db.callSessions, session.outcome = some .installationEnded →
    ∀ era, session.installationId = some era → era ∉ EraLock.openEras world.db
  requests : world.requests = []
  purges : world.purges = []

/-! ## Steps -/

section Steps

variable {columns : ColumnTypes} {world after : World} {self : Request}

theorem claims_eraseIdx {requests : List Request} {place : Nat} (found : requests[place]? = some self) :
    (claims requests).Perm (self.created.map (·.id) ++ claims (requests.eraseIdx place)) := by
  obtain ⟨inside, rfl⟩ := List.getElem?_eq_some_iff.mp found
  exact (List.getElem_cons_eraseIdx_perm inside).symm.flatMap_right _

theorem claims_set {requests : List Request} {place : Nat} (found : requests[place]? = some self)
    (next : Request) : (claims (requests.set place next)).Perm
      (next.created.map (·.id) ++ claims (requests.eraseIdx place)) := by
  obtain ⟨inside, rfl⟩ := List.getElem?_eq_some_iff.mp found
  exact (List.set_perm_cons_eraseIdx inside next).flatMap_right _

theorem Sound.tables (sound : Sound world) {place : Nat} (found : world.requests[place]? = some self) :
    Tables world.db (world.requests.eraseIdx place) self :=
  ⟨sound.tabled, ((claims_eraseIdx found).append_left _).nodup sound.sessions, sound.filed⟩

theorem still_drawn {db : Db} : Still db { db with nextId := db.nextId + 1 } self :=
  ⟨Nat.le_succ _, fun _ _ there => ⟨there, fun _ stored => stored⟩, fun _ _ open_ => open_,
    fun _ _ _ _ stored => .inl stored, fun _ _ _ _ stored => stored⟩

/-- One request takes another place, and the others stay. -/
theorem mem_of_set {requests : List Request} {place : Nat} {next request : Request} {db : Db}
    (others : ∀ request ∈ requests, request.Sound db) (own : next.Sound db)
    (member : request ∈ requests.set place next) : request.Sound db := by
  rcases List.mem_or_eq_of_mem_set member with old | rfl
  · exact others request old
  · exact own

theorem Purge.Sound.still {db after : Db} {purge : Purge} (sound : purge.Sound db)
    (nextId : db.nextId ≤ after.nextId)
    (ended : ∀ id, id < db.nextId → id ∉ EraLock.openEras db → id ∉ EraLock.openEras after) :
    purge.Sound after := by
  unfold Purge.Sound at *
  split
  · rename_i phase
    rw [phase] at sound
    exact ⟨Nat.lt_of_lt_of_le sound.1 nextId, ended _ sound.1 sound.2⟩
  · rename_i phase
    rw [phase] at sound
    exact ⟨Nat.lt_of_lt_of_le sound.1 nextId, ended _ sound.1 sound.2⟩
  · trivial

/-- A statement that does not commit. -/
theorem Sound.statement (sound : Sound world) {place : Nat} {now : Time} {next : Request}
    (found : world.requests[place]? = some self)
    (taken : Calls.advance (world.requests.eraseIdx place) columns now (view self.changes world.db) self =
      some next) :
    Sound { world with
      db := { world.db with nextId := world.db.nextId + 1 }
      requests := world.requests.set place next } := by
  have tables := sound.tables found
  have advanced := (sound.requests self (List.mem_of_getElem? found)).advance tables taken
  refine ⟨sound.tabled.of_eras rfl (Nat.le_succ _), ?_, sound.filed, sound.together, sound.stamped,
    fun request member => ?_, fun purge member => (sound.purges purge member).still (Nat.le_succ _)
      fun _ _ ended => ended⟩
  · refine ((claims_set found next).append_left _).nodup_iff.mpr ?_
    rcases advanced.created with less | ⟨row, more, unstored, unowned, unclaimed⟩
    · exact tables.sessions.sublist ((List.Sublist.refl _).append
        ((less.map _).append (List.Sublist.refl _)))
    · have middle : world.db.callSessions.map (·.id) ++
          (next.created.map (·.id) ++ claims (world.requests.eraseIdx place)) =
            (world.db.callSessions.map (·.id) ++ self.created.map (·.id)) ++
              row.id :: claims (world.requests.eraseIdx place) := by
        simp [more]
      rw [middle, List.nodup_middle, List.nodup_cons, List.append_assoc]
      refine ⟨?_, tables.sessions⟩
      simp only [List.mem_append, not_or]
      exact ⟨unstored, unowned, unclaimed⟩
  · exact mem_of_set (fun request member => (sound.requests request member).still still_drawn)
      (advanced.sound.still still_drawn) member

/-- What a transaction has changed leaves the stamps of rollovers where they were. -/
theorem stamped_view {db stored : Db} {changes : List Change} {created : List CallSession} {era : Id}
    {eras : List Id} (sound : ∀ change ∈ changes, change.Sound stored created era)
    (stamped : ∀ session ∈ db.callSessions, session.outcome = some .installationEnded →
      ∀ era, session.installationId = some era → era ∉ eras) :
    ∀ session ∈ (view changes db).callSessions, session.outcome = some .installationEnded →
      ∀ era, session.installationId = some era → era ∉ eras := by
  induction changes generalizing db with
  | nil => exact stamped
  | cons change rest ih =>
    refine ih (fun other member => sound other (List.mem_cons_of_mem _ member)) fun session member => ?_
    have own := sound change List.mem_cons_self
    cases change with
    | patched init =>
      obtain ⟨old, inside, rfl⟩ := Table.mem_updateMany.mp member
      split
      · intro ended
        refine stamped old inside ?_
        have reported := own.1
        unfold Reported at reported
        simp only [Events.patch] at ended
        cases given : init.outcome.join with
        | none => simpa [given] using ended
        | some outcome => simp_all
      · exact stamped old inside
    | reconciled ids idleTime =>
      obtain ⟨old, inside, rfl⟩ := Table.mem_updateMany.mp member
      split
      · exact fun ended => nomatch ended
      · exact stamped old inside
    | created row =>
      rcases List.mem_append.mp member with old | new
      · exact stamped session old
      · cases List.mem_singleton.mp new
        exact fun ended => absurd ended own.2
    | _ => exact stamped session member

theorem Sound.commit (sound : Sound world) {place : Nat} {era : Id}
    (found : world.requests[place]? = some self) (phase : self.phase = .commit era) :
    Sound { world with
      db := view self.changes world.db
      requests := world.requests.set place { self with phase := .answered, changes := [] } } := by
  have tables := sound.tables found
  have own := sound.requests self (List.mem_of_getElem? found)
  have holds : self.phase.era = some era := congrArg Phase.era phase
  have held := own.held era holds
  obtain ⟨installations, nextId⟩ : (view self.changes world.db).installations = world.db.installations ∧
      (view self.changes world.db).nextId = world.db.nextId := installations_view
  have eras : eraIds (view self.changes world.db) = eraIds world.db :=
    congrArg (List.map _) installations
  have grown : Calls.filed world.db ⊆ Calls.filed (view self.changes world.db) := by
    rw [filed_view]
    exact List.subset_append_left _ _
  have still : ∀ request : Request, Still world.db (view self.changes world.db) request := by
    intro request
    refine ⟨Nat.le_of_eq nextId.symm, fun id _ there => ⟨eras ▸ there, fun _ stored => grown stored⟩,
      fun _ _ open_ => openEras_view.trans open_, fun other _ open_ pair stored => ?_,
      fun _ _ _ _ stored => grown stored⟩
    cases List.singleton_inj.mp (held.symm.trans open_)
    exact view_sound own holds pair stored
  refine ⟨?_, ?_, fun pair stored => ?_, fun event stored id named => ?_, ?_, fun request member => ?_,
    fun purge member => ?_⟩
  · exact sound.tabled.of_eras (congrArg (List.map _) installations) (Nat.le_of_eq nextId.symm)
  · have ids : (view self.changes world.db).callSessions.map (·.id) =
        world.db.callSessions.map (·.id) ++ self.created.map (·.id) := by
      rw [← ids_filed, filed_view, List.map_append, ids_filed, List.map_map]
      rfl
    rw [ids, List.append_assoc]
    refine ((((claims_set found _).append_left _).append_left _).nodup_iff).mpr ?_
    exact tables.sessions
  · rw [eras]
    rcases view_sound own holds pair stored with old | new
    · exact sound.filed pair old
    · obtain ⟨row, there, -, rfl⟩ := EraLock.mem_openEras.mp (held ▸ List.mem_singleton_self era)
      exact ⟨row.id, List.mem_map_of_mem there, new⟩
  · rw [events_view] at stored
    rcases List.mem_append.mp stored with old | new
    · exact grown (sound.together event old id named)
    · rcases own.changes era holds _ (mem_inserted.mp new) id named with there | ⟨row, inside, rfl, its⟩
      · exact grown there
      · rw [filed_view]
        refine List.mem_append_right _ (List.mem_map.mpr ⟨row, inside, ?_⟩)
        rw [its]
  · rw [openEras_view]
    exact stamped_view (own.changes era holds) sound.stamped
  · exact mem_of_set (fun request member => (sound.requests request member).still (still request))
      ((own.settle rfl rfl rfl rfl).still (still _)) member
  · refine (sound.purges purge member).still (Nat.le_of_eq nextId.symm) fun id _ ended => ?_
    rw [openEras_view]
    exact ended

/-- No request holds an installation, so that none has changed anything. -/
theorem Sound.free (sound : Sound world)
    (unheld : ∀ era, EraLock.openEras world.db = [era] → world.unheld era = true) :
    ∀ request ∈ world.requests, request.phase.era = none ∧ request.changes = [] := by
  intro request member
  have own := sound.requests request member
  have free : request.phase.era = none := by
    cases holds : request.phase.era with
    | none => rfl
    | some era =>
      have apart := List.all_eq_true.mp (unheld era (own.held era holds)) request member
      exact absurd holds (of_decide_eq_true apart)
  exact ⟨free, own.unheld free⟩

/-- What ends and starts installations does to the tables that a call is kept in. -/
structure Turned (db after : Db) : Prop where
  tabled : EraLock.Tabled after
  nextId : db.nextId ≤ after.nextId
  eras : ∀ id, id < db.nextId → (id ∈ eraIds after ↔ id ∈ eraIds db)
  opened : ∀ id ∈ EraLock.openEras after, db.nextId ≤ id
  filed : Calls.filed after = Calls.filed db
  boothEvents : after.boothEvents = db.boothEvents

theorem Sound.turned {db : Db} (sound : Sound world) (turned : Turned world.db db)
    (unheld : ∀ era, EraLock.openEras world.db = [era] → world.unheld era = true) :
    Sound { world with db } := by
  have free := sound.free unheld
  have used : ∀ pair ∈ Calls.filed world.db, ∃ era ∈ eraIds world.db, era < world.db.nextId ∧
      pair.2 = some era := by
    intro pair stored
    obtain ⟨era, there, its⟩ := sound.filed pair stored
    obtain ⟨row, inside, rfl⟩ := List.mem_map.mp there
    exact ⟨row.id, there, sound.tabled.used row inside, its⟩
  refine ⟨turned.tabled, ?_, fun pair stored => ?_, fun event stored id named => ?_,
    fun session stored _ era its running => ?_, fun request member => ?_, fun purge member => ?_⟩
  · rw [← ids_filed, turned.filed, ids_filed]
    exact sound.sessions
  · rw [turned.filed] at stored
    obtain ⟨era, there, old, its⟩ := used pair stored
    exact ⟨era, (turned.eras era old).mpr there, its⟩
  · rw [turned.boothEvents] at stored
    rw [turned.filed]
    exact sound.together event stored id named
  · have pair : (session.id, session.installationId) ∈ Calls.filed world.db :=
      turned.filed ▸ mem_filed.mpr ⟨session, stored, rfl, rfl⟩
    obtain ⟨other, -, old, its'⟩ := used _ pair
    cases its.symm.trans its'
    exact absurd (turned.opened era running) (Nat.not_le_of_lt old)
  · obtain ⟨noEra, noChanges⟩ := free request member
    refine (sound.requests request member).still ⟨turned.nextId, fun era old there => ?_,
      fun era holds => (nomatch noEra.symm.trans holds), fun era holds => (nomatch noEra.symm.trans holds),
      fun row inside => ?_⟩
    · exact ⟨(turned.eras era old).mp there, fun id stored => turned.filed ▸ stored⟩
    · rw [mem_inserted, noChanges] at inside
      cases inside
  · exact (sound.purges purge member).still turned.nextId
      fun id old _ running => absurd (turned.opened id running) (Nat.not_le_of_lt old)

theorem filed_closeOut (id : Id) (now : Time) (db : Db) :
    filed (closeOutInstallation id now db) = filed db :=
  Table.map_updateMany_found (fun row : CallSession => (row.id, row.installationId))
    fun _ _ _ => rfl

theorem turned_end {db after : Db} {id : Id} {now : Time} {endedById : Option String}
    (tabled : EraLock.Tabled db) (taken : endInstallation id now endedById db = some after) :
    Turned db after ∧ EraLock.openEras db = [id] ∧ eraIds after = eraIds db := by
  obtain ⟨tabled', running, none, nextId⟩ := EraLock.ended_eras tabled taken
  unfold endInstallation at taken
  split at taken
  · cases taken
    have same : eraIds { closeOutInstallation id now db with
        installations := Table.updateMany (fun row => row.id = id)
          (fun row : Installation => { row with endedAt := some now, endedById })
            db.installations } = eraIds db :=
      Table.map_updateMany (fun row : Installation => row.id) (by intro row; rfl) db.installations
    refine ⟨⟨tabled', Nat.le_of_eq nextId.symm, fun other _ => ?_, fun other member => ?_,
      filed_closeOut id now db, rfl⟩, running, same⟩
    · exact iff_of_eq (congrArg (other ∈ ·) same)
    · rw [none] at member
      cases member
  · cases taken

theorem calls_copyQuestions (installationId : Id) (questions : List Question) (db : Db) :
    (questions.foldl (copyQuestion installationId) db).installations = db.installations ∧
      (questions.foldl (copyQuestion installationId) db).callSessions = db.callSessions ∧
      (questions.foldl (copyQuestion installationId) db).boothEvents = db.boothEvents := by
  induction questions generalizing db with
  | nil => exact ⟨rfl, rfl, rfl⟩
  | cons question rest ih =>
    obtain ⟨installations, callSessions, boothEvents⟩ := ih (copyQuestion installationId db question)
    have first : (copyQuestion installationId db question).installations = db.installations ∧
        (copyQuestion installationId db question).callSessions = db.callSessions ∧
        (copyQuestion installationId db question).boothEvents = db.boothEvents := by
      unfold copyQuestion
      split
      · exact ⟨rfl, rfl, rfl⟩
      · exact ⟨rfl, rfl, rfl⟩
    exact ⟨installations.trans first.1, callSessions.trans first.2.1, boothEvents.trans first.2.2⟩

/-- What a rollover leaves of the installation it ends, if one is open. -/
def ended (now : Time) (endedById : Option String) (db : Db) : Db :=
  (db.findActiveInstallation.bind fun active => endInstallation active.id now endedById db).getD db

theorem open_parts (data : Installation) (previous : Option Installation) (copyQuestions : Bool)
    (now : Time) (db : Db) : ∃ installation : Installation, installation.id = db.nextId ∧
      (openInstallation data previous copyQuestions now db).installations =
        db.installations ++ [installation] ∧
      (openInstallation data previous copyQuestions now db).callSessions = db.callSessions ∧
      (openInstallation data previous copyQuestions now db).boothEvents = db.boothEvents := by
  unfold openInstallation
  simp only
  split
  · obtain ⟨installations, callSessions, boothEvents⟩ := calls_copyQuestions _ _ _
    exact ⟨_, rfl, installations, callSessions, boothEvents⟩
  · exact ⟨_, rfl, rfl, rfl, rfl⟩

/-- A start adds its installation to what the end of the open one has left. -/
theorem start_parts (data : Installation) (copyQuestions : Bool) (now : Time) (startedById : Option String)
    {db : Db} (tabled : EraLock.Tabled db) :
    ∃ installation : Installation, installation.id = (ended now startedById db).nextId ∧
      (startInstallation data copyQuestions now startedById db).installations =
        (ended now startedById db).installations ++ [installation] ∧
      (startInstallation data copyQuestions now startedById db).callSessions =
        (ended now startedById db).callSessions ∧
      (startInstallation data copyQuestions now startedById db).boothEvents =
        (ended now startedById db).boothEvents := by
  unfold startInstallation ended
  cases found : db.findActiveInstallation with
  | none => exact open_parts _ _ _ _ _
  | some active =>
    obtain ⟨closed, taken⟩ := @EraLock.endInstallation_active db now startedById active tabled found
    simp only [taken, Option.bind_some, Option.getD_some]
    exact open_parts _ _ _ _ _

theorem turned_start (data : Installation) (copyQuestions : Bool) (now : Time)
    (startedById : Option String) {db : Db} (tabled : EraLock.Tabled db) :
    Turned db (startInstallation data copyQuestions now startedById db) := by
  obtain ⟨tabled', opened, grown⟩ :=
    EraLock.started_eras data copyQuestions now startedById tabled
  obtain ⟨eras, files, events, nextId⟩ : eraIds (ended now startedById db) = eraIds db ∧
      filed (ended now startedById db) = filed db ∧
      (ended now startedById db).boothEvents = db.boothEvents ∧
      (ended now startedById db).nextId = db.nextId := by
    unfold ended
    cases taken : db.findActiveInstallation.bind fun active =>
        endInstallation active.id now startedById db with
    | none => exact ⟨rfl, rfl, rfl, rfl⟩
    | some after =>
      obtain ⟨active, -, taken⟩ := Option.bind_eq_some_iff.mp taken
      obtain ⟨turned, -, same⟩ := turned_end tabled taken
      exact ⟨same, turned.filed, turned.boothEvents, (EraLock.ended_eras tabled taken).2.2.2⟩
  obtain ⟨installation, named, installations, callSessions, boothEvents⟩ :=
    start_parts data copyQuestions now startedById tabled
  refine ⟨tabled', Nat.le_of_lt grown, fun id old => ?_, fun id member => ?_, ?_,
    boothEvents.trans events⟩
  · rw [eraIds, installations, List.map_append, List.mem_append, ← eraIds, eras]
    refine ⟨fun there => there.resolve_right fun new => ?_, .inl⟩
    rw [List.map_singleton, List.mem_singleton] at new
    exact Nat.ne_of_lt old (new.trans (named.trans nextId))
  · rw [opened] at member
    exact Nat.le_of_eq (List.mem_singleton.mp member).symm
  · rw [filed, callSessions]
    exact files

theorem filed_deleteRows (id : Id) (events : List Id) (db : Db) :
    filed (deleteRows id events db) = (filed db).filter fun pair => pair.2 ≠ some id := by
  unfold filed deleteRows Purges.deleteEra
  rw [List.filter_map]
  congr 1
  refine List.filter_congr fun row _ => ?_
  simp

theorem Sound.purged (sound : Sound world) {purge : Nat} {own : Purge} {events : List Id}
    (found : world.purges[purge]? = some own) (phase : own.phase = .deleteRows events)
    (unreferred : world.refersTo own.installationId = false) :
    Sound { world with
      db := deleteRows own.installationId events world.db
      purges := world.purges.set purge { own with phase := .answered } } := by
  obtain ⟨used, ended⟩ : own.installationId < world.db.nextId ∧
      own.installationId ∉ EraLock.openEras world.db := by
    have sound := sound.purges own (List.mem_of_getElem? found)
    unfold Purge.Sound at sound
    rw [phase] at sound
    exact sound
  generalize own.installationId = id at *
  obtain ⟨tabled, openEras⟩ := EraLock.purged_eras sound.tabled ended
  have eras : ∀ era, era ∈ eraIds (deleteRows id events world.db) ↔ era ∈ eraIds world.db ∧ era ≠ id := by
    intro era
    simp only [eraIds, deleteRows, Purges.deleteEra, List.mem_map, List.mem_filter, decide_eq_true_eq]
    constructor
    · rintro ⟨row, ⟨inside, other⟩, rfl⟩
      exact ⟨⟨row, inside, rfl⟩, other⟩
    · rintro ⟨⟨row, inside, rfl⟩, other⟩
      exact ⟨row, ⟨inside, other⟩, rfl⟩
  have files : ∀ pair, pair ∈ Calls.filed (deleteRows id events world.db) ↔
      pair ∈ Calls.filed world.db ∧ pair.2 ≠ some id := by
    intro pair
    rw [filed_deleteRows, List.mem_filter, decide_eq_true_eq]
  refine ⟨tabled.of_eras rfl (Nat.le_refl _), ?_, fun pair stored => ?_, fun event stored session named => ?_,
    fun session stored stamp era its => ?_, fun request member => ?_, fun purge member => ?_⟩
  · rw [← ids_filed, filed_deleteRows]
    refine sound.sessions.sublist (List.Sublist.append ?_ (List.Sublist.refl _))
    rw [← ids_filed]
    exact List.filter_sublist.map _
  · obtain ⟨old, other⟩ := (files pair).mp stored
    obtain ⟨era, there, its⟩ := sound.filed pair old
    exact ⟨era, (eras era).mpr ⟨there, fun same => other (its.trans (congrArg some same))⟩, its⟩
  · obtain ⟨before, inside, rfl⟩ := List.mem_map.mp stored
    have old := (List.mem_filter.mp inside).1
    obtain ⟨named, kept⟩ := Option.filter_eq_some_iff.mp named
    have pair := sound.together before old session named
    have other : before.installationId ≠ some id := by
      intro same
      refine of_decide_eq_true kept ?_
      obtain ⟨row, there, rfl, its⟩ := mem_filed.mp pair
      exact List.mem_map.mpr ⟨row, List.mem_filter.mpr ⟨there, decide_eq_true (its.trans same)⟩, rfl⟩
    have same : before.installationId.filter (fun era => era ≠ id) = before.installationId := by
      cases given : before.installationId with
      | none => rfl
      | some era =>
        have apart : era ≠ id := fun same => other (given.trans (congrArg some same))
        simp [apart]
    refine (files _).mpr ⟨?_, ?_⟩
    · simpa only [same] using pair
    · simpa only [same] using other
  · have old : session ∈ world.db.callSessions := (List.mem_filter.mp stored).1
    exact fun running => sound.stamped session old stamp era its (openEras ▸ running)
  · refine (sound.requests request member).still ⟨Nat.le_refl _, fun era _ there => ?_,
      fun era _ running => openEras.trans running, fun era _ _ pair stored => .inl ((files pair).mp stored).1,
      fun row inside session named stored => (files _).mpr ⟨stored, fun same => ?_⟩⟩
    · obtain ⟨before, other⟩ := (eras era).mp there
      exact ⟨before, fun session stored => (files _).mpr
        ⟨stored, fun same => other (Option.some.inj same)⟩⟩
    · refine Bool.eq_false_iff.mp unreferred (List.any_eq_true.mpr ⟨request, member,
        List.any_eq_true.mpr ⟨row, inside, decide_eq_true (.inl same)⟩⟩)
  · rcases List.mem_or_eq_of_mem_set member with old | rfl
    · exact (sound.purges purge old).still (Nat.le_refl _) fun _ _ ended running => ended (openEras ▸ running)
    · trivial

theorem unheld_open {active : Id} (tabled : EraLock.Tabled world.db)
    (running : active ∈ EraLock.openEras world.db) (unheld : world.unheld active = true) :
    ∀ era, EraLock.openEras world.db = [era] → world.unheld era = true := by
  intro era alone
  have same := EraLock.openEras_eq tabled.one running
  cases List.singleton_inj.mp (same.symm.trans alone)
  exact unheld

theorem Sound.step {action : Action} (sound : Sound world)
    (taken : Calls.step columns world action = some after) : Sound after := by
  cases action with
  | arrive body =>
    cases taken
    refine ⟨sound.tabled, ?_, sound.filed, sound.together, sound.stamped, fun request member => ?_,
      sound.purges⟩
    · have same : claims (world.requests ++ [({ body } : Request)]) = claims world.requests := by
        simp [claims, Request.created]
      rw [same]
      exact sound.sessions
    · rcases List.mem_append.mp member with old | new
      · exact sound.requests request old
      · cases List.mem_singleton.mp new
        refine ⟨?_, ?_, fun _ => rfl, ?_, ?_, ?_, ?_, ?_⟩
        all_goals
          intro _ begun
          cases begun
  | advance place now =>
    obtain ⟨self, found, taken⟩ := Option.bind_eq_some_iff.mp taken
    split at taken
    · rename_i era phase
      cases taken
      exact sound.commit found phase
    · obtain ⟨next, moved, taken⟩ := Option.bind_eq_some_iff.mp taken
      cases taken
      exact sound.statement found moved
  | abort place =>
    obtain ⟨self, found, taken⟩ := Option.bind_eq_some_iff.mp taken
    split at taken
    · cases taken
    · cases taken
    · cases taken
      have tables := sound.tables found
      refine ⟨sound.tabled, ?_, sound.filed, sound.together, sound.stamped, fun request member => ?_,
        sound.purges⟩
      · refine ((claims_set found self.refuse).append_left _).nodup_iff.mpr ?_
        exact tables.sessions.sublist ((List.Sublist.refl _).append (List.sublist_append_right _ _))
      · exact mem_of_set sound.requests (sound.requests self (List.mem_of_getElem? found)).refuse member
  | start data copyQuestions now startedById =>
    have turned := turned_start data copyQuestions now startedById sound.tabled
    simp only [Calls.step] at taken
    split at taken
    · rename_i active running
      split at taken
      · rename_i unheld
        cases taken
        exact sound.turned turned (unheld_open sound.tabled (EraLock.openEra_mem running) unheld)
      · cases taken
    · rename_i nothing
      cases taken
      refine sound.turned turned fun era alone => ?_
      cases (EraLock.openEra_none nothing).symm.trans alone
  | finish id now endedById =>
    simp only [Calls.step] at taken
    split at taken
    · rename_i unheld
      obtain ⟨db, ended, taken⟩ := Option.map_eq_some_iff.mp taken
      cases taken
      obtain ⟨turned, running, -⟩ := turned_end sound.tabled ended
      refine sound.turned turned (unheld_open sound.tabled ?_ unheld)
      exact running ▸ List.mem_singleton_self id
    · cases taken
  | purge installationId =>
    cases taken
    refine ⟨sound.tabled, sound.sessions, sound.filed, sound.together, sound.stamped, sound.requests,
      fun purge member => ?_⟩
    rcases List.mem_append.mp member with old | new
    · exact sound.purges purge old
    · cases List.mem_singleton.mp new
      trivial
  | advancePurge place =>
    obtain ⟨own, found, taken⟩ := Option.bind_eq_some_iff.mp taken
    obtain ⟨⟨db, phase⟩, moved, taken⟩ := Option.bind_eq_some_iff.mp taken
    cases taken
    have stands : ∀ phase, ({ own with phase } : Purge).Sound world.db →
        Sound { world with purges := world.purges.set place { own with phase } } := by
      intro phase its
      refine ⟨sound.tabled, sound.sessions, sound.filed, sound.together, sound.stamped, sound.requests,
        fun purge member => ?_⟩
      rcases List.mem_or_eq_of_mem_set member with old | rfl
      · exact sound.purges purge old
      · exact its
    unfold advancePurge at moved
    split at moved
    · split at moved
      · cases moved
        exact stands _ trivial
      · rename_i existing there
        split at moved
        · cases moved
          exact stands _ trivial
        · rename_i ended
          cases moved
          obtain ⟨inside, named⟩ := Table.findUnique_mem there
          refine stands _ ⟨named ▸ sound.tabled.used existing inside, fun running => ended ?_⟩
          obtain ⟨row, stored, runs, same⟩ := EraLock.mem_openEras.mp running
          have one := Table.eq_of_key_eq sound.tabled.ids inside stored (named.trans same.symm)
          exact one ▸ runs
    · rename_i phase
      cases moved
      refine stands _ ?_
      have its := sound.purges own (List.mem_of_getElem? found)
      unfold Purge.Sound at its
      rw [phase] at its
      exact its
    · rename_i events phase
      split at moved
      · cases moved
      split at moved
      · cases moved
        exact stands _ trivial
      · rename_i unreferred _
        cases moved
        exact sound.purged found phase (Bool.eq_false_iff.mpr unreferred)
    · cases moved

theorem Sound.initial (initial : Initial world) : Sound world := by
  have none : world.requests = [] := initial.requests
  refine ⟨initial.tabled, ?_, fun pair stored => ?_, fun event stored id named => ?_, initial.stamped,
    fun request member => ?_, fun purge member => ?_⟩
  · rw [none]
    exact (List.append_nil _).symm ▸ initial.sessions
  · obtain ⟨row, inside, rfl⟩ := List.mem_map.mp stored
    obtain ⟨era, there, its⟩ := initial.filed row inside
    exact ⟨era, there, its⟩
  · obtain ⟨session, found, its⟩ := initial.together event stored id named
    obtain ⟨inside, rfl⟩ := Table.findUnique_mem found
    exact mem_filed.mpr ⟨session, inside, rfl, its⟩
  · rw [none] at member
    cases member
  · rw [initial.purges] at member
    cases member

theorem Sound.kept_together (sound : Sound world) : Together world.db := by
  intro event stored id named
  obtain ⟨row, inside, rfl, its⟩ := mem_filed.mp (sound.together event stored id named)
  have distinct := sound.sessions.sublist (List.sublist_append_left _ _)
  exact ⟨row, Table.findUnique_of_mem distinct inside, its⟩

/-- A session that is closed out is in no open installation. -/
theorem Sound.closed (sound : Sound world) {session : CallSession}
    (stored : session ∈ world.db.callSessions) (closed : ClosedOut world.db session) :
    ∃ era, session.installationId = some era ∧ era ∉ EraLock.openEras world.db := by
  obtain ⟨era, -, its⟩ := sound.filed _ (mem_filed.mpr ⟨session, stored, rfl, rfl⟩)
  refine ⟨era, its, ?_⟩
  rcases closed with stamp | ⟨row, there, owner, ended⟩
  · exact sound.stamped session stored stamp era its
  · cases its.symm.trans owner
    intro running
    obtain ⟨other, inside, runs, same⟩ := EraLock.mem_openEras.mp running
    have one := Table.eq_of_key_eq sound.tabled.ids there inside same.symm
    exact ended (one ▸ runs)

theorem ClosedOut.congr {db after : Db} {session : CallSession} (closed : ClosedOut db session)
    (same : after.installations = db.installations) : ClosedOut after session := by
  unfold ClosedOut at closed ⊢
  rwa [same]

/-- An end leaves the sessions of other installations alone. -/
theorem terminal_end {db after : Db} {id : Id} {now : Time} {endedById : Option String}
    {key : String} {session : CallSession} {era : Id} (found : db.callSession key = some session)
    (its : session.installationId = some era) (other : era ≠ id) (closed : ClosedOut db session)
    (taken : endInstallation id now endedById db = some after) :
    after.callSession key = some session ∧ ClosedOut after session := by
  unfold endInstallation at taken
  split at taken
  · cases taken
    unfold Db.callSession at found ⊢
    refine ⟨?_, closed.imp_right fun its => ?_⟩
    · simp only [closeOutInstallation, Messages.closeOutMessages, Db.updateMessages]
      rw [Table.findUnique_updateMany (by intro row; rfl), found]
      simp [its, other]
    · obtain ⟨row, there, owner, ended⟩ := its
      refine ⟨_, Table.mem_updateMany.mpr ⟨row, there, rfl⟩, ?_, ?_⟩
      · split <;> exact owner
      · split
        · exact Option.some_ne_none now
        · exact ended
  · cases taken

theorem terminal_start (data : Installation) (copyQuestions : Bool) (now : Time)
    (startedById : Option String) {db : Db} (tabled : EraLock.Tabled db) {key : String}
    {session : CallSession} {era : Id} (found : db.callSession key = some session)
    (its : session.installationId = some era) (other : era ∉ EraLock.openEras db) (closed : ClosedOut db session) :
    (startInstallation data copyQuestions now startedById db).callSession key = some session ∧
      ClosedOut (startInstallation data copyQuestions now startedById db) session := by
  obtain ⟨installation, -, installations, callSessions, -⟩ :=
    start_parts data copyQuestions now startedById tabled
  obtain ⟨same, still⟩ : (ended now startedById db).callSession key = some session ∧
      ClosedOut (ended now startedById db) session := by
    unfold ended
    cases taken : db.findActiveInstallation.bind fun active =>
        endInstallation active.id now startedById db with
    | none => exact ⟨found, closed⟩
    | some after =>
      obtain ⟨active, first, taken⟩ := Option.bind_eq_some_iff.mp taken
      refine terminal_end found its (fun same => other ?_) closed taken
      refine EraLock.openEra_mem ?_
      rw [openEra, first, same]
      rfl
  refine ⟨?_, still.imp_right fun its => ?_⟩
  · rw [Db.callSession, callSessions]
    exact same
  · obtain ⟨row, there, rest⟩ := its
    refine ⟨row, ?_, rest⟩
    rw [installations]
    exact List.mem_append_left _ there

theorem Sound.terminal {action : Action} (sound : Sound world)
    (taken : Calls.step columns world action = some after)
    (unpurged : ∀ purge, action ≠ .advancePurge purge) : Terminal world.db after.db := by
  intro key session found closed
  obtain ⟨stored, rfl⟩ := Table.findUnique_mem found
  obtain ⟨era, its, other⟩ := sound.closed stored closed
  cases action with
  | advance place now =>
    obtain ⟨self, there, taken⟩ := Option.bind_eq_some_iff.mp taken
    split at taken
    · rename_i held phase
      cases taken
      have own := sound.requests self (List.mem_of_getElem? there)
      have holds : self.phase.era = some held := congrArg Phase.era phase
      have pair : (session.id, some era) ∈ Calls.filed world.db := mem_filed.mpr ⟨session, stored, rfl, its⟩
      have elsewhere : some era ≠ some held := by
        intro same
        rw [own.held held holds] at other
        exact other (List.mem_singleton.mpr (Option.some.inj same))
      refine ⟨callSession_view found fun change inside writes => ?_,
        closed.congr installations_view.1⟩
      have change' := own.changes held holds change inside
      cases change with
      | patched init =>
        have same : session.id = init.id := List.mem_singleton.mp writes
        exact elsewhere (change'.2 _ (same ▸ pair))
      | reconciled ids idleTime => exact elsewhere (change' _ writes _ pair)
      | _ => cases writes
    · obtain ⟨next, -, taken⟩ := Option.bind_eq_some_iff.mp taken
      cases taken
      exact ⟨found, closed⟩
  | abort place =>
    obtain ⟨self, -, taken⟩ := Option.bind_eq_some_iff.mp taken
    split at taken
    · cases taken
    · cases taken
    · cases taken
      exact ⟨found, closed⟩
  | arrive body =>
    cases taken
    exact ⟨found, closed⟩
  | start data copyQuestions now startedById =>
    have ends := terminal_start data copyQuestions now startedById sound.tabled found its other
      closed
    simp only [Calls.step] at taken
    split at taken
    · split at taken
      · cases taken
        exact ends
      · cases taken
    · cases taken
      exact ends
  | finish id now endedById =>
    simp only [Calls.step] at taken
    split at taken
    · obtain ⟨db, ended, taken⟩ := Option.map_eq_some_iff.mp taken
      cases taken
      refine terminal_end found its (fun same => other ?_) closed ended
      rw [(turned_end sound.tabled ended).2.1, same]
      exact List.mem_singleton_self id
    · cases taken
  | purge installationId =>
    cases taken
    exact ⟨found, closed⟩
  | advancePurge purge => exact absurd rfl (unpurged purge)

end Steps

/-! ## Runs -/

section Runs

variable (columns : ColumnTypes)

/-- **A call and its events stay together.** In every run of batches, reports, ends,
rollovers and purges, each stored event of a call is filed under its call's installation. -/
theorem calls_stay_together {start after : World} (initial : Initial start) (actions : List Action)
    (ran : exec (step columns) start actions = some after) : Together after.db :=
  ((reachable_of_exec initial ran).invariant (fun _ => Sound.initial)
    fun _ _ _ sound _ taken => sound.step taken).kept_together

/-- **A close-out is terminal.** In every run of batches, reports, ends and rollovers, a
session that a rollover has stamped, or whose installation has ended, stays as it
is, whatever was read about it before; only a purge takes it away. -/
theorem close_out_terminal {start : World} (initial : Initial start) (actions : List Action) :
    Along (step columns) (fun before action after =>
      (∀ purge, action ≠ .advancePurge purge) → Terminal before.db after.db) start actions :=
  along_of_invariant (fun _ _ _ sound taken => sound.step taken)
    (fun _ _ _ sound _ taken => sound.terminal taken) (Sound.initial initial) actions

/-- A booth between two calls. -/
def openBooth : World where
  db := { installations := [{ id := 0 }], nextId := 1 }

theorem initial_openBooth : Initial openBooth :=
  ⟨⟨by decide, by decide, by decide⟩, by decide, fun _ member => (nomatch member),
    fun _ member => (nomatch member), fun _ member => (nomatch member), rfl, rfl⟩

/-- The start and the end of a call come in two batches, of which neither finds the
call; a rollover ends the installation before the second can lock it. -/
def straggler : List Action :=
  let statements (request count : Nat) : List Action := List.replicate count (.advance request 5)
  [.arrive (.batch [callEvent "start" .callStarted .null]),
    .arrive (.batch [callEvent "end" .callEnded .null])] ++
    statements 0 3 ++ statements 1 3 ++ statements 0 9 ++
    [.start { id := 0 } false 9 none] ++ statements 1 11

theorem calls_stay_together_straggler : (exec (step roomyColumns) openBooth straggler).isSome ∧
    ∀ after, exec (step roomyColumns) openBooth straggler = some after → Together after.db :=
  ⟨by decide +kernel, fun _ => calls_stay_together roomyColumns initial_openBooth straggler⟩

theorem close_out_terminal_straggler : (exec (step roomyColumns) openBooth straggler).isSome ∧
    Along (step roomyColumns) (fun before action after =>
      (∀ purge, action ≠ .advancePurge purge) → Terminal before.db after.db) openBooth straggler :=
  ⟨by decide +kernel, close_out_terminal roomyColumns initial_openBooth straggler⟩

end Runs

end BoothOperator.Calls
