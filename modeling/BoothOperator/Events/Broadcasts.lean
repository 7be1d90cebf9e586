import Mathlib.Data.List.Flatten
import BoothOperator.Lib.Run
import BoothOperator.Lib.Tail
import BoothOperator.Events.Acceptance

/-! The live broadcast of an ingest. A request knows how many rows its insert
kept, not which: once its transaction has committed it selects the rows of its
batch again and takes the last so many of them by `receivedAt`, the moment their
insert was issued. Inserts issued in one order can be carried out in another. -/
namespace BoothOperator.Events.Broadcasts

open BoothOperator.Schema
open BoothOperator.Run

/-! ## Requests -/

/-- Where a request is. Rows of an open transaction are its own until it
commits; of those it keeps, the code has only the count. -/
inductive Phase where
  | resolved
  | inserting (todo own : List BoothEvent)
  | committed (own : List BoothEvent)
  | answered (own : List BoothEvent)

structure Request where
  events : List EventInput
  phase : Phase := .resolved

structure World where
  boothEvents : List BoothEvent := []
  nextId : Id := 0
  requests : List Request := []
  /-- What the broadcaster has sent to its subscribers. -/
  broadcast : List BoothEvent := []
  /-- The events of which a started call was notified. -/
  notified : List BoothEvent := []

inductive Action where
  | arrive (events : List EventInput)
  /-- The insert is sent at a moment of the server's own clock. -/
  | issue (request : Nat) (now : Time) (known : Known) (era : Id)
  /-- The database takes the insert's next row. -/
  | insert (request : Nat)
  | commit (request : Nat)
  /-- The transaction is rolled back; the request may try again. -/
  | abort (request : Nat)
  /-- The rows are selected again; those of one `receivedAt` come as they lie. -/
  | broadcast (request : Nat) (place : BoothEvent → Nat)

/-- `@@unique([boothId, eventId])`. -/
def sameEvent (row other : BoothEvent) : Prop :=
  row.boothId = other.boothId ∧ row.eventId = other.eventId

instance : DecidableRel sameEvent := fun _ _ => inferInstanceAs (Decidable (_ ∧ _))

/-- `buildRows`, with the ids and the time that `createMany` gives them. -/
def buildRows (now : Time) (known : Known) (era first : Id) (events : List EventInput) :
    List BoothEvent :=
  events.mapIdx fun index event => buildRow now known era event (first + index)

/-- The rows of a transaction that has not ended. -/
def Request.uncommitted (request : Request) : List BoothEvent :=
  match request.phase with
  | .inserting _ own => own
  | _ => []

/-- `WHERE` of the selection after the commit. -/
def asked (events : List EventInput) (row : BoothEvent) : Bool :=
  events.any fun event => row.boothId = event.boothId ∧ row.eventId = event.eventId

/-- `findMany` after the commit. -/
def World.recent (world : World) (place : BoothEvent → Nat) (events : List EventInput) :
    List BoothEvent :=
  Tail.inOrder (·.receivedAt) place (world.boothEvents.filter (asked events))

/-- `recent.slice(-accepted)`, and nothing when no row was accepted. -/
def World.fresh (world : World) (place : BoothEvent → Nat) (events : List EventInput)
    (accepted : Nat) : List BoothEvent :=
  if accepted = 0 then [] else (world.recent place events).rtake accepted

def started (row : BoothEvent) : Bool := row.type = .callStarted

def World.goto (world : World) (request : Nat) (now : Request) (phase : Phase) : World :=
  { world with requests := world.requests.set request { now with phase } }

def step (world : World) : Action → Option World
  | .arrive events => some { world with requests := world.requests ++ [{ events }] }
  | .issue request now known era => do
    let self ← world.requests[request]?
    let .resolved := self.phase | none
    let rows := buildRows now known era world.nextId self.events
    some { world.goto request self (.inserting rows []) with
      nextId := world.nextId + self.events.length }
  | .insert request => do
    let self ← world.requests[request]?
    let .inserting (row :: todo) own := self.phase | none
    -- `skipDuplicates`: a key that is taken is passed over
    if (world.boothEvents ++ own).any (sameEvent · row) then
      some (world.goto request self (.inserting todo own))
    -- and one that an open transaction has inserted is waited for
    else if world.requests.any fun other => other.uncommitted.any (sameEvent · row) then none
    else some (world.goto request self (.inserting todo (own ++ [row])))
  | .commit request => do
    let self ← world.requests[request]?
    let .inserting [] own := self.phase | none
    some { world.goto request self (.committed own) with
      boothEvents := world.boothEvents ++ own }
  | .abort request => do
    let self ← world.requests[request]?
    let .inserting _ _ := self.phase | none
    some (world.goto request self .resolved)
  | .broadcast request place => do
    let self ← world.requests[request]?
    let .committed own := self.phase | none
    let fresh := world.fresh place self.events own.length
    some { world.goto request self (.answered own) with
      broadcast := world.broadcast ++ fresh
      notified := world.notified ++ fresh.filter started }

/-! ## What a request owes its subscribers -/

/-- The rows the request has inserted, in an open transaction or a committed one. -/
def Request.inserted (request : Request) : List BoothEvent :=
  match request.phase with
  | .resolved => []
  | .inserting _ own => own
  | .committed own => own
  | .answered own => own

/-- The rows the request has stored. -/
def Request.stored (request : Request) : List BoothEvent :=
  match request.phase with
  | .committed own => own
  | .answered own => own
  | _ => []

/-- The rows of a request that has answered. -/
def Request.delivered (request : Request) : List BoothEvent :=
  match request.phase with
  | .answered own => own
  | _ => []

/-- The request broadcasts the rows it inserted and no others, however the
database orders rows of one time. -/
def Exact (world : World) (action : Action) : Prop :=
  match action with
  | .broadcast request _ => ∀ self own, world.requests[request]? = some self →
      self.phase = .committed own →
        ∀ place, (world.fresh place self.events own.length).Perm own
  | _ => True

/-- The rows of the batch that other requests inserted were issued before its own. -/
def Spaced (world : World) (action : Action) : Prop :=
  match action with
  | .broadcast request _ => ∀ self own, world.requests[request]? = some self →
      self.phase = .committed own →
        ∀ other ∈ world.boothEvents, asked self.events other → other ∉ own →
          ∀ row ∈ own, other.receivedAt < row.receivedAt
  | _ => True

/-- Every stored event is broadcast, and notified as a started call, once its
request has answered, and only once. -/
structure Delivered (world : World) : Prop where
  distinct : world.boothEvents.Nodup
  once : world.broadcast.Nodup
  stored : ∀ row ∈ world.broadcast, row ∈ world.boothEvents
  answered : ∀ request ∈ world.requests, ∀ row ∈ request.delivered, row ∈ world.broadcast
  all : (∀ request ∈ world.requests, ∀ own, request.phase ≠ .committed own) →
    world.broadcast.Perm world.boothEvents
  notified : world.notified = world.broadcast.filter started

/-! ## One step -/

section Steps

variable {world after : World} {self : Request}

/-- A request's place among the requests. -/
theorem goto_parts {request : Nat} (found : world.requests[request]? = some self) :
    ∃ front back, world.requests = front ++ self :: back ∧
      ∀ phase, (world.goto request self phase).requests = front ++ { self with phase } :: back := by
  obtain ⟨inside, here⟩ := List.getElem?_eq_some_iff.mp found
  refine ⟨world.requests.take request, world.requests.drop (request + 1), ?_, fun phase => ?_⟩
  · rw [← here, ← List.drop_eq_getElem_cons inside, List.take_append_drop]
  · exact List.set_eq_take_append_cons_drop.trans (if_pos inside)

theorem flatMap_parts (rows : Request → List BoothEvent) (front back : List Request) :
    ((front ++ self :: back).flatMap rows).Perm (rows self ++ (front ++ back).flatMap rows) := by
  simp only [List.flatMap_append, List.flatMap_cons]
  rw [← List.append_assoc, ← List.append_assoc]
  exact List.perm_append_comm.append_right _

/-- The turn of a request: the phase it takes, the rows it stores and those it sends. -/
inductive Turn (world : World) (self : Request) (action : Action) :
    Phase → List BoothEvent → List BoothEvent → Prop where
  | issue {now : Time} {known : Known} {era first : Id} : self.phase = .resolved →
      Turn world self action (.inserting (buildRows now known era first self.events) []) [] []
  | skip {row : BoothEvent} {todo own : List BoothEvent} :
      self.phase = .inserting (row :: todo) own →
      Turn world self action (.inserting todo own) [] []
  | keep {row : BoothEvent} {todo own : List BoothEvent} :
      self.phase = .inserting (row :: todo) own →
      (∀ other ∈ world.boothEvents ++ own, ¬ sameEvent other row) →
      (∀ request ∈ world.requests, ∀ other ∈ request.uncommitted, ¬ sameEvent other row) →
      Turn world self action (.inserting todo (own ++ [row])) [] []
  | commit {own : List BoothEvent} : self.phase = .inserting [] own →
      Turn world self action (.committed own) own []
  | abort {todo own : List BoothEvent} : self.phase = .inserting todo own →
      Turn world self action .resolved [] []
  | broadcast {request : Nat} {place : BoothEvent → Nat} {own : List BoothEvent} :
      action = .broadcast request place → world.requests[request]? = some self →
      self.phase = .committed own →
      Turn world self action (.answered own) [] (world.fresh place self.events own.length)

/-- What a turn does to the world. -/
structure Moved (world : World) (request : Request) (phase : Phase) (stored sent : List BoothEvent)
    (after : World) : Prop where
  requests : ∃ front back, world.requests = front ++ request :: back ∧
    after.requests = front ++ { request with phase } :: back
  boothEvents : after.boothEvents = world.boothEvents ++ stored
  broadcast : after.broadcast = world.broadcast ++ sent
  notified : after.notified = world.notified ++ sent.filter started

theorem step_turn {action : Action} (taken : step world action = some after) :
    (∃ events, after = { world with requests := world.requests ++ [{ events }] }) ∨
      ∃ self phase stored sent, Turn world self action phase stored sent ∧
        Moved world self phase stored sent after := by
  have moved : ∀ {request : Nat} {self : Request} (phase : Phase),
      world.requests[request]? = some self → ∃ front back, world.requests = front ++ self :: back ∧
        (world.goto request self phase).requests = front ++ { self with phase } :: back := by
    intro request self phase found
    obtain ⟨front, back, parts, replaced⟩ := goto_parts found
    exact ⟨front, back, parts, replaced phase⟩
  cases action with
  | arrive events => exact .inl ⟨events, (Option.some.inj taken).symm⟩
  | issue request now known era =>
    obtain ⟨self, found, taken⟩ := Option.bind_eq_some_iff.mp taken
    simp only at taken
    split at taken
    · rename_i phase
      cases taken
      exact .inr ⟨self, _, [], [], .issue phase, moved _ found, by simp [World.goto],
        by simp [World.goto], by simp [World.goto]⟩
    · cases taken
  | insert request =>
    obtain ⟨self, found, taken⟩ := Option.bind_eq_some_iff.mp taken
    split at taken
    · rename_i row todo own phase
      split at taken
      · cases taken
        exact .inr ⟨self, _, [], [], .skip phase, moved _ found, by simp [World.goto],
          by simp [World.goto], by simp [World.goto]⟩
      split at taken
      · cases taken
      · rename_i free unlocked
        cases taken
        refine .inr ⟨self, _, [], [], .keep phase ?_ ?_, moved _ found, by simp [World.goto],
          by simp [World.goto], by simp [World.goto]⟩
        · intro other member same
          exact free (List.any_eq_true.mpr ⟨other, member, decide_eq_true same⟩)
        · intro holder member other own same
          exact unlocked (List.any_eq_true.mpr ⟨holder, member,
            List.any_eq_true.mpr ⟨other, own, decide_eq_true same⟩⟩)
    · cases taken
  | commit request =>
    obtain ⟨self, found, taken⟩ := Option.bind_eq_some_iff.mp taken
    simp only at taken
    split at taken
    · rename_i own phase
      cases taken
      exact .inr ⟨self, _, own, [], .commit phase, moved _ found, rfl, by simp [World.goto],
        by simp [World.goto]⟩
    · cases taken
  | abort request =>
    obtain ⟨self, found, taken⟩ := Option.bind_eq_some_iff.mp taken
    split at taken
    · rename_i phase
      cases taken
      exact .inr ⟨self, _, [], [], .abort phase, moved _ found, by simp [World.goto],
        by simp [World.goto], by simp [World.goto]⟩
    · cases taken
  | broadcast request place =>
    obtain ⟨self, found, taken⟩ := Option.bind_eq_some_iff.mp taken
    simp only at taken
    split at taken
    · rename_i own phase
      cases taken
      exact .inr ⟨self, _, [], _, .broadcast rfl found phase, moved _ found,
        by simp [World.goto], rfl, rfl⟩
    · cases taken

/-! ## What a run keeps -/

/-- The rows a request has still to insert. -/
def Request.pending (request : Request) : List BoothEvent :=
  match request.phase with
  | .inserting todo _ => todo
  | _ => []

/-- The rows of a request are those of its batch, issued at one moment. -/
def Request.Issued (request : Request) : Prop :=
  ∃ moment, ∀ row ∈ request.pending ++ request.inserted,
    row.receivedAt = moment ∧ asked request.events row = true

structure Sound (world : World) : Prop where
  /-- Every stored row is the row of a request. -/
  stored : world.boothEvents.Perm (world.requests.flatMap Request.stored)
  /-- No two inserted rows have one key. -/
  distinct : (world.requests.flatMap Request.inserted).Pairwise fun row other => ¬ sameEvent row other
  issued : ∀ request ∈ world.requests, request.Issued

theorem sameEvent_symm {row other : BoothEvent} (same : sameEvent row other) : sameEvent other row :=
  ⟨same.1.symm, same.2.symm⟩

theorem pairwise_perm {rows rows' : List BoothEvent} (perm : rows.Perm rows') :
    rows.Pairwise (fun row other => ¬ sameEvent row other) ↔
      rows'.Pairwise fun row other => ¬ sameEvent row other :=
  perm.pairwise_iff fun apart same => apart (sameEvent_symm same)

theorem nodup_of_apart {rows : List BoothEvent}
    (apart : rows.Pairwise fun row other => ¬ sameEvent row other) : rows.Nodup :=
  apart.imp fun different same => different ⟨congrArg _ same, congrArg _ same⟩

theorem stored_sublist (request : Request) : request.stored.Sublist request.inserted := by
  unfold Request.stored Request.inserted
  cases request.phase with
  | resolved => exact List.nil_sublist _
  | inserting todo own => exact List.nil_sublist _
  | committed own => exact List.Sublist.refl _
  | answered own => exact List.Sublist.refl _

theorem Sound.boothEvents_apart (sound : Sound world) :
    world.boothEvents.Pairwise fun row other => ¬ sameEvent row other := by
  rw [pairwise_perm sound.stored]
  exact sound.distinct.sublist
    (List.Sublist.flatMap_right world.requests fun request _ => stored_sublist request)

/-- A row a request has inserted is stored, or its transaction is open. -/
theorem Sound.inserted_held (sound : Sound world) {request : Request}
    (member : request ∈ world.requests) {row : BoothEvent} (own : row ∈ request.inserted) :
    row ∈ world.boothEvents ∨ row ∈ request.uncommitted := by
  have committed : row ∈ request.stored → row ∈ world.boothEvents := fun kept =>
    sound.stored.mem_iff.mpr (List.mem_flatMap.mpr ⟨request, member, kept⟩)
  cases phase : request.phase with
  | resolved => simp [Request.inserted, phase] at own
  | inserting todo rows =>
    right
    simpa [Request.inserted, Request.uncommitted, phase] using own
  | committed rows =>
    left
    exact committed (by simpa [Request.inserted, Request.stored, phase] using own)
  | answered rows =>
    left
    exact committed (by simpa [Request.inserted, Request.stored, phase] using own)

theorem buildRows_issued {now : Time} {known : Known} {era first : Id} {events : List EventInput}
    {row : BoothEvent} (member : row ∈ buildRows now known era first events) :
    row.receivedAt = now ∧ asked events row = true := by
  obtain ⟨index, inside, rfl⟩ := List.mem_mapIdx.mp member
  refine ⟨rfl, List.any_eq_true.mpr ⟨events[index], List.getElem_mem inside, ?_⟩⟩
  exact decide_eq_true ⟨rfl, rfl⟩

/-- Rows taken over to the next phase were issued. -/
theorem Request.Issued.to {phase : Phase} (issued : self.Issued)
    (fewer : ∀ row ∈ { self with phase }.pending ++ { self with phase }.inserted,
      row ∈ self.pending ++ self.inserted) : { self with phase }.Issued := by
  obtain ⟨moment, rows⟩ := issued
  exact ⟨moment, fun row member => rows row (fewer row member)⟩

theorem Turn.issued {action : Action} {phase : Phase} {stored sent : List BoothEvent}
    (turn : Turn world self action phase stored sent) (issued : self.Issued) :
    { self with phase }.Issued := by
  cases turn with
  | @issue now known era first left =>
    refine ⟨now, fun row member => ?_⟩
    have built : row ∈ buildRows now known era first self.events := by
      simpa [Request.pending, Request.inserted] using member
    exact buildRows_issued built
  | skip left =>
    refine issued.to fun row member => ?_
    simp only [Request.pending, Request.inserted, left, List.mem_append, List.mem_cons] at member ⊢
    tauto
  | keep left _ _ =>
    refine issued.to fun row member => ?_
    simp only [Request.pending, Request.inserted, left, List.mem_append, List.mem_cons,
      List.not_mem_nil, or_false] at member ⊢
    tauto
  | commit left =>
    refine issued.to fun row member => ?_
    simpa [Request.pending, Request.inserted, left] using member
  | abort left =>
    refine issued.to fun row member => ?_
    simp [Request.pending, Request.inserted] at member
  | broadcast _ _ left =>
    refine issued.to fun row member => ?_
    simpa [Request.pending, Request.inserted, left] using member

/-- A turn adds the rows it stores to those of its request. -/
theorem Turn.stored {action : Action} {phase : Phase} {stored sent : List BoothEvent}
    (turn : Turn world self action phase stored sent) :
    { self with phase }.stored = self.stored ++ stored := by
  cases turn with
  | issue left => simp [Request.stored, left]
  | skip left => simp [Request.stored, left]
  | keep left _ _ => simp [Request.stored, left]
  | commit left => simp [Request.stored, left]
  | abort left => simp [Request.stored, left]
  | broadcast _ _ left => simp [Request.stored, left]

/-- A turn inserts a row no other has the key of, or nothing. -/
theorem Turn.inserted {action : Action} {phase : Phase} {stored sent : List BoothEvent}
    (turn : Turn world self action phase stored sent) (sound : Sound world) :
    { self with phase }.inserted.Sublist self.inserted ∨
      ∃ row, { self with phase }.inserted = self.inserted ++ [row] ∧
        ∀ request ∈ world.requests, ∀ other ∈ request.inserted, ¬ sameEvent other row := by
  cases turn with
  | issue left => exact .inl (List.nil_sublist _)
  | skip left => exact .inl (by simp [Request.inserted, left])
  | @keep row todo own left free unlocked =>
    refine .inr ⟨row, by simp [Request.inserted, left], fun request member other kept same => ?_⟩
    rcases sound.inserted_held member kept with stored | open_
    · exact free other (List.mem_append_left _ stored) same
    · exact unlocked request member other open_ same
  | commit left => exact .inl (by simp [Request.inserted, left])
  | abort left => exact .inl (List.nil_sublist _)
  | broadcast _ _ left => exact .inl (by simp [Request.inserted, left])

theorem Sound.step (sound : Sound world) {action : Action}
    (taken : step world action = some after) : Sound after := by
  rcases step_turn taken with ⟨events, rfl⟩ | ⟨self, phase, stored, sent, turn, moved⟩
  · refine ⟨?_, ?_, ?_⟩
    · simpa [Request.stored] using sound.stored
    · simpa [Request.inserted] using sound.distinct
    · intro request member
      rcases List.mem_append.mp member with old | new
      · exact sound.issued request old
      · rw [List.mem_singleton.mp new]
        exact ⟨0, by simp [Request.pending, Request.inserted]⟩
  obtain ⟨front, back, parts, replaced⟩ := moved.requests
  have here : self ∈ world.requests := by simp [parts]
  refine ⟨?_, ?_, ?_⟩
  · rw [moved.boothEvents, replaced]
    have before := sound.stored
    rw [parts] at before
    calc (world.boothEvents ++ stored).Perm
          (self.stored ++ (front ++ back).flatMap Request.stored ++ stored) :=
        (before.trans (flatMap_parts _ front back)).append_right _
      _ |>.Perm ({ self with phase }.stored ++ (front ++ back).flatMap Request.stored) := by
        rw [turn.stored, List.append_assoc, List.append_assoc]
        exact List.perm_append_comm.append_left _
      _ |>.Perm ((front ++ { self with phase } :: back).flatMap Request.stored) :=
        (flatMap_parts _ front back).symm
  · have before := sound.distinct
    rw [parts, pairwise_perm (flatMap_parts _ front back)] at before
    rw [replaced, pairwise_perm (flatMap_parts _ front back)]
    rcases turn.inserted sound with fewer | ⟨row, more, fresh⟩
    · exact before.sublist (fewer.append_right _)
    · rw [more]
      have moved : (self.inserted ++ [row] ++ (front ++ back).flatMap Request.inserted).Perm
          (row :: (self.inserted ++ (front ++ back).flatMap Request.inserted)) := by
        rw [List.append_assoc]
        exact List.perm_middle
      refine (pairwise_perm moved).mpr (List.pairwise_cons.mpr ⟨fun other member same => ?_, before⟩)
      obtain ⟨request, holder, kept⟩ : ∃ request ∈ world.requests, other ∈ request.inserted := by
        rcases List.mem_append.mp member with own | others
        · exact ⟨self, here, own⟩
        · obtain ⟨request, among, kept⟩ := List.mem_flatMap.mp others
          refine ⟨request, ?_, kept⟩
          rw [parts]
          rcases List.mem_append.mp among with first | second
          · exact List.mem_append_left _ first
          · exact List.mem_append_right _ (List.mem_cons_of_mem _ second)
      exact fresh request holder other kept (sameEvent_symm same)
  · intro request member
    rw [replaced, List.mem_append, List.mem_cons] at member
    rcases member with first | rfl | second
    · exact sound.issued request (by simp [parts, first])
    · exact turn.issued (sound.issued self here)
    · exact sound.issued request (by simp [parts, second])

/-! ## The rows of a broadcast -/

theorem Sound.own_stored (sound : Sound world) {own : List BoothEvent} (member : self ∈ world.requests)
    (left : self.phase = .committed own) :
    own.Nodup ∧ (∀ row ∈ own, row ∈ world.boothEvents ∧ asked self.events row = true) ∧
      ∃ moment, ∀ row ∈ own, row.receivedAt = moment := by
  have mine : self.inserted = own := by simp [Request.inserted, left]
  have kept : self.stored = own := by simp [Request.stored, left]
  obtain ⟨moment, issued⟩ := sound.issued self member
  have listed : ∀ row ∈ own, row ∈ self.pending ++ self.inserted := fun row there =>
    List.mem_append_right _ (mine ▸ there)
  refine ⟨?_, fun row there => ⟨?_, (issued row (listed row there)).2⟩, moment, fun row there =>
    (issued row (listed row there)).1⟩
  · have among : self.inserted.Sublist (world.requests.flatMap Request.inserted) := by
      obtain ⟨front, back, parts⟩ := List.append_of_mem member
      rw [parts, List.flatMap_append, List.flatMap_cons]
      exact (List.sublist_append_left _ _).trans (List.sublist_append_right _ _)
    exact mine ▸ nodup_of_apart (sound.distinct.sublist among)
  · exact sound.stored.mem_iff.mpr (List.mem_flatMap.mpr ⟨self, member, kept ▸ there⟩)

/-- The rows the selection finds are the request's own and those of others. -/
theorem Sound.selected (sound : Sound world) {own : List BoothEvent}
    (member : self ∈ world.requests) (left : self.phase = .committed own) :
    ∃ others, (world.boothEvents.filter (asked self.events)).Perm (others ++ own) ∧
      ∀ other ∈ others, other ∈ world.boothEvents ∧ asked self.events other = true ∧ other ∉ own := by
  classical
  obtain ⟨alone, stored, _⟩ := sound.own_stored member left
  let selected := world.boothEvents.filter (asked self.events)
  let ours : BoothEvent → Bool := fun row => row ∈ own
  have distinct : selected.Nodup := (nodup_of_apart sound.boothEvents_apart).filter _
  have mine : (selected.filter ours).Perm own := by
    refine (List.perm_ext_iff_of_nodup (distinct.filter _) alone).mpr fun row => ?_
    rw [List.mem_filter, decide_eq_true_iff]
    constructor
    · exact fun both => both.2
    · exact fun there => ⟨List.mem_filter.mpr (stored row there), there⟩
  refine ⟨selected.filter (! ours ·), ?_, fun other there => ?_⟩
  · calc selected.Perm (selected.filter ours ++ selected.filter (! ours ·)) :=
        (List.filter_append_perm _ selected).symm
      _ |>.Perm (selected.filter (! ours ·) ++ selected.filter ours) := List.perm_append_comm
      _ |>.Perm (selected.filter (! ours ·) ++ own) := mine.append_left _
  · obtain ⟨chosen, foreign⟩ := List.mem_filter.mp there
    obtain ⟨held, wanted⟩ := List.mem_filter.mp chosen
    exact ⟨held, wanted, by simpa [ours] using foreign⟩

/-- A broadcast is exact precisely when the batch's other rows were issued before. -/
theorem exact_iff_spaced (sound : Sound world) (action : Action) :
    Exact world action ↔ Spaced world action := by
  cases action with
  | broadcast request place =>
    refine forall_congr' fun self => forall_congr' fun own => forall_congr' fun found =>
      forall_congr' fun left => ?_
    have member : self ∈ world.requests := List.mem_of_getElem? found
    obtain ⟨_, _, moment, issued⟩ := sound.own_stored member left
    constructor
    · intro exact_ other held wanted foreign row mine
      rw [issued row mine]
      by_contra late
      have some_ : own ≠ [] := List.ne_nil_of_mem mine
      obtain ⟨place, misses⟩ := Tail.rtake_inOrder_foreign some_ issued
        (List.mem_filter.mpr ⟨held, wanted⟩) foreign (not_lt.mp late)
      refine misses ?_
      have sent := exact_ place
      rwa [World.fresh, if_neg (mt List.length_eq_zero_iff.mp some_)] at sent
    · intro spaced place
      unfold World.fresh
      split
      · rename_i none_
        rw [List.length_eq_zero_iff.mp none_]
      · rename_i some_
        obtain ⟨others, parts, foreign⟩ := sound.selected member left
        obtain ⟨row, mine⟩ := List.exists_mem_of_ne_nil own (mt List.length_eq_zero_iff.mpr some_)
        refine Tail.rtake_inOrder place parts issued fun other there => ?_
        obtain ⟨held, wanted, apart⟩ := foreign other there
        exact issued row mine ▸ spaced other held wanted apart row mine
  | arrive events => exact Iff.rfl
  | issue request now known era => exact Iff.rfl
  | insert request => exact Iff.rfl
  | commit request => exact Iff.rfl
  | abort request => exact Iff.rfl

/-! ## Deliveries -/

/-- What has been broadcast are the rows of the requests that have answered. -/
structure Sent (world : World) : Prop where
  broadcast : world.broadcast.Perm (world.requests.flatMap Request.delivered)
  notified : world.notified = world.broadcast.filter started

theorem Turn.delivered {action : Action} {phase : Phase} {stored sent : List BoothEvent}
    (turn : Turn world self action phase stored sent) (exact_ : Exact world action) :
    (self.delivered ++ sent).Perm { self with phase }.delivered := by
  cases turn with
  | issue left => simp [Request.delivered, left]
  | skip left => simp [Request.delivered, left]
  | keep left _ _ => simp [Request.delivered, left]
  | commit left => simp [Request.delivered, left]
  | abort left => simp [Request.delivered, left]
  | @broadcast request place own same found left =>
    subst same
    simpa [Request.delivered, left] using exact_ self own found left place

theorem Sent.step (sent : Sent world) {action : Action} (exact_ : Exact world action)
    (taken : step world action = some after) : Sent after := by
  rcases step_turn taken with ⟨events, rfl⟩ | ⟨self, phase, stored, rows, turn, moved⟩
  · refine ⟨?_, sent.notified⟩
    simpa [Request.delivered] using sent.broadcast
  obtain ⟨front, back, parts, replaced⟩ := moved.requests
  refine ⟨?_, ?_⟩
  · have before := sent.broadcast
    rw [parts] at before
    rw [moved.broadcast, replaced]
    calc (world.broadcast ++ rows).Perm
          (self.delivered ++ (front ++ back).flatMap Request.delivered ++ rows) :=
        (before.trans (flatMap_parts _ front back)).append_right _
      _ |>.Perm (self.delivered ++ rows ++ (front ++ back).flatMap Request.delivered) := by
        rw [List.append_assoc, List.append_assoc]
        exact List.perm_append_comm.append_left _
      _ |>.Perm ({ self with phase }.delivered ++ (front ++ back).flatMap Request.delivered) :=
        (turn.delivered exact_).append_right _
      _ |>.Perm ((front ++ { self with phase } :: back).flatMap Request.delivered) :=
        (flatMap_parts _ front back).symm
  · rw [moved.notified, moved.broadcast, List.filter_append, sent.notified]

theorem delivered_sublist (request : Request) : request.delivered.Sublist request.stored := by
  unfold Request.delivered Request.stored
  cases request.phase with
  | resolved => exact List.Sublist.refl _
  | inserting todo own => exact List.Sublist.refl _
  | committed own => exact List.nil_sublist _
  | answered own => exact List.Sublist.refl _

theorem Sent.delivered (sent : Sent world) (sound : Sound world) : Delivered world := by
  have distinct := nodup_of_apart sound.boothEvents_apart
  have fewer : (world.requests.flatMap Request.delivered).Sublist
      (world.requests.flatMap Request.stored) :=
    List.Sublist.flatMap_right world.requests fun request _ => delivered_sublist request
  have stored := sound.stored.nodup_iff.mp distinct
  refine ⟨distinct, sent.broadcast.nodup_iff.mpr (stored.sublist fewer), ?_, ?_, ?_, sent.notified⟩
  · intro row there
    exact sound.stored.mem_iff.mpr (fewer.subset (sent.broadcast.mem_iff.mp there))
  · intro request member row own
    exact sent.broadcast.mem_iff.mpr (List.mem_flatMap.mpr ⟨request, member, own⟩)
  · intro quiet
    have same : world.requests.flatMap Request.delivered = world.requests.flatMap Request.stored := by
      refine List.flatMap_congr fun request member => ?_
      cases left : request.phase with
      | resolved => simp [Request.delivered, Request.stored, left]
      | inserting todo own => simp [Request.delivered, Request.stored, left]
      | committed own => exact absurd left (quiet request member own)
      | answered own => simp [Request.delivered, Request.stored, left]
    exact (same ▸ sent.broadcast).trans sound.stored.symm

end Steps

theorem sound_start : Sound {} := ⟨by simp, by simp, by simp⟩

/-- In a run a request broadcasts exactly the rows it inserted, precisely when
whatever other rows of its batch are stored by then were issued before its own;
and then every event is broadcast and notified once. -/
theorem broadcasts_exact_iff (actions : List Action) :
    (Along step (fun world action _ => Exact world action) {} actions ↔
      Along step (fun world action _ => Spaced world action) {} actions) ∧
    (Along step (fun world action _ => Spaced world action) {} actions →
      Along step (fun _ _ after => Delivered after) {} actions) := by
  have kept : ∀ {allowed : World → Action → World → Prop} world action after, Sound world →
      allowed world action after → step world action = some after → Sound after :=
    fun _ _ _ sound _ taken => sound.step taken
  refine ⟨⟨?_, ?_⟩, ?_⟩
  · refine Along.of_invariant kept (fun world action after sound _ exact_ _ => ?_) sound_start
    exact (exact_iff_spaced sound action).mp exact_
  · refine Along.of_invariant kept (fun world action after sound _ spaced _ => ?_) sound_start
    exact (exact_iff_spaced sound action).mpr spaced
  · have step_both : ∀ world action after, Sound world ∧ Sent world → Spaced world action →
        step world action = some after → Sound after ∧ Sent after := by
      intro world action after both spaced taken
      have exact_ := (exact_iff_spaced both.1 action).mpr spaced
      exact ⟨both.1.step taken, both.2.step exact_ taken⟩
    have start : Sound {} ∧ Sent {} := ⟨sound_start, by simp, rfl⟩
    exact Along.of_invariant step_both (fun _ _ _ _ both _ _ => both.2.delivered both.1) start

/-- The first batch issues its insert before the second, which shares an event
with it, but the database takes the second insert first. -/
def overtaken : List Action :=
  let known : Known := ⟨[], []⟩
  [.arrive [callEvent "e-1" .callStarted .null, callEvent "e-2" .callEnded .null],
    .arrive [callEvent "e-1" .callStarted .null],
    .issue 0 1 known 0, .issue 1 2 known 0,
    .insert 1, .commit 1, .broadcast 1 fun _ => 0,
    .insert 0, .insert 0, .commit 0]

/-- The first request sends the other's event again and its own never. -/
theorem overtaken_misdelivers : ¬ ∀ actions : List Action,
    Along step (fun world action after => Exact world action ∧ Delivered after) {} actions := by
  intro delivers
  let last : Action := .broadcast 0 fun _ => 0
  have sent : ((exec step {} (overtaken ++ [last])).map fun after =>
      ((after.requests.flatMap Request.delivered).map (·.eventId),
        after.broadcast.map (·.eventId))) = some (["e-2", "e-1"], ["e-1", "e-1"]) := by
    decide +kernel
  obtain ⟨after, ran, lists⟩ := Option.map_eq_some_iff.mp sent
  obtain ⟨inserted, broadcast⟩ := Prod.mk.inj lists
  rw [exec_append, Option.bind_eq_some_iff] at ran
  obtain ⟨before, first, ran⟩ := ran
  obtain ⟨_, taken, same⟩ := Option.bind_eq_some_iff.mp ran
  cases same
  obtain ⟨_, delivered⟩ := (delivers (overtaken ++ [last])).last first taken
  have own : "e-2" ∈ (after.requests.flatMap Request.delivered).map (·.eventId) := by
    rw [inserted]
    decide
  obtain ⟨row, member, named⟩ := List.mem_map.mp own
  obtain ⟨request, there, member⟩ := List.mem_flatMap.mp member
  have heard : "e-2" ∈ after.broadcast.map (·.eventId) :=
    List.mem_map.mpr ⟨row, delivered.answered request there row member, named⟩
  rw [broadcast] at heard
  exact absurd heard (by decide)

end BoothOperator.Events.Broadcasts
