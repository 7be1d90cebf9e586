import BoothOperator.Push.Apns

/-! Whose a device is, in every run: requests of the operators, patches that overtake one another
and the sender's own revocations. -/
namespace BoothOperator.Push

open BoothOperator.Schema

namespace ApnsWorld

variable {world after : ApnsWorld} {event : ApnsEvent} {events : List ApnsEvent}

/-! ## The rows over a run -/

/-- What the rows keep: one for each id and each address, and preferences as they are written. -/
structure RowsSound (rows : List MobileDevice) : Prop where
  ids : rows.map (·.id) = List.range rows.length
  addresses : (rows.map MobileDevice.address).Nodup
  columns : ∀ row ∈ rows, ∃ preferences : MobileDevicePreferences,
    row.preferences = preferences.column

section Rows

variable {rows changed : List MobileDevice}

theorem RowsSound.spared (sound : RowsSound rows) (spared : Spared rows changed) :
    RowsSound changed := by
  obtain ⟨found, change, spares, rfl⟩ := spared
  refine ⟨?_, ?_, ?_⟩
  · rw [Table.map_updateMany _ spares.id, sound.ids, Table.updateMany, List.length_map]
  · rw [Table.map_updateMany _ spares.address]
    exact sound.addresses
  · intro row member
    obtain ⟨old, there, rfl⟩ := Table.mem_updateMany.mp member
    split
    · exact spares.column old (sound.columns old there)
    · exact sound.columns old there

theorem RowsSound.register (sound : RowsSound rows) (userId : String)
    (body : RegisterMobileDeviceRequest) (now : Time) :
    RowsSound (registerDevice userId body now rows) := by
  have ids (old : MobileDevice) :
      (reregistered now old (createdDevice userId body now rows.length)).id = old.id := rfl
  have addresses (old : MobileDevice) :
      (reregistered now old (createdDevice userId body now rows.length)).address = old.address :=
    rfl
  unfold registerDevice Table.upsert
  split
  · refine ⟨?_, ?_, ?_⟩
    · rw [Table.map_updateMany _ ids, sound.ids, Table.updateMany, List.length_map]
    · rw [Table.map_updateMany _ addresses]
      exact sound.addresses
    · intro row member
      obtain ⟨old, there, rfl⟩ := Table.mem_updateMany.mp member
      split
      · exact ⟨_, rfl⟩
      · exact sound.columns old there
  · rename_i fresh
    refine ⟨?_, ?_, ?_⟩
    · rw [List.map_append, sound.ids, List.length_append, List.length_singleton, List.range_succ]
      rfl
    · rw [List.map_append, List.map_singleton]
      refine List.nodup_append.mpr ⟨sound.addresses, List.nodup_singleton _, ?_⟩
      rintro used member other new rfl
      obtain ⟨old, there, same⟩ := List.mem_map.mp member
      refine fresh (List.any_eq_true.mpr ⟨old, there, decide_eq_true ?_⟩)
      exact same.trans (List.mem_singleton.mp new)
    · intro row member
      rcases List.mem_append.mp member with old | new
      · exact sound.columns row old
      · rw [List.mem_singleton.mp new]
        exact ⟨_, rfl⟩

/-- Whom the device at an address belongs to. -/
def ownerOf (rows : List MobileDevice) (address : String × String) : Option String :=
  (Table.findUnique MobileDevice.address address rows).map (·.userId)

theorem ownerOf_spared (spared : Spared rows changed) (address : String × String) :
    ownerOf changed address = ownerOf rows address := by
  obtain ⟨found, change, spares, rfl⟩ := spared
  rw [ownerOf, ownerOf, Table.findUnique_updateMany spares.address, Option.map_map]
  congr 1
  funext row
  simp only [Function.comp]
  split
  · exact spares.userId row
  · rfl

theorem ownerOf_register (userId : String) (body : RegisterMobileDeviceRequest) (now : Time)
    (rows : List MobileDevice) (address : String × String) :
    ownerOf (registerDevice userId body now rows) address =
      if body.address = address then some userId else ownerOf rows address := by
  rw [registerDevice, Table.upsert]
  by_cases stored : (rows.any fun old => old.address =
      (createdDevice userId body now rows.length).address) = true
  · rw [if_pos stored]
    obtain ⟨one, member, same⟩ := List.any_eq_true.mp stored
    have same : one.address = body.address := of_decide_eq_true same
    have kept (old : MobileDevice) :
        (reregistered now old (createdDevice userId body now rows.length)).address = old.address :=
      rfl
    rw [ownerOf, ownerOf, Table.findUnique_updateMany kept, Option.map_map]
    by_cases own : body.address = address
    · rw [if_pos own]
      cases found : Table.findUnique MobileDevice.address address rows with
      | none => exact absurd (same.trans own) (Table.findUnique_eq_none.mp found one member)
      | some old =>
        have named : old.address = body.address := (Table.findUnique_mem found).2.trans own.symm
        have matched : decide (old.address = body.address) = true := decide_eq_true named
        simp only [Option.map_some, Function.comp]
        exact congrArg some (congrArg MobileDevice.userId (if_pos matched))
    · rw [if_neg own]
      cases found : Table.findUnique MobileDevice.address address rows with
      | none => rfl
      | some old =>
        have other : ¬decide (old.address = body.address) = true := by
          rw [decide_eq_true_iff]
          exact fun same => own (same.symm.trans (Table.findUnique_mem found).2)
        simp only [Option.map_some, Function.comp]
        exact congrArg some (congrArg MobileDevice.userId (if_neg other))
  · rw [if_neg stored, ownerOf, ownerOf, Table.findUnique_append_single]
    by_cases own : body.address = address
    · have missing : Table.findUnique MobileDevice.address address rows = none := by
        refine Table.findUnique_eq_none.mpr fun old member same => stored ?_
        exact List.any_eq_true.mpr ⟨old, member, decide_eq_true (same.trans own.symm)⟩
      rw [if_pos own, missing, Option.none_or]
      exact congrArg (Option.map MobileDevice.userId) (if_pos own)
    · rw [if_neg own]
      have none : (if body.address = address then some (createdDevice userId body now rows.length)
          else none) = none := if_neg own
      exact congrArg (Option.map MobileDevice.userId) ((congrArg _ none).trans (Option.or_none ..))

/-- A revoked row is not found active in the rows of another registration. -/
theorem revoked_step {row : MobileDevice} (member : row ∈ rows) (revoked : row.revokedAt ≠ none)
    (moved : Spared rows changed ∨ ∃ userId body now, body.address ≠ row.address ∧
      changed = registerDevice userId body now rows) :
    ∃ later ∈ changed, later.id = row.id ∧ later.address = row.address ∧
      later.revokedAt ≠ none := by
  rcases moved with ⟨found, change, spares, rfl⟩ | ⟨userId, body, now, other, rfl⟩
  · refine ⟨_, Table.mem_updateMany.mpr ⟨row, member, rfl⟩, ?_⟩
    split
    · exact ⟨spares.id row, spares.address row, spares.revoked row revoked⟩
    · exact ⟨rfl, rfl, revoked⟩
  · unfold registerDevice Table.upsert
    split
    · refine ⟨row, Table.mem_updateMany.mpr ⟨row, member, ?_⟩, rfl, rfl, revoked⟩
      have apart : ¬decide (row.address = body.address) = true := by
        rw [decide_eq_true_iff]
        exact fun same => other same.symm
      exact (if_neg apart).symm
    · exact ⟨row, List.mem_append_left _ member, rfl, rfl, revoked⟩

end Rows

theorem RowsSound.moved (sound : RowsSound world.rows) (moved : RowsMoved world event after.rows) :
    RowsSound after.rows := by
  unfold RowsMoved at moved
  split at moved
  · rw [moved]
    exact sound.register _ _ _
  · exact sound.spared moved

/-- Who registered a token on a platform last. -/
def lastRegistrant (address : String × String) : List ApnsEvent → Option String
  | [] => none
  | event :: rest =>
    (lastRegistrant address rest).or
      ((registration event).bind fun entry =>
        if entry.2.address = address then some entry.1 else none)

theorem ownerOf_step (taken : world.step event = some after) (address : String × String) :
    ownerOf after.rows address =
      ((registration event).bind fun entry =>
        if entry.2.address = address then some entry.1 else none).or
          (ownerOf world.rows address) := by
  have moved := (step_cases taken).2
  unfold RowsMoved at moved
  split at moved
  · rename_i userId body its
    rw [moved, ownerOf_register, its]
    simp only [Option.bind_some]
    split
    · rfl
    · rfl
  · rename_i its
    rw [ownerOf_spared moved, its]
    rfl

theorem ownerOf_exec (ran : Run.exec step world events = some after) (address : String × String) :
    ownerOf after.rows address =
      (lastRegistrant address events).or (ownerOf world.rows address) := by
  induction events generalizing world with
  | nil =>
    cases ran
    rfl
  | cons event rest ih =>
    obtain ⟨next, taken, ran⟩ := Option.bind_eq_some_iff.mp ran
    rw [ih ran, ownerOf_step taken, lastRegistrant, Option.or_assoc]

theorem rowsSound_of_exec (sound : RowsSound world.rows)
    (ran : Run.exec step world events = some after) : RowsSound after.rows := by
  induction events generalizing world with
  | nil =>
    cases ran
    exact sound
  | cons event rest ih =>
    obtain ⟨next, taken, ran⟩ := Option.bind_eq_some_iff.mp ran
    exact ih (sound.moved (step_cases taken).2) ran

theorem rowsSound_of_fresh (fresh : Fresh world) : RowsSound world.rows := by
  rw [fresh.1]
  exact ⟨rfl, List.nodup_nil, fun _ member => absurd member List.not_mem_nil⟩

/-- Whatever patches, removals and pushes come in between, a token on a platform has one device, and
it belongs to whoever registered it last. -/
theorem device_owner_is_last_registrant (fresh : Fresh world)
    (ran : Run.exec step world events = some after) :
    (after.rows.map MobileDevice.address).Nodup ∧
      ∀ address, ownerOf after.rows address = lastRegistrant address events := by
  refine ⟨(rowsSound_of_exec (rowsSound_of_fresh fresh) ran).addresses, fun address => ?_⟩
  rw [ownerOf_exec ran, fresh.1]
  exact Option.or_none ..

/-- A patch of the old owner lands after the token went over to another operator. -/
def handover : List ApnsEvent :=
  [.register "ada" { apnsToken := "token", platform := "ios" },
    .patch "ada" 0 { preferences := some { callStarted := some false } }, .patchStep 0,
    .register "grace" { apnsToken := "token", platform := "ios" }, .patchStep 0]

theorem device_owner_is_last_registrant_run :
    ∃ after, Run.exec step {} handover = some after ∧
      ownerOf after.rows ("token", "ios") = some "grace" := by
  refine ⟨_, rfl, ?_⟩
  exact (device_owner_is_last_registrant ⟨rfl, rfl, rfl, rfl, rfl⟩
    (rfl : Run.exec step {} handover = some _)).2 ("token", "ios")

end ApnsWorld

end BoothOperator.Push
