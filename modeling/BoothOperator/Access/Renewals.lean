import BoothOperator.Access.Lifetime
import BoothOperator.Lib.Run

/-! The requests of a session, which overlap. `readValidSession` reads the row, judges what it has
read, waits for the refresh of the tokens and the revalidation of the account, computes the next
expiry and writes it; between any two of these steps other requests take theirs. The write does not
look at the expiry that is stored by then, and a request that has judged its session expired deletes
the row all the same. -/
namespace BoothOperator.Access.Renewals

/-- What a request awaits. `known` are the uses that were over when it read the row. -/
inductive Stage where
  | read
  | touch (session : OperatorSession) (known : List Int)
  | live (session : OperatorSession) (checkedAt : Int)
  | extend (session : OperatorSession) (checkedAt computedAt : Int)
  | destroy (expired : Bool)
  | finished
  deriving DecidableEq

/-- Whether the row is there, or was deleted over its expiry or for another reason. -/
inductive Presence where
  | stored | expired | ended
  deriving DecidableEq

/-- A request that is not accepted because the life of the session is over. -/
structure Refusal where
  at_ : Int
  known : List Int
  deriving DecidableEq

structure Lifespan where
  now : Int
  /-- The row, or what it was when it was deleted, and all it has been. -/
  session : OperatorSession
  versions : List OperatorSession
  presence : Presence := .stored
  calls : List Stage := []
  /-- When the expiry that is stored was computed. -/
  renewedAt : Int
  /-- When the accepted requests were judged, and those of them whose renewal did not fail. -/
  served : List Int := []
  uses : List Int
  refusals : List Refusal := []
  deriving DecidableEq

/-- A session that has been created, which is its first use. -/
def start (session : OperatorSession) (computedAt : Int) : Lifespan where
  now := session.createdAt
  session
  versions := [session]
  renewedAt := computedAt
  uses := [session.createdAt]

inductive Act where
  | request
  | advance (index : Nat) (ok : Bool)
  /-- The refresh or the revalidation returns a version of the row, or leaves no session. -/
  | reread (index : Nat) (version : OperatorSession)
  | leave (index : Nat)
  /-- A logout. -/
  | delete
  | tick (ms : Nat)
  deriving DecidableEq

namespace Lifespan

def setCall (world : Lifespan) (index : Nat) (stage : Stage) : Lifespan :=
  { world with calls := world.calls.set index stage }

def refuse (world : Lifespan) (known : List Int) : Lifespan :=
  { world with refusals := ⟨world.now, known⟩ :: world.refusals }

def serve (world : Lifespan) (checkedAt : Int) : Lifespan :=
  { world with served := checkedAt :: world.served }

def use (world : Lifespan) (checkedAt : Int) : Lifespan :=
  { world with uses := checkedAt :: world.uses }

variable (env : SessionEnv)

/-- The renewal that was computed then is written. -/
def renew (world : Lifespan) (session : OperatorSession) (computedAt : Int) : Lifespan :=
  let row := { world.session with expiresAt := sessionExpiresAt env computedAt session.createdAt }
  { world with session := row, versions := row :: world.versions, renewedAt := computedAt }

/-- The turn of a request; `ok` says whether the database does what it awaits. -/
def advance (world : Lifespan) (index : Nat) (ok : Bool) : Stage → Option Lifespan
  | .read =>
    if ok = false then some (world.setCall index .finished)
    else match world.presence with
      | .stored => some (world.setCall index (.touch world.session world.uses))
      | .expired => some ((world.refuse world.uses).setCall index .finished)
      | .ended => some (world.setCall index .finished)
  | .touch session known =>
    if ok = false then some (world.setCall index .finished)
    else match world.presence with
      | .stored =>
        if sessionIsExpired env world.now session then
          some ((world.refuse known).setCall index (.destroy true))
        else some (world.setCall index (.live session world.now))
      -- the update throws for a row that is gone
      | .expired => some ((world.refuse known).setCall index .finished)
      | .ended => some (world.setCall index .finished)
  | .live session checkedAt =>
    if sessionExpiresAt env world.now session.createdAt - session.expiresAt <
        renewalIntervalMs env then
      some (((world.use checkedAt).serve checkedAt).setCall index .finished)
    else some (world.setCall index (.extend session checkedAt world.now))
  | .extend session checkedAt computedAt =>
    -- a renewal that is lost is not fatal
    if ok = false ∨ world.presence ≠ .stored then
      some ((world.serve checkedAt).setCall index .finished)
    else
      some ((((world.renew env session computedAt).use checkedAt).serve checkedAt).setCall index
        .finished)
  | .destroy expired =>
    if ok = false ∨ world.presence ≠ .stored then some (world.setCall index .finished)
    else some { world.setCall index .finished with
      presence := if expired then .expired else .ended }
  | .finished => none

def step (world : Lifespan) : Act → Option Lifespan
  | .request => some { world with calls := world.calls ++ [.read] }
  | .advance index ok => world.calls[index]?.bind (world.advance env index ok)
  | .reread index version =>
    match world.calls[index]? with
    | some (.live _ checkedAt) =>
      if version ∈ world.versions then some (world.setCall index (.live version checkedAt)) else none
    | _ => none
  | .leave index =>
    match world.calls[index]? with
    | some (.live _ _) => some (world.setCall index (.destroy false))
    | _ => none
  | .delete => some { world with presence := if world.presence = .stored then .ended else world.presence }
  | .tick ms => some { world with now := world.now + ms }

/-- A renewal is written after those that were computed before it, unless it reaches the ceiling, and
a row that is deleted over its expiry has expired. -/
def SettledCall (world : Lifespan) : Stage → Prop
  | .extend session _ computedAt => world.renewedAt ≤ computedAt ∨
    0 < absoluteTtlSeconds env ∧
      session.createdAt + absoluteTtlSeconds env * 1000 ≤ computedAt + idleTtlSeconds env * 1000
  | .destroy true => sessionIsExpired env world.now world.session = true
  | _ => True

instance (world : Lifespan) : (stage : Stage) → Decidable (world.SettledCall env stage)
  | .extend _ _ _ => inferInstanceAs (Decidable (_ ∨ _ ∧ _))
  | .destroy true => inferInstanceAs (Decidable (_ = _))
  | .destroy false | .read | .touch _ _ | .live _ _ | .finished => isTrue trivial

def Settled (world : Lifespan) : Act → Prop
  | .advance index true => world.presence = .stored →
    ∀ stage ∈ world.calls[index]?, world.SettledCall env stage
  | _ => True

instance (world : Lifespan) : (act : Act) → Decidable (world.Settled env act)
  | .advance _ true => inferInstanceAs (Decidable (_ → _))
  | .advance _ false | .request | .reread _ _ | .leave _ | .delete | .tick _ => isTrue trivial

/-- The bounds of a life: no request is accepted at the ceiling or after it; none is refused that
comes, earlier than a renewal interval before the ceiling, soon enough after a use that was over when
it read the row; and the stored expiry does not move back or pass the ceiling. -/
structure Bounded (before after : Lifespan) : Prop where
  ceiling : 0 < absoluteTtlSeconds env → ∀ checkedAt ∈ after.served,
    checkedAt < after.session.createdAt + absoluteTtlSeconds env * 1000
  accepted : ∀ refusal ∈ after.refusals, ∀ use ∈ refusal.known,
    refusal.at_ - use ≤ idleTtlSeconds env * 1000 - renewalIntervalMs env →
      0 < absoluteTtlSeconds env ∧ after.session.createdAt + absoluteTtlSeconds env * 1000 -
        renewalIntervalMs env ≤ refusal.at_
  forward : before.session.expiresAt ≤ after.session.expiresAt
  within : WithinCeiling env after.session

/-! ## The invariant -/

/-- What a request holds is a version of the row, with the uses that it knew then behind it. -/
def StageSound (world : Lifespan) : Stage → Prop
  | .touch session known => session ∈ world.versions ∧ ∀ use ∈ known, Trails env use session
  | .live session checkedAt => session ∈ world.versions ∧ checkedAt ≤ world.now ∧
    (0 < absoluteTtlSeconds env →
      checkedAt < world.session.createdAt + absoluteTtlSeconds env * 1000)
  | .extend session checkedAt computedAt => session ∈ world.versions ∧ checkedAt ≤ computedAt ∧
    (0 < absoluteTtlSeconds env →
      checkedAt < world.session.createdAt + absoluteTtlSeconds env * 1000)
  | .read | .destroy _ | .finished => True

structure Sound (world : Lifespan) : Prop where
  current : world.session ∈ world.versions
  versions : ∀ version ∈ world.versions, version.createdAt = world.session.createdAt ∧
    version.expiresAt ≤ world.session.expiresAt
  calls : ∀ stage ∈ world.calls, world.StageSound env stage
  uses : ∀ use ∈ world.uses, Trails env use world.session
  renewed : world.session.expiresAt ≤
    sessionExpiresAt env world.renewedAt world.session.createdAt
  within : WithinCeiling env world.session
  gone : world.presence = .expired → sessionIsExpired env world.now world.session = true
  ceiling : 0 < absoluteTtlSeconds env → ∀ checkedAt ∈ world.served,
    checkedAt < world.session.createdAt + absoluteTtlSeconds env * 1000
  refusals : ∀ refusal ∈ world.refusals, ∀ use ∈ refusal.known,
    refusal.at_ - use ≤ idleTtlSeconds env * 1000 - renewalIntervalMs env →
      0 < absoluteTtlSeconds env ∧ world.session.createdAt + absoluteTtlSeconds env * 1000 -
        renewalIntervalMs env ≤ refusal.at_

section Steps

variable {env} {world after : Lifespan} {session version : OperatorSession} {stage : Stage}
  {index : Nat} {checkedAt computedAt : Int} {known : List Int}

/-- The row of a later world may be a later version. -/
theorem StageSound.grows (sound : world.StageSound env stage)
    (versions : ∀ version ∈ world.versions, version ∈ after.versions)
    (created : after.session.createdAt = world.session.createdAt) (now : world.now ≤ after.now) :
    after.StageSound env stage := by
  cases stage with
  | touch session known => exact ⟨versions session sound.1, sound.2⟩
  | live session checkedAt =>
    obtain ⟨version, past, ceiling⟩ := sound
    refine ⟨versions session version, past.trans now, ?_⟩
    rw [created]
    exact ceiling
  | extend session checkedAt computedAt =>
    obtain ⟨version, past, ceiling⟩ := sound
    refine ⟨versions session version, past, ?_⟩
    rw [created]
    exact ceiling
  | read | destroy _ | finished => trivial

theorem Sound.setCall (sound : world.Sound env) (own : world.StageSound env stage) :
    (world.setCall index stage).Sound env := by
  refine { sound with calls := ?_ }
  intro other member
  rcases List.mem_or_eq_of_mem_set member with old | rfl
  · exact sound.calls other old
  · exact own

/-- A use that the stored expiry trails. -/
theorem Sound.use (sound : world.Sound env) (trails : Trails env checkedAt world.session) :
    (world.use checkedAt).Sound env := by
  refine { sound with uses := ?_ }
  intro use member
  rcases List.mem_cons.mp member with rfl | old
  · exact trails
  · exact sound.uses use old

theorem Sound.serve (sound : world.Sound env) (early : 0 < absoluteTtlSeconds env →
      checkedAt < world.session.createdAt + absoluteTtlSeconds env * 1000) :
    (world.serve checkedAt).Sound env := by
  refine { sound with ceiling := ?_ }
  intro on served member
  rcases List.mem_cons.mp member with rfl | old
  · exact early on
  · exact sound.ceiling on served old

/-- An expired version of the row is refused long after the uses it knew, or close to the ceiling. -/
theorem Sound.refuse (sound : world.Sound env) (version : session ∈ world.versions)
    (expired : sessionIsExpired env world.now session = true)
    (trails : ∀ use ∈ known, Trails env use session) : (world.refuse known).Sound env := by
  refine { sound with refusals := ?_ }
  intro refusal member
  rcases List.mem_cons.mp member with rfl | old
  · intro use there gap
    have created := (sound.versions session version).1
    by_contra neither
    have early (on : 0 < absoluteTtlSeconds env) : world.now < session.createdAt +
        absoluteTtlSeconds env * 1000 - renewalIntervalMs env := by
      rw [created]
      exact Int.not_le.mp (not_and.mp neither on)
    have live := not_expired_of_trails (trails use there) gap early
    rw [live] at expired
    cases expired
  · exact sound.refusals refusal old

/-- A renewal in order moves the expiry on. -/
theorem Sound.renew_le (sound : world.Sound env) (version : session ∈ world.versions)
    (settled : world.SettledCall env (.extend session checkedAt computedAt)) :
    world.session.expiresAt ≤ sessionExpiresAt env computedAt session.createdAt := by
  have created := (sound.versions session version).1
  rcases settled with later | ⟨on, reaches⟩
  · rw [created]
    exact sound.renewed.trans (sessionExpiresAt_mono later)
  · have clipped : sessionExpiresAt env computedAt session.createdAt =
        session.createdAt + absoluteTtlSeconds env * 1000 := by
      unfold sessionExpiresAt
      rw [if_neg (by omega)]
      exact Int.min_eq_right reaches
    rw [clipped, created]
    exact sound.within on

theorem Sound.renew (sound : world.Sound env) (version : session ∈ world.versions)
    (stored : world.presence = .stored)
    (settled : world.SettledCall env (.extend session checkedAt computedAt)) :
    (world.renew env session computedAt).Sound env := by
  have created := (sound.versions session version).1
  have forward := sound.renew_le version settled
  refine ⟨List.mem_cons_self, ?_, ?_, ?_, ?_, ?_, ?_, sound.ceiling, sound.refusals⟩
  · intro other member
    rcases List.mem_cons.mp member with rfl | old
    · exact ⟨rfl, Int.le_refl _⟩
    · obtain ⟨same, le⟩ := sound.versions other old
      exact ⟨same, le.trans forward⟩
  · intro stage member
    exact (sound.calls stage member).grows (fun _ there => List.mem_cons_of_mem _ there) rfl
      (Int.le_refl _)
  · intro use member
    have trails := sound.uses use member
    unfold Trails at trails ⊢
    simp only [Lifespan.renew]
    omega
  · simp only [Lifespan.renew, created]
    exact Int.le_refl _
  · intro on
    simp only [Lifespan.renew, created]
    exact sessionExpiresAt_le_ceiling on
  · intro expired
    rw [Lifespan.renew, stored] at expired
    cases expired

theorem Sound.advance {ok : Bool} (sound : world.Sound env) (there : world.calls[index]? = some stage)
    (settled : world.Settled env (.advance index ok))
    (taken : world.advance env index ok stage = some after) :
    after.Sound env ∧ world.session.expiresAt ≤ after.session.expiresAt := by
  have own := sound.calls stage (List.mem_of_getElem? there)
  have finished : (world.setCall index .finished).Sound env := sound.setCall trivial
  cases stage with
  | read =>
    simp only [Lifespan.advance] at taken
    split at taken
    · cases taken
      exact ⟨finished, Int.le_refl _⟩
    split at taken
    · cases taken
      exact ⟨sound.setCall ⟨sound.current, sound.uses⟩, Int.le_refl _⟩
    · rename_i gone
      cases taken
      exact ⟨(sound.refuse sound.current (sound.gone gone) sound.uses).setCall trivial, Int.le_refl _⟩
    · cases taken
      exact ⟨finished, Int.le_refl _⟩
  | touch session known =>
    obtain ⟨version, trails⟩ := own
    obtain ⟨created, le⟩ := sound.versions session version
    simp only [Lifespan.advance] at taken
    split at taken
    · cases taken
      exact ⟨finished, Int.le_refl _⟩
    split at taken
    · split at taken
      · rename_i expired
        cases taken
        exact ⟨(sound.refuse version expired trails).setCall trivial, Int.le_refl _⟩
      · rename_i live
        cases taken
        have early := (not_expired (Bool.not_eq_true _ ▸ live)).2
        rw [created] at early
        exact ⟨sound.setCall ⟨version, Int.le_refl _, early⟩, Int.le_refl _⟩
    · rename_i gone
      cases taken
      have expired := expired_of_le (sound.gone gone) (Int.le_refl _) created le
      exact ⟨(sound.refuse version expired trails).setCall trivial, Int.le_refl _⟩
    · cases taken
      exact ⟨finished, Int.le_refl _⟩
  | live session checkedAt =>
    obtain ⟨version, past, early⟩ := own
    obtain ⟨created, le⟩ := sound.versions session version
    simp only [Lifespan.advance] at taken
    split at taken
    · rename_i short
      cases taken
      have trails : Trails env checkedAt world.session := by
        have earned := @sessionExpiresAt_mono env _ _ session.createdAt past
        unfold Trails
        rw [← created]
        omega
      exact ⟨((sound.use trails).serve early).setCall trivial, Int.le_refl _⟩
    · cases taken
      exact ⟨sound.setCall ⟨version, past, early⟩, Int.le_refl _⟩
  | extend session checkedAt computedAt =>
    obtain ⟨version, past, early⟩ := own
    obtain ⟨created, le⟩ := sound.versions session version
    simp only [Lifespan.advance] at taken
    split at taken
    · cases taken
      exact ⟨(sound.serve early).setCall trivial, Int.le_refl _⟩
    · rename_i written
      cases taken
      obtain ⟨its, stored⟩ := not_or.mp written
      have stored := not_not.mp stored
      rw [Bool.eq_true_of_not_eq_false its] at settled
      have inOrder := settled stored _ there
      have positive : 0 < renewalIntervalMs env := renewalIntervalMs_pos
      have trails : Trails env checkedAt (world.renew env session computedAt).session := by
        have earned := @sessionExpiresAt_mono env _ _ session.createdAt past
        unfold Trails
        simp only [Lifespan.renew, ← created]
        omega
      exact ⟨(((sound.renew version stored inOrder).use trails).serve early).setCall trivial,
        sound.renew_le version inOrder⟩
  | destroy expired =>
    simp only [Lifespan.advance] at taken
    split at taken
    · cases taken
      exact ⟨finished, Int.le_refl _⟩
    · rename_i deleted
      cases taken
      obtain ⟨its, stored⟩ := not_or.mp deleted
      rw [Bool.eq_true_of_not_eq_false its] at settled
      have dead := settled (not_not.mp stored) _ there
      refine ⟨{ finished with gone := ?_ }, Int.le_refl _⟩
      intro presence
      cases expired with
      | true => exact dead
      | false => cases presence
  | finished => cases taken

theorem Sound.step {act : Act} (sound : world.Sound env) (settled : world.Settled env act)
    (taken : world.step env act = some after) :
    after.Sound env ∧ world.session.expiresAt ≤ after.session.expiresAt := by
  cases act with
  | request =>
    cases taken
    refine ⟨{ sound with calls := ?_ }, Int.le_refl _⟩
    intro stage member
    rcases List.mem_append.mp member with old | new
    · exact sound.calls stage old
    · cases List.mem_singleton.mp new
      trivial
  | advance index ok =>
    obtain ⟨stage, there, taken⟩ := Option.bind_eq_some_iff.mp taken
    exact sound.advance there settled taken
  | reread index version =>
    simp only [Lifespan.step] at taken
    split at taken
    · rename_i session checkedAt there
      obtain ⟨-, past, early⟩ := sound.calls _ (List.mem_of_getElem? there)
      split at taken
      · rename_i known
        cases taken
        exact ⟨sound.setCall ⟨known, past, early⟩, Int.le_refl _⟩
      · cases taken
    · cases taken
  | leave index =>
    simp only [Lifespan.step] at taken
    split at taken
    · cases taken
      exact ⟨sound.setCall trivial, Int.le_refl _⟩
    · cases taken
  | delete =>
    cases taken
    refine ⟨{ sound with gone := ?_ }, Int.le_refl _⟩
    intro expired
    split at expired
    · cases expired
    · exact sound.gone expired
  | tick ms =>
    cases taken
    have later : world.now ≤ world.now + ms := by omega
    refine ⟨{ sound with calls := ?_, gone := ?_ }, Int.le_refl _⟩
    · intro stage member
      exact (sound.calls stage member).grows (fun _ there => there) rfl later
    · intro gone
      exact expired_of_le (sound.gone gone) later rfl (Int.le_refl _)

theorem sound_start (created : Created env session computedAt) :
    (start session computedAt).Sound env := by
  refine ⟨List.mem_singleton_self _, ?_, ?_, ?_, ?_, created.withinCeiling, ?_, ?_, ?_⟩
  · intro version member
    cases List.mem_singleton.mp member
    exact ⟨rfl, Int.le_refl _⟩
  · exact fun _ member => absurd member List.not_mem_nil
  · intro use member
    cases List.mem_singleton.mp member
    exact created.trails
  · obtain ⟨row, after, -⟩ := created
    have expires : session.expiresAt = sessionExpiresAt env computedAt computedAt := by
      rw [row]
      rfl
    simp only [start, expires]
    unfold sessionExpiresAt
    by_cases off : absoluteTtlSeconds env = 0
    · simp only [if_pos off]
      exact Int.le_refl _
    · simp only [if_neg off]
      omega
  · exact fun gone => by cases gone
  · exact fun _ _ member => absurd member List.not_mem_nil
  · exact fun _ member => absurd member List.not_mem_nil

end Steps

end Lifespan

open Lifespan

/-- Five minutes without a use, and a quarter of an hour at most. -/
def fiveMinutes : SessionEnv := { sessionTtlSeconds := some 300, sessionAbsoluteTtlSeconds := some 900 }

/-- A session whose insertion took a second. -/
def inserted : OperatorSession := createSession fiveMinutes 0 1000

/-- Two requests that read the row together, and compute their renewals ten seconds apart. -/
def together : List Act :=
  [.tick 99000, .request, .request, .advance 0 true, .advance 1 true, .advance 0 true,
    .advance 1 true, .advance 0 true, .tick 10000, .advance 1 true]

/-- Their renewals land in order; a third request comes in time, and a fourth, which has read the row,
is judged too late. -/
def inOrder : List Act := together ++
  [.advance 0 true, .advance 1 true, .tick 260000, .request, .request, .advance 2 true,
    .advance 3 true, .advance 2 true, .tick 50000, .advance 3 true, .advance 3 true]

end BoothOperator.Access.Renewals
