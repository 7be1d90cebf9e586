import Std.Data.String.ToNat
import Mathlib.Algebra.Ring.Nat
import BoothOperator.Lib.OrderedMap
import BoothOperator.Lib.Run
import BoothOperator.Schema

/-! The throttle of anonymous audit rows in `lib/audit.ts`: each address has a bucket that counts
one window of its calls, in a table of bounded size. What happens to one address is an account,
its bucket and its calls; a call of any address moves the account of each. -/
namespace BoothOperator.Audit

open BoothOperator.Schema (Time)

def ANON_WINDOW_MS : Int := 60000

def ANON_MAX_TRACKED_IPS : Nat := 5000

structure AnonBucket where
  windowStart : Time
  recorded : Nat
  suppressed : Nat
  deriving DecidableEq

abbrev AnonBuckets := OrderedMap String AnonBucket

/-- The window of the bucket is over. -/
def AnonBucket.expired (bucket : AnonBucket) (now : Time) : Bool :=
  ANON_WINDOW_MS ≤ now - bucket.windowStart

def dropExpired (now : Time) (anonBuckets : AnonBuckets) : AnonBuckets :=
  anonBuckets.filter fun _ bucket => !bucket.expired now

/-- What a call of an address that is not tracked does first. -/
def sweep (now : Time) (anonBuckets : AnonBuckets) : AnonBuckets :=
  if ANON_MAX_TRACKED_IPS ≤ anonBuckets.size then dropExpired now anonBuckets else anonBuckets

/-- The table, and the bucket that a call is counted in: none for an address that is not tracked
when the table stays full. -/
def bucketFor (now : Time) (key : String) (anonBuckets : AnonBuckets) :
    AnonBuckets × Option AnonBucket :=
  match anonBuckets.get key with
  | none =>
    let swept := sweep now anonBuckets
    (swept, if ANON_MAX_TRACKED_IPS ≤ swept.size then none else some ⟨now, 0, 0⟩)
  | some bucket =>
    (anonBuckets, some (if bucket.expired now then ⟨now, 0, bucket.suppressed⟩ else bucket))

/-- Count a call in its bucket, and answer how many were suppressed before the row, if there is
a row. -/
def AnonBucket.counted (quota : Nat) (bucket : AnonBucket) : AnonBucket × Option Nat :=
  if quota ≤ bucket.recorded then
    ({ bucket with suppressed := bucket.suppressed + 1 }, none)
  else
    ({ bucket with recorded := bucket.recorded + 1, suppressed := 0 }, some bucket.suppressed)

def anonKey (ip : Option String) : String := ip.getD "unknown"

def anonAllowance (quota : Nat) (now : Time) (ip : Option String) (anonBuckets : AnonBuckets) :
    AnonBuckets × Option Nat :=
  if quota = 0 then (anonBuckets, some 0)
  else
    match bucketFor now (anonKey ip) anonBuckets with
    | (table, none) => (table, none)
    | (table, some bucket) =>
      (table.set (anonKey ip) (bucket.counted quota).1, (bucket.counted quota).2)

/-- A call as it was answered. The window is the one that counted it, none when the address is
still not tracked after the call. -/
structure Entry where
  key : String
  now : Time
  allowance : Option Nat
  windowStart : Option Time

structure Throttle where
  anonBuckets : AnonBuckets := .empty
  clock : Time
  log : List Entry := []

structure Call where
  ip : Option String
  now : Time

namespace Throttle

/-- A call, at a time not before the last one's. -/
def step (quota : Nat) (world : Throttle) (call : Call) : Option Throttle :=
  if world.clock ≤ call.now then
    let answer := anonAllowance quota call.now call.ip world.anonBuckets
    some {
      anonBuckets := answer.1
      clock := call.now
      log := {
        key := anonKey call.ip
        now := call.now
        allowance := answer.2
        windowStart := (answer.1.get (anonKey call.ip)).map AnonBucket.windowStart } :: world.log }
  else none

def Fresh (world : Throttle) : Prop := world = { clock := world.clock }

/-- The call finds a full table without its address, and so deletes every expired bucket. -/
def Sweeps (world : Throttle) (call : Call) : Prop :=
  world.anonBuckets.get (anonKey call.ip) = none ∧ ANON_MAX_TRACKED_IPS ≤ world.anonBuckets.size

/-- The call deletes no bucket of the address that still holds suppressed calls. -/
def Spares (address : String) (world : Throttle) (call : Call) : Prop :=
  world.Sweeps call → ∀ bucket, world.anonBuckets.get address = some bucket →
    bucket.expired call.now = true → bucket.suppressed = 0

end Throttle

/-- What the throttle has of one address, its last call first. -/
structure Account where
  bucket : Option AnonBucket
  entries : List Entry

namespace Account

def calls (account : Account) : Nat := account.entries.length

def recorded (account : Account) : Nat := account.entries.countP fun entry => entry.allowance.isSome

/-- The sum of the suppressed counts that the rows carry. -/
def reported (account : Account) : Nat :=
  (account.entries.map fun entry => entry.allowance.getD 0).sum

def held (account : Account) : Nat := account.bucket.elim 0 AnonBucket.suppressed

/-- The calls that found the table full of open windows of other addresses. -/
def refused (account : Account) : Nat := account.entries.countP fun entry => entry.windowStart.isNone

/-- The rows of one window. -/
def recordedIn (entries : List Entry) (start : Time) : Nat :=
  entries.countP fun entry => entry.allowance.isSome && entry.windowStart = some start

/-- A call is a row, or counted by one, or still held, or was refused. -/
def Conserved (account : Account) : Prop :=
  account.calls = account.recorded + account.reported + account.held + account.refused

/-- The windows of an address do not overlap, contain the calls they count and have at most a
quota of rows each. -/
structure Windowed (quota : Nat) (entries : List Entry) : Prop where
  rows : ∀ entry ∈ entries, entry.allowance.isSome → entry.windowStart.isSome
  within : ∀ entry ∈ entries, ∀ start, entry.windowStart = some start →
    start ≤ entry.now ∧ entry.now < start + ANON_WINDOW_MS
  apart : ∀ entry ∈ entries, ∀ other ∈ entries,
    ∀ start, entry.windowStart = some start → ∀ start', other.windowStart = some start' →
      start = start' ∨ start + ANON_WINDOW_MS ≤ start' ∨ start' + ANON_WINDOW_MS ≤ start
  bounded : ∀ start, recordedIn entries start ≤ quota

/-- The bucket that a call of the address is counted in. -/
inductive Opens (now : Time) : Option AnonBucket → AnonBucket → Prop where
  | first : Opens now none ⟨now, 0, 0⟩
  | renewed {bucket : AnonBucket} : bucket.expired now = true →
      Opens now (some bucket) ⟨now, 0, bucket.suppressed⟩
  | open {bucket : AnonBucket} : bucket.expired now = false → Opens now (some bucket) bucket

/-- What one call of any address does to an account; `sweeps` is whether it sweeps the table. -/
inductive Moves (quota : Nat) (address : String) (now : Time) (sweeps : Prop) :
    Account → Account → Prop where
  | quiet (account : Account) : Moves quota address now sweeps account account
  | dropped {bucket : AnonBucket} {entries : List Entry} : sweeps → bucket.expired now = true →
      Moves quota address now sweeps ⟨some bucket, entries⟩ ⟨none, entries⟩
  | refused {entries : List Entry} :
      Moves quota address now sweeps ⟨none, entries⟩ ⟨none, ⟨address, now, none, none⟩ :: entries⟩
  | counted {before : Option AnonBucket} {bucket : AnonBucket} {entries : List Entry} :
      Opens now before bucket →
      Moves quota address now sweeps ⟨before, entries⟩
        ⟨some (bucket.counted quota).1,
          ⟨address, now, (bucket.counted quota).2, some bucket.windowStart⟩ :: entries⟩

end Account

def Throttle.account (world : Throttle) (address : String) : Account where
  bucket := world.anonBuckets.get address
  entries := world.log.filter fun entry => entry.key = address

/-! ## The table -/

section Table

variable {quota : Nat} {now : Time} {key address : String} {anonBuckets : AnonBuckets}
  {bucket : AnonBucket}

@[simp] theorem AnonBucket.windowStart_counted :
    (bucket.counted quota).1.windowStart = bucket.windowStart := by
  rw [counted]
  split <;> rfl

theorem AnonBucket.expired_eq_true :
    bucket.expired now = true ↔ bucket.windowStart + ANON_WINDOW_MS ≤ now := by
  rw [expired, decide_eq_true_iff]
  exact ⟨Int.add_le_of_le_sub_left, Int.le_sub_left_of_add_le⟩

theorem AnonBucket.expired_eq_false :
    bucket.expired now = false ↔ now < bucket.windowStart + ANON_WINDOW_MS := by
  rw [← Bool.not_eq_true, expired_eq_true, not_le]

theorem get_dropExpired : (dropExpired now anonBuckets).get key = some bucket ↔
    anonBuckets.get key = some bucket ∧ bucket.expired now = false := by
  rw [dropExpired, OrderedMap.get_filter, Bool.not_eq_true']

/-- A call that is counted opens a bucket of its address in a table with room for it. -/
theorem bucketFor_eq_some {table : AnonBuckets}
    (found : bucketFor now key anonBuckets = (table, some bucket)) :
    Account.Opens now (anonBuckets.get key) bucket ∧
      (table.has key = true ∧ table = anonBuckets ∨ table.size < ANON_MAX_TRACKED_IPS) := by
  rw [bucketFor] at found
  split at found
  · next fresh =>
    obtain ⟨rfl, opened⟩ := Prod.mk.inj found
    split at opened
    · cases opened
    · next room =>
      cases opened
      rw [fresh]
      exact ⟨.first, Or.inr (Nat.lt_of_not_le room)⟩
  · next old tracked =>
    obtain ⟨rfl, opened⟩ := Prod.mk.inj found
    cases opened
    rw [tracked]
    refine ⟨?_, Or.inl ⟨OrderedMap.has_eq_true.mpr ⟨old, tracked⟩, rfl⟩⟩
    by_cases ended : old.expired now = true
    · rw [if_pos ended]
      exact .renewed ended
    · rw [if_neg ended]
      exact .open (Bool.not_eq_true _ ▸ ended)

theorem bucketFor_eq_none {table : AnonBuckets}
    (found : bucketFor now key anonBuckets = (table, none)) :
    anonBuckets.get key = none := by
  rw [bucketFor] at found
  split at found
  · assumption
  · cases found

/-- The table that a call counts in is the one it finds, unless the call sweeps. -/
theorem bucketFor_fst (now : Time) (key : String) (anonBuckets : AnonBuckets) :
    (bucketFor now key anonBuckets).1 = anonBuckets ∨
    (anonBuckets.get key = none ∧ ANON_MAX_TRACKED_IPS ≤ anonBuckets.size) ∧
      (bucketFor now key anonBuckets).1 = dropExpired now anonBuckets := by
  rw [bucketFor]
  split
  · next fresh =>
    by_cases full : ANON_MAX_TRACKED_IPS ≤ anonBuckets.size
    · rw [sweep, if_pos full]
      exact Or.inr ⟨⟨fresh, full⟩, rfl⟩
    · rw [sweep, if_neg full]
      exact Or.inl rfl
  · exact Or.inl rfl

theorem size_anonAllowance_le {ip : Option String} (bounded : anonBuckets.size ≤ ANON_MAX_TRACKED_IPS) :
    (anonAllowance quota now ip anonBuckets).1.size ≤ ANON_MAX_TRACKED_IPS := by
  have swept : (bucketFor now (anonKey ip) anonBuckets).1.size ≤ ANON_MAX_TRACKED_IPS := by
    rcases bucketFor_fst now (anonKey ip) anonBuckets with same | ⟨-, same⟩
    · rwa [same]
    · rw [same]
      exact Nat.le_trans (OrderedMap.size_filter_le _) bounded
  rw [anonAllowance]
  split
  · exact bounded
  · split
    · next table found =>
      rwa [found] at swept
    · next table bucket found =>
      rw [found] at swept
      rcases (bucketFor_eq_some found).2 with ⟨there, -⟩ | room
      · exact (OrderedMap.size_set_of_has there).trans_le swept
      · by_cases there : table.has (anonKey ip) = true
        · exact (OrderedMap.size_set_of_has there).trans_le swept
        · exact (OrderedMap.size_set_of_not there).trans_le room

theorem get_dropExpired_of_none (untracked : anonBuckets.get key = none) :
    (dropExpired now anonBuckets).get key = none := by
  rw [Option.eq_none_iff_forall_ne_some]
  intro bucket read
  exact nomatch untracked.symm.trans (get_dropExpired.mp read).1

/-- A call is counted in the bucket of its own address. -/
theorem get_counted_of_ne {ip : Option String} (apart : address ≠ anonKey ip) :
    (match bucketFor now (anonKey ip) anonBuckets with
      | (table, none) => (table, (none : Option Nat))
      | (table, some bucket) =>
        (table.set (anonKey ip) (bucket.counted quota).1, (bucket.counted quota).2)).1.get address =
      (bucketFor now (anonKey ip) anonBuckets).1.get address := by
  split
  · next found => rw [found]
  · next found => rw [found, OrderedMap.get_set_of_ne apart]

/-- The account of each address moves by every call. -/
theorem step_moves {world after : Throttle} {call : Call} (positive : 0 < quota)
    (taken : world.step quota call = some after) :
    Account.Moves quota address call.now (world.Sweeps call) (world.account address)
      (after.account address) := by
  obtain ⟨-, same⟩ := Option.ite_none_right_eq_some.mp taken
  cases same
  rw [Throttle.account, Throttle.account, anonAllowance, if_neg (Nat.ne_of_gt positive)]
  have table := bucketFor_fst call.now (anonKey call.ip) world.anonBuckets
  by_cases own : anonKey call.ip = address
  · subst own
    rw [List.filter_cons_of_pos (by simp)]
    rcases found : bucketFor call.now (anonKey call.ip) world.anonBuckets with ⟨left, opened⟩
    rw [found] at table
    cases opened with
    | none =>
      have untracked := bucketFor_eq_none found
      have still : left.get (anonKey call.ip) = none := by
        rcases table with rfl | ⟨-, rfl⟩
        · exact untracked
        · exact get_dropExpired_of_none untracked
      simp only [still, untracked]
      exact .refused
    | some bucket =>
      simp only [OrderedMap.get_set_same, Option.map_some, AnonBucket.windowStart_counted]
      exact .counted (bucketFor_eq_some found).1
  · rw [List.filter_cons_of_neg (by simpa using own), get_counted_of_ne (Ne.symm own)]
    rcases table with same | ⟨sweeps, same⟩
    · rw [same]
      exact .quiet _
    · rw [same]
      cases tracked : world.anonBuckets.get address with
      | none =>
        rw [get_dropExpired_of_none tracked]
        exact .quiet _
      | some bucket =>
        by_cases ended : bucket.expired call.now = true
        · have lost : (dropExpired call.now world.anonBuckets).get address = none := by
            rw [Option.eq_none_iff_forall_ne_some]
            intro other read
            obtain ⟨read, open'⟩ := get_dropExpired.mp read
            cases tracked.symm.trans read
            cases ended.symm.trans open'
          rw [lost]
          exact .dropped sweeps ended
        · rw [get_dropExpired.mpr ⟨tracked, Bool.not_eq_true _ ▸ ended⟩]
          exact .quiet _

end Table

/-! ## Accounts -/

namespace Account

variable {quota : Nat} {address : String} {now clock : Time} {sweeps : Prop}
  {account after : Account} {bucket : AnonBucket} {entries : List Entry}

/-- The windows before the one of the bucket are over when it starts. -/
def Over (entries : List Entry) (start : Time) : Prop :=
  ∀ entry ∈ entries, ∀ earlier, entry.windowStart = some earlier → earlier + ANON_WINDOW_MS ≤ start

def Last (entries : List Entry) (start : Time) : Prop :=
  ∀ entry ∈ entries, ∀ earlier, entry.windowStart = some earlier →
    earlier = start ∨ earlier + ANON_WINDOW_MS ≤ start

/-- What carries the windows from one call to the next: the bucket has the rows of its window,
which is the last one. -/
structure Tidy (quota : Nat) (clock : Time) (account : Account) : Prop where
  windowed : Windowed quota account.entries
  started : ∀ bucket, account.bucket = some bucket → bucket.windowStart ≤ clock
  rows : ∀ bucket, account.bucket = some bucket →
    bucket.recorded = recordedIn account.entries bucket.windowStart
  last : ∀ bucket, account.bucket = some bucket → Last account.entries bucket.windowStart
  ended : account.bucket = none → Over account.entries clock

theorem lt_window (start : Int) : start < start + ANON_WINDOW_MS := by
  rw [ANON_WINDOW_MS]
  omega

theorem Over.last {start : Time} (ended : Over entries start) : Last entries start :=
  fun entry member earlier at' => Or.inr (ended entry member earlier at')

theorem Over.mono {start later : Time} (ended : Over entries start) (le : start ≤ later) :
    Over entries later :=
  fun entry member earlier at' => Int.le_trans (ended entry member earlier at') le

/-- A window that starts when all others are over has no rows yet. -/
theorem Over.recordedIn {start : Time} (ended : Over entries start) :
    recordedIn entries start = 0 := by
  rw [Account.recordedIn, List.countP_eq_zero]
  intro entry member counted
  rw [Bool.and_eq_true, decide_eq_true_iff] at counted
  exact Int.not_le.mpr (lt_window start) (ended entry member start counted.2)

theorem Last.ended {old : AnonBucket} (last : Last entries old.windowStart)
    (expired : old.expired now = true) : Over entries now := by
  have ended := AnonBucket.expired_eq_true.mp expired
  intro entry member earlier at'
  rcases last entry member earlier at' with rfl | before
  · exact ended
  · exact Int.le_trans before (Int.le_trans (Int.le_of_lt (lt_window _)) ended)

/-- The bucket that a call is counted in holds the call's time, follows all other windows and has
the rows of its own. -/
theorem Opens.tidy {before : Option AnonBucket} (opens : Opens now before bucket)
    (tidy : Tidy quota clock ⟨before, entries⟩) (later : clock ≤ now) :
    (bucket.windowStart ≤ now ∧ now < bucket.windowStart + ANON_WINDOW_MS) ∧
      Last entries bucket.windowStart ∧
      bucket.recorded = recordedIn entries bucket.windowStart := by
  have opening : now ≤ now ∧ now < now + ANON_WINDOW_MS := ⟨Int.le_refl now, lt_window now⟩
  cases opens with
  | first =>
    have ended := (tidy.ended rfl).mono later
    exact ⟨opening, ended.last, ended.recordedIn.symm⟩
  | renewed expired =>
    have ended := (tidy.last _ rfl).ended expired
    exact ⟨opening, ended.last, ended.recordedIn.symm⟩
  | «open» running =>
    exact ⟨⟨Int.le_trans (tidy.started _ rfl) later, AnonBucket.expired_eq_false.mp running⟩,
      tidy.last _ rfl, tidy.rows _ rfl⟩

theorem Tidy.initial : Tidy quota clock ⟨none, []⟩ where
  windowed := ⟨nofun, nofun, nofun, fun _ => Nat.zero_le quota⟩
  started := nofun
  rows := nofun
  last := nofun
  ended _ := nofun

theorem recorded_counted (bucket : AnonBucket) :
    (bucket.counted quota).1.recorded =
      bucket.recorded + if (bucket.counted quota).2.isSome then 1 else 0 := by
  rw [AnonBucket.counted]
  split <;> rfl

theorem recorded_counted_le (bounded : bucket.recorded ≤ quota) :
    (bucket.counted quota).1.recorded ≤ quota := by
  rw [AnonBucket.counted]
  split
  · exact bounded
  · next room => exact Nat.lt_of_not_le room

theorem recordedIn_cons (entry : Entry) (start : Time) :
    recordedIn (entry :: entries) start = recordedIn entries start +
      if entry.allowance.isSome && entry.windowStart = some start then 1 else 0 :=
  List.countP_cons

/-- A call keeps the windows of its address when the one that counts it is the last, holds its
time and has room for its row. -/
theorem Windowed.cons {entry : Entry} (windowed : Windowed quota entries)
    (row : entry.allowance.isSome → entry.windowStart.isSome)
    (current : ∀ start, entry.windowStart = some start →
      (start ≤ entry.now ∧ entry.now < start + ANON_WINDOW_MS) ∧ Last entries start ∧
        recordedIn (entry :: entries) start ≤ quota) :
    Windowed quota (entry :: entries) where
  rows := by
    intro other member
    rcases List.mem_cons.mp member with rfl | member
    · exact row
    · exact windowed.rows other member
  within := by
    intro other member start at'
    rcases List.mem_cons.mp member with rfl | member
    · exact (current start at').1
    · exact windowed.within other member start at'
  apart := by
    intro first member second member' start at' start' at''
    rcases List.mem_cons.mp member with rfl | older
    · rcases List.mem_cons.mp member' with rfl | older'
      · exact Or.inl (Option.some.inj (at'.symm.trans at''))
      · exact ((current start at').2.1 second older' start' at'').imp Eq.symm Or.inr
    · rcases List.mem_cons.mp member' with rfl | older'
      · exact ((current start' at'').2.1 first older start at').imp_right Or.inl
      · exact windowed.apart first older second older' start at' start' at''
  bounded := by
    intro start
    by_cases at' : entry.windowStart = some start
    · exact (current start at').2.2
    · rw [recordedIn_cons]
      simpa [at'] using windowed.bounded start

theorem Moves.tidy (moved : Moves quota address now sweeps account after)
    (tidy : Tidy quota clock account) (later : clock ≤ now) : Tidy quota now after := by
  cases moved with
  | quiet =>
    exact {
      windowed := tidy.windowed
      started bucket held := Int.le_trans (tidy.started bucket held) later
      rows := tidy.rows
      last := tidy.last
      ended untracked := (tidy.ended untracked).mono later }
  | dropped _ expired =>
    exact ⟨tidy.windowed, nofun, nofun, nofun, fun _ => (tidy.last _ rfl).ended expired⟩
  | refused =>
    refine ⟨tidy.windowed.cons nofun nofun, nofun, nofun, nofun, ?_⟩
    rintro - entry member start at'
    rcases List.mem_cons.mp member with rfl | member
    · cases at'
    · exact (tidy.ended rfl).mono later entry member start at'
  | @counted before bucket entries opens =>
    obtain ⟨current, last, rows⟩ := opens.tidy tidy later
    have total : (bucket.counted quota).1.recorded =
        recordedIn (⟨address, now, (bucket.counted quota).2, some bucket.windowStart⟩ :: entries)
          bucket.windowStart := by
      rw [recorded_counted, rows, recordedIn_cons]
      simp
    have room := recorded_counted_le (rows ▸ tidy.windowed.bounded bucket.windowStart)
    refine ⟨tidy.windowed.cons (fun _ => rfl) ?_, ?_, ?_, ?_, nofun⟩
    · rintro _ ⟨⟩
      exact ⟨current, last, total ▸ room⟩
    · rintro _ ⟨⟩
      rw [AnonBucket.windowStart_counted]
      exact current.1
    · rintro _ ⟨⟩
      rw [AnonBucket.windowStart_counted]
      exact total
    · rintro _ ⟨⟩ entry member start at'
      rw [AnonBucket.windowStart_counted]
      rcases List.mem_cons.mp member with rfl | member
      · exact Or.inl (Option.some.inj at').symm
      · exact last entry member start at'

theorem Opens.held {before : Option AnonBucket} (opens : Opens now before bucket) :
    before.elim 0 AnonBucket.suppressed = bucket.suppressed := by
  cases opens <;> rfl

/-- A counted call is held, or is the row that reports what was held. -/
theorem counted_balance (quota : Nat) (bucket : AnonBucket) :
    bucket.suppressed + 1 = (if (bucket.counted quota).2.isSome then 1 else 0) +
      (bucket.counted quota).2.getD 0 + (bucket.counted quota).1.suppressed := by
  rw [AnonBucket.counted]
  split
  · simp
  · simp [Nat.add_comm]

/-- A call that finds nothing to lose keeps every call of the address accounted for. -/
theorem Moves.conserved (moved : Moves quota address now sweeps account after)
    (spared : sweeps → ∀ bucket, account.bucket = some bucket → bucket.expired now = true →
      bucket.suppressed = 0)
    (conserved : account.Conserved) : after.Conserved := by
  cases moved with
  | quiet => exact conserved
  | @dropped bucket entries swept expired =>
    have nothing : bucket.suppressed = 0 := spared swept bucket rfl expired
    simpa [Conserved, calls, recorded, reported, held, Account.refused, nothing] using conserved
  | refused =>
    simp [Conserved, calls, recorded, reported, held, Account.refused] at conserved ⊢
    omega
  | @counted before bucket entries opens =>
    have carried := opens.held
    have balance := counted_balance quota bucket
    simp only [Conserved, calls, recorded, reported, held, Account.refused, List.length_cons,
      List.countP_cons, List.map_cons, List.sum_cons, Option.elim_some, Option.isNone_some,
      Bool.false_eq_true, if_false] at conserved ⊢
    omega

end Account

/-! ## Runs -/

namespace Throttle

variable {quota : Nat} {world after : Throttle} {call : Call} {address : String}

theorem step_clock (taken : world.step quota call = some after) :
    world.clock ≤ call.now ∧ after.clock = call.now := by
  obtain ⟨later, same⟩ := Option.ite_none_right_eq_some.mp taken
  cases same
  exact ⟨later, rfl⟩

/-- The table stays within its bound, and every address keeps its windows. -/
theorem bounded_of_reachable (positive : 0 < quota)
    (reached : Run.Reachable (step quota) Fresh world) :
    world.anonBuckets.size ≤ ANON_MAX_TRACKED_IPS ∧
      ∀ address, (world.account address).Tidy quota world.clock := by
  induction reached with
  | initial fresh =>
    rw [fresh]
    exact ⟨Nat.zero_le _, fun address => .initial⟩
  | next _ _ taken ih =>
    obtain ⟨small, tidy⟩ := ih
    obtain ⟨later, clock⟩ := step_clock taken
    constructor
    · obtain ⟨-, same⟩ := Option.ite_none_right_eq_some.mp taken
      cases same
      exact size_anonAllowance_le small
    · intro address
      rw [clock]
      exact (step_moves positive taken).tidy (tidy address) later

theorem conserved_of_reachable (positive : 0 < quota)
    (reached : Run.ReachableUnder (step quota) Fresh (Spares address) world) :
    (world.account address).Conserved := by
  induction reached with
  | initial fresh =>
    rw [fresh]
    rfl
  | next _ spared taken ih => exact (step_moves positive taken).conserved spared ih

/-- Whatever the addresses and the times, a call is a row, is counted by a row, is still held or
was refused by a full table, as long as no sweep deletes calls that are still held; and in any
run an address has at most a quota of rows in each of its windows, and the table its bound. -/
theorem anonAllowance_conserves (positive : 0 < quota) :
    (∀ address world, Run.ReachableUnder (step quota) Fresh (Spares address) world →
      (world.account address).Conserved) ∧
    ∀ world, Run.Reachable (step quota) Fresh world →
      world.anonBuckets.size ≤ ANON_MAX_TRACKED_IPS ∧
        ∀ address, Account.Windowed quota (world.account address).entries := by
  refine ⟨fun address world => conserved_of_reachable positive, ?_⟩
  intro world reached
  obtain ⟨small, tidy⟩ := bounded_of_reachable positive reached
  exact ⟨small, fun address => (tidy address).windowed⟩

theorem anonAllowance_conserves_carried :
    (account ⟨⟨[("unknown", ⟨60000, 1, 0⟩)], by decide⟩, 60000,
      [⟨"unknown", 60000, some 1, some 60000⟩, ⟨"unknown", 0, none, some 0⟩,
        ⟨"unknown", 0, some 0, some 0⟩]⟩ "unknown").Conserved := by
  refine (anonAllowance_conserves Nat.one_pos).1 "unknown" _ ?_
  have first : Run.ReachableUnder (step 1) Fresh (Spares "unknown")
      ⟨⟨[("unknown", ⟨0, 1, 0⟩)], by decide⟩, 0, [⟨"unknown", 0, some 0, some 0⟩]⟩ := by
    have fresh : Fresh { clock := 0 } := rfl
    refine .next (.initial fresh) ?_ (rfl : step 1 _ ⟨none, 0⟩ = _)
    rintro - _ ⟨⟩
  have second : Run.ReachableUnder (step 1) Fresh (Spares "unknown")
      ⟨⟨[("unknown", ⟨0, 1, 1⟩)], by decide⟩, 0,
        [⟨"unknown", 0, none, some 0⟩, ⟨"unknown", 0, some 0, some 0⟩]⟩ := by
    refine first.next ?_ (rfl : step 1 _ ⟨none, 0⟩ = _)
    rintro ⟨⟨⟩, -⟩
  refine second.next ?_ (rfl : step 1 _ ⟨none, 60000⟩ = _)
  rintro ⟨⟨⟩, -⟩

/-! ## A flood -/

def floodAddress (index : Nat) : String := "2001:db8::" ++ Nat.repr index

/-- One call from each of many addresses, all at one time. -/
def flood (count : Nat) : List Call :=
  (List.range count).map fun index => ⟨some (floodAddress index), 0⟩

/-- The table after a flood: each address has its open window. -/
structure Flooded (count : Nat) (world : Throttle) : Prop where
  clock : world.clock = 0
  size : world.anonBuckets.size = count
  open' : ∀ key bucket, world.anonBuckets.get key = some bucket → bucket.windowStart = 0
  tracked : ∀ key, world.anonBuckets.has key = true → ∃ index < count, key = floodAddress index
  others : ∀ entry ∈ world.log, ∃ index, entry.key = floodAddress index

theorem floodAddress_injective {first second : Nat} (same : floodAddress first = floodAddress second) :
    first = second :=
  Nat.repr_injective (by simpa [floodAddress] using same)

theorem Flooded.untracked {count : Nat} (flooded : Flooded count world) {key : String}
    (apart : ∀ index < count, key ≠ floodAddress index) : world.anonBuckets.get key = none := by
  by_contra tracked
  obtain ⟨index, less, same⟩ := flooded.tracked key (Option.isSome_iff_ne_none.mpr tracked)
  exact apart index less same

/-- A call of another address adds its window to the flood. -/
theorem Flooded.grows {count : Nat} (flooded : Flooded count world)
    (room : count < ANON_MAX_TRACKED_IPS) :
    ∃ after, step 1 world ⟨some (floodAddress count), 0⟩ = some after ∧ Flooded (count + 1) after := by
  have untracked : world.anonBuckets.get (floodAddress count) = none :=
    flooded.untracked fun index less same => absurd (floodAddress_injective same) (Nat.ne_of_gt less)
  have found : bucketFor 0 (floodAddress count) world.anonBuckets =
      (world.anonBuckets, some ⟨0, 0, 0⟩) := by
    have swept : sweep 0 world.anonBuckets = world.anonBuckets :=
      if_neg (Nat.not_le_of_lt (flooded.size ▸ room))
    rw [bucketFor, untracked]
    simp only [swept]
    rw [if_neg (Nat.not_le_of_lt (flooded.size ▸ room))]
  have answer : anonAllowance 1 0 (some (floodAddress count)) world.anonBuckets =
      (world.anonBuckets.set (floodAddress count) ⟨0, 1, 0⟩, some 0) := by
    rw [anonAllowance, if_neg Nat.one_ne_zero, anonKey, Option.getD_some, found]
    rfl
  refine ⟨_, if_pos (flooded.clock ▸ Int.le_refl 0), ?_⟩
  simp only [answer]
  refine ⟨rfl, ?_, ?_, ?_, ?_⟩
  · have fresh : ¬ world.anonBuckets.has (floodAddress count) = true := by
      rw [OrderedMap.has, untracked, Option.isSome_none]
      exact Bool.false_ne_true
    rw [OrderedMap.size_set_of_not fresh, flooded.size]
  · intro key bucket read
    rcases OrderedMap.get_set_eq_some.mp read with ⟨-, rfl⟩ | ⟨-, old⟩
    · rfl
    · exact flooded.open' key bucket old
  · intro key there
    obtain ⟨bucket, read⟩ := OrderedMap.has_eq_true.mp there
    rcases OrderedMap.get_set_eq_some.mp read with ⟨rfl, -⟩ | ⟨-, old⟩
    · exact ⟨count, Nat.lt_succ_self count, rfl⟩
    · obtain ⟨index, less, same⟩ := flooded.tracked key (OrderedMap.has_eq_true.mpr ⟨bucket, old⟩)
      exact ⟨index, Nat.lt_succ_of_lt less, same⟩
  · intro entry member
    rcases List.mem_cons.mp member with rfl | older
    · exact ⟨count, rfl⟩
    · exact flooded.others entry older

theorem exec_flood {count : Nat} (room : count ≤ ANON_MAX_TRACKED_IPS) :
    ∃ world, Run.exec (step 1) { clock := 0 } (flood count) = some world ∧ Flooded count world := by
  induction count with
  | zero => exact ⟨_, rfl, rfl, rfl, nofun, nofun, nofun⟩
  | succ count ih =>
    obtain ⟨world, ran, flooded⟩ := ih (Nat.le_of_succ_le room)
    obtain ⟨after, taken, more⟩ := flooded.grows room
    refine ⟨after, ?_, more⟩
    rw [flood, List.range_succ, List.map_append, Run.exec_append]
    rw [flood] at ran
    simp [ran, Run.exec, taken]

theorem floodAddress_ne_unknown (index : Nat) : "unknown" ≠ floodAddress index := by
  intro same
  have first := congrArg String.toList same
  rw [floodAddress, String.toList_append] at first
  exact absurd (List.cons.inj first).1 (by decide)

/-- In a table full of open windows, a call of an address that is not tracked is not counted. -/
theorem Flooded.refuses (flooded : Flooded ANON_MAX_TRACKED_IPS world) :
    ∃ after, Throttle.step 1 world ⟨none, 0⟩ = some after ∧
      after.account "unknown" = ⟨none, [⟨"unknown", 0, none, none⟩]⟩ := by
  have untracked : world.anonBuckets.get "unknown" = none :=
    flooded.untracked fun index _ => floodAddress_ne_unknown index
  have kept : dropExpired 0 world.anonBuckets = world.anonBuckets := by
    refine OrderedMap.filter_eq_self fun key bucket read => ?_
    rw [AnonBucket.expired, flooded.open' key bucket read]
    rfl
  have answer : anonAllowance 1 0 none world.anonBuckets = (world.anonBuckets, none) := by
    have found : bucketFor 0 "unknown" world.anonBuckets = (world.anonBuckets, none) := by
      have swept : sweep 0 world.anonBuckets = world.anonBuckets := by
        rw [sweep, kept, ite_self]
      rw [bucketFor, untracked]
      simp only [swept]
      rw [if_pos (Nat.le_of_eq flooded.size.symm)]
    rw [anonAllowance, if_neg Nat.one_ne_zero, anonKey, Option.getD_none, found]
  refine ⟨_, if_pos (flooded.clock ▸ Int.le_refl 0), ?_⟩
  simp only [answer, anonKey, Option.getD_none, account, untracked, Option.map_none]
  rw [List.filter_cons_of_pos (by simp), List.filter_eq_nil_iff.mpr]
  intro entry member own
  obtain ⟨index, same⟩ := flooded.others entry member
  exact floodAddress_ne_unknown index ((of_decide_eq_true own).symm.trans same)

theorem not_conserved_flood :
    ¬ ∀ quota, 0 < quota → ∀ world, Run.Reachable (step quota) Fresh world → ∀ address,
      (world.account address).calls = (world.account address).recorded +
        (world.account address).reported + (world.account address).held := by
  intro conserved
  obtain ⟨full, ran, flooded⟩ := exec_flood (Nat.le_refl ANON_MAX_TRACKED_IPS)
  obtain ⟨world, taken, account⟩ := flooded.refuses
  have fresh : Fresh { clock := 0 } := rfl
  have reached := (Run.reachable_of_exec fresh ran).next trivial taken
  have balance := conserved 1 Nat.one_pos world reached "unknown"
  rw [account] at balance
  exact absurd balance (by decide)

end Throttle

end BoothOperator.Audit
