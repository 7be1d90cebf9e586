import BoothOperator.Audit.Metadata
import BoothOperator.Audit.Throttle

/-! The audit trail, `auditWrites` of `lib/audit.ts`. A mutating request collects a draft while its
guards and its handler run, and leaves a row when it is over, unless nobody serves its path, it was
quiet telemetry or its caller is not known and over the quota of its address. -/
namespace BoothOperator.Audit

open BoothOperator.Schema (Time)
open BoothOperator.Utf16

inductive AuditActorType where
  | operator | apiToken | anonymous | system
  deriving DecidableEq

/-- A field is `none` when it is undefined, and `some none` when it is null. -/
structure AuditDetail (ν : Type) where
  action : Option Text := none
  targetType : Option (Option Text) := none
  targetId : Option (Option Text) := none
  metadata : Option (Members ν) := none
  actorType : Option AuditActorType := none
  actorUserId : Option (Option Text) := none
  actorLabel : Option (Option Text) := none

structure AuditDraft (ν : Type) extends AuditDetail ν where
  skip : Bool := false

/-- What `resolveActor` reads of an operator and of a token. -/
structure AuditUser where
  id : Text
  email : Text
  name : Text
  deriving DecidableEq

structure AuditToken where
  id : Text
  name : Text
  deriving DecidableEq

structure AuditContext (ν : Type) where
  user : Option AuditUser := none
  apiToken : Option AuditToken := none
  draft : AuditDraft ν := {}

/-- What the guards and the handler of a request do that the trail can see. -/
inductive Effect (ν : Type) where
  | recordAudit (detail : AuditDetail ν)
  | skipAudit
  | setUser (user : AuditUser)
  | setToken (token : AuditToken)

/-- A request, with what the router matched it to and how it ended: with a status, or with an error
of this name. `stored` says whether the insert of its row succeeds. -/
structure WriteRequest (ν : Type) where
  method : Text
  pathname : Text
  routePath : Text
  matchedRoutes : List Text
  ip : Option String
  userAgent : Option Text
  effects : List (Effect ν)
  outcome : Except Text Nat
  now : Time
  stored : Bool := true

structure ResolvedActor where
  actorType : AuditActorType
  actorUserId : Option Text
  actorTokenId : Option Text
  actorLabel : Text
  deriving DecidableEq

structure AuditRow (ν : Type) where
  action : Text
  targetType : Option Text
  targetId : Option Text
  actor : ResolvedActor
  ip : Option Text
  userAgent : Option Text
  method : Text
  path : Text
  statusCode : Nat
  metadata : Option (Members ν)

structure AuditFlags where
  enabled : Bool := true
  telemetry : Bool := false
  quota : Nat := 20
  deriving DecidableEq

def MAX_ACTION_LENGTH : Nat := 128
def MAX_PATH_LENGTH : Nat := 512
def MAX_USER_AGENT_LENGTH : Nat := 512
def MAX_LABEL_LENGTH : Nat := 320
def MAX_TARGET_TYPE_LENGTH : Nat := 64
def MAX_TARGET_ID_LENGTH : Nat := 255
def MAX_METHOD_LENGTH : Nat := 10
def MAX_IP_LENGTH : Nat := 45

def MUTATING_METHODS : List Text := ["POST", "PUT", "PATCH", "DELETE"].map units

def TELEMETRY_ROUTES : List Text :=
  ["PUT /v1/status", "PUT /v1/system", "PUT /v1/system/components/current", "POST /v1/events"].map
    units

/-- `toUpperCase` of a method, which is a token of ASCII characters. -/
def toUpperCase (method : Text) : Text :=
  method.map fun unit => if 0x61 ≤ unit ∧ unit ≤ 0x7A then unit - 0x20 else unit

def toLowerCase (method : Text) : Text :=
  method.map fun unit => if 0x41 ≤ unit ∧ unit ≤ 0x5A then unit + 0x20 else unit

/-! ## The draft -/

section Draft

variable {ν : Type}

/-- `{ ...into, [key]: value }`: a key that is there keeps its place. -/
def assign (into : Members ν) (member : Text × Value ν) : Members ν :=
  if into.any fun old => old.1 = member.1 then
    into.map fun old => if old.1 = member.1 then member else old
  else into ++ [member]

def spread (into more : Members ν) : Members ν := more.foldl assign into

def recordAudit (draft : AuditDraft ν) (detail : AuditDetail ν) : AuditDraft ν where
  action := detail.action.or draft.action
  targetType := detail.targetType.or draft.targetType
  targetId := detail.targetId.or draft.targetId
  actorType := detail.actorType.or draft.actorType
  actorUserId := detail.actorUserId.or draft.actorUserId
  actorLabel := detail.actorLabel.or draft.actorLabel
  metadata :=
    match detail.metadata with
    | none => draft.metadata
    | some metadata => some (spread (draft.metadata.getD []) metadata)
  skip := draft.skip

def Effect.run (context : AuditContext ν) : Effect ν → AuditContext ν
  | .recordAudit detail => { context with draft := Audit.recordAudit context.draft detail }
  | .skipAudit => { context with draft := { context.draft with skip := true } }
  | .setUser user => { context with user := some user }
  | .setToken token => { context with apiToken := some token }

def operatorLabel (user : AuditUser) : Text :=
  if user.email ≠ [] then user.email else if user.name ≠ [] then user.name else user.id

/-- The field is a text, and not an empty one. -/
def truthy (field : Option (Option Text)) : Bool :=
  match field with
  | some (some text) => text ≠ []
  | _ => false

def resolveActor (context : AuditContext ν) : ResolvedActor :=
  let draft := context.draft
  match context.user with
  | some user => ⟨.operator, some user.id, none, operatorLabel user⟩
  | none =>
    match context.apiToken with
    | some token => ⟨.apiToken, none, some token.id, units "token:" ++ token.name⟩
    | none =>
      if truthy draft.actorUserId ∨ truthy draft.actorLabel then
        ⟨draft.actorType.getD .operator, draft.actorUserId.join, none,
          ((draft.actorLabel.join).or draft.actorUserId.join).getD (units "unknown")⟩
      else ⟨draft.actorType.getD .anonymous, none, none, units "anonymous"⟩

end Draft

/-! ## The route -/

def endsWithStar (path : Text) : Bool := path.getLast? = some 0x2A

def isCatchAll (pattern : Text) : Bool :=
  pattern = [] || pattern = units "/*" || pattern = units "*"

def normalizeRoute (method routePath : Text) : Text :=
  let trimmed := (routePath.reverse.dropWhile (· = 0x2F)).reverse
  toUpperCase method ++ units " " ++ if trimmed = [] then units "/" else trimmed

def isTelemetryWrite (method routePath : Text) : Bool :=
  normalizeRoute method routePath ∈ TELEMETRY_ROUTES

section Requests

variable {ν : Type} (request : WriteRequest ν)

def handlers : List Text := request.matchedRoutes.filter fun path => !endsWithStar path

def matchedAHandler : Bool := request.matchedRoutes.any fun path => !endsWithStar path

def routePattern : Text :=
  match (handlers request).getLast? with
  | some handler =>
    if handler ≠ [] then handler
    else if isCatchAll request.routePath then request.pathname else request.routePath
  | none => if isCatchAll request.routePath then request.pathname else request.routePath

def defaultAction (method pattern : Text) : Text :=
  units "http." ++ toLowerCase method ++ units " " ++ pattern

/-! ## The row -/

def boundString (value : Option Text) (max : Nat) : Option Text :=
  (value.filter (· ≠ [])).map fun text => truncate text max

/-- The context and the status that a request ends with. An error leaves its name. -/
def ended : AuditContext ν × Nat :=
  let context := request.effects.foldl Effect.run {}
  match request.outcome with
  | .ok status => (context, status)
  | .error name =>
    ({ context with
      draft := recordAudit context.draft { metadata := some [(units "error", .str name)] } }, 500)

def audited (flags : AuditFlags) : Bool :=
  toUpperCase request.method ∈ MUTATING_METHODS && flags.enabled

/-- The request is one for the trail, whoever made it. -/
def due (flags : AuditFlags) : Bool :=
  audited request flags && !(ended request).1.draft.skip && matchedAHandler request &&
    !(!flags.telemetry && (ended request).2 < 400 &&
      isTelemetryWrite request.method (routePattern request))

/-- The caller is an operator or a token that is stored. -/
def ResolvedActor.persisted (actor : ResolvedActor) : Bool :=
  (match actor.actorUserId with
    | some id => id ≠ []
    | none => false) ||
  match actor.actorTokenId with
    | some id => id ≠ []
    | none => false

/-- The row is metered: a denied write of a caller that is not known. -/
def metered : Bool := 400 ≤ (ended request).2 && !(resolveActor (ended request).1).persisted

variable (numberText : ν → Text)

/-- `writeAuditEntry`: the row with its fields bounded, the metadata for the second time. -/
def rowOf (metadata : Option (Members ν)) : AuditRow ν :=
  let context := (ended request).1
  let actor := resolveActor context
  { action := (boundString
      (some (context.draft.action.getD (defaultAction request.method (routePattern request))))
      MAX_ACTION_LENGTH).getD (units "unknown")
    targetType := boundString context.draft.targetType.join MAX_TARGET_TYPE_LENGTH
    targetId := boundString context.draft.targetId.join MAX_TARGET_ID_LENGTH
    actor := { actor with
      actorLabel := (boundString (some actor.actorLabel) MAX_LABEL_LENGTH).getD (units "unknown") }
    ip := boundString (request.ip.map units) MAX_IP_LENGTH
    userAgent := boundString request.userAgent MAX_USER_AGENT_LENGTH
    method := (boundString (some (toUpperCase request.method)) MAX_METHOD_LENGTH).getD
      (units "UNKNOWN")
    path := (boundString (some request.pathname) MAX_PATH_LENGTH).getD (units "/")
    statusCode := (ended request).2
    metadata := sanitizeMetadata numberText (sanitizeMetadata numberText metadata) }

end Requests

structure Trail (ν : Type) where
  auditLog : List (AuditRow ν) := []
  throttle : Throttle

section Runs

variable {ν : Type} (numberText : ν → Text) (count : Nat → ν) (flags : AuditFlags)

/-- Add the row, when the insert succeeds. -/
def writeAuditEntry (trail : Trail ν) (request : WriteRequest ν) (metadata : Option (Members ν)) :
    Trail ν :=
  if request.stored then
    { trail with auditLog := trail.auditLog ++ [rowOf request numberText metadata] }
  else trail

/-- What a metered row leaves of the buckets. A quota of zero is no limit. -/
def metering (throttle : Throttle) (request : WriteRequest ν) : Option Throttle :=
  if flags.quota = 0 then some throttle
  else throttle.step flags.quota ⟨request.ip, request.now⟩

/-- `auditWrites` of a request that is over. `suppressedSince` is a number of the metadata. -/
def persist (trail : Trail ν) (request : WriteRequest ν) : Option (Trail ν) :=
  let metadata := (ended request).1.draft.metadata
  if due request flags = false then some trail
  else if metered request = false then some (writeAuditEntry numberText trail request metadata)
  else do
    let answer := (anonAllowance flags.quota request.now request.ip trail.throttle.anonBuckets).2
    let throttle ← metering flags trail.throttle request
    let trail := { trail with throttle }
    match answer with
    | none => some trail
    | some 0 => some (writeAuditEntry numberText trail request metadata)
    | some (n + 1) =>
      some (writeAuditEntry numberText trail request
        (some (spread (metadata.getD []) [(units "suppressedSince", .num (count (n + 1)))])))

def Trail.Fresh (trail : Trail ν) : Prop := trail.auditLog = [] ∧ trail.throttle.Fresh

end Runs

section Rows

variable {ν : Type} {numberText : ν → Text} {count : Nat → ν} {flags : AuditFlags}
  {trail after : Trail ν} {request : WriteRequest ν}

/-- What a request adds to the trail. -/
theorem persist_cases (taken : persist numberText count flags trail request = some after) :
    (after.auditLog = trail.auditLog ∧
      (due request flags = true → request.stored = true → metered request = true)) ∨
    ∃ metadata, after.auditLog = trail.auditLog ++ [rowOf request numberText metadata] ∧
      due request flags = true ∧ request.stored = true ∧
      (metered request = false → metadata = (ended request).1.draft.metadata) := by
  simp only [persist] at taken
  split at taken
  · rename_i exempt
    cases taken
    refine .inl ⟨rfl, fun its => ?_⟩
    cases its.symm.trans exempt
  rename_i wanted
  have wanted : due request flags = true := (Bool.not_eq_false _).mp wanted
  have written (trail : Trail ν) (metadata : Option (Members ν)) :
      (writeAuditEntry numberText trail request metadata).auditLog = trail.auditLog ∧
          request.stored = false ∨
        (writeAuditEntry numberText trail request metadata).auditLog =
          trail.auditLog ++ [rowOf request numberText metadata] ∧ request.stored = true := by
    unfold writeAuditEntry
    cases stored : request.stored with
    | true => exact .inr ⟨rfl, rfl⟩
    | false => exact .inl ⟨rfl, rfl⟩
  split at taken
  · rename_i free
    cases taken
    rcases written trail (ended request).1.draft.metadata with ⟨same, lost⟩ | ⟨more, stored⟩
    · refine .inl ⟨same, fun _ its => ?_⟩
      cases its.symm.trans lost
    · exact .inr ⟨_, more, wanted, stored, fun _ => rfl⟩
  · rename_i meter
    have meter : metered request = true := (Bool.not_eq_false _).mp meter
    obtain ⟨throttle, -, taken⟩ := Option.bind_eq_some_iff.mp taken
    have add (metadata : Option (Members ν))
        (same : writeAuditEntry numberText { trail with throttle } request metadata = after) :
        (after.auditLog = trail.auditLog ∧
          (due request flags = true → request.stored = true → metered request = true)) ∨
        ∃ metadata, after.auditLog = trail.auditLog ++ [rowOf request numberText metadata] ∧
          due request flags = true ∧ request.stored = true ∧
          (metered request = false → metadata = (ended request).1.draft.metadata) := by
      subst same
      rcases written { trail with throttle } metadata with ⟨same, lost⟩ | ⟨more, stored⟩
      · exact .inl ⟨same, fun _ _ => meter⟩
      · refine .inr ⟨_, more, wanted, stored, fun free => ?_⟩
        cases meter.symm.trans free
    split at taken
    · cases taken
      exact .inl ⟨rfl, fun _ _ => meter⟩
    · exact add _ (Option.some.inj taken)
    · exact add _ (Option.some.inj taken)

theorem length_boundString {value : Option Text} {max : Nat} (positive : 0 < max) {text : Text}
    (bounded : boundString value max = some text) : text.length ≤ max := by
  obtain ⟨whole, -, rfl⟩ := Option.map_eq_some_iff.mp bounded
  exact length_truncate_le whole positive

theorem length_boundString_getD {value : Option Text} {max : Nat} {fallback : Text}
    (positive : 0 < max) (short : fallback.length ≤ max) :
    ((boundString value max).getD fallback).length ≤ max := by
  cases bounded : boundString value max with
  | none => exact short
  | some text => exact length_boundString positive bounded

/-- The texts of a row are within their bounds, and its method is one that writes. The metadata has
no bound as a whole. -/
structure AuditRow.Bounded (row : AuditRow ν) : Prop where
  action : row.action.length ≤ MAX_ACTION_LENGTH
  targetType : ∀ text, row.targetType = some text → text.length ≤ MAX_TARGET_TYPE_LENGTH
  targetId : ∀ text, row.targetId = some text → text.length ≤ MAX_TARGET_ID_LENGTH
  actorLabel : row.actor.actorLabel.length ≤ MAX_LABEL_LENGTH
  ip : ∀ text, row.ip = some text → text.length ≤ MAX_IP_LENGTH
  userAgent : ∀ text, row.userAgent = some text → text.length ≤ MAX_USER_AGENT_LENGTH
  method : row.method ∈ MUTATING_METHODS
  path : row.path.length ≤ MAX_PATH_LENGTH

theorem boundString_method {method : Text} (writes : method ∈ MUTATING_METHODS) :
    (boundString (some method) MAX_METHOD_LENGTH).getD (units "UNKNOWN") = method := by
  have all : ∀ method ∈ MUTATING_METHODS,
      (boundString (some method) MAX_METHOD_LENGTH).getD (units "UNKNOWN") = method := by decide
  exact all method writes

theorem rowOf_bounded {metadata : Option (Members ν)} (wanted : due request flags = true) :
    (rowOf request numberText metadata).Bounded := by
  have writes : toUpperCase request.method ∈ MUTATING_METHODS := by
    simp only [due, audited, Bool.and_eq_true, decide_eq_true_eq] at wanted
    exact wanted.1.1.1.1
  refine ⟨?_, ?_, ?_, ?_, ?_, ?_, ?_, ?_⟩
  · exact length_boundString_getD (by decide) (by decide)
  · exact fun _ => length_boundString (by decide)
  · exact fun _ => length_boundString (by decide)
  · exact length_boundString_getD (by decide) (by decide)
  · exact fun _ => length_boundString (by decide)
  · exact fun _ => length_boundString (by decide)
  · simp only [rowOf, boundString_method writes]
    exact writes
  · exact length_boundString_getD (by decide) (by decide)

theorem bounded_exec {requests : List (WriteRequest ν)}
    (bounded : ∀ row ∈ trail.auditLog, row.Bounded)
    (ran : Run.exec (persist numberText count flags) trail requests = some after) :
    ∀ row ∈ after.auditLog, row.Bounded := by
  induction requests generalizing trail with
  | nil =>
    cases ran
    exact bounded
  | cons request rest ih =>
    obtain ⟨next, taken, ran⟩ := Option.bind_eq_some_iff.mp ran
    refine ih ?_ ran
    rcases persist_cases taken with ⟨same, -⟩ | ⟨metadata, more, wanted, -⟩
    · rw [same]
      exact bounded
    · rw [more]
      intro row member
      rcases List.mem_append.mp member with old | new
      · exact bounded row old
      · cases List.mem_singleton.mp new
        exact rowOf_bounded wanted

/-- The write of a caller that is known, which the trail is to have. -/
def identified (flags : AuditFlags) (request : WriteRequest ν) : Bool :=
  due request flags && (resolveActor (ended request).1).persisted

theorem identified_exec {requests : List (WriteRequest ν)}
    (ran : Run.exec (persist numberText count flags) trail requests = some after) :
    after.auditLog.filter (·.actor.persisted) =
      trail.auditLog.filter (·.actor.persisted) ++
        (requests.filter fun request => identified flags request && request.stored).map
          fun request => rowOf request numberText (ended request).1.draft.metadata := by
  induction requests generalizing trail with
  | nil =>
    cases ran
    simp
  | cons request rest ih =>
    obtain ⟨next, taken, ran⟩ := Option.bind_eq_some_iff.mp ran
    rw [ih ran]
    rcases persist_cases taken with ⟨same, missed⟩ | ⟨metadata, more, wanted, stored, plain⟩
    · have unknown : (identified flags request && request.stored) = false := by
        by_contra known
        rw [Bool.not_eq_false, identified] at known
        simp only [Bool.and_eq_true] at known
        have meter := missed known.1.1 known.2
        simp [metered, known.1.2] at meter
      rw [same, List.filter_cons_of_neg (by simp [unknown])]
    · rw [more, List.filter_append]
      cases known : (resolveActor (ended request).1).persisted with
      | true =>
        have its : (identified flags request && request.stored) = true := by
          simp [identified, wanted, stored, known]
        have free : metered request = false := by simp [metered, known]
        have kept : (rowOf request numberText metadata).actor.persisted = true := known
        rw [plain free] at kept ⊢
        simp [its, kept]
      | false =>
        have its : ¬(identified flags request && request.stored) = true := by
          simp [identified, known]
        have dropped : ¬(rowOf request numberText metadata).actor.persisted = true := by
          have same : (rowOf request numberText metadata).actor.persisted =
            (resolveActor (ended request).1).persisted := rfl
          rw [same, known]
          exact Bool.noConfusion
        simp [its, dropped]

/-- The rows of callers that are known are those of their writes whose insert succeeds, one each and
in their order, whatever unknown callers send beside them; and no row has a text over its bound or
is of a request that only reads. -/
theorem identified_writes_recorded {requests : List (WriteRequest ν)} (fresh : trail.Fresh)
    (ran : Run.exec (persist numberText count flags) trail requests = some after) :
    after.auditLog.filter (·.actor.persisted) =
      (requests.filter fun request => identified flags request && request.stored).map
        (fun request => rowOf request numberText (ended request).1.draft.metadata) ∧
    ∀ row ∈ after.auditLog, row.Bounded := by
  refine ⟨?_, bounded_exec ?_ ran⟩
  · rw [identified_exec ran, fresh.1]
    simp
  · rw [fresh.1]
    intro row member
    exact absurd member List.not_mem_nil

/-! ## Unknown callers -/

/-- The row of a denied write whose caller is not known. -/
def AuditRow.unknown (row : AuditRow ν) : Bool := 400 ≤ row.statusCode && !row.actor.persisted

/-- The calls of the throttle that were answered with a row. -/
def allowed (throttle : Throttle) : Nat := throttle.log.countP fun entry => entry.allowance.isSome

theorem unknown_rowOf {metadata : Option (Members ν)} :
    (rowOf request numberText metadata).unknown = metered request := rfl

/-- An insert adds one row or none. -/
theorem countP_writeAuditEntry {metadata : Option (Members ν)} :
    (writeAuditEntry numberText trail request metadata).auditLog.countP AuditRow.unknown ≤
      trail.auditLog.countP AuditRow.unknown + if metered request then 1 else 0 := by
  unfold writeAuditEntry
  split
  · rw [List.countP_append, List.countP_singleton, unknown_rowOf]
  · exact Nat.le_add_right _ _

theorem allowed_step {quota : Nat} {throttle next : Throttle} {call : Call}
    (taken : throttle.step quota call = some next) :
    allowed next = allowed throttle +
      if (anonAllowance quota call.now call.ip throttle.anonBuckets).2.isSome then 1 else 0 := by
  obtain ⟨-, same⟩ := Option.ite_none_right_eq_some.mp taken
  cases same
  rw [allowed, List.countP_cons]
  rfl

/-- Each row of an unknown caller has been allowed, and what the throttle does in a run of requests
it does in a run of its own. -/
theorem allowed_of_reachable (positive : 0 < flags.quota)
    (reached : Run.Reachable (persist numberText count flags) Trail.Fresh trail) :
    trail.auditLog.countP AuditRow.unknown ≤ allowed trail.throttle ∧
      Run.Reachable (Throttle.step flags.quota) Throttle.Fresh trail.throttle := by
  induction reached with
  | initial fresh =>
    rw [fresh.1]
    exact ⟨Nat.zero_le _, .initial fresh.2⟩
  | @next trail after request _ _ taken ih =>
    obtain ⟨fewer, run⟩ := ih
    simp only [persist] at taken
    split at taken
    · cases taken
      exact ⟨fewer, run⟩
    split at taken
    · rename_i free
      cases taken
      have added := @countP_writeAuditEntry _ numberText trail request (ended request).1.draft.metadata
      have same (metadata : Option (Members ν)) :
          (writeAuditEntry numberText trail request metadata).throttle = trail.throttle := by
        unfold writeAuditEntry
        split
        · rfl
        · rfl
      rw [free] at added
      rw [same]
      exact ⟨Nat.le_trans added fewer, run⟩
    · rename_i meter
      obtain ⟨throttle, step, taken⟩ := Option.bind_eq_some_iff.mp taken
      have step : trail.throttle.step flags.quota ⟨request.ip, request.now⟩ = some throttle := by
        unfold metering at step
        rwa [if_neg (Nat.ne_of_gt positive)] at step
      have counted := allowed_step step
      have onward := run.next trivial step
      have add (metadata : Option (Members ν))
          (some' : (anonAllowance flags.quota request.now request.ip trail.throttle.anonBuckets).2.isSome)
          (same : writeAuditEntry numberText { trail with throttle } request metadata = after) :
          after.auditLog.countP AuditRow.unknown ≤ allowed after.throttle ∧
            Run.Reachable (Throttle.step flags.quota) Throttle.Fresh after.throttle := by
        subst same
        have added := @countP_writeAuditEntry _ numberText { trail with throttle } request metadata
        have kept : (writeAuditEntry numberText { trail with throttle } request metadata).throttle =
            throttle := by
          unfold writeAuditEntry
          split
          · rfl
          · rfl
        rw [if_pos some'] at counted
        have one : (if metered request then 1 else 0) ≤ 1 := by
          split
          · exact Nat.le_refl _
          · exact Nat.zero_le _
        rw [kept]
        refine ⟨?_, onward⟩
        simp only at added
        omega
      split at taken
      · cases taken
        have more : allowed trail.throttle ≤ allowed throttle := by omega
        exact ⟨Nat.le_trans fewer more, onward⟩
      · rename_i answer
        exact add _ (by rw [answer]; rfl) (Option.some.inj taken)
      · rename_i answer
        exact add _ (by rw [answer]; rfl) (Option.some.inj taken)

/-- With a quota, the rows of denied writes by unknown callers are no more than the calls that the
throttle allowed, which are at most a quota in each window of an address. -/
theorem unknown_rows_metered (positive : 0 < flags.quota)
    (reached : Run.Reachable (persist numberText count flags) Trail.Fresh trail) :
    trail.auditLog.countP AuditRow.unknown ≤ allowed trail.throttle ∧
    trail.throttle.anonBuckets.size ≤ ANON_MAX_TRACKED_IPS ∧
    ∀ address, Account.Windowed flags.quota (trail.throttle.account address).entries := by
  obtain ⟨fewer, run⟩ := allowed_of_reachable positive reached
  obtain ⟨small, tidy⟩ := Throttle.bounded_of_reachable positive run
  exact ⟨fewer, small, fun address => (tidy address).windowed⟩

/-- An operator adds a question, and a caller who is not known tries to. -/
def operatorWrite : WriteRequest Nat where
  method := units "POST"
  pathname := units "/v1/questions"
  routePath := units "/v1/*"
  matchedRoutes := [units "/v1/*", units "/v1/questions"]
  ip := some "10.0.0.1"
  userAgent := none
  effects := [.setUser ⟨units "u1", units "one@booth.example", units "One"⟩]
  outcome := .ok 201
  now := 5

def deniedWrite : WriteRequest Nat :=
  { operatorWrite with effects := [], outcome := .ok 401, ip := some "10.0.0.2" }

def digits (n : Nat) : Text := units (Nat.repr n)

def oneAllowed : AuditFlags := { quota := 1 }

/-- The same write while the database is away. -/
def lostWrite : WriteRequest Nat := { operatorWrite with stored := false }

theorem identified_writes_recorded_denied :
    ∃ after, Run.exec (persist digits id oneAllowed) { throttle := { clock := 0 } }
        [deniedWrite, operatorWrite, lostWrite, deniedWrite] = some after ∧
      after.auditLog.length = 2 ∧
      after.auditLog.filter (·.actor.persisted) = [rowOf operatorWrite digits none] := by
  obtain ⟨after, ran⟩ : ∃ after, Run.exec (persist digits id oneAllowed)
    { throttle := { clock := 0 } } [deniedWrite, operatorWrite, lostWrite, deniedWrite] =
      some after := ⟨_, rfl⟩
  have fresh : Trail.Fresh ({ throttle := { clock := 0 } } : Trail Nat) := ⟨rfl, rfl⟩
  refine ⟨after, ran, ?_, ?_⟩
  · cases ran
    rfl
  · exact (identified_writes_recorded fresh ran).1.trans rfl

theorem unknown_rows_metered_denied :
    ∃ after, Run.exec (persist digits id oneAllowed) { throttle := { clock := 0 } }
        [deniedWrite, operatorWrite, deniedWrite] = some after ∧
      after.auditLog.countP AuditRow.unknown ≤ allowed after.throttle ∧
      after.throttle.log.length = 2 := by
  obtain ⟨after, ran⟩ : ∃ after, Run.exec (persist digits id oneAllowed)
    { throttle := { clock := 0 } } [deniedWrite, operatorWrite, deniedWrite] = some after := ⟨_, rfl⟩
  have fresh : Trail.Fresh ({ throttle := { clock := 0 } } : Trail Nat) := ⟨rfl, rfl⟩
  have positive : 0 < oneAllowed.quota := Nat.one_pos
  refine ⟨after, ran, (unknown_rows_metered positive (Run.reachable_of_exec fresh ran)).1, ?_⟩
  cases ran
  rfl

end Rows

end BoothOperator.Audit
