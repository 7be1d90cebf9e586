import BoothOperator.Push.Registrations

/-! Where a push goes, in every run: to devices that wanted it, to none that is gone, and a badge to
all that wanted it throughout. -/
namespace BoothOperator.Push

open BoothOperator.Schema

/-! ## The pushes over a run -/

section Lists

variable {α : Type} {items more : List α} {item found : α} {place other : Nat}

theorem read_set (read : (items.set place item)[other]? = some found) :
    place = other ∧ found = item ∨ place ≠ other ∧ items[other]? = some found := by
  by_cases same : place = other
  · subst same
    have inside : place < items.length := by
      have bound := (List.getElem?_eq_some_iff.mp read).1
      rwa [List.length_set] at bound
    rw [List.getElem?_set_self inside] at read
    exact .inl ⟨rfl, (Option.some.inj read).symm⟩
  · rw [List.getElem?_set_ne same] at read
    exact .inr ⟨same, read⟩

theorem read_append (read : (items ++ more)[other]? = some found) :
    items[other]? = some found ∨ found ∈ more := by
  rcases Nat.lt_or_ge other items.length with before | late
  · rw [List.getElem?_append_left before] at read
    exact .inl read
  · rw [List.getElem?_append_right late] at read
    exact .inr (List.mem_of_getElem? read)

theorem kept_append (read : items[other]? = some found) : (items ++ more)[other]? = some found :=
  (List.getElem?_append_left (List.getElem?_eq_some_iff.mp read).1).trans read

theorem read_set_self (there : items[place]? = some found) :
    (items.set place item)[place]? = some item :=
  List.getElem?_set_self (List.getElem?_eq_some_iff.mp there).1

end Lists

namespace ApnsWorld

variable {world after : ApnsWorld} {event : ApnsEvent} {events : List ApnsEvent}

/-- Nothing that is known of a push is forgotten. -/
structure Carries (world after : ApnsWorld) : Prop where
  fanOuts : ∀ (place : Nat) (fanOut : FanOut), world.fanOuts[place]? = some fanOut →
    ∃ now, after.fanOuts[place]? = some now ∧ now.kind = fanOut.kind ∧
      now.notification = fanOut.notification ∧ now.fenced = fanOut.fenced
  sends : ∀ (place : Nat) (send : Send), world.sends[place]? = some send →
    ∃ now, after.sends[place]? = some now ∧ now.fanOut = send.fanOut ∧ now.userId = send.userId ∧
      (send.stage ≠ .devices → now.stage ≠ .devices ∧ now.targets = send.targets)
  deliveries : ∀ delivery ∈ world.deliveries, ∃ now ∈ after.deliveries,
    now.send = delivery.send ∧ now.device = delivery.device ∧
      (isSettled delivery = true → now.stage = delivery.stage)

theorem carries_of_same (fanOuts : after.fanOuts = world.fanOuts)
    (sends : after.sends = world.sends)
    (deliveries : after.deliveries = world.deliveries) : Carries world after := by
  refine ⟨?_, ?_, ?_⟩
  · intro place fanOut read
    exact ⟨fanOut, (congrArg (·[place]?) fanOuts).trans read, rfl, rfl, rfl⟩
  · intro place send read
    exact ⟨send, (congrArg (·[place]?) sends).trans read, rfl, rfl, fun started => ⟨started, rfl⟩⟩
  · intro delivery member
    exact ⟨delivery, deliveries ▸ member, rfl, rfl, fun _ => rfl⟩

section Primitives

variable {place : Nat} {fanOut : FanOut} {send next : Send} {delivery : Delivery}

theorem carries_setFanOut (there : world.fanOuts[place]? = some fanOut) (stage : FanOutStage)
    (more : List Send) :
    Carries world
      { world.setFanOut place { fanOut with stage } with sends := world.sends ++ more } := by
  refine ⟨?_, ?_, ?_⟩
  · intro other found read
    by_cases same : place = other
    · subst same
      cases there.symm.trans read
      exact ⟨_, read_set_self there, rfl, rfl, rfl⟩
    · exact ⟨found, (List.getElem?_set_ne same).trans read, rfl, rfl, rfl⟩
  · intro other found read
    exact ⟨found, kept_append read, rfl, rfl, fun started => ⟨started, rfl⟩⟩
  · intro delivery member
    exact ⟨delivery, member, rfl, rfl, fun _ => rfl⟩

theorem carries_stage (there : world.fanOuts[place]? = some fanOut) (stage : FanOutStage) :
    Carries world (world.setFanOut place { fanOut with stage }) := by
  have carries := carries_setFanOut there stage []
  rwa [List.append_nil] at carries

theorem carries_deliveries (there : world.sends[place]? = some send)
    (fanOut : next.fanOut = send.fanOut)
    (userId : next.userId = send.userId)
    (started : send.stage ≠ .devices → next.stage ≠ .devices ∧ next.targets = send.targets)
    (more : List Delivery) :
    Carries world { world.setSend place next with deliveries := world.deliveries ++ more } := by
  refine ⟨?_, ?_, ?_⟩
  · intro other found read
    exact ⟨found, read, rfl, rfl, rfl⟩
  · intro other found read
    by_cases same : place = other
    · subst same
      cases there.symm.trans read
      exact ⟨next, read_set_self there, fanOut, userId, started⟩
    · exact ⟨found, (List.getElem?_set_ne same).trans read, rfl, rfl, fun started => ⟨started, rfl⟩⟩
  · intro delivery member
    exact ⟨delivery, List.mem_append_left _ member, rfl, rfl, fun _ => rfl⟩

theorem carries_setSend (there : world.sends[place]? = some send)
    (fanOut : next.fanOut = send.fanOut)
    (userId : next.userId = send.userId)
    (started : send.stage ≠ .devices → next.stage ≠ .devices ∧ next.targets = send.targets) :
    Carries world (world.setSend place next) := by
  have carries := carries_deliveries there fanOut userId started []
  rwa [List.append_nil] at carries

theorem carries_setDelivery (there : world.deliveries[place]? = some delivery)
    (pending : isSettled delivery = false) {now : Delivery} (send : now.send = delivery.send)
    (device : now.device = delivery.device) (fanOuts : after.fanOuts = world.fanOuts)
    (sends : after.sends = world.sends)
    (deliveries : after.deliveries = world.deliveries.set place now) : Carries world after := by
  have same : Carries world { after with deliveries := world.deliveries } :=
    carries_of_same fanOuts sends rfl
  obtain ⟨first, second, -⟩ := same
  refine ⟨first, second, ?_⟩
  intro found member
  obtain ⟨other, read⟩ := List.mem_iff_getElem?.mp member
  rw [deliveries]
  by_cases same : place = other
  · subst same
    cases there.symm.trans read
    refine ⟨now, List.mem_of_getElem? (read_set_self there), send, device, fun settled => ?_⟩
    rw [pending] at settled
    cases settled
  · exact ⟨found, List.mem_of_getElem? ((List.getElem?_set_ne same).trans read), rfl, rfl,
      fun _ => rfl⟩

end Primitives

theorem Moved.carries (moved : Moved world event after) : Carries world after := by
  cases moved with
  | quiet fanOuts sends deliveries => exact carries_of_same fanOuts sends deliveries
  | started kind notification fenced =>
    refine ⟨?_, fun _ send read => ⟨send, read, rfl, rfl, fun started => ⟨started, rfl⟩⟩,
      fun delivery member => ⟨delivery, member, rfl, rfl, fun _ => rfl⟩⟩
    intro place fanOut read
    exact ⟨fanOut, kept_append read, rfl, rfl, rfl⟩
  | users throws there stage =>
    unfold readUsers
    split
    · exact carries_stage there _
    · exact carries_setFanOut there .sending _
  | devices throws there its stage =>
    unfold readDevices
    split
    · exact carries_setSend there rfl rfl fun started => absurd stage started
    · exact carries_setSend there rfl rfl fun started => absurd stage started
  | token throws there stage =>
    refine carries_setSend there rfl rfl fun _ => ⟨?_, rfl⟩
    cases throws with
    | false => exact SendStage.noConfusion
    | true => exact SendStage.noConfusion
  | fence answer there its stage =>
    unfold startDeliveries
    split
    · refine carries_deliveries there ?_ ?_ ?_ _
      · rfl
      · rfl
      · exact fun _ => ⟨SendStage.noConfusion, rfl⟩
    · exact carries_setSend there rfl rfl fun _ => ⟨SendStage.noConfusion, rfl⟩
  | @submit place delivery send fanOut answer there its above stage =>
    have pending : isSettled delivery = false := by
      rw [isSettled, stage]
      rfl
    unfold submitDelivery
    split
    · refine carries_setDelivery there pending ?_ ?_ rfl rfl rfl
      · rfl
      · rfl
    · refine carries_setDelivery there pending ?_ ?_ rfl rfl rfl
      · rfl
      · rfl
  | delivered stage there pending fanOuts sends deliveries =>
    refine carries_setDelivery there pending ?_ ?_ fanOuts sends deliveries
    · rfl
    · rfl
  | settled there stage all =>
    exact carries_setSend there rfl rfl fun _ => ⟨SendStage.noConfusion, rfl⟩
  | finished there stage all => exact carries_stage there _

/-! ## What is known of the pushes -/

/-- The fan-out of a send has read its operators; a badge's that has ended without an error leaves
no send that did not resolve. -/
def Known (world : ApnsWorld) (send : Send) : Prop :=
  ∃ fanOut, world.fanOuts[send.fanOut]? = some fanOut ∧
    (fanOut.stage = .sending ∨ ∃ rejected, fanOut.stage = .ended rejected ∧
      (fanOut.kind = .badge → rejected = false → send.stage = .settled false))

/-- Once a send has read its devices there is a delivery to each of them as soon as it delivers, and
when it resolves each has been accepted or permanently refused. -/
structure SendSound (world : ApnsWorld) (place : Nat) (send : Send) : Prop where
  read : send.stage ≠ .devices → send.stage ≠ .settled true →
    ∃ targets, send.targets = some targets
  delivering : send.stage = .delivering → ∀ targets, send.targets = some targets →
    ∀ target ∈ targets, ∃ delivery ∈ world.deliveries,
      delivery.send = place ∧ delivery.device = target
  resolved : send.stage = .settled false → ∀ targets, send.targets = some targets →
    ∀ target ∈ targets, ∃ delivery ∈ world.deliveries, delivery.send = place ∧
      delivery.device = target ∧ (delivery.stage = .accepted ∨ delivery.stage = .refused)

/-- The lease of a submission under a fence has the fence's minimum to run. -/
def Submission.Fenced (submission : Submission) : Prop :=
  ∃ leaseExpiresAt, submission.leaseExpiresAt = some leaseExpiresAt ∧
    submission.submittedAt + apnsDeliveryFenceMinimumMs ≤ leaseExpiresAt

/-- A delivery goes to a device that its send has read. -/
structure DeliverySound (world : ApnsWorld) (delivery : Delivery) : Prop where
  target : ∃ send targets, world.sends[delivery.send]? = some send ∧ send.stage ≠ .devices ∧
    send.targets = some targets ∧ delivery.device ∈ targets
  fenced : ∀ submission, delivery.submission = some submission → ∀ send fanOut,
    world.sends[delivery.send]? = some send → world.fanOuts[send.fanOut]? = some fanOut →
      fanOut.fenced = true → Submission.Fenced submission

structure Sound (world : ApnsWorld) : Prop where
  known : ∀ send ∈ world.sends, Known world send
  sends : ∀ (place : Nat) (send : Send), world.sends[place]? = some send →
    SendSound world place send
  deliveries : ∀ delivery ∈ world.deliveries, DeliverySound world delivery

theorem Known.same {send : Send} (known : Known world send)
    (fanOuts : after.fanOuts = world.fanOuts) :
    Known after send := by
  rw [Known, fanOuts]
  exact known

section Carry

variable {place : Nat} {send : Send} {delivery now : Delivery}

theorem SendSound.carry (sound : SendSound world place send) (carries : Carries world after) :
    SendSound after place send := by
  refine ⟨sound.read, ?_, ?_⟩
  · intro stage targets its target member
    obtain ⟨delivery, there, own, device⟩ := sound.delivering stage targets its target member
    obtain ⟨now, later, same, same', -⟩ := carries.deliveries delivery there
    exact ⟨now, later, same.trans own, same'.trans device⟩
  · intro stage targets its target member
    obtain ⟨delivery, there, own, device, answer⟩ := sound.resolved stage targets its target member
    obtain ⟨now, later, same, same', settled⟩ := carries.deliveries delivery there
    refine ⟨now, later, same.trans own, same'.trans device, ?_⟩
    have finished : isSettled delivery = true := by
      rcases answer with accepted | refused
      · simp [isSettled, accepted]
      · simp [isSettled, refused]
    rw [settled finished]
    exact answer

theorem DeliverySound.carry (sound : DeliverySound world delivery)
    (known : ∀ send ∈ world.sends, Known world send) (carries : Carries world after)
    (send : now.send = delivery.send)
    (device : now.device = delivery.device) (submission : now.submission = delivery.submission) :
    DeliverySound after now := by
  obtain ⟨old, targets, read, started, its, member⟩ := sound.target
  obtain ⟨later, read', fanOut, -, kept⟩ := carries.sends _ _ read
  refine ⟨⟨later, targets, ?_, (kept started).1, (kept started).2.trans its, device ▸ member⟩, ?_⟩
  · rw [send]
    exact read'
  · intro posted same other above found its fenced
    rw [send, read'] at found
    cases found
    obtain ⟨owner, old', -⟩ := known old (List.mem_of_getElem? read)
    obtain ⟨current, there, -, -, fence⟩ := carries.fanOuts _ _ old'
    rw [fanOut, there] at its
    cases its
    exact sound.fenced posted (submission ▸ same) old owner read old' (fence ▸ fenced)

end Carry

section Step

variable {place : Nat} {fanOut : FanOut} {send next : Send} {delivery now : Delivery}

/-- One send moves on, and its deliveries may begin. -/
theorem Sound.moveSend (sound : Sound world) (there : world.sends[place]? = some send)
    (pending : send.stage ≠ .settled false) (own : next.fanOut = send.fanOut)
    (fanOuts : after.fanOuts = world.fanOuts) (sends : after.sends = world.sends.set place next)
    (carries : Carries world after) (its : SendSound after place next)
    (deliveries : ∀ delivery ∈ after.deliveries,
      delivery ∈ world.deliveries ∨ DeliverySound after delivery) : Sound after := by
  refine ⟨?_, ?_, ?_⟩
  · intro found member
    rw [sends] at member
    rcases List.mem_or_eq_of_mem_set member with old | rfl
    · exact (sound.known found old).same fanOuts
    · obtain ⟨fanOut, read, state⟩ := sound.known send (List.mem_of_getElem? there)
      refine ⟨fanOut, ?_, ?_⟩
      · rw [fanOuts, own]
        exact read
      · rcases state with sending | ⟨rejected, ended, all⟩
        · exact .inl sending
        · exact .inr ⟨rejected, ended, fun badge resolved => absurd (all badge resolved) pending⟩
  · intro other found read
    rw [sends] at read
    rcases read_set read with ⟨rfl, rfl⟩ | ⟨-, old⟩
    · exact its
    · exact (sound.sends other found old).carry carries
  · intro delivery member
    rcases deliveries delivery member with old | new
    · exact (sound.deliveries delivery old).carry sound.known carries rfl rfl rfl
    · exact new

/-- One delivery moves on. -/
theorem Sound.moveDelivery (sound : Sound world) (fanOuts : after.fanOuts = world.fanOuts)
    (sends : after.sends = world.sends)
    (deliveries : after.deliveries = world.deliveries.set place now)
    (carries : Carries world after) (its : DeliverySound after now) : Sound after := by
  refine ⟨?_, ?_, ?_⟩
  · intro found member
    rw [sends] at member
    exact (sound.known found member).same fanOuts
  · intro other found read
    rw [sends] at read
    exact (sound.sends other found read).carry carries
  · intro found member
    rw [deliveries] at member
    rcases List.mem_or_eq_of_mem_set member with old | rfl
    · exact (sound.deliveries found old).carry sound.known carries rfl rfl rfl
    · exact its

/-- One fan-out moves on, and its sends may begin. -/
theorem Sound.moveFanOut (sound : Sound world) {stage : FanOutStage} {more : List Send}
    (fanOuts : after.fanOuts = world.fanOuts.set place { fanOut with stage })
    (sends : after.sends = world.sends ++ more) (deliveries : after.deliveries = world.deliveries)
    (carries : Carries world after)
    (state : ∀ send ∈ world.sends, send.fanOut = place → Known world send → Known after send)
    (fresh : ∀ send ∈ more, Known after send ∧ send.stage = .devices) : Sound after := by
  refine ⟨?_, ?_, ?_⟩
  · intro found member
    rw [sends] at member
    rcases List.mem_append.mp member with old | new
    · by_cases its : found.fanOut = place
      · exact state found old its (sound.known found old)
      · obtain ⟨owner, read, state⟩ := sound.known found old
        refine ⟨owner, ?_, state⟩
        rw [fanOuts]
        exact (List.getElem?_set_ne (Ne.symm its)).trans read
    · exact (fresh found new).1
  · intro other found read
    rw [sends] at read
    rcases read_append read with old | new
    · exact (sound.sends other found old).carry carries
    · have stage := (fresh found new).2
      refine ⟨fun started => absurd stage started, ?_, ?_⟩
      · intro delivering
        rw [stage] at delivering
        cases delivering
      · intro resolved
        rw [stage] at resolved
        cases resolved
  · intro found member
    rw [deliveries] at member
    exact (sound.deliveries found member).carry sound.known carries rfl rfl rfl

theorem fenced_of_passes {fenced : Bool} {time : Time} {answer : FenceAnswer}
    (passes : fencePasses fenced time answer = true) (its : fenced = true) :
    ∃ leaseExpiresAt, answer.join = some leaseExpiresAt ∧
      time + apnsDeliveryFenceMinimumMs ≤ leaseExpiresAt := by
  subst its
  rcases answer with - | - | leaseExpiresAt
  · cases passes
  · cases passes
  · refine ⟨leaseExpiresAt, rfl, ?_⟩
    exact Int.add_le_of_le_sub_left (of_decide_eq_true passes)

theorem Sound.step (sound : Sound world) (taken : world.step event = some after) : Sound after := by
  obtain ⟨moved, -⟩ := step_cases taken
  have carries := moved.carries
  cases moved with
  | quiet fanOuts sends deliveries =>
    refine ⟨?_, ?_, ?_⟩
    · intro send member
      rw [sends] at member
      exact (sound.known send member).same fanOuts
    · intro place send read
      rw [sends] at read
      exact (sound.sends place send read).carry carries
    · intro delivery member
      rw [deliveries] at member
      exact (sound.deliveries delivery member).carry sound.known carries rfl rfl rfl
  | started kind notification fenced =>
    refine ⟨?_, ?_, ?_⟩
    · intro send member
      obtain ⟨fanOut, read, state⟩ := sound.known send member
      exact ⟨fanOut, kept_append read, state⟩
    · intro place send read
      exact (sound.sends place send read).carry carries
    · intro delivery member
      exact (sound.deliveries delivery member).carry sound.known carries rfl rfl rfl
  | @users place fanOut throws there stage =>
    -- No send belongs to a fan-out that has yet to read its operators.
    have none (send : Send) (its : send.fanOut = place) (known : Known world send) : False := by
      obtain ⟨found, read, state⟩ := known
      rw [its, there] at read
      cases read
      rcases state with sending | ⟨rejected, ended, -⟩
      · rw [stage] at sending
        cases sending
      · rw [stage] at ended
        cases ended
    unfold readUsers at carries ⊢
    split at carries
    · rename_i fails
      rw [if_pos fails]
      refine sound.moveFanOut rfl (List.append_nil _).symm rfl carries ?_ ?_
      · exact fun send _ its known => absurd known (none send its)
      · exact fun _ member => absurd member List.not_mem_nil
    · rename_i reads
      rw [if_neg reads]
      refine sound.moveFanOut rfl rfl rfl carries ?_ ?_
      · exact fun send _ its known => absurd known (none send its)
      · intro send member
        obtain ⟨userId, -, rfl⟩ := List.mem_map.mp member
        exact ⟨⟨_, read_set_self there, .inl rfl⟩, rfl⟩
  | @devices place send fanOut throws there its stage =>
    have pending : send.stage ≠ .settled false := by
      rw [stage]
      exact SendStage.noConfusion
    unfold readDevices at carries ⊢
    split at carries
    · rename_i fails
      rw [if_pos fails]
      refine sound.moveSend there pending ?_ rfl rfl carries ?_ fun _ member => .inl member
      · rfl
      exact ⟨fun _ other => absurd rfl other, SendStage.noConfusion,
        fun resolved => by cases resolved⟩
    · rename_i reads
      rw [if_neg reads]
      refine sound.moveSend there pending ?_ rfl rfl carries ?_ fun _ member => .inl member
      · rfl
      refine ⟨fun _ _ => ⟨_, rfl⟩, ?_, ?_⟩
      · intro delivering
        simp only at delivering
        split at delivering
        · cases delivering
        · cases delivering
      · intro resolved targets read
        cases read
        simp only at resolved ⊢
        split at resolved
        · rename_i empty
          rw [empty]
          exact fun _ member => absurd member List.not_mem_nil
        · cases resolved
  | @token place send throws there stage =>
    have pending : send.stage ≠ .settled false := by
      rw [stage]
      exact SendStage.noConfusion
    refine sound.moveSend there pending ?_ rfl rfl carries ?_ fun _ member => .inl member
    · rfl
    have old := (sound.sends place send there).read
    rw [stage] at old
    refine ⟨fun _ _ => old SendStage.noConfusion SendStage.noConfusion, ?_, ?_⟩
    · intro delivering
      cases throws with
      | false => cases delivering
      | true => cases delivering
    · intro resolved
      cases throws with
      | false => cases resolved
      | true => cases resolved
  | @fence place send fanOut answer there its stage =>
    have pending : send.stage ≠ .settled false := by
      rw [stage]
      exact SendStage.noConfusion
    obtain ⟨targets, read⟩ := (sound.sends place send there).read
      (by rw [stage]; exact SendStage.noConfusion) (by rw [stage]; exact SendStage.noConfusion)
    unfold startDeliveries at carries ⊢
    split at carries
    · rename_i passes
      rw [if_pos passes]
      refine sound.moveSend there pending ?_ rfl rfl carries ?_ ?_
      · rfl
      · refine ⟨fun _ _ => ⟨targets, read⟩, ?_, SendStage.noConfusion⟩
        intro _ found same target member
        cases read.symm.trans same
        refine ⟨{ send := place, device := target }, List.mem_append_right _ ?_, rfl, rfl⟩
        rw [read]
        exact List.mem_map.mpr ⟨target, member, rfl⟩
      · intro delivery member
        rcases List.mem_append.mp member with old | new
        · exact .inl old
        · obtain ⟨target, there', rfl⟩ := List.mem_map.mp new
          rw [read] at there'
          refine .inr ⟨⟨_, targets, read_set_self there, SendStage.noConfusion, read, there'⟩, ?_⟩
          intro submission none
          cases none
    · rename_i stops
      rw [if_neg stops]
      refine sound.moveSend there pending ?_ rfl rfl carries ?_ fun _ member => .inl member
      · rfl
      · exact ⟨fun _ other => absurd rfl other, SendStage.noConfusion,
          fun resolved => by cases resolved⟩
  | @submit place delivery send fanOut answer there its above stage =>
    have old := sound.deliveries delivery (List.mem_of_getElem? there)
    unfold submitDelivery at carries ⊢
    split at carries
    · rename_i passes
      rw [if_pos passes]
      refine sound.moveDelivery rfl rfl rfl carries ?_
      refine ⟨old.target, ?_⟩
      intro submission posted other found read above' fenced
      cases posted
      cases its.symm.trans read
      cases above.symm.trans above'
      obtain ⟨leaseExpiresAt, joined, ahead⟩ := fenced_of_passes passes fenced
      refine ⟨leaseExpiresAt, ?_, ahead⟩
      rw [← joined]
      exact if_pos fenced
    · rename_i stops
      rw [if_neg stops]
      exact sound.moveDelivery rfl rfl rfl carries ⟨old.target, old.fenced⟩
  | @delivered _ place delivery stage there pending fanOuts sends deliveries =>
    have old := sound.deliveries delivery (List.mem_of_getElem? there)
    refine sound.moveDelivery fanOuts sends deliveries carries ?_
    exact old.carry sound.known carries rfl rfl rfl
  | @settled place send there stage all =>
    have pending : send.stage ≠ .settled false := by
      rw [stage]
      exact SendStage.noConfusion
    have old := sound.sends place send there
    refine sound.moveSend there pending ?_ rfl rfl carries ?_ fun _ member => .inl member
    · rfl
    refine ⟨fun _ _ => old.read (by rw [stage]; exact SendStage.noConfusion)
      (by rw [stage]; exact SendStage.noConfusion), SendStage.noConfusion, ?_⟩
    intro resolved targets read target member
    obtain ⟨delivery, there', own, device⟩ := old.delivering stage targets read target member
    refine ⟨delivery, there', own, device, ?_⟩
    have none : world.failures place = [] := by
      have none := SendStage.settled.inj resolved
      exact not_not.mp (of_decide_eq_false none)
    have settled := List.all_eq_true.mp all delivery there'
    have settled : isSettled delivery = true := by simpa [own] using settled
    have answer : delivery.stage = .accepted ∨ delivery.stage = .refused ∨
        delivery.stage = .failed := of_decide_eq_true settled
    rcases answer with accepted | refused | failed
    · exact .inl accepted
    · exact .inr refused
    · have listed : delivery ∈ world.failures place :=
        List.mem_filter.mpr ⟨there', decide_eq_true ⟨own, failed⟩⟩
      rw [none] at listed
      exact absurd listed List.not_mem_nil
  | @finished place fanOut there stage all =>
    refine sound.moveFanOut rfl (List.append_nil _).symm rfl carries ?_ ?_
    · intro send member its _
      subst its
      refine ⟨_, read_set_self there, .inr ⟨_, rfl, ?_⟩⟩
      intro badge resolved
      have settled := List.all_eq_true.mp all send member
      have settled : send.stage = .settled true ∨ send.stage = .settled false := by
        simpa using settled
      rcases settled with rejected | resolved'
      · have listed : send ∈ world.rejectedSends send.fanOut :=
          List.mem_filter.mpr ⟨member, decide_eq_true ⟨rfl, rejected⟩⟩
        exact absurd ⟨badge, List.ne_nil_of_mem listed⟩ (of_decide_eq_false resolved)
      · exact resolved'
    · exact fun _ member => absurd member List.not_mem_nil

theorem sound_of_fresh (fresh : Fresh world) : Sound world := by
  obtain ⟨-, -, -, sends, deliveries⟩ := fresh
  refine ⟨?_, ?_, ?_⟩
  · rw [sends]
    exact fun _ member => absurd member List.not_mem_nil
  · intro place send read
    rw [sends] at read
    cases read
  · rw [deliveries]
    exact fun _ member => absurd member List.not_mem_nil

theorem sound_of_exec (sound : Sound world)
    (ran : Run.exec ApnsWorld.step world events = some after) :
    Sound after := by
  induction events generalizing world with
  | nil =>
    cases ran
    exact sound
  | cons event rest ih =>
    obtain ⟨next, taken, ran⟩ := Option.bind_eq_some_iff.mp ran
    exact ih (sound.step taken) ran

end Step

section Runs

variable {world after : ApnsWorld} {event : ApnsEvent} {events : List ApnsEvent} {send : Send}
  {place : Nat} {targets : List TargetDevice}

theorem Carries.trans {middle : ApnsWorld} (first : Carries world middle)
    (second : Carries middle after) : Carries world after := by
  refine ⟨?_, ?_, ?_⟩
  · intro place fanOut read
    obtain ⟨now, read, kind, notification, fenced⟩ := first.fanOuts place fanOut read
    obtain ⟨last, read, kind', notification', fenced'⟩ := second.fanOuts place now read
    exact ⟨last, read, kind'.trans kind, notification'.trans notification, fenced'.trans fenced⟩
  · intro place send read
    obtain ⟨now, read, fanOut, userId, kept⟩ := first.sends place send read
    obtain ⟨last, read, fanOut', userId', kept'⟩ := second.sends place now read
    refine ⟨last, read, fanOut'.trans fanOut, userId'.trans userId, fun started => ?_⟩
    obtain ⟨going, same⟩ := kept started
    exact ⟨(kept' going).1, (kept' going).2.trans same⟩
  · intro delivery member
    obtain ⟨now, member, own, device, settled⟩ := first.deliveries delivery member
    obtain ⟨last, member, own', device', settled'⟩ := second.deliveries now member
    refine ⟨last, member, own'.trans own, device'.trans device, fun finished => ?_⟩
    have same := settled finished
    refine (settled' ?_).trans same
    rw [isSettled, same]
    exact finished

theorem carries_exec (ran : Run.exec step world events = some after) : Carries world after := by
  induction events generalizing world with
  | nil =>
    cases ran
    exact carries_of_same rfl rfl rfl
  | cons event rest ih =>
    obtain ⟨next, taken, ran⟩ := Option.bind_eq_some_iff.mp ran
    exact (step_cases taken).1.carries.trans (ih ran)

/-- The devices of a send come from before the step, or it reads them there. -/
theorem targets_step (taken : world.step event = some after)
    (there : after.sends[place]? = some send) (its : send.targets = some targets) :
    (∃ old, world.sends[place]? = some old ∧ old.targets = some targets) ∨
      event = .devices place false ∧ ∃ fanOut, world.fanOuts[send.fanOut]? = some fanOut ∧
        targets = findTargetDevices send.userId fanOut.notification.preferenceKey world.rows := by
  obtain ⟨moved, -⟩ := step_cases taken
  have still (read : world.sends[place]? = some send) :
      ∃ old, world.sends[place]? = some old ∧ old.targets = some targets := ⟨send, read, its⟩
  cases moved with
  | quiet fanOuts sends deliveries => exact .inl (still (sends ▸ there))
  | started kind notification fenced => exact .inl (still there)
  | users throws there' stage =>
    unfold readUsers at there
    split at there
    · exact .inl (still there)
    · rcases read_append there with old | new
      · exact .inl (still old)
      · obtain ⟨userId, -, rfl⟩ := List.mem_map.mp new
        cases its
  | @devices other own fanOut throws there' above stage read =>
    unfold readDevices at there
    split at there
    · rcases read_set there with ⟨rfl, rfl⟩ | ⟨-, old⟩
      · exact .inl ⟨own, there', its⟩
      · exact .inl (still old)
    · rename_i answered
      rw [Bool.not_eq_true] at answered
      rcases read_set there with ⟨rfl, rfl⟩ | ⟨-, old⟩
      · exact .inr ⟨answered ▸ read, fanOut, above, (Option.some.inj its).symm⟩
      · exact .inl (still old)
  | token throws there' stage =>
    rcases read_set there with ⟨rfl, rfl⟩ | ⟨-, old⟩
    · exact .inl ⟨_, there', its⟩
    · exact .inl (still old)
  | fence answer there' above stage =>
    unfold startDeliveries at there
    split at there
    · rcases read_set there with ⟨rfl, rfl⟩ | ⟨-, old⟩
      · exact .inl ⟨_, there', its⟩
      · exact .inl (still old)
    · rcases read_set there with ⟨rfl, rfl⟩ | ⟨-, old⟩
      · exact .inl ⟨_, there', its⟩
      · exact .inl (still old)
  | submit answer there' own above stage =>
    unfold submitDelivery at there
    split at there
    · exact .inl (still there)
    · exact .inl (still there)
  | delivered stage there' pending fanOuts sends deliveries => exact .inl (still (sends ▸ there))
  | settled there' stage all =>
    rcases read_set there with ⟨rfl, rfl⟩ | ⟨-, old⟩
    · exact .inl ⟨_, there', its⟩
    · exact .inl (still old)
  | finished there' stage all => exact .inl (still there)

theorem targets_exec (ran : Run.exec ApnsWorld.step world events = some after)
    (there : after.sends[place]? = some send) (its : send.targets = some targets) :
    (∃ old, world.sends[place]? = some old ∧ old.targets = some targets) ∨
      ∃ before rest mid, events = before ++ .devices place false :: rest ∧
        Run.exec ApnsWorld.step world before = some mid ∧ ∃ fanOut,
        after.fanOuts[send.fanOut]? = some fanOut ∧
        targets = findTargetDevices send.userId fanOut.notification.preferenceKey mid.rows := by
  induction events generalizing world with
  | nil =>
    cases ran
    exact .inl ⟨send, there, its⟩
  | cons event rest ih =>
    obtain ⟨next, taken, later⟩ := Option.bind_eq_some_iff.mp ran
    rcases ih later with ⟨old, read, same⟩ | ⟨before, more, mid, rfl, met, found⟩
    · rcases targets_step taken read same with before | ⟨rfl, fanOut, above, found⟩
      · exact .inl before
      · obtain ⟨now, last, own, userId, -⟩ := (carries_exec later).sends place old read
        cases there.symm.trans last
        obtain ⟨final, above, -, notification, -⟩ :=
          ((step_cases taken).1.carries.trans (carries_exec later)).fanOuts _ _ above
        refine .inr ⟨[], rest, world, rfl, rfl, final, ?_, ?_⟩
        · rw [own]
          exact above
        · rw [userId, notification]
          exact found
    · refine .inr ⟨event :: before, more, mid, rfl, ?_, found⟩
      rw [Run.exec, taken]
      exact met

/-- A send that has read its devices reads them no more. -/
theorem devices_over (ran : Run.exec ApnsWorld.step world events = some after)
    (there : world.sends[place]? = some send) (begun : send.stage ≠ .devices) (throws : Bool) :
    .devices place throws ∉ events := by
  induction events generalizing world send with
  | nil => exact List.not_mem_nil
  | cons event rest ih =>
    obtain ⟨next, taken, ran⟩ := Option.bind_eq_some_iff.mp ran
    intro member
    rcases List.mem_cons.mp member with rfl | member
    · obtain ⟨other, read, taken⟩ := Option.bind_eq_some_iff.mp taken
      obtain ⟨fanOut, -, taken⟩ := Option.bind_eq_some_iff.mp taken
      cases there.symm.trans read
      rw [if_neg begun] at taken
      cases taken
    · obtain ⟨later, read, -, -, kept⟩ := (step_cases taken).1.carries.sends place send there
      exact ih ran read (kept begun).1 member

/-- So it reads them once in a run. -/
theorem devices_once {before rest : List ApnsEvent} {throws : Bool}
    (ran : Run.exec ApnsWorld.step world (before ++ .devices place throws :: rest) = some after)
    (again : Bool) : .devices place again ∉ before ++ rest := by
  have begins (state next : ApnsWorld) (throws : Bool)
      (taken : ApnsWorld.step state (.devices place throws) = some next) :
      ∃ send, next.sends[place]? = some send ∧ send.stage ≠ .devices := by
    obtain ⟨send, read, taken⟩ := Option.bind_eq_some_iff.mp taken
    obtain ⟨fanOut, -, taken⟩ := Option.bind_eq_some_iff.mp taken
    split at taken
    · cases taken
      unfold readDevices
      split
      · exact ⟨_, read_set_self read, SendStage.noConfusion⟩
      · refine ⟨_, read_set_self read, ?_⟩
        simp only
        split
        · exact SendStage.noConfusion
        · exact SendStage.noConfusion
    · cases taken
  have followed (first second : List ApnsEvent) (once again : Bool)
      (ran : Run.exec ApnsWorld.step world (first ++ .devices place once :: second) = some after) :
      .devices place again ∉ second := by
    rw [Run.exec_append] at ran
    obtain ⟨middle, -, ran⟩ := Option.bind_eq_some_iff.mp ran
    obtain ⟨next, taken, ran⟩ := Option.bind_eq_some_iff.mp ran
    obtain ⟨send, read, begun⟩ := begins _ _ _ taken
    exact devices_over ran read begun again
  intro member
  rcases List.mem_append.mp member with early | late
  · obtain ⟨first, second, rfl⟩ := List.append_of_mem early
    rw [List.append_assoc, List.cons_append] at ran
    exact followed first _ again throws ran (List.mem_append_right _ List.mem_cons_self)
  · exact followed before rest throws again ran late

/-- What every step preserves holds of all states of a run. -/
theorem trace_invariant {inv : ApnsWorld → Prop}
    (preserved : ∀ world event after, inv world → step world event = some after → inv after)
    (holds : inv world) {mid : ApnsWorld} (met : mid ∈ Run.trace ApnsWorld.step world events) :
    inv mid := by
  induction events generalizing world with
  | nil =>
    cases List.mem_singleton.mp met
    exact holds
  | cons event rest ih =>
    rw [Run.trace] at met
    rcases List.mem_cons.mp met with rfl | later
    · exact holds
    · split at later
      · cases later
      · rename_i next taken
        exact ih (preserved _ _ _ holds taken) later

theorem rowsSound_of_trace (rows : RowsSound world.rows) {mid : ApnsWorld}
    (met : mid ∈ Run.trace ApnsWorld.step world events) : RowsSound mid.rows :=
  trace_invariant (fun _ _ _ rows taken => RowsSound.moved rows (step_cases taken).2) rows met

theorem mem_findTargetDevices {userId : String} {key : Option PreferenceKey}
    {rows : List MobileDevice} {target : TargetDevice} :
    target ∈ findTargetDevices userId key rows ↔
      ∃ row ∈ rows, isTarget userId key row = true ∧ row.target = target := by
  simp only [findTargetDevices, List.mem_map, List.mem_filter, and_assoc]

/-- Every push that is submitted goes to a device that, when its send read the devices (it does so
once), was active, belonged to the operator it is for and was shown with the notification's
preference on; under a fence the lease then had its minimum to run. -/
theorem pushes_go_to_wanted_devices (fresh : Fresh world)
    (ran : Run.exec step world events = some after) {delivery : Delivery}
    (there : delivery ∈ after.deliveries) {submission : Submission}
    (submitted : delivery.submission = some submission) :
    ∃ send fanOut, after.sends[delivery.send]? = some send ∧
      after.fanOuts[send.fanOut]? = some fanOut ∧
      (∃ before rest mid, events = before ++ .devices delivery.send false :: rest ∧
        (∀ throws, .devices delivery.send throws ∉ before ++ rest) ∧
        Run.exec step world before = some mid ∧
        ∃ row ∈ mid.rows, row.target = delivery.device ∧
          row.userId = send.userId ∧ row.revokedAt = none ∧
          ∀ key, fanOut.notification.preferenceKey = some key →
            (mergePreferences (some row.preferences) none).get key = true) ∧
      (fanOut.fenced = true → Submission.Fenced submission) := by
  have sound := sound_of_exec (sound_of_fresh fresh) ran
  obtain ⟨⟨send, targets, read, -, its, member⟩, fenced⟩ := sound.deliveries delivery there
  rcases targets_exec ran read its with ⟨old, begun, -⟩ | found
  · rw [fresh.2.2.2.1] at begun
    cases begun
  · obtain ⟨before, rest, mid, rfl, met, fanOut, above, rfl⟩ := found
    obtain ⟨row, stored, wanted, same⟩ := mem_findTargetDevices.mp member
    obtain ⟨owner, active, prefers⟩ := of_decide_eq_true wanted
    refine ⟨send, fanOut, read, above, ⟨before, rest, mid, rfl, devices_once ran, met, row, stored,
      same, owner, active, ?_⟩, fenced submission submitted send fanOut read above⟩
    intro key asked
    have rows := rowsSound_of_trace (rowsSound_of_fresh fresh)
      (Run.mem_trace_of_exec met rest)
    obtain ⟨preferences, column⟩ := rows.columns row stored
    rw [asked, Option.all_some, column, prefers_column] at prefers
    rw [column, merge_column]
    exact prefers

/-- A badge on its way to one device, which is removed once it has been read; another is removed
before. -/
def badgePushed : List ApnsEvent :=
  [.register "ada" { apnsToken := "token", platform := "ios" },
    .register "ada" { apnsToken := "other", platform := "ios" }, .remove "ada" 1,
    .fanOut .badge (.badge 3) true, .users 0 false, .devices 0 false, .remove "ada" 0,
    .token 0 false, .fence 0 (some (some 60000)), .submit 0 (some (some 60000))]

theorem pushes_go_to_wanted_devices_run :
    ∃ after delivery submission, Run.exec step {} badgePushed = some after ∧
      after.deliveries = [delivery] ∧ delivery.submission = some submission ∧
      ∃ send fanOut, after.sends[delivery.send]? = some send ∧
        after.fanOuts[send.fanOut]? = some fanOut ∧
        (∃ before rest mid, badgePushed = before ++ .devices delivery.send false :: rest ∧
          (∀ throws, .devices delivery.send throws ∉ before ++ rest) ∧
          Run.exec step {} before = some mid ∧
          ∃ row ∈ mid.rows, row.target = delivery.device ∧
            row.userId = send.userId ∧ row.revokedAt = none ∧
            ∀ key, fanOut.notification.preferenceKey = some key →
              (mergePreferences (some row.preferences) none).get key = true) ∧
        (fanOut.fenced = true → Submission.Fenced submission) :=
  ⟨_, _, _, rfl, rfl, rfl,
    pushes_go_to_wanted_devices ⟨rfl, rfl, rfl, rfl, rfl⟩ rfl List.mem_cons_self rfl⟩

theorem rowsSound_of_reachable (reached : Run.Reachable step Fresh world) :
    RowsSound world.rows := by
  induction reached with
  | initial fresh => exact rowsSound_of_fresh fresh
  | next _ _ taken ih => exact ih.moved (step_cases taken).2

theorem sound_of_reachable (reached : Run.Reachable step Fresh world) : Sound world := by
  induction reached with
  | initial fresh => exact sound_of_fresh fresh
  | next _ _ taken ih => exact ih.step taken

/-- Nobody registers the address in the events. -/
def Unregistered (address : String × String) (events : List ApnsEvent) : Prop :=
  ∀ event ∈ events, ∀ entry, registration event = some entry → entry.2.address ≠ address

/-- A revoked device stays revoked in all states of a run that does not register it. -/
theorem revoked_trace {row : MobileDevice} (member : row ∈ world.rows)
    (revoked : row.revokedAt ≠ none) (unregistered : Unregistered row.address events)
    {mid : ApnsWorld} (met : mid ∈ Run.trace ApnsWorld.step world events) :
    ∃ later ∈ mid.rows, later.id = row.id ∧ later.revokedAt ≠ none := by
  induction events generalizing world row with
  | nil =>
    cases List.mem_singleton.mp met
    exact ⟨row, member, rfl, revoked⟩
  | cons event rest ih =>
    rw [Run.trace] at met
    rcases List.mem_cons.mp met with rfl | met
    · exact ⟨row, member, rfl, revoked⟩
    split at met
    · cases met
    rename_i next taken
    have moved := (step_cases taken).2
    have spared : Spared world.rows next.rows ∨ ∃ userId body now,
        RegisterMobileDeviceRequest.address body ≠ row.address ∧
          next.rows = registerDevice userId body now world.rows := by
      unfold RowsMoved at moved
      split at moved
      · rename_i userId body its
        exact .inr ⟨userId, body, world.now, unregistered event List.mem_cons_self _ its, moved⟩
      · exact .inl moved
    obtain ⟨kept, there, id, address, revoked⟩ := revoked_step member revoked spared
    obtain ⟨later, found, same, gone⟩ := ih there revoked
      (fun other listed => address ▸ unregistered other (List.mem_cons_of_mem _ listed)) met
    exact ⟨later, found, same.trans id, gone⟩

/-- Once a device is revoked, by its owner or because its token was refused, no push goes to it
until its token is registered again, save from sends that had read it before. -/
theorem revoked_device_silent (reached : Run.Reachable step Fresh world) {row : MobileDevice}
    (member : row ∈ world.rows) (revoked : row.revokedAt ≠ none)
    (unregistered : Unregistered row.address events)
    (ran : Run.exec step world events = some after) {delivery : Delivery}
    (there : delivery ∈ after.deliveries) (its : delivery.device.id = row.id) :
    ∃ send, world.sends[delivery.send]? = some send ∧ send.targets ≠ none := by
  have sound := sound_of_exec (sound_of_reachable reached) ran
  obtain ⟨⟨send, targets, read, -, own, target⟩, -⟩ := sound.deliveries delivery there
  rcases targets_exec ran read own with ⟨old, begun, same⟩ | ⟨before, rest, mid, rfl, met, fanOut, -, rfl⟩
  · exact ⟨old, begun, by rw [same]; exact Option.some_ne_none _⟩
  · obtain ⟨active, stored, wanted, same⟩ := mem_findTargetDevices.mp target
    have met := Run.mem_trace_of_exec met (.devices delivery.send false :: rest)
    obtain ⟨later, found, id, gone⟩ := revoked_trace member revoked unregistered met
    have rows := rowsSound_of_trace (rowsSound_of_reachable reached) met
    have distinct : (mid.rows.map (·.id)).Nodup := by
      rw [rows.ids]
      exact List.nodup_range
    have ids : active.id = later.id :=
      (congrArg TargetDevice.id same).trans (its.trans id.symm)
    cases Table.eq_of_key_eq distinct stored found ids
    exact absurd (of_decide_eq_true wanted).2.1 gone

/-- The device is removed while a send that has read it is under way. -/
def removedMidway : List ApnsEvent :=
  [.register "ada" { apnsToken := "token", platform := "ios" },
    .fanOut .badge (.badge 3) false, .users 0 false, .devices 0 false, .remove "ada" 0]

theorem revoked_device_silent_run :
    ∃ world after delivery, Run.exec step {} removedMidway = some world ∧
      Run.exec step world [.token 0 false, .fence 0 none, .submit 0 none] = some after ∧
      delivery ∈ after.deliveries ∧
      ∃ send, world.sends[delivery.send]? = some send ∧ send.targets ≠ none := by
  refine ⟨_, _, _, rfl, rfl, List.mem_cons_self, ?_⟩
  refine revoked_device_silent (Run.reachable_of_exec ⟨rfl, rfl, rfl, rfl, rfl⟩
    (rfl : Run.exec step {} removedMidway = some _)) List.mem_cons_self (Option.some_ne_none _) ?_
    (rfl : Run.exec step _ [.token 0 false, .fence 0 none, .submit 0 none] = some _)
    List.mem_cons_self rfl
  simp [Unregistered, registration]

/-! ## A badge that is delivered -/

/-- What a step does to a fan-out: it stays, it reads its operators, or it ends. -/
theorem fanOut_step (taken : world.step event = some after) {fanOut : FanOut}
    (there : world.fanOuts[place]? = some fanOut) :
    after.fanOuts[place]? = some fanOut ∨
      fanOut.stage = .users ∧ (∃ throws, after = world.readUsers place fanOut throws) ∨
      fanOut.stage = .sending := by
  obtain ⟨moved, -⟩ := step_cases taken
  cases moved with
  | quiet fanOuts sends deliveries => exact .inl ((congrArg (·[place]?) fanOuts).trans there)
  | started kind notification fenced => exact .inl (kept_append there)
  | @users other found throws there' stage =>
    by_cases same : other = place
    · subst same
      cases there'.symm.trans there
      exact .inr (.inl ⟨stage, throws, rfl⟩)
    · refine .inl ?_
      unfold readUsers
      split
      · exact (List.getElem?_set_ne same).trans there
      · exact (List.getElem?_set_ne same).trans there
  | devices throws there' its stage =>
    unfold readDevices
    split
    · exact .inl there
    · exact .inl there
  | token throws there' stage => exact .inl there
  | fence answer there' its stage =>
    unfold startDeliveries
    split
    · exact .inl there
    · exact .inl there
  | submit answer there' its above stage =>
    unfold submitDelivery
    split
    · exact .inl there
    · exact .inl there
  | delivered stage there' pending fanOuts sends deliveries =>
    exact .inl ((congrArg (·[place]?) fanOuts).trans there)
  | settled there' stage all => exact .inl there
  | @finished other found there' stage all =>
    by_cases same : other = place
    · subst same
      cases there'.symm.trans there
      exact .inr (.inr stage)
    · exact .inl ((List.getElem?_set_ne same).trans there)

/-- The badge has yet to read its operators, or cannot; or there is a send to this one of them, and
its devices, once it reads them, have this one among them. -/
def Reaches (place : Nat) (notification : ApnsNotification) (userId : String) (id : Id)
    (world : ApnsWorld) : Prop :=
  ∃ fanOut, world.fanOuts[place]? = some fanOut ∧ fanOut.kind = .badge ∧
    fanOut.notification = notification ∧
    (fanOut.stage = .users ∨ fanOut.stage = .ended true ∨
      ∃ (index : Nat) (send : Send), world.sends[index]? = some send ∧ send.fanOut = place ∧
        send.userId = userId ∧
        ∀ targets, send.targets = some targets → ∃ target ∈ targets, TargetDevice.id target = id)

variable {notification : ApnsNotification} {userId : String} {id : Id}

theorem reaches_step (reaches : Reaches place notification userId id world)
    (lasting : ∃ row ∈ world.rows, row.id = id ∧
      isTarget userId notification.preferenceKey row = true)
    (taken : world.step event = some after) : Reaches place notification userId id after := by
  obtain ⟨fanOut, there, badge, same, state⟩ := reaches
  obtain ⟨row, member, own, wanted⟩ := lasting
  obtain ⟨now, later, kind, notification', -⟩ :=
    (step_cases taken).1.carries.fanOuts place fanOut there
  refine ⟨now, later, kind.trans badge, notification'.trans same, ?_⟩
  rcases state with users | ended | ⟨index, send, read, above, its, targets⟩
  · rcases fanOut_step taken there with still | ⟨-, throws, rfl⟩ | sending
    · cases still.symm.trans later
      exact .inl users
    · cases throws with
      | true =>
        cases (read_set_self there).symm.trans later
        refine .inr (.inl ?_)
        rw [badge]
        rfl
      | false =>
        have listed : userId ∈ operatorUsers world.rows := by
          obtain ⟨owner, active, -⟩ := of_decide_eq_true wanted
          refine List.mem_dedup.mpr (List.mem_map.mpr ⟨row, ?_, owner⟩)
          exact List.mem_filter.mpr ⟨member, decide_eq_true active⟩
        have sent : ({ fanOut := place, userId } : Send) ∈
            (world.readUsers place fanOut false).sends :=
          List.mem_append_right _ (List.mem_map.mpr ⟨userId, listed, rfl⟩)
        obtain ⟨index, read⟩ := List.mem_iff_getElem?.mp sent
        refine .inr (.inr ⟨index, _, read, rfl, rfl, ?_⟩)
        intro _ none
        cases none
    · rw [users] at sending
      cases sending
  · rcases fanOut_step taken there with still | ⟨users, -⟩ | sending
    · cases still.symm.trans later
      exact .inr (.inl ended)
    · rw [users] at ended
      cases ended
    · rw [sending] at ended
      cases ended
  · obtain ⟨next, read', above', its', -⟩ := (step_cases taken).1.carries.sends index send read
    refine .inr (.inr ⟨index, next, read', above'.trans above, its'.trans its, ?_⟩)
    intro found stored
    rcases targets_step taken read' stored with ⟨old, begun, stored⟩ | ⟨-, owner, up, rfl⟩
    · cases read.symm.trans begun
      exact targets found stored
    · rw [above', above, there] at up
      cases up
      refine ⟨row.target, mem_findTargetDevices.mpr ⟨row, member, ?_, rfl⟩, own⟩
      rw [its', its, same]
      exact wanted

theorem reaches_exec (reaches : Reaches place notification userId id world)
    (lasting : ∀ mid ∈ Run.trace ApnsWorld.step world events,
      ∃ row ∈ mid.rows, row.id = id ∧ isTarget userId notification.preferenceKey row = true)
    (ran : Run.exec ApnsWorld.step world events = some after) :
    Reaches place notification userId id after := by
  induction events generalizing world with
  | nil =>
    cases ran
    exact reaches
  | cons event rest ih =>
    obtain ⟨next, taken, ran⟩ := Option.bind_eq_some_iff.mp ran
    refine ih (reaches_step reaches (lasting world List.mem_cons_self) taken) ?_ ran
    intro mid met
    refine lasting mid (List.mem_cons_of_mem _ ?_)
    rw [taken]
    exact met

/-- A badge whose fan-out ends without an error has reached every device that wanted it all along:
the push was accepted, or the device's token permanently refused. -/
theorem badge_reaches_lasting_devices (reached : Run.Reachable step Fresh world)
    {fanOut last : FanOut} (begun : world.fanOuts[place]? = some fanOut)
    (badge : fanOut.kind = .badge) (start : fanOut.stage = .users)
    (ran : Run.exec step world events = some after)
    (ended : after.fanOuts[place]? = some last) (resolved : last.stage = .ended false)
    (lasting : ∀ mid ∈ Run.trace step world events, ∃ row ∈ mid.rows, row.id = id ∧
      isTarget userId fanOut.notification.preferenceKey row = true) :
    ∃ delivery ∈ after.deliveries, delivery.device.id = id ∧
      (∃ send, after.sends[delivery.send]? = some send ∧ send.fanOut = place ∧
        send.userId = userId) ∧
      (delivery.stage = .accepted ∨ delivery.stage = .refused) := by
  have sound := sound_of_exec (sound_of_reachable reached) ran
  obtain ⟨now, there, kind, -, state⟩ :=
    reaches_exec ⟨fanOut, begun, badge, rfl, .inl start⟩ lasting ran
  cases there.symm.trans ended
  rcases state with users | rejected | ⟨index, send, read, above, its, targets⟩
  · rw [resolved] at users
    cases users
  · rw [resolved] at rejected
    cases rejected
  · obtain ⟨owner, up, state⟩ := sound.known send (List.mem_of_getElem? read)
    rw [above, there] at up
    cases up
    have settled : send.stage = .settled false := by
      rcases state with sending | ⟨rejected, finished, all⟩
      · rw [resolved] at sending
        cases sending
      · rw [resolved] at finished
        cases finished
        exact all kind rfl
    have known := sound.sends index send read
    obtain ⟨found, stored⟩ := known.read (by rw [settled]; exact SendStage.noConfusion)
      (by rw [settled]; exact fun same => Bool.noConfusion (SendStage.settled.inj same))
    obtain ⟨target, member, own⟩ := targets found stored
    obtain ⟨delivery, listed, from', device, answer⟩ :=
      known.resolved settled found stored target member
    refine ⟨delivery, listed, device ▸ own, ⟨send, from' ▸ read, above, its⟩, answer⟩

/-- A badge from its start to its end. -/
def badgeDelivered : List ApnsEvent :=
  [.users 0 false, .devices 0 false, .token 0 false, .fence 0 none, .submit 0 none,
    .answer 0 (some (200, none)), .settle 0, .finish 0]

theorem badge_reaches_lasting_devices_run :
    ∃ world after, Run.exec step {} [.register "ada" { apnsToken := "token", platform := "ios" },
        .fanOut .badge (.badge 3) false] = some world ∧
      Run.exec step world badgeDelivered = some after ∧
      ∃ delivery ∈ after.deliveries, delivery.device.id = 0 ∧
        (∃ send, after.sends[delivery.send]? = some send ∧ send.fanOut = 0 ∧ send.userId = "ada") ∧
        (delivery.stage = .accepted ∨ delivery.stage = .refused) := by
  refine ⟨_, _, rfl, rfl, ?_⟩
  refine badge_reaches_lasting_devices (Run.reachable_of_exec ⟨rfl, rfl, rfl, rfl, rfl⟩
    (rfl : Run.exec step {} [.register "ada" { apnsToken := "token", platform := "ios" },
      .fanOut .badge (.badge 3) false] = some _)) rfl rfl rfl
    (rfl : Run.exec step _ badgeDelivered = some _) rfl rfl ?_
  decide

end Runs

end ApnsWorld

end BoothOperator.Push
