import Mathlib.Data.List.Nodup

/-!
# Heartbeats and memory snapshots

`_heartbeat_handle_cancellations` sends `ContainerHeartbeat` inside
`async with self.heartbeat_condition`, after waiting while
`_waiting_for_memory_snapshot` is set; `memory_snapshot` holds the same
condition's lock from before it sets the flag until `memory_restore` returned.
Two tasks use the lock: the one `heartbeats` creates, and the caller of
`memory_snapshot`. A release hands the lock to the first queued task:
`asyncio.Lock` lets no other task take it before that task runs.
-/

namespace ContainerIO

inductive HeartbeatTask where
  | heartbeat
  | snapshot
  deriving DecidableEq, Repr

/-- Where the task of `_run_heartbeat_loop` is suspended. -/
inductive HeartbeatPc where
  /-- `heartbeats` has not been entered. -/
  | absent
  /-- Created by `heartbeats`, not yet run. -/
  | created
  /-- Queued on the lock, or handed it and not yet run. -/
  | lockWait
  /-- In `heartbeat_condition.wait()`, not yet notified. -/
  | condWait
  /-- Notified; `wait` has still to reacquire the lock. -/
  | notified
  /-- Holding the lock, with `ContainerHeartbeat` in flight (retries included). -/
  | inFlight
  | sleeping
  /-- The loop broke on `ClientClosed`. -/
  | stopped
  deriving DecidableEq, Repr

inductive SnapshotPc where
  | idle
  | lockWait
  /-- `ContainerCheckpoint` in flight. -/
  | checkpointing
  /-- `_client._close(prep_for_restore=True)` in flight. -/
  | closingClient
  /-- In the busy-wait of `memory_restore`. -/
  | restoring
  /-- `_Client.from_env()` in flight. -/
  | reconnecting
  | done
  /-- An exception left `memory_snapshot`. -/
  | failed
  deriving DecidableEq, Repr

/-- From the `ContainerCheckpoint` request until `memory_restore` returned. -/
def SnapshotPc.inWindow : SnapshotPc → Bool
  | .checkpointing | .closingClient | .restoring | .reconnecting => true
  | _ => false

structure SnapshotState where
  waitingForMemorySnapshot : Bool
  /-- The task the condition's lock belongs to. -/
  owner : Option HeartbeatTask
  /-- The tasks queued on the lock, first to be served first. -/
  queue : List HeartbeatTask
  heartbeat : HeartbeatPc
  snapshot : SnapshotPc
  deriving DecidableEq, Repr

namespace SnapshotState

def init : SnapshotState := ⟨false, none, [], .absent, .idle⟩

def release (s : SnapshotState) : SnapshotState :=
  { s with owner := s.queue.head?, queue := s.queue.tail }

def notifyAll (s : SnapshotState) : SnapshotState :=
  if s.heartbeat = .condWait then { s with heartbeat := .notified } else s

/-- The heartbeat task, holding the lock, at
`while self._waiting_for_memory_snapshot`. -/
def heartbeatCheck (s : SnapshotState) : SnapshotState :=
  if s.waitingForMemorySnapshot then { s.release with heartbeat := .condWait }
  else { s with heartbeat := .inFlight }

/-- The heartbeat task asks for the lock, at `async with` or when `wait`
reacquires it. -/
def heartbeatAcquire (s : SnapshotState) : SnapshotState :=
  if s.owner = none then heartbeatCheck { s with owner := some .heartbeat }
  else { s with queue := s.queue ++ [.heartbeat], heartbeat := .lockWait }

/-- `memory_snapshot` holding the lock: the GPU checkpoint, which may raise,
then the flag, the notification and the `ContainerCheckpoint` request. -/
def snapshotEnter (s : SnapshotState) (gpuRaised : Bool) : SnapshotState :=
  if gpuRaised then { s.release with snapshot := .failed }
  else notifyAll { s with waitingForMemorySnapshot := true, snapshot := .checkpointing }

def snapshotAcquire (s : SnapshotState) (gpuRaised : Bool) : SnapshotState :=
  if s.owner = none then snapshotEnter { s with owner := some .snapshot } gpuRaised
  else { s with queue := s.queue ++ [.snapshot], snapshot := .lockWait }

end SnapshotState

inductive SnapshotEvent where
  /-- Entering `heartbeats(wait_for_mem_snap)`. -/
  | heartbeats (waitForMemSnap : Bool)
  /-- The heartbeat task runs from where it is suspended. -/
  | heartbeatRun
  /-- The heartbeat request returns or raises. -/
  | heartbeatReturn (clientClosed : Bool)
  | memorySnapshot (hasCheckpointId gpuRaised : Bool)
  /-- The snapshot task runs with the lock handed to it. -/
  | snapshotResume (gpuRaised : Bool)
  /-- The await of the snapshot's window returns, or raises; `restored` says
  whether the restore file is there at the next check. -/
  | snapshotReturn (raised restored : Bool)
  deriving DecidableEq, Repr

namespace SnapshotState

open SnapshotEvent

def step (s : SnapshotState) : SnapshotEvent → Option SnapshotState
  | .heartbeats waitForMemSnap =>
      if s.heartbeat = .absent then
        some { s with heartbeat := .created, waitingForMemorySnapshot := waitForMemSnap }
      else none
  | .heartbeatRun =>
      match s.heartbeat with
      | .created | .sleeping | .notified => some s.heartbeatAcquire
      | .lockWait => if s.owner = some .heartbeat then some s.heartbeatCheck else none
      | _ => none
  | .heartbeatReturn clientClosed =>
      match s.heartbeat with
      | .inFlight => some { s.release with heartbeat := if clientClosed then .stopped else .sleeping }
      | _ => none
  | .memorySnapshot hasCheckpointId gpuRaised =>
      match s.snapshot with
      | .idle =>
          if hasCheckpointId then some (s.snapshotAcquire gpuRaised)
          else some { s with snapshot := .failed }
      | _ => none
  | .snapshotResume gpuRaised =>
      match s.snapshot with
      | .lockWait => if s.owner = some .snapshot then some (s.snapshotEnter gpuRaised) else none
      | _ => none
  | .snapshotReturn raised restored =>
      if raised ∧ s.snapshot.inWindow then some { s.release with snapshot := .failed }
      else
        match s.snapshot with
        | .checkpointing => some { s with snapshot := .closingClient }
        | .closingClient | .restoring =>
            some { s with snapshot := if restored then .reconnecting else .restoring }
        | .reconnecting =>
            some (notifyAll { s with waitingForMemorySnapshot := false, snapshot := .done }).release
        | _ => none

inductive Reachable : SnapshotState → Prop
  | init : Reachable init
  | step {s e s'} : Reachable s → s.step e = some s' → Reachable s'

def run (s : SnapshotState) : List SnapshotEvent → Option SnapshotState
  | [] => some s
  | e :: rest => (s.step e).bind (·.run rest)

theorem Reachable.run {s : SnapshotState} (reach : Reachable s) :
    ∀ {events : List SnapshotEvent} {s' : SnapshotState}, s.run events = some s' → Reachable s'
  | [], _, ran => by cases ran; exact reach
  | e :: rest, _, ran => by
      cases stepped : s.step e with
      | none => simp [SnapshotState.run, stepped] at ran
      | some next =>
          simp only [SnapshotState.run, stepped, Option.some_bind] at ran
          exact (reach.step stepped).run ran

variable (s : SnapshotState)

@[simp] theorem release_owner : s.release.owner = s.queue.head? := rfl
@[simp] theorem release_queue : s.release.queue = s.queue.tail := rfl
@[simp] theorem release_heartbeat : s.release.heartbeat = s.heartbeat := rfl
@[simp] theorem release_snapshot : s.release.snapshot = s.snapshot := rfl
@[simp] theorem release_waitingForMemorySnapshot :
    s.release.waitingForMemorySnapshot = s.waitingForMemorySnapshot := rfl

@[simp] theorem notifyAll_owner : s.notifyAll.owner = s.owner := by
  unfold notifyAll; split <;> rfl
@[simp] theorem notifyAll_queue : s.notifyAll.queue = s.queue := by
  unfold notifyAll; split <;> rfl
@[simp] theorem notifyAll_snapshot : s.notifyAll.snapshot = s.snapshot := by
  unfold notifyAll; split <;> rfl
@[simp] theorem notifyAll_waitingForMemorySnapshot :
    s.notifyAll.waitingForMemorySnapshot = s.waitingForMemorySnapshot := by
  unfold notifyAll; split <;> rfl
@[simp] theorem notifyAll_heartbeat :
    s.notifyAll.heartbeat = if s.heartbeat = .condWait then .notified else s.heartbeat := by
  unfold notifyAll; split <;> simp [*]

/-- Whether `task` is where it needs the lock: the heartbeat request in
flight, or the snapshot inside its window. -/
def holds (s : SnapshotState) : HeartbeatTask → Bool
  | .heartbeat => decide (s.heartbeat = .inFlight)
  | .snapshot => s.snapshot.inWindow

def waitsForLock (s : SnapshotState) : HeartbeatTask → Bool
  | .heartbeat => decide (s.heartbeat = .lockWait)
  | .snapshot => decide (s.snapshot = .lockWait)

@[simp] theorem holds_release (task : HeartbeatTask) : s.release.holds task = s.holds task := by
  cases task <;> rfl
@[simp] theorem waitsForLock_release (task : HeartbeatTask) :
    s.release.waitsForLock task = s.waitsForLock task := by
  cases task <;> rfl

/-- The lock belongs to a task that needs it or was handed it, the queue holds
each waiting task once, and a heartbeat is in flight only with the flag clear. -/
structure Exclusion (s : SnapshotState) : Prop where
  holds_owner : ∀ task, s.holds task = true → s.owner = some task
  owner_holds : ∀ task, s.owner = some task → s.holds task = true ∨ s.waitsForLock task = true
  queued : ∀ task ∈ s.queue, s.waitsForLock task = true
  queue_nodup : s.queue.Nodup
  owner_not_queued : ∀ task, s.owner = some task → task ∉ s.queue
  inFlight_idle : s.heartbeat = .inFlight → s.waitingForMemorySnapshot = false

variable {s} {s' : SnapshotState}

theorem Exclusion.away (inv : s.Exclusion) {task : HeartbeatTask} (held : s.holds task = false)
    (waits : s.waitsForLock task = false) : s.owner ≠ some task ∧ task ∉ s.queue :=
  ⟨fun owned => by rcases inv.owner_holds task owned with h | h <;> simp_all,
    fun member => by simp [inv.queued task member] at waits⟩

theorem Exclusion.holds_eq_false (inv : s.Exclusion) (task : HeartbeatTask)
    (notOwner : s.owner ≠ some task) : s.holds task = false := by
  cases held : s.holds task
  · rfl
  · exact absurd (inv.holds_owner task held) notOwner

@[simp] theorem holds_notifyAll (task : HeartbeatTask) : s.notifyAll.holds task = s.holds task := by
  unfold notifyAll
  split <;> cases task <;> simp_all [holds]

@[simp] theorem waitsForLock_notifyAll (task : HeartbeatTask) :
    s.notifyAll.waitsForLock task = s.waitsForLock task := by
  unfold notifyAll
  split <;> cases task <;> simp_all [waitsForLock]

theorem Exclusion.notifyAll (inv : s.Exclusion) : s.notifyAll.Exclusion where
  holds_owner task held := by simpa using inv.holds_owner task (by simpa using held)
  owner_holds task owned := by simpa using inv.owner_holds task (by simpa using owned)
  queued task member := by simpa using inv.queued task (by simpa using member)
  queue_nodup := by simpa using inv.queue_nodup
  owner_not_queued task owned := by simpa using inv.owner_not_queued task (by simpa using owned)
  inFlight_idle inFlight := by
    rw [notifyAll_heartbeat] at inFlight
    split at inFlight
    · cases inFlight
    · simpa using inv.inFlight_idle inFlight

theorem release_exclusion (queued : ∀ task ∈ s.queue, s.waitsForLock task = true)
    (nodup : s.queue.Nodup) (free : ∀ task, s.holds task = false) : s.release.Exclusion := by
  refine ⟨fun task held => ?_, fun task owned => .inr ?_, fun task member => ?_,
    nodup.sublist (List.tail_sublist _), fun task owned => ?_,
    fun inFlight => absurd inFlight (by simpa [holds] using free .heartbeat)⟩
  · simp [free] at held
  · rw [waitsForLock_release]
    exact queued task (List.mem_of_mem_head? owned)
  · exact queued task (List.mem_of_mem_tail member)
  · cases queue : s.queue with
    | nil => simp [queue] at owned
    | cons next rest =>
        rw [queue, List.nodup_cons] at nodup
        simp only [release_owner, release_queue, queue, List.head?_cons, Option.some.injEq,
          List.tail_cons] at owned ⊢
        exact owned ▸ nodup.1

/-- The owner of the lock leaves the point where it needs it and hands the lock
on; in `s₀`, the state before the hand-off, only the owner has moved. -/
theorem Exclusion.release_of_owner (inv : s.Exclusion) {task : HeartbeatTask}
    (owned : s.owner = some task) (s₀ : SnapshotState) (sameQueue : s₀.queue = s.queue)
    (others : ∀ other, other ≠ task →
      s₀.holds other = s.holds other ∧ s₀.waitsForLock other = s.waitsForLock other)
    (left : s₀.holds task = false) : s₀.release.Exclusion := by
  refine release_exclusion (fun other member => ?_) (sameQueue ▸ inv.queue_nodup) (fun other => ?_)
  · rw [sameQueue] at member
    have different : other ≠ task := fun same => inv.owner_not_queued task owned (same ▸ member)
    rw [(others other different).2]
    exact inv.queued other member
  · by_cases same : other = task
    · exact same ▸ left
    · rw [(others other same).1]
      exact inv.holds_eq_false other
        (by rw [owned]; exact fun owner => same (Option.some.inj owner).symm)

theorem heartbeatCheck_exclusion (owned : s.owner = some .heartbeat)
    (unqueued : .heartbeat ∉ s.queue) (queued : ∀ task ∈ s.queue, s.waitsForLock task = true)
    (nodup : s.queue.Nodup) (snapshotAway : s.holds .snapshot = false) :
    s.heartbeatCheck.Exclusion := by
  have snapshotQueued : ∀ task ∈ s.queue, task = .snapshot := fun task member => by
    cases task
    · exact absurd member unqueued
    · rfl
  unfold heartbeatCheck
  split
  · exact release_exclusion (s := { s with heartbeat := .condWait })
      (fun task member => by cases snapshotQueued task member; exact queued _ member) nodup
      (fun task => by cases task <;> simp_all [holds])
  · rename_i notWaiting
    refine ⟨fun task held => ?_, fun task ownedBy => ?_, fun task member => ?_, nodup,
      fun task ownedBy => ?_, fun _ => by simpa using notWaiting⟩
    · cases task
      · exact owned
      · simp_all [holds]
    · cases Option.some.inj (ownedBy.symm.trans owned)
      exact .inl (by simp [holds])
    · cases snapshotQueued task member
      exact queued _ member
    · cases Option.some.inj (ownedBy.symm.trans owned)
      exact unqueued

theorem snapshotEnter_exclusion (owned : s.owner = some .snapshot)
    (unqueued : .snapshot ∉ s.queue) (queued : ∀ task ∈ s.queue, s.waitsForLock task = true)
    (nodup : s.queue.Nodup) (heartbeatAway : s.holds .heartbeat = false) (gpuRaised : Bool) :
    (s.snapshotEnter gpuRaised).Exclusion := by
  have heartbeatQueued : ∀ task ∈ s.queue, task = .heartbeat := fun task member => by
    cases task
    · rfl
    · exact absurd member unqueued
  unfold snapshotEnter
  split
  · exact release_exclusion (s := { s with snapshot := .failed })
      (fun task member => by cases heartbeatQueued task member; exact queued _ member) nodup
      (fun task => by cases task <;> simp_all [holds, SnapshotPc.inWindow])
  · refine Exclusion.notifyAll ⟨fun task held => ?_, fun task ownedBy => ?_,
      fun task member => ?_, nodup, fun task ownedBy => ?_, fun inFlight => ?_⟩
    · cases task
      · simp_all [holds]
      · exact owned
    · cases Option.some.inj (ownedBy.symm.trans owned)
      exact .inl rfl
    · cases heartbeatQueued task member
      exact queued _ member
    · cases Option.some.inj (ownedBy.symm.trans owned)
      exact unqueued
    · simp_all [holds]

theorem Exclusion.heartbeatAcquire (inv : s.Exclusion) (held : s.holds .heartbeat = false)
    (waits : s.waitsForLock .heartbeat = false) : s.heartbeatAcquire.Exclusion := by
  obtain ⟨unowned, unqueued⟩ := inv.away held waits
  unfold SnapshotState.heartbeatAcquire
  split
  · rename_i free
    exact heartbeatCheck_exclusion (s := { s with owner := some .heartbeat }) rfl unqueued
      inv.queued inv.queue_nodup (inv.holds_eq_false .snapshot (by simp [free]))
  · refine ⟨fun task held' => ?_, fun task owned => ?_, fun task member => ?_,
      inv.queue_nodup.append (List.nodup_singleton _) (List.disjoint_singleton.mpr unqueued),
      fun task owned => ?_, fun inFlight => by cases inFlight⟩
    · cases task
      · simp [holds] at held'
      · exact inv.holds_owner _ held'
    · cases task
      · exact absurd owned unowned
      · exact inv.owner_holds _ owned
    · rw [List.mem_append, List.mem_singleton] at member
      rcases member with member | rfl
      · cases task
        · exact absurd member unqueued
        · exact inv.queued _ member
      · simp [waitsForLock]
    · rw [List.mem_append, List.mem_singleton, not_or]
      exact ⟨inv.owner_not_queued task owned, fun same => unowned (same ▸ owned)⟩

theorem Exclusion.snapshotAcquire (inv : s.Exclusion) (held : s.holds .snapshot = false)
    (waits : s.waitsForLock .snapshot = false) (gpuRaised : Bool) :
    (s.snapshotAcquire gpuRaised).Exclusion := by
  obtain ⟨unowned, unqueued⟩ := inv.away held waits
  unfold SnapshotState.snapshotAcquire
  split
  · rename_i free
    exact snapshotEnter_exclusion (s := { s with owner := some .snapshot }) rfl unqueued
      inv.queued inv.queue_nodup (inv.holds_eq_false .heartbeat (by simp [free])) gpuRaised
  · refine ⟨fun task held' => ?_, fun task owned => ?_, fun task member => ?_,
      inv.queue_nodup.append (List.nodup_singleton _) (List.disjoint_singleton.mpr unqueued),
      fun task owned => ?_, fun inFlight => inv.inFlight_idle inFlight⟩
    · cases task
      · exact inv.holds_owner _ held'
      · simp [holds, SnapshotPc.inWindow] at held'
    · cases task
      · exact inv.owner_holds _ owned
      · exact absurd owned unowned
    · rw [List.mem_append, List.mem_singleton] at member
      rcases member with member | rfl
      · cases task
        · exact inv.queued _ member
        · exact absurd member unqueued
      · simp [waitsForLock]
    · rw [List.mem_append, List.mem_singleton, not_or]
      exact ⟨inv.owner_not_queued task owned, fun same => unowned (same ▸ owned)⟩

theorem Exclusion.windowMove (inv : s.Exclusion) (inside : s.snapshot.inWindow = true)
    {next : SnapshotPc} (stillInside : next.inWindow = true) :
    { s with snapshot := next }.Exclusion := by
  have owned := inv.holds_owner .snapshot inside
  refine ⟨fun task held => ?_, fun task ownedBy => ?_, fun task member => ?_, inv.queue_nodup,
    inv.owner_not_queued, inv.inFlight_idle⟩
  · cases task
    · exact inv.holds_owner _ held
    · exact owned
  · cases task
    · exact inv.owner_holds _ ownedBy
    · exact .inl stillInside
  · cases task
    · exact inv.queued _ member
    · exact absurd member (inv.owner_not_queued _ owned)

theorem Exclusion.heartbeatMove (inv : s.Exclusion) (held : s.holds .heartbeat = false)
    (waits : s.waitsForLock .heartbeat = false) {next : HeartbeatPc} (away : next ≠ .inFlight)
    (waiting : Bool) : { s with heartbeat := next, waitingForMemorySnapshot := waiting }.Exclusion := by
  obtain ⟨unowned, unqueued⟩ := inv.away held waits
  refine ⟨fun task held' => ?_, fun task owned => ?_, fun task member => ?_, inv.queue_nodup,
    inv.owner_not_queued, fun inFlight => absurd inFlight away⟩
  · cases task
    · simp [holds, away] at held'
    · exact inv.holds_owner _ held'
  · cases task
    · exact absurd owned unowned
    · exact inv.owner_holds _ owned
  · cases task
    · exact absurd member unqueued
    · exact inv.queued _ member

theorem Exclusion.snapshotMove (inv : s.Exclusion) (held : s.holds .snapshot = false)
    (waits : s.waitsForLock .snapshot = false) {next : SnapshotPc} (outside : next.inWindow = false) :
    { s with snapshot := next }.Exclusion := by
  obtain ⟨unowned, unqueued⟩ := inv.away held waits
  refine ⟨fun task held' => ?_, fun task owned => ?_, fun task member => ?_, inv.queue_nodup,
    inv.owner_not_queued, inv.inFlight_idle⟩
  · cases task
    · exact inv.holds_owner _ held'
    · simp [holds, outside] at held'
  · cases task
    · exact inv.owner_holds _ owned
    · exact absurd owned unowned
  · cases task
    · exact inv.queued _ member
    · exact absurd member unqueued

theorem Exclusion.step (inv : s.Exclusion) {e : SnapshotEvent} (stepped : s.step e = some s') :
    s'.Exclusion := by
  cases e with
  | heartbeats waitForMemSnap =>
      simp only [SnapshotState.step] at stepped
      split at stepped
      · rename_i absent
        cases stepped
        exact inv.heartbeatMove (by simp [holds, absent]) (by simp [waitsForLock, absent])
          (by simp) waitForMemSnap
      · cases stepped
  | heartbeatRun =>
      simp only [SnapshotState.step] at stepped
      split at stepped
      next pc => cases stepped; exact inv.heartbeatAcquire (by simp [holds, pc]) (by simp [waitsForLock, pc])
      next pc => cases stepped; exact inv.heartbeatAcquire (by simp [holds, pc]) (by simp [waitsForLock, pc])
      next pc => cases stepped; exact inv.heartbeatAcquire (by simp [holds, pc]) (by simp [waitsForLock, pc])
      next =>
        split at stepped
        · rename_i owned
          cases stepped
          exact heartbeatCheck_exclusion owned (inv.owner_not_queued _ owned) inv.queued
            inv.queue_nodup (inv.holds_eq_false .snapshot (by simp [owned]))
        · cases stepped
      next => cases stepped
  | heartbeatReturn clientClosed =>
      simp only [SnapshotState.step] at stepped
      split at stepped
      · rename_i inFlight
        cases stepped
        refine inv.release_of_owner (inv.holds_owner .heartbeat (by simp [holds, inFlight]))
          { s with heartbeat := if clientClosed then .stopped else .sleeping } rfl
          (fun other different => ?_) (by split <;> rfl)
        cases other
        · exact absurd rfl different
        · exact ⟨rfl, rfl⟩
      · cases stepped
  | memorySnapshot hasCheckpointId gpuRaised =>
      simp only [SnapshotState.step] at stepped
      split at stepped
      · rename_i idle
        split at stepped <;> cases stepped
        · exact inv.snapshotAcquire (by simp [holds, idle, SnapshotPc.inWindow])
            (by simp [waitsForLock, idle]) gpuRaised
        · exact inv.snapshotMove (by simp [holds, idle, SnapshotPc.inWindow])
            (by simp [waitsForLock, idle]) rfl
      · cases stepped
  | snapshotResume gpuRaised =>
      simp only [SnapshotState.step] at stepped
      split at stepped
      · split at stepped
        · rename_i owned
          cases stepped
          exact snapshotEnter_exclusion owned (inv.owner_not_queued _ owned) inv.queued
            inv.queue_nodup (inv.holds_eq_false .heartbeat (by simp [owned])) gpuRaised
        · cases stepped
      · cases stepped
  | snapshotReturn raised restored =>
      simp only [SnapshotState.step] at stepped
      split at stepped
      · rename_i failing
        cases stepped
        refine inv.release_of_owner (inv.holds_owner .snapshot failing.2)
          { s with snapshot := .failed } rfl (fun other different => ?_) rfl
        cases other
        · exact ⟨rfl, rfl⟩
        · exact absurd rfl different
      · split at stepped
        next pc =>
          cases stepped
          exact inv.windowMove (by simp [pc, SnapshotPc.inWindow]) rfl
        next pc =>
          cases stepped
          exact inv.windowMove (by simp [pc, SnapshotPc.inWindow]) (by split <;> rfl)
        next pc =>
          cases stepped
          exact inv.windowMove (by simp [pc, SnapshotPc.inWindow]) (by split <;> rfl)
        next pc =>
          cases stepped
          refine inv.release_of_owner
            (inv.holds_owner .snapshot (by simp [holds, pc, SnapshotPc.inWindow]))
            (SnapshotState.notifyAll { s with waitingForMemorySnapshot := false, snapshot := .done })
            (by simp)
            (fun other different => ?_) (by rw [holds_notifyAll]; rfl)
          cases other
          · rw [holds_notifyAll, waitsForLock_notifyAll]
            exact ⟨rfl, rfl⟩
          · exact absurd rfl different
        next => cases stepped

theorem init_exclusion : init.Exclusion :=
  ⟨fun task held => (by cases task <;> simp [init, holds, SnapshotPc.inWindow] at held),
    fun _ owned => (by cases owned), fun _ member => (by cases member), List.nodup_nil,
    fun _ owned => (by cases owned), fun inFlight => (by cases inFlight)⟩

theorem Reachable.exclusion {s : SnapshotState} (reach : Reachable s) : s.Exclusion := by
  induction reach with
  | init => exact init_exclusion
  | step _ stepped inductionHypothesis => exact inductionHypothesis.step stepped

/-- No `ContainerHeartbeat` request is in flight while
`_waiting_for_memory_snapshot` is set, nor from the `ContainerCheckpoint`
request until `memory_restore` returned. -/
theorem no_heartbeat_during_snapshot {s : SnapshotState} (reach : Reachable s) :
    (s.waitingForMemorySnapshot = true → s.heartbeat ≠ .inFlight) ∧
      (s.snapshot.inWindow = true → s.heartbeat ≠ .inFlight) := by
  have inv := reach.exclusion
  refine ⟨fun waiting inFlight => by simp [inv.inFlight_idle inFlight] at waiting,
    fun inside inFlight => ?_⟩
  have owners := (inv.holds_owner .snapshot inside).symm.trans
    (inv.holds_owner .heartbeat (by simp [holds, inFlight]))
  cases owners

/-- The checkpoint request in flight, with the heartbeat task queued behind it. -/
def checkpointInFlight : SnapshotState :=
  ⟨true, some .snapshot, [.heartbeat], .lockWait, .checkpointing⟩

/-- A heartbeat in flight when `memory_snapshot` starts: the snapshot waits for
the lock, and the next heartbeat queues behind the snapshot. -/
theorem heartbeat_queued_behind_checkpoint :
    Reachable checkpointInFlight ∧
      (checkpointInFlight.waitingForMemorySnapshot = true → checkpointInFlight.heartbeat ≠ .inFlight) ∧
      (checkpointInFlight.snapshot.inWindow = true → checkpointInFlight.heartbeat ≠ .inFlight) :=
  have reach : Reachable checkpointInFlight := Reachable.init.run
    (show init.run [.heartbeats false, .heartbeatRun, .memorySnapshot true false,
      .heartbeatReturn false, .snapshotResume false, .heartbeatRun] = some checkpointInFlight from rfl)
  ⟨reach, no_heartbeat_during_snapshot reach⟩

end SnapshotState

end ContainerIO
