import Mathlib.Data.List.Perm.Subperm
import P2panda.Lib.Collections
import P2panda.Net.TopicStreamsDelivery

/- The sync scheduler (`p2panda-net/src/sync/manager.rs`, `sync/config.rs`): the
   `SyncActor` that tracks one `Attempt` per scope (a peer and a topic), queues scopes for
   `connect_and_sync`, and puts them back on a retry or a resync queue.

   `SyncActor` is a state machine over the branches of the `select!` loop in `run`: a
   message of its inbox (`Discovery`, `Reset`), a scope taken from the sync queue with the
   outcome of `connect_and_sync`, and a tick of each poll interval (`syncStep`, `syncRun`).
   Every event carries the time it happens at; the state holds no clock.

   `schedule_attempt` calls `send` when something is queued and `send_timeout` when the
   queue is empty, which has a free slot, so the timeout never fires
   (`scheduleAttempt_of_lt`), and on a full queue the actor waits forever for a slot only it
   can free (`scheduleAttempt_of_full`). `Reset` schedules every tracked scope in one turn
   of the loop, so with more tracked scopes than free slots one of its calls waits so
   (`scheduleAll_waits`, `onReset_eq_none`): from a new actor, more scopes than slots
   discovered and synced one after another, and a `Reset`, end there
   (`syncRun_reset_blocks`).

   Without `Reset` the scheduler keeps its books (`syncRun_bookkept`): each scope waits at
   most once in the three queues, in the retry queue only while it failed, in the resync
   queue only while it is complete, and every pending scope is in the sync queue. `Reset`
   queues every scope again where it already waits (`syncRun_reset_duplicates`). Without a
   reset or a successful sync, and for a retry limit below 255, the attempt counter counts
   the attempts and a scope is attempted at most once more than the limit
   (`syncRun_retries_bounded`); at the limit 255 the `u8` counter wraps and the retries do
   not end (`syncRun_retries_wrap`).

   Not modelled: the endpoint, the sync protocol and the messages to the engine actor
   (`Net.SyncSessions` models what an attempt sends); the cancellation token (a run simply
   ends); the poll intervals (a tick is an event at any time). -/

namespace P2panda.Net

variable {T : Type}

/-- `Status` of a sync attempt; an `Instant` is a reading of the clock. -/
inductive Status where
  | pending
  | active
  | complete (completion : Nat)
  | failed (failure : Nat)
  deriving DecidableEq

/-- `Attempt`: the status of the sessions of a scope and how many have failed. -/
structure Attempt where
  status : Status
  attempts : UInt8
  deriving DecidableEq

/-- `Attempt::new`. -/
def Attempt.new : Attempt := ⟨.pending, 0⟩

/-- `Attempt::reset`. -/
def Attempt.reset (attempt : Attempt) : Attempt := { attempt with status := .pending, attempts := 0 }

/-- `Scope`: a peer-topic combination. -/
structure Scope (T : Type) where
  peer : PublicKey
  topic : T
  deriving DecidableEq

/-- `ResyncConfiguration`, the part the scheduler reads: the least time between two syncs
of a scope. -/
structure ResyncConfiguration where
  interval : Nat

/-- `SyncConfiguration`, the parts the scheduler reads. -/
structure SyncConfiguration where
  resync : Option ResyncConfiguration
  maxConcurrentSyncSessions : Nat
  maxRetryAttempts : UInt8
  retryInterval : Nat

/-- `MAX_CONCURRENT_SYNC_SESSIONS`. -/
def MAX_CONCURRENT_SYNC_SESSIONS : Nat := 128

/-- `MAX_RETRY_ATTEMPTS`. -/
def MAX_RETRY_ATTEMPTS : UInt8 := 5

/-- `RETRY_INTERVAL`, in seconds. -/
def RETRY_INTERVAL : Nat := 5

/-- `FALLBACK_RESYNC_INTERVAL_SEC`. -/
def FALLBACK_RESYNC_INTERVAL_SEC : Nat := 3600

/-- `SyncConfiguration::new`: no resync, and the default limits. -/
def SyncConfiguration.new : SyncConfiguration :=
  ⟨none, MAX_CONCURRENT_SYNC_SESSIONS, MAX_RETRY_ATTEMPTS, RETRY_INTERVAL⟩

/-- `SyncConfiguration::max_retry_attempts`. -/
def SyncConfiguration.withMaxRetryAttempts (config : SyncConfiguration) (attempts : UInt8) :
    SyncConfiguration :=
  { config with maxRetryAttempts := attempts }

/-- `SyncConfiguration::is_resync`. -/
def SyncConfiguration.isResync (config : SyncConfiguration) : Bool := config.resync.isSome

/-- The `resync_interval` of `run`: the configured one, or an hour. -/
def SyncConfiguration.resyncInterval (config : SyncConfiguration) : Nat :=
  match config.resync with
  | some resync => resync.interval
  | none => FALLBACK_RESYNC_INTERVAL_SEC

/-- `SyncActor`: the attempts it tracks (a `HashMap`), its two queues, what waits in the
sync queue channel, and the scopes it has passed to `connect_and_sync`, in order. The sync
queue is a bounded channel, and tokio has no channel of no slots. -/
structure SyncActor (T : Type) where
  config : SyncConfiguration
  sessions : AList fun _ : Scope T => Attempt
  resyncQueue : List (Scope T)
  retryQueue : List (Scope T)
  syncQueue : List (Scope T)
  attempted : List (Scope T)
  capacity_pos : 0 < config.maxConcurrentSyncSessions

/-- `SyncActor::new`: `mpsc::channel` refuses a sync queue of no slots. -/
def SyncActor.new (config : SyncConfiguration) : Except String (SyncActor T) :=
  if h : 0 < config.maxConcurrentSyncSessions then .ok ⟨config, ∅, [], [], [], [], h⟩
  else .error "mpsc bounded channel requires buffer > 0"

/-- `ToSyncActor`. -/
inductive ToSyncActor (T : Type) where
  | discovery (peer : PublicKey) (topic : T)
  | reset

/-- What the loop of `SyncActor::run` handles next: a message of its inbox, a scope from the
sync queue with whether `connect_and_sync` succeeded and when it returned, or a tick of the
resync or the retry poll interval. -/
inductive SyncEvent (T : Type) where
  | inbox (msg : ToSyncActor T)
  | syncQueue (succeeded : Bool) (now : Nat)
  | resyncPoll (now : Nat)
  | retryPoll (now : Nat)

/-- What `schedule_attempt` comes to: the scope is queued, `send_timeout` gives up, or
`send` waits for a slot. -/
inductive Schedule (σ : Type) where
  | queued (s : σ)
  | timedOut
  | waits

/-- The two queues a poll interval reads. -/
inductive PollQueue where
  | resync
  | retry

/-- The time the status of a scope in the queue is from: its completion for the resync
queue, its failure for the retry queue. -/
def PollQueue.since : PollQueue → Status → Option Nat
  | .resync, .complete completion => some completion
  | .retry, .failed failure => some failure
  | _, _ => none

namespace SyncActor

variable [DecidableEq T]

/-- The status of the attempt for `scope`, if the actor tracks it. -/
def statusOf (s : SyncActor T) (scope : Scope T) : Option Status :=
  (s.sessions.lookup scope).map Attempt.status

/-- `schedule_attempt`. `capacity() < max_capacity()` holds when something is queued: then
`send` waits for a free slot. On an empty queue `send_timeout` finds one at once. -/
def scheduleAttempt (s : SyncActor T) (scope : Scope T) : Schedule (SyncActor T) :=
  if s.syncQueue.length ≠ 0 then
    if s.syncQueue.length < s.config.maxConcurrentSyncSessions then
      .queued { s with syncQueue := s.syncQueue ++ [scope] }
    else .waits
  else if s.syncQueue.length < s.config.maxConcurrentSyncSessions then
    .queued { s with syncQueue := s.syncQueue ++ [scope] }
  else .timedOut

/-- `self.sessions.get_mut(&scope)`, and `f` on the attempt if there is one. -/
def modifyAttempt (s : SyncActor T) (scope : Scope T) (f : Attempt → Attempt) : SyncActor T :=
  match s.sessions.lookup scope with
  | some attempt => { s with sessions := s.sessions.insert scope (f attempt) }
  | none => s

/-- A `Discovery`: a scope the actor does not track yet gets a new attempt and is
scheduled. A failed scheduling is logged; a `send` that waits stops the actor. -/
def onDiscovery (s : SyncActor T) (peer : PublicKey) (topic : T) : Option (SyncActor T) :=
  let scope : Scope T := ⟨peer, topic⟩
  match s.sessions.lookup scope with
  | some _ => some s
  | none =>
    let s := { s with sessions := s.sessions.insert scope Attempt.new }
    match s.scheduleAttempt scope with
    | .queued s' => some s'
    | .timedOut => some s
    | .waits => none

/-- Schedule each scope in turn; the `?` of `Reset` ends the actor on a failure. -/
def scheduleAll (s : SyncActor T) (scopes : List (Scope T)) : Option (SyncActor T) :=
  scopes.foldlM (fun s scope =>
    match s.scheduleAttempt scope with
    | .queued s' => some s'
    | .timedOut => none
    | .waits => none) s

/-- A `Reset`: every attempt back to pending, and every tracked scope scheduled again. -/
def onReset (s : SyncActor T) : Option (SyncActor T) :=
  let s := { s with sessions := s.sessions.mapVal fun _ (attempt : Attempt) => attempt.reset }
  s.scheduleAll s.sessions.keys

/-- `complete_successful_sync`. -/
def completeSuccessfulSync (s : SyncActor T) (scope : Scope T) (now : Nat) : SyncActor T :=
  let s := s.modifyAttempt scope fun attempt => { attempt with status := .complete now }
  if s.config.isResync then { s with resyncQueue := s.resyncQueue ++ [scope] } else s

/-- `complete_failed_sync`. The counter is a `u8`, and `+=` wraps, as it does in a release
build. -/
def completeFailedSync (s : SyncActor T) (scope : Scope T) (now : Nat) : SyncActor T :=
  match s.sessions.lookup scope with
  | some attempt =>
    let attempt : Attempt := { attempt with status := .failed now, attempts := attempt.attempts + 1 }
    let s := { s with sessions := s.sessions.insert scope attempt }
    if attempt.attempts ≤ s.config.maxRetryAttempts then
      { s with retryQueue := s.retryQueue ++ [scope] }
    else s
  | none => s

/-- A scope from the sync queue: `connect_and_sync` marks it active and runs the session, and
its outcome completes the attempt. The loop reads the queue only when something waits
there. -/
def onSyncQueue (s : SyncActor T) (succeeded : Bool) (now : Nat) : SyncActor T :=
  match s.syncQueue with
  | [] => s
  | scope :: rest =>
    let s := { s with syncQueue := rest, attempted := s.attempted ++ [scope] }
    let s := s.modifyAttempt scope fun attempt => { attempt with status := .active }
    if succeeded then s.completeSuccessfulSync scope now else s.completeFailedSync scope now

/-- The scopes in the queue `which` waits on. -/
def queueOf (s : SyncActor T) : PollQueue → List (Scope T)
  | .resync => s.resyncQueue
  | .retry => s.retryQueue

/-- The actor with the queue `which` set to `queue`. -/
def withQueue (s : SyncActor T) : PollQueue → List (Scope T) → SyncActor T
  | .resync, queue => { s with resyncQueue := queue }
  | .retry, queue => { s with retryQueue := queue }

/-- A tick of a poll interval, for the queue `which`: the first scope of the queue is
scheduled once `interval` has passed since the time its status gives, put back at the end
before that, and dropped if its status gives no time. A failed scheduling is logged. -/
def poll (which : PollQueue) (interval : Nat) (s : SyncActor T) (now : Nat) :
    Option (SyncActor T) :=
  match s.queueOf which with
  | [] => some s
  | scope :: rest =>
    let s := s.withQueue which rest
    match (s.statusOf scope).bind which.since with
    | some time =>
      if interval ≤ now - time then
        match s.scheduleAttempt scope with
        | .queued s' => some s'
        | .timedOut => some s
        | .waits => none
      else some (s.withQueue which (rest ++ [scope]))
    | none => some s

/-- The resync poll branch of `run`: a `Complete` scope, after the resync interval. -/
def onResyncPoll (s : SyncActor T) (now : Nat) : Option (SyncActor T) :=
  poll .resync s.config.resyncInterval s now

/-- The retry poll branch of `run`: a `Failed` scope, after the retry interval. -/
def onRetryPoll (s : SyncActor T) (now : Nat) : Option (SyncActor T) :=
  poll .retry s.config.retryInterval s now

end SyncActor

section Run

variable [DecidableEq T]

/-- One turn of the loop of `SyncActor::run`; `none` once the actor handles nothing more. -/
def syncStep (s : SyncActor T) : SyncEvent T → Option (SyncActor T)
  | .inbox (.discovery peer topic) => s.onDiscovery peer topic
  | .inbox .reset => s.onReset
  | .syncQueue succeeded now => some (s.onSyncQueue succeeded now)
  | .resyncPoll now => s.onResyncPoll now
  | .retryPoll now => s.onRetryPoll now

/-- The actor over the events in the order its loop handles them. -/
def syncRun (s : SyncActor T) (events : List (SyncEvent T)) : Option (SyncActor T) :=
  events.foldlM syncStep s

end Run

/-- A `Reset` of the inbox. -/
def SyncEvent.isReset : SyncEvent T → Bool
  | .inbox .reset => true
  | _ => false

/-- A session from the sync queue that succeeded. -/
def SyncEvent.isSuccess : SyncEvent T → Bool
  | .syncQueue succeeded _ => succeeded
  | _ => false

/-! ## What each branch does -/

namespace SyncActor

variable {s s' : SyncActor T} {scope x : Scope T}

/-- Below the bound `schedule_attempt` queues the scope. -/
theorem scheduleAttempt_of_lt (h : s.syncQueue.length < s.config.maxConcurrentSyncSessions) :
    s.scheduleAttempt scope = .queued { s with syncQueue := s.syncQueue ++ [scope] } := by
  unfold scheduleAttempt
  simp [h]

/-- On a full queue `send` waits for a slot, and only the actor itself, waiting there, would
take a scope off the queue. -/
theorem scheduleAttempt_of_full (h : s.config.maxConcurrentSyncSessions ≤ s.syncQueue.length) :
    s.scheduleAttempt scope = .waits := by
  have hpos := s.capacity_pos
  unfold scheduleAttempt
  rw [if_pos (by omega), if_neg (by omega)]

/-- What `schedule_attempt` can come to: the scope queued at the end, or a wait. -/
theorem scheduleAttempt_cases (s : SyncActor T) (scope : Scope T) :
    s.scheduleAttempt scope = .queued { s with syncQueue := s.syncQueue ++ [scope] } ∨
      s.scheduleAttempt scope = .waits := by
  by_cases h : s.syncQueue.length < s.config.maxConcurrentSyncSessions
  · exact .inl (scheduleAttempt_of_lt h)
  · exact .inr (scheduleAttempt_of_full (by omega))

theorem config_scheduleAttempt (hsched : s.scheduleAttempt scope = .queued s') :
    s'.config = s.config := by
  rcases scheduleAttempt_cases s scope with h | h <;> rw [h] at hsched <;> cases hsched
  rfl

theorem config_new {config : SyncConfiguration} (hnew : SyncActor.new config = .ok s) :
    s.config = config := by
  unfold SyncActor.new at hnew
  split at hnew
  · cases hnew
    rfl
  · cases hnew

@[simp] theorem config_withQueue (which : PollQueue) (queue : List (Scope T)) :
    (s.withQueue which queue).config = s.config := by
  cases which <;> rfl

@[simp] theorem withQueue_withQueue (which : PollQueue) (queue queue' : List (Scope T)) :
    (s.withQueue which queue).withQueue which queue' = s.withQueue which queue' := by
  cases which <;> rfl

variable [DecidableEq T]

theorem lookup_modifyAttempt (f : Attempt → Attempt) (x : Scope T) :
    (s.modifyAttempt scope f).sessions.lookup x =
      if x = scope then (s.sessions.lookup scope).map f else s.sessions.lookup x := by
  unfold modifyAttempt
  split
  · next attempt hattempt =>
    split
    · next hx =>
      subst hx
      simp [AList.lookup_insert, hattempt]
    · next hx => exact AList.lookup_insert_ne hx
  · next hnone =>
    split
    · next hx =>
      subst hx
      simp [hnone]
    · rfl

@[simp] theorem config_modifyAttempt (f : Attempt → Attempt) :
    (s.modifyAttempt scope f).config = s.config := by
  unfold modifyAttempt
  split <;> rfl

@[simp] theorem syncQueue_modifyAttempt (f : Attempt → Attempt) :
    (s.modifyAttempt scope f).syncQueue = s.syncQueue := by
  unfold modifyAttempt
  split <;> rfl

@[simp] theorem retryQueue_modifyAttempt (f : Attempt → Attempt) :
    (s.modifyAttempt scope f).retryQueue = s.retryQueue := by
  unfold modifyAttempt
  split <;> rfl

@[simp] theorem resyncQueue_modifyAttempt (f : Attempt → Attempt) :
    (s.modifyAttempt scope f).resyncQueue = s.resyncQueue := by
  unfold modifyAttempt
  split <;> rfl

@[simp] theorem attempted_modifyAttempt (f : Attempt → Attempt) :
    (s.modifyAttempt scope f).attempted = s.attempted := by
  unfold modifyAttempt
  split <;> rfl

/-- `complete_failed_sync` as the update of one attempt, and the retry queue it grows. -/
theorem completeFailedSync_eq (s : SyncActor T) (scope : Scope T) (now : Nat) :
    s.completeFailedSync scope now =
      { s.modifyAttempt scope (fun attempt => { status := .failed now, attempts := attempt.attempts + 1 }) with
        retryQueue := match s.sessions.lookup scope with
          | some attempt =>
            if attempt.attempts + 1 ≤ s.config.maxRetryAttempts then s.retryQueue ++ [scope]
            else s.retryQueue
          | none => s.retryQueue } := by
  unfold completeFailedSync modifyAttempt
  cases hattempt : s.sessions.lookup scope with
  | none => rfl
  | some attempt =>
    by_cases hle : attempt.attempts + 1 ≤ s.config.maxRetryAttempts <;> simp [hle]

end SyncActor

/-! ## The books of one scope -/

/-- What the books of the actor say of one scope: its status, and how often it waits in the
sync, the retry and the resync queue. -/
structure ScopeEntry where
  status : Option Status
  sync : Nat
  retry : Nat
  resync : Nat

/-- How often the scope waits in the queue `which`. -/
def ScopeEntry.count (e : ScopeEntry) : PollQueue → Nat
  | .resync => e.resync
  | .retry => e.retry

/-- The books of one scope are kept: it waits at most once in the three queues, in the
retry queue only while it failed, in the resync queue only while it is complete; a pending
scope waits in the sync queue, and a scope there is tracked. -/
def ScopeEntry.Kept (e : ScopeEntry) : Prop :=
  e.sync + e.retry + e.resync ≤ 1 ∧
    (0 < e.retry → ∃ failure, e.status = some (.failed failure)) ∧
    (0 < e.resync → ∃ completion, e.status = some (.complete completion)) ∧
    (e.status = some .pending → 0 < e.sync) ∧
    (0 < e.sync → e.status ≠ none)

namespace ScopeEntry

variable {e : ScopeEntry}

/-- A scope the actor does not track waits nowhere. -/
theorem Kept.untracked (hk : e.Kept) (hnone : e.status = none) :
    e.sync = 0 ∧ e.retry = 0 ∧ e.resync = 0 := by
  obtain ⟨-, hretry, hresync, -, hsync⟩ := hk
  refine ⟨?_, ?_, ?_⟩
  · by_contra h
    exact hsync (by omega) hnone
  · by_contra h
    obtain ⟨failure, hf⟩ := hretry (by omega)
    simp [hnone] at hf
  · by_contra h
    obtain ⟨completion, hc⟩ := hresync (by omega)
    simp [hnone] at hc

/-- A scope that waits in a poll queue waits nowhere else, and its status gives the time
the poll reads. -/
theorem Kept.polled (hk : e.Kept) {which : PollQueue} (hpos : 0 < e.count which) :
    e.sync = 0 ∧ e.sync + e.retry + e.resync = e.count which ∧ e.count which = 1 ∧
      ∃ status time, e.status = some status ∧ which.since status = some time := by
  obtain ⟨honce, hretry, hresync, -, -⟩ := hk
  cases which with
  | resync =>
    obtain ⟨completion, hc⟩ := hresync hpos
    simp only [count] at hpos ⊢
    exact ⟨by omega, by omega, by omega, _, completion, hc, rfl⟩
  | retry =>
    obtain ⟨failure, hf⟩ := hretry hpos
    simp only [count] at hpos ⊢
    exact ⟨by omega, by omega, by omega, _, failure, hf, rfl⟩

/-- The entry with the count of the queue `which` set to `n`. -/
def withCount (e : ScopeEntry) : PollQueue → Nat → ScopeEntry
  | .resync, n => { e with resync := n }
  | .retry, n => { e with retry := n }

@[simp] theorem sync_withCount (e : ScopeEntry) (which : PollQueue) (n : Nat) :
    (e.withCount which n).sync = e.sync := by
  cases which <;> rfl

@[simp] theorem withCount_count (e : ScopeEntry) (which : PollQueue) :
    e.withCount which (e.count which) = e := by
  cases which <;> rfl

/-- Taking a polled scope off its queue leaves it waiting nowhere. -/
theorem Kept.withCount_zero (hk : e.Kept) {which : PollQueue} (hpos : 0 < e.count which) :
    e.withCount which 0 = ⟨e.status, 0, 0, 0⟩ := by
  obtain ⟨hsync, hsum, hone, -⟩ := hk.polled hpos
  obtain ⟨status, sync, retry, resync⟩ := e
  cases which <;> simp only [count, withCount] at hsum hone hsync ⊢ <;>
    simp only [ScopeEntry.mk.injEq, true_and, and_true] <;> omega

/-- A poll that schedules its scope keeps its books. -/
theorem Kept.polled_scheduled (hk : e.Kept) {which : PollQueue} (hpos : 0 < e.count which) :
    { e.withCount which 0 with sync := e.sync + 1 }.Kept := by
  obtain ⟨hsync, -, -, status, time, hst, -⟩ := hk.polled hpos
  rw [hk.withCount_zero hpos, hsync]
  simp [Kept, hst]

/-- A poll that drops its scope keeps its books: the scope failed or is complete, so it is not
pending. -/
theorem Kept.polled_dropped (hk : e.Kept) {which : PollQueue} (hpos : 0 < e.count which) :
    (e.withCount which 0).Kept := by
  obtain ⟨-, -, -, status, time, hst, hsince⟩ := hk.polled hpos
  have hpending : status ≠ .pending := by
    rintro rfl
    cases which <;> cases hsince
  rw [hk.withCount_zero hpos]
  simp [Kept, hst, hpending]

/-- A scope that waits in the sync queue waits there once and nowhere else, and is
tracked. -/
theorem Kept.queued (hk : e.Kept) (hpos : 0 < e.sync) :
    e.sync = 1 ∧ e.retry = 0 ∧ e.resync = 0 ∧ e.status ≠ none := by
  obtain ⟨honce, -, -, -, hsync⟩ := hk
  exact ⟨by omega, by omega, by omega, hsync hpos⟩

end ScopeEntry

namespace SyncActor

variable [DecidableEq T] {s s' : SyncActor T} {scope x : Scope T}

/-- The books of `x`. -/
def entry (s : SyncActor T) (x : Scope T) : ScopeEntry :=
  ⟨s.statusOf x, s.syncQueue.count x, s.retryQueue.count x, s.resyncQueue.count x⟩

/-- The books of every scope are kept. -/
def Bookkept (s : SyncActor T) : Prop := ∀ x, (s.entry x).Kept

theorem bookkept_new {config : SyncConfiguration} (hnew : SyncActor.new config = .ok s) :
    s.Bookkept := by
  unfold SyncActor.new at hnew
  split at hnew
  · cases hnew
    intro x
    simp [entry, statusOf, ScopeEntry.Kept]
  · cases hnew

theorem count_queueOf (which : PollQueue) (x : Scope T) :
    (s.queueOf which).count x = (s.entry x).count which := by
  cases which <;> rfl

theorem entry_queued (scope x : Scope T) :
    ({ s with syncQueue := s.syncQueue ++ [scope] } : SyncActor T).entry x =
      { s.entry x with sync := (s.entry x).sync + [scope].count x } := by
  simp [entry, statusOf, List.count_append]

theorem entry_withQueue (which : PollQueue) (queue : List (Scope T)) (x : Scope T) :
    (s.withQueue which queue).entry x = (s.entry x).withCount which (queue.count x) := by
  cases which <;> rfl

/-- What a poll can do: nothing on an empty queue; otherwise it takes the first scope off
and schedules it, puts it back at the end, or drops it. -/
theorem poll_cases {which : PollQueue} {interval now : Nat}
    (hstep : s.poll which interval now = some s') :
    (s.queueOf which = [] ∧ s' = s) ∨
      ∃ scope rest, s.queueOf which = scope :: rest ∧
        (s' = { s.withQueue which rest with
            syncQueue := (s.withQueue which rest).syncQueue ++ [scope] } ∨
          s' = s.withQueue which (rest ++ [scope]) ∨ s' = s.withQueue which rest) := by
  simp only [SyncActor.poll] at hstep
  split at hstep
  · next hq => exact .inl ⟨hq, (Option.some.inj hstep).symm⟩
  · next scope rest hq =>
    refine .inr ⟨scope, rest, hq, ?_⟩
    split at hstep
    · split at hstep
      · rcases scheduleAttempt_cases (s.withQueue which rest) scope with hsched | hwait
        · rw [hsched] at hstep
          exact .inl (Option.some.inj hstep).symm
        · rw [hwait] at hstep
          cases hstep
      · rw [withQueue_withQueue] at hstep
        exact .inr (.inl (Option.some.inj hstep).symm)
    · exact .inr (.inr (Option.some.inj hstep).symm)

/-- A poll keeps the books: the scope it takes waited only in its queue, once, and goes to
the sync queue, back to the end of its queue, or nowhere. -/
theorem Bookkept.poll (h : s.Bookkept) {which : PollQueue} {interval now : Nat}
    (hstep : s.poll which interval now = some s') : s'.Bookkept := by
  rcases poll_cases hstep with ⟨-, rfl⟩ | ⟨scope, rest, hq, hs'⟩
  · exact h
  have hcount : ∀ x, (s.entry x).count which = rest.count x + if x = scope then 1 else 0 := by
    intro x
    rw [← count_queueOf, hq, List.count_cons]
    by_cases hx : x = scope
    · simp [hx]
    · simp [hx, Ne.symm hx]
  have hpos : 0 < (s.entry scope).count which := by simp [hcount]
  have hrest : rest.count scope = 0 := by
    have hone := ((h scope).polled hpos).2.2.1
    rw [hcount scope, if_pos rfl] at hone
    omega
  -- off the scope the poll changes nothing
  have hother : ∀ x, x ≠ scope → (s.withQueue which rest).entry x = s.entry x := by
    intro x hx
    rw [entry_withQueue, show rest.count x = (s.entry x).count which by simp [hcount, hx],
      ScopeEntry.withCount_count]
  intro x
  rcases hs' with rfl | rfl | rfl
  · -- scheduled
    rw [entry_queued]
    by_cases hx : x = scope
    · subst hx
      rw [entry_withQueue, hrest]
      simpa using (h x).polled_scheduled hpos
    · rw [hother x hx]
      simpa [Ne.symm hx] using h x
  · -- put back at the end
    have hback : (rest ++ [scope]).count x = (s.entry x).count which := by
      by_cases hx : x = scope
      · simp [hcount, hx]
      · simp [hcount, hx, Ne.symm hx]
    rw [entry_withQueue, hback, ScopeEntry.withCount_count]
    exact h x
  · -- dropped
    by_cases hx : x = scope
    · subst hx
      rw [entry_withQueue, hrest]
      exact (h x).polled_dropped hpos
    · rw [hother x hx]
      exact h x

/-- A `Discovery` keeps the books: a scope it starts to track waited nowhere, and now waits
once, in the sync queue. -/
theorem Bookkept.onDiscovery (h : s.Bookkept) {peer : PublicKey} {topic : T}
    (hstep : s.onDiscovery peer topic = some s') : s'.Bookkept := by
  simp only [SyncActor.onDiscovery] at hstep
  split at hstep
  · cases hstep
    exact h
  · next hnone =>
    rcases scheduleAttempt_cases { s with sessions := s.sessions.insert ⟨peer, topic⟩ Attempt.new }
      ⟨peer, topic⟩ with hq | hw
    · rw [hq] at hstep
      cases hstep
      intro x
      by_cases hx : x = ⟨peer, topic⟩
      · subst hx
        obtain ⟨h0, h1, h2⟩ := (h ⟨peer, topic⟩).untracked (by simp [entry, statusOf, hnone])
        simp only [entry] at h0 h1 h2
        simp [entry, statusOf, AList.lookup_insert, ScopeEntry.Kept, Attempt.new, h0, h1, h2]
      · have hk := h x
        simpa [entry, statusOf, AList.lookup_insert_ne hx, Ne.symm hx] using hk
    · rw [hw] at hstep
      cases hstep

/-- A scope taken off the sync queue keeps the books: it waited only there, once, and is
complete or failed after `connect_and_sync`, in the resync or the retry queue or in none. -/
theorem Bookkept.onSyncQueue (h : s.Bookkept) (succeeded : Bool) (now : Nat) :
    (s.onSyncQueue succeeded now).Bookkept := by
  unfold SyncActor.onSyncQueue
  split
  · exact h
  · next scope rest hq =>
    have hsync : 0 < (s.entry scope).sync := by simp [entry, hq]
    obtain ⟨h1, h2, h3, htracked⟩ := (h scope).queued hsync
    obtain ⟨attempt, hattempt⟩ : ∃ attempt, s.sessions.lookup scope = some attempt := by
      simpa [entry, statusOf, Option.ne_none_iff_exists'] using htracked
    have hrest : rest.count scope = 0 := by
      simp [entry, hq] at h1
      exact h1
    simp only [entry] at h2 h3
    intro x
    by_cases hx : x = scope
    · subst hx
      cases succeeded
      · simp only [Bool.false_eq_true, if_false, completeFailedSync_eq]
        by_cases hle : attempt.attempts + 1 ≤ s.config.maxRetryAttempts <;>
          simp [entry, statusOf, lookup_modifyAttempt, hattempt, hrest, hle, h2, h3,
            ScopeEntry.Kept]
      · simp only [if_true, completeSuccessfulSync]
        split <;> simp [entry, statusOf, lookup_modifyAttempt, hattempt, hrest, h2, h3, ScopeEntry.Kept]
    · have hk := h x
      cases succeeded
      · simp only [Bool.false_eq_true, if_false, completeFailedSync_eq]
        by_cases hle : attempt.attempts + 1 ≤ s.config.maxRetryAttempts <;>
          simpa [entry, statusOf, lookup_modifyAttempt, hattempt, hle, hx, Ne.symm hx, hq] using hk
      · simp only [if_true, completeSuccessfulSync]
        split <;> simpa [entry, statusOf, lookup_modifyAttempt, hx, Ne.symm hx, hq] using hk

/-- A failed session from the sync queue: the scope leaves the queue, is recorded as
attempted, fails with one more failure on its counter, and goes to the retry queue while the
counter is within the limit. -/
theorem onSyncQueue_failed {rest : List (Scope T)} {attempt : Attempt}
    (hq : s.syncQueue = scope :: rest) (hattempt : s.sessions.lookup scope = some attempt)
    (now : Nat) :
    (s.onSyncQueue false now).config = s.config ∧
      (s.onSyncQueue false now).syncQueue = rest ∧
      (s.onSyncQueue false now).attempted = s.attempted ++ [scope] ∧
      (s.onSyncQueue false now).resyncQueue = s.resyncQueue ∧
      (s.onSyncQueue false now).retryQueue =
        (if attempt.attempts + 1 ≤ s.config.maxRetryAttempts then s.retryQueue ++ [scope]
          else s.retryQueue) ∧
      ∀ x, (s.onSyncQueue false now).sessions.lookup x =
        if x = scope then some ⟨.failed now, attempt.attempts + 1⟩ else s.sessions.lookup x := by
  simp only [onSyncQueue, hq, Bool.false_eq_true, if_false, completeFailedSync_eq]
  refine ⟨by simp, by simp, by simp, by simp, ?_, fun x => ?_⟩
  · simp [lookup_modifyAttempt, hattempt]
  · simp only [lookup_modifyAttempt]
    by_cases hx : x = scope <;> simp [hx, hattempt]

/-- Every branch but `Reset` keeps the books. -/
theorem Bookkept.syncStep (h : s.Bookkept) {event : SyncEvent T} (hevent : event.isReset = false)
    (hstep : syncStep s event = some s') : s'.Bookkept := by
  cases event with
  | inbox msg =>
    cases msg with
    | discovery peer topic => exact h.onDiscovery hstep
    | reset => cases hevent
  | syncQueue succeeded now =>
    cases hstep
    exact h.onSyncQueue succeeded now
  | resyncPoll now => exact h.poll hstep
  | retryPoll now => exact h.poll hstep

/-- No branch changes the configuration. -/
theorem config_syncStep {event : SyncEvent T} (hstep : syncStep s event = some s') :
    s'.config = s.config := by
  cases event with
  | inbox msg =>
    cases msg with
    | discovery peer topic =>
      simp only [syncStep, SyncActor.onDiscovery] at hstep
      split at hstep
      · cases hstep
        rfl
      · split at hstep
        · next hsched =>
          cases hstep
          have hconfig := config_scheduleAttempt hsched
          exact hconfig
        · cases hstep
          rfl
        · cases hstep
    | reset =>
      simp only [syncStep, SyncActor.onReset, SyncActor.scheduleAll] at hstep
      refine foldlM_option_invariant _ (fun s₁ : SyncActor T => s₁.config = s.config)
        (fun s₁ scope s₂ h₁ hsched => ?_) _ _ _ ?_ hstep
      · split at hsched
        · next hq =>
          cases hsched
          exact (config_scheduleAttempt hq).trans h₁
        · cases hsched
        · cases hsched
      · rfl
  | syncQueue succeeded now =>
    cases hstep
    unfold SyncActor.onSyncQueue
    split
    · rfl
    · cases succeeded
      · simp [completeFailedSync_eq]
      · simp only [if_true, completeSuccessfulSync]
        split <;> simp
  | resyncPoll now =>
    rcases poll_cases hstep with ⟨-, rfl⟩ | ⟨scope, rest, -, rfl | rfl | rfl⟩ <;> simp
  | retryPoll now =>
    rcases poll_cases hstep with ⟨-, rfl⟩ | ⟨scope, rest, -, rfl | rfl | rfl⟩ <;> simp

/-! ## Counting the attempts of a scope -/

/-- The attempts counter of a scope, and none for a scope the actor does not track. -/
def counter (s : SyncActor T) (x : Scope T) : Nat :=
  ((s.sessions.lookup x).map fun attempt => attempt.attempts.toNat).getD 0

/-- The counters count: nothing waits in the resync queue, the counter of every scope is the
number of times it was passed to `connect_and_sync`, and a scope that waits in the sync or the
retry queue has been attempted at most `max_retry_attempts` times. -/
def Counted (s : SyncActor T) : Prop :=
  s.resyncQueue = [] ∧ ∀ x, s.counter x = s.attempted.count x ∧
    s.attempted.count x + (if x ∈ s.syncQueue ∨ x ∈ s.retryQueue then 1 else 0) ≤
      s.config.maxRetryAttempts.toNat + 1

theorem counted_new {config : SyncConfiguration} (hnew : SyncActor.new config = .ok s) :
    s.Counted := by
  unfold SyncActor.new at hnew
  split at hnew
  · cases hnew
    exact ⟨rfl, fun x => by simp [counter]⟩
  · cases hnew

/-- A `Discovery` keeps the count: a scope it starts to track has a new counter and was never
attempted. -/
theorem Counted.onDiscovery (hc : s.Counted) {peer : PublicKey} {topic : T}
    (hstep : s.onDiscovery peer topic = some s') : s'.Counted := by
  simp only [SyncActor.onDiscovery] at hstep
  split at hstep
  · cases hstep
    exact hc
  · next hnone =>
    rcases scheduleAttempt_cases { s with sessions := s.sessions.insert ⟨peer, topic⟩ Attempt.new }
      ⟨peer, topic⟩ with hq | hw
    · rw [hq] at hstep
      cases hstep
      refine ⟨hc.1, fun x => ?_⟩
      obtain ⟨hcounter, hbound⟩ := hc.2 x
      by_cases hx : x = ⟨peer, topic⟩
      · subst hx
        have hzero : s.attempted.count ⟨peer, topic⟩ = 0 := by
          rw [← hcounter]
          simp [counter, hnone]
        simp [counter, AList.lookup_insert, Attempt.new, hzero]
      · simpa [counter, AList.lookup_insert_ne hx, hx] using hc.2 x
    · rw [hw] at hstep
      cases hstep

/-- A failed session keeps the count, for a limit below 255: the scope was attempted at most
the limit times, so its counter grows by one without wrapping, and it goes back to the retry
queue only while the counter is within the limit. -/
theorem Counted.onSyncQueue (hb : s.Bookkept) (hc : s.Counted)
    (hm : s.config.maxRetryAttempts.toNat < 255) (now : Nat) :
    (s.onSyncQueue false now).Counted := by
  cases hq : s.syncQueue with
  | nil =>
    simp only [SyncActor.onSyncQueue, hq]
    exact hc
  | cons scope rest =>
    have hsync : 0 < (s.entry scope).sync := by simp [entry, hq]
    obtain ⟨h1, h2, -, htracked⟩ := (hb scope).queued hsync
    obtain ⟨attempt, hattempt⟩ : ∃ attempt, s.sessions.lookup scope = some attempt := by
      simpa [entry, statusOf, Option.ne_none_iff_exists'] using htracked
    have hrest : scope ∉ rest := by
      simp only [entry, hq, List.count_cons_self] at h1
      exact List.count_eq_zero.mp (by omega)
    have hretry : scope ∉ s.retryQueue := List.count_eq_zero.mp h2
    obtain ⟨hconfig, hsyncq, hattempted, hresync, hretryq, hlookup⟩ :=
      onSyncQueue_failed hq hattempt now
    refine ⟨hresync.trans hc.1, fun x => ?_⟩
    obtain ⟨hcounter, hbound⟩ := hc.2 x
    simp only [counter, hconfig, hsyncq, hattempted, hretryq, hlookup]
    by_cases hx : x = scope
    · subst hx
      have hcount : attempt.attempts.toNat = s.attempted.count x := by
        simpa [counter, hattempt] using hcounter
      have hwithin : s.attempted.count x + 1 ≤ s.config.maxRetryAttempts.toNat + 1 := by
        simpa [hq] using hbound
      -- the counter was at most the limit, below 255, so one more does not wrap
      have hnowrap : (attempt.attempts + 1).toNat = attempt.attempts.toNat + 1 := by
        rw [UInt8.toNat_add, UInt8.toNat_one]
        omega
      rw [if_pos rfl, Option.map_some, Option.getD_some, List.count_append, List.count_singleton_self,
        hnowrap, hcount]
      refine ⟨rfl, ?_⟩
      by_cases hle : attempt.attempts + 1 ≤ s.config.maxRetryAttempts
      · have hle' := UInt8.le_iff_toNat_le.mp hle
        rw [if_pos hle, if_pos (by simp)]
        omega
      · have hlt : s.config.maxRetryAttempts.toNat < (attempt.attempts + 1).toNat :=
          Nat.lt_of_not_le fun h => hle (UInt8.le_iff_toNat_le.mpr h)
        rw [if_neg hle, if_neg (by simp [hrest, hretry])]
        omega
    · -- another scope keeps its counter, its attempts and where it waits
      have hcount : (s.attempted ++ [scope]).count x = s.attempted.count x := by
        simp [Ne.symm hx]
      have hwaits : (x ∈ rest ∨ x ∈ if attempt.attempts + 1 ≤ s.config.maxRetryAttempts then
          s.retryQueue ++ [scope] else s.retryQueue) ↔ (x ∈ s.syncQueue ∨ x ∈ s.retryQueue) := by
        rw [hq]
        split <;> simp [hx]
      rw [if_neg hx, hcount, if_congr hwaits rfl rfl]
      exact ⟨hcounter, hbound⟩

/-- A retry poll keeps the count: it only moves the scope it takes between the retry and
the sync queue, or drops it. -/
theorem Counted.onRetryPoll (hc : s.Counted) {now : Nat} (hstep : s.onRetryPoll now = some s') :
    s'.Counted := by
  rcases poll_cases hstep with ⟨-, rfl⟩ | ⟨scope, rest, hq, hs'⟩
  · exact hc
  have hretry : s.retryQueue = scope :: rest := hq
  have hsame : s'.sessions = s.sessions ∧ s'.attempted = s.attempted ∧ s'.config = s.config ∧
      s'.resyncQueue = s.resyncQueue := by
    rcases hs' with rfl | rfl | rfl <;> exact ⟨rfl, rfl, rfl, rfl⟩
  have hmem : ∀ x, x ∈ s'.syncQueue ∨ x ∈ s'.retryQueue → x ∈ s.syncQueue ∨ x ∈ s.retryQueue := by
    intro x hx
    rw [hretry]
    rcases hs' with rfl | rfl | rfl <;> simp [withQueue] at hx ⊢ <;> tauto
  obtain ⟨hsessions, hattempted, hconfig, hresync⟩ := hsame
  clear hs'
  refine ⟨hresync.trans hc.1, fun x => ?_⟩
  obtain ⟨hcounter, hbound⟩ := hc.2 x
  simp only [counter, hsessions, hattempted, hconfig] at hcounter hbound ⊢
  refine ⟨hcounter, ?_⟩
  by_cases hwaits : x ∈ s'.syncQueue ∨ x ∈ s'.retryQueue
  · rw [if_pos hwaits]
    rw [if_pos (hmem x hwaits)] at hbound
    exact hbound
  · rw [if_neg hwaits]
    split at hbound <;> omega

/-- A resync poll finds its queue empty. -/
theorem Counted.onResyncPoll (hc : s.Counted) {now : Nat} (hstep : s.onResyncPoll now = some s') :
    s' = s := by
  rcases poll_cases hstep with ⟨-, rfl⟩ | ⟨scope, rest, hq, -⟩
  · rfl
  · have hresync : s.resyncQueue = scope :: rest := hq
    rw [hc.1] at hresync
    cases hresync

/-- Every branch but `Reset` and a successful sync keeps the count, for a limit below 255;
the books are kept as well, as `Counted.onSyncQueue` needs. -/
theorem Counted.syncStep (hb : s.Bookkept) (hc : s.Counted)
    (hm : s.config.maxRetryAttempts.toNat < 255) {event : SyncEvent T}
    (hreset : event.isReset = false) (hsuccess : event.isSuccess = false)
    (hstep : syncStep s event = some s') : s'.Counted := by
  cases event with
  | inbox msg =>
    cases msg with
    | discovery peer topic => exact hc.onDiscovery hstep
    | reset => cases hreset
  | syncQueue succeeded now =>
    cases succeeded
    · cases hstep
      exact hc.onSyncQueue hb hm now
    · cases hsuccess
  | resyncPoll now =>
    rw [hc.onResyncPoll hstep]
    exact hc
  | retryPoll now => exact hc.onRetryPoll hstep

end SyncActor

/-- Without `Reset`, every run keeps the books of every scope: it waits at most once in the
sync, the retry and the resync queue together, in the retry queue only while it failed, in
the resync queue only while it is complete, and in the sync queue whenever it is pending. The
induction is on the events, with `Bookkept` as the invariant. -/
theorem syncRun_bookkept [DecidableEq T] (config : SyncConfiguration) {s₀ : SyncActor T}
    (hnew : SyncActor.new config = .ok s₀) (events : List (SyncEvent T))
    (hevents : ∀ event ∈ events, event.isReset = false) {s : SyncActor T}
    (hrun : syncRun s₀ events = some s) : s.Bookkept :=
  (foldlM_option_suffix syncStep (fun s rest => s.Bookkept ∧ ∀ event ∈ rest, event.isReset = false)
    (fun _ event _ _ ⟨h, hrest⟩ hstep =>
      ⟨h.syncStep (hrest event List.mem_cons_self) hstep,
        fun e he => hrest e (List.mem_cons_of_mem _ he)⟩)
    events s₀ s ⟨SyncActor.bookkept_new hnew, hevents⟩ hrun).1

/-- The scope of the tests: the test peer on the primary topic. -/
def testScope : Scope TestTopic := ⟨testPeer, .primary⟩

/-- A scope is discovered, its first attempt fails, and a `Reset` follows. -/
def resetEvents : List (SyncEvent TestTopic) :=
  [.inbox (.discovery testPeer .primary), .syncQueue false 0, .inbox .reset]

theorem syncRun_bookkept_discovered :
    ∃ s₀ s, SyncActor.new SyncConfiguration.new = .ok s₀ ∧
      syncRun s₀ (resetEvents.take 2) = some s ∧ s.Bookkept ∧ testScope ∈ s.retryQueue :=
  ⟨_, _, rfl, rfl, syncRun_bookkept SyncConfiguration.new rfl (resetEvents.take 2) (by decide) rfl,
    by decide⟩

/-- `Reset` schedules the failed scope again while it waits in the retry queue: it is pending
there and waits twice, and its next failure puts it in the retry queue a second time. -/
theorem syncRun_reset_duplicates :
    ∃ s₀ s s', SyncActor.new SyncConfiguration.new = .ok s₀ ∧
      syncRun s₀ resetEvents = some s ∧
      testScope ∈ s.retryQueue ∧ s.statusOf testScope = some .pending ∧
      (s.entry testScope).sync + (s.entry testScope).retry + (s.entry testScope).resync = 2 ∧
      syncRun s₀ (resetEvents ++ [.syncQueue false 1]) = some s' ∧
      s'.retryQueue = [testScope, testScope] :=
  ⟨_, _, _, rfl, rfl, by decide, by decide, by decide, rfl, rfl⟩

/-- The run over a list of events after another. -/
theorem syncRun_append [DecidableEq T] (s : SyncActor T) (events events' : List (SyncEvent T)) :
    syncRun s (events ++ events') = (syncRun s events).bind fun s' => syncRun s' events' :=
  List.foldlM_append

/-- Without a reset or a successful sync, and for a retry limit `m` below 255, every run
keeps the attempt counter of every scope equal to the number of times the scope was passed
to `connect_and_sync`, so the `u8` never wraps, and passes no scope more than `m + 1`
times. The induction is on the events, with the books and the count as the invariant. -/
theorem syncRun_retries_bounded [DecidableEq T] (config : SyncConfiguration)
    (hm : config.maxRetryAttempts.toNat < 255) {s₀ : SyncActor T}
    (hnew : SyncActor.new config = .ok s₀) (events : List (SyncEvent T))
    (hevents : ∀ event ∈ events, event.isReset = false ∧ event.isSuccess = false)
    {s : SyncActor T} (hrun : syncRun s₀ events = some s) (scope : Scope T) :
    s.attempted.count scope ≤ config.maxRetryAttempts.toNat + 1 ∧
      s.counter scope = s.attempted.count scope := by
  have hinv := foldlM_option_suffix syncStep
    (fun s rest => s.config = config ∧ s.Bookkept ∧ s.Counted ∧
      ∀ event ∈ rest, event.isReset = false ∧ event.isSuccess = false)
    (fun s₁ event rest s₂ ⟨hconfig, hb, hc, hrest⟩ hstep => by
      obtain ⟨hreset, hsuccess⟩ := hrest event List.mem_cons_self
      exact ⟨(SyncActor.config_syncStep hstep).trans hconfig, hb.syncStep hreset hstep,
        hc.syncStep hb (hconfig ▸ hm) hreset hsuccess hstep,
        fun e he => hrest e (List.mem_cons_of_mem _ he)⟩)
    events s₀ s
    ⟨SyncActor.config_new hnew, SyncActor.bookkept_new hnew, SyncActor.counted_new hnew, hevents⟩
    hrun
  obtain ⟨hconfig, -, hc, -⟩ := hinv
  obtain ⟨hcounter, hbound⟩ := hc.2 scope
  rw [hconfig] at hbound
  exact ⟨by split at hbound <;> omega, hcounter⟩

/-- A limit of one retry: a scope is discovered, fails, is retried after the retry interval,
fails again, and the next poll finds the retry queue empty. -/
def retryEvents : List (SyncEvent TestTopic) :=
  [.inbox (.discovery testPeer .primary), .syncQueue false 0, .retryPoll 5, .syncQueue false 5,
    .retryPoll 10]

theorem syncRun_retries_bounded_once :
    ∃ s₀ s, SyncActor.new (SyncConfiguration.new.withMaxRetryAttempts 1) = .ok s₀ ∧
      syncRun s₀ retryEvents = some s ∧ s.attempted.count testScope = 2 ∧
      s.attempted.count testScope ≤ 1 + 1 ∧ s.counter testScope = s.attempted.count testScope :=
  ⟨_, _, rfl, rfl, by decide,
    syncRun_retries_bounded (SyncConfiguration.new.withMaxRetryAttempts 1) (by decide) rfl
      retryEvents (by decide) rfl testScope⟩

/-! ## At the limit 255 -/

/-- `n` rounds of a retry poll and a failed session, each `interval` after the one before,
from time `start`. -/
def retryRounds (start interval : Nat) : Nat → List (SyncEvent T)
  | 0 => []
  | n + 1 => .retryPoll (start + interval) :: .syncQueue false (start + interval) ::
      retryRounds (start + interval) interval n

/-- The actor tracking one scope, which failed at `failure` with the counter at `attempts`
(as a `u8`), waits in the retry queue and was attempted `n` times. -/
def retrying [DecidableEq T] (config : SyncConfiguration) (hpos : 0 < config.maxConcurrentSyncSessions)
    (scope : Scope T) (attempts failure n : Nat) : SyncActor T :=
  ⟨config, AList.singleton scope ⟨.failed failure, UInt8.ofNat attempts⟩, [], [scope], [],
    List.replicate n scope, hpos⟩

section Limit

variable [DecidableEq T] {config : SyncConfiguration} {hpos : 0 < config.maxConcurrentSyncSessions}
  {scope : Scope T}

/-- At the limit 255 every counter is within the limit, so a failed scope always goes back to
the retry queue: one round takes it from the retry queue to a new failure and back. -/
theorem syncRun_retryRound (hlimit : config.maxRetryAttempts = 255) {interval : Nat}
    (hinterval : config.retryInterval ≤ interval) (attempts failure n : Nat) :
    syncRun (retrying config hpos scope attempts failure n)
        [.retryPoll (failure + interval), .syncQueue false (failure + interval)] =
      some (retrying config hpos scope (attempts + 1) (failure + interval) (n + 1)) := by
  have hwithin : UInt8.ofNat attempts + 1 ≤ config.maxRetryAttempts := by
    rw [hlimit, UInt8.le_iff_toNat_le]
    have := (UInt8.ofNat attempts + 1).toNat_lt
    simp only [UInt8.reduceToNat]
    omega
  simp [syncRun, syncStep, SyncActor.onRetryPoll, SyncActor.poll, SyncActor.queueOf,
    SyncActor.withQueue, SyncActor.statusOf, retrying, PollQueue.since, hinterval,
    SyncActor.scheduleAttempt, hpos, SyncActor.onSyncQueue, SyncActor.modifyAttempt,
    SyncActor.completeFailedSync, hwithin, AList.insert_singleton_eq, UInt8.ofNat_add,
    List.replicate_succ']

/-- The rounds one after another: the counter and the attempts grow by one each round. The
induction is on the rounds. -/
theorem syncRun_retryRounds (hlimit : config.maxRetryAttempts = 255) {interval : Nat}
    (hinterval : config.retryInterval ≤ interval) :
    ∀ rounds attempts failure n,
      syncRun (retrying config hpos scope attempts failure n) (retryRounds failure interval rounds) =
        some (retrying config hpos scope (attempts + rounds) (failure + rounds * interval)
          (n + rounds))
  | 0, attempts, failure, n => by simp [retryRounds, syncRun]
  | rounds + 1, attempts, failure, n => by
    have hsplit : (retryRounds failure interval (rounds + 1) : List (SyncEvent T)) =
        [.retryPoll (failure + interval), .syncQueue false (failure + interval)] ++
          retryRounds (failure + interval) interval rounds := rfl
    have hfailure : failure + interval + rounds * interval = failure + (rounds + 1) * interval := by
      rw [Nat.add_mul]
      omega
    rw [hsplit, syncRun_append, syncRun_retryRound hlimit hinterval, Option.bind_some,
      syncRun_retryRounds hlimit hinterval rounds, hfailure, Nat.add_right_comm attempts,
      Nat.add_right_comm n]
    rfl

end Limit

/-- The configuration with the largest retry limit a `u8` holds. -/
def limitConfig : SyncConfiguration := SyncConfiguration.new.withMaxRetryAttempts 255

/-- A scope is discovered and fails, and then 256 rounds of a retry and a failure follow. -/
def wrapEvents : List (SyncEvent TestTopic) :=
  [.inbox (.discovery testPeer .primary), .syncQueue false 0] ++ retryRounds 0 RETRY_INTERVAL 256

/-- At the limit 255 the `u8` counter wraps on the 256th failure, and the scope keeps going
back to the retry queue: after 257 attempts, one more than the limit allows, its counter reads
1 and it waits to be retried again. -/
theorem syncRun_retries_wrap :
    ∃ s₀ s, SyncActor.new limitConfig = .ok s₀ ∧ syncRun s₀ wrapEvents = some s ∧
      s.attempted.count testScope = 257 ∧ s.counter testScope = 1 ∧ testScope ∈ s.retryQueue := by
  have hpos : 0 < limitConfig.maxConcurrentSyncSessions := by decide
  have hfirst : syncRun (⟨limitConfig, ∅, [], [], [], [], hpos⟩ : SyncActor TestTopic)
      [.inbox (.discovery testPeer .primary), .syncQueue false 0] =
        some (retrying limitConfig hpos testScope 1 0 1) := rfl
  refine ⟨_, retrying limitConfig hpos testScope (1 + 256) (0 + 256 * RETRY_INTERVAL) (1 + 256),
    rfl, ?_, ?_, ?_, ?_⟩
  · rw [wrapEvents, syncRun_append, hfirst, Option.bind_some]
    exact syncRun_retryRounds rfl (le_refl _) 256 1 0 1
  · exact List.count_replicate_self
  · rfl
  · exact List.mem_singleton_self _

/-! ## Scheduling on a full queue

`schedule_attempt` calls `send` whenever something is queued, so on a full queue the actor
waits for a slot that only its own loop frees. `Reset` schedules every tracked scope in one
turn of the loop: with more tracked scopes than free slots it waits so. -/

namespace SyncActor

variable {s : SyncActor T}

theorem scheduleAll_cons (s : SyncActor T) (scope : Scope T) (scopes : List (Scope T)) :
    s.scheduleAll (scope :: scopes) =
      (match s.scheduleAttempt scope with
        | .queued s' => some s'
        | .timedOut => none
        | .waits => none).bind (·.scheduleAll scopes) :=
  rfl

/-- Where scheduling more scopes than free slots waits: the scopes before one are queued,
each taking a slot, and `schedule_attempt` of that one waits in `send`. The induction is on
the scopes. -/
theorem scheduleAll_waits : ∀ (scopes : List (Scope T)) (s : SyncActor T),
    s.config.maxConcurrentSyncSessions - s.syncQueue.length < scopes.length →
      ∃ pre scope post s', scopes = pre ++ scope :: post ∧ s.scheduleAll pre = some s' ∧
        s'.scheduleAttempt scope = .waits
  | [], _, hmore => absurd hmore (Nat.not_lt_zero _)
  | scope :: scopes, s, hmore => by
    by_cases hfree : s.syncQueue.length < s.config.maxConcurrentSyncSessions
    · -- the scope takes a slot, and the rest are still more than the slots left
      let queued : SyncActor T := { s with syncQueue := s.syncQueue ++ [scope] }
      have hrest : queued.config.maxConcurrentSyncSessions - queued.syncQueue.length <
          scopes.length := by
        simp only [queued, List.length_append, List.length_cons] at hmore ⊢
        omega
      obtain ⟨pre, scope', post, s', hsplit, hpre, hwait⟩ := scheduleAll_waits scopes queued hrest
      refine ⟨scope :: pre, scope', post, s', by rw [hsplit, List.cons_append], ?_, hwait⟩
      rw [scheduleAll_cons, scheduleAttempt_of_lt hfree, Option.bind_some]
      exact hpre
    · exact ⟨[], scope, scopes, s, rfl, rfl, scheduleAttempt_of_full (by omega)⟩

/-- Scheduling more scopes than there are free slots waits: the run stops at the scope
`scheduleAll_waits` finds. -/
theorem scheduleAll_eq_none (scopes : List (Scope T)) (s : SyncActor T)
    (hmore : s.config.maxConcurrentSyncSessions - s.syncQueue.length < scopes.length) :
    s.scheduleAll scopes = none := by
  obtain ⟨pre, scope, post, s', rfl, hpre, hwait⟩ := scheduleAll_waits scopes s hmore
  have hsplit : s.scheduleAll (pre ++ scope :: post) =
      (s.scheduleAll pre).bind (·.scheduleAll (scope :: post)) :=
    List.foldlM_append
  rw [hsplit, hpre, Option.bind_some, scheduleAll_cons, hwait]
  rfl

/-- `Reset` with more tracked scopes than free slots in the sync queue waits on its own
queue. -/
theorem onReset_eq_none
    (hmore : s.config.maxConcurrentSyncSessions - s.syncQueue.length < s.sessions.keys.length) :
    s.onReset = none := by
  unfold onReset
  apply scheduleAll_eq_none
  simpa using hmore

variable [DecidableEq T]

@[simp] theorem config_completeSuccessfulSync (scope : Scope T) (now : Nat) :
    (s.completeSuccessfulSync scope now).config = s.config := by
  dsimp only [completeSuccessfulSync]
  split <;> simp

@[simp] theorem syncQueue_completeSuccessfulSync (scope : Scope T) (now : Nat) :
    (s.completeSuccessfulSync scope now).syncQueue = s.syncQueue := by
  dsimp only [completeSuccessfulSync]
  split <;> simp

theorem mem_modifyAttempt {scope : Scope T} (f : Attempt → Attempt) (x : Scope T) :
    x ∈ (s.modifyAttempt scope f).sessions ↔ x ∈ s.sessions := by
  rw [← AList.lookup_isSome, ← AList.lookup_isSome, lookup_modifyAttempt]
  split
  · next hx =>
    subst hx
    simp
  · rfl

theorem mem_completeSuccessfulSync (scope : Scope T) (now : Nat) (x : Scope T) :
    x ∈ (s.completeSuccessfulSync scope now).sessions ↔ x ∈ s.sessions := by
  dsimp only [completeSuccessfulSync]
  split <;> exact mem_modifyAttempt _ x

end SyncActor

/-- Each scope in turn is discovered and its session, taken from the sync queue, succeeds
at `now`. -/
def discoverAndSync (now : Nat) (scopes : List (Scope T)) : List (SyncEvent T) :=
  scopes.flatMap fun scope => [.inbox (.discovery scope.peer scope.topic), .syncQueue true now]

section FullQueue

variable [DecidableEq T] {s : SyncActor T}

/-- A discovery and the session it queues: on an empty sync queue the actor tracks the scope
afterwards, and the queue is empty again. -/
theorem syncRun_discover_sync (hq : s.syncQueue = []) (scope : Scope T) (now : Nat) :
    ∃ s', syncRun s [.inbox (.discovery scope.peer scope.topic), .syncQueue true now] = some s' ∧
      s'.config = s.config ∧ s'.syncQueue = [] ∧ scope ∈ s'.sessions ∧
      ∀ x ∈ s.sessions, x ∈ s'.sessions := by
  cases hlook : s.sessions.lookup scope with
  | some attempt =>
    -- tracked already: the discovery does nothing, and the queue has nothing to give
    refine ⟨s, ?_, rfl, hq, AList.lookup_isSome.mp (by rw [hlook]; rfl), fun _ hx => hx⟩
    simp [syncRun, syncStep, SyncActor.onDiscovery, hlook, SyncActor.onSyncQueue, hq]
  | none =>
    let s₁ : SyncActor T := { s with sessions := s.sessions.insert scope Attempt.new }
    have hfree : s₁.syncQueue.length < s₁.config.maxConcurrentSyncSessions := by
      simp only [s₁, hq, List.length_nil]
      exact s.capacity_pos
    refine ⟨(({ s₁ with syncQueue := [], attempted := s.attempted ++ [scope] } : SyncActor T).modifyAttempt
      scope fun attempt => { attempt with status := .active }).completeSuccessfulSync scope now,
      ?_, by simp [s₁], by simp, ?_, fun x hx => ?_⟩
    · have hdisc : s.onDiscovery scope.peer scope.topic =
          some { s₁ with syncQueue := s₁.syncQueue ++ [scope] } := by
        simp only [SyncActor.onDiscovery, hlook]
        rw [SyncActor.scheduleAttempt_of_lt hfree]
      simp [syncRun, syncStep, hdisc, SyncActor.onSyncQueue, s₁, hq]
    · rw [SyncActor.mem_completeSuccessfulSync, SyncActor.mem_modifyAttempt]
      exact (AList.mem_insert _).mpr (Or.inl rfl)
    · rw [SyncActor.mem_completeSuccessfulSync, SyncActor.mem_modifyAttempt]
      exact (AList.mem_insert _).mpr (Or.inr hx)

/-- Scopes discovered and synced one after another, from an empty sync queue: the actor
tracks them all and its queue is empty. The induction is on the scopes. -/
theorem syncRun_discoverAndSync (now : Nat) : ∀ (scopes : List (Scope T)) (s : SyncActor T),
    s.syncQueue = [] →
      ∃ s', syncRun s (discoverAndSync now scopes) = some s' ∧ s'.config = s.config ∧
        s'.syncQueue = [] ∧ ∀ x, x ∈ scopes ∨ x ∈ s.sessions → x ∈ s'.sessions
  | [], s, _ => ⟨s, rfl, rfl, by assumption, fun x hx => hx.resolve_left (List.not_mem_nil)⟩
  | scope :: scopes, s, hq => by
    obtain ⟨s₁, hrun₁, hconfig₁, hq₁, hscope, hkept₁⟩ := syncRun_discover_sync hq scope now
    obtain ⟨s₂, hrun₂, hconfig₂, hq₂, hkept₂⟩ := syncRun_discoverAndSync now scopes s₁ hq₁
    refine ⟨s₂, ?_, hconfig₂.trans hconfig₁, hq₂, fun x hx => ?_⟩
    · rw [discoverAndSync, List.flatMap_cons, syncRun_append, hrun₁, Option.bind_some]
      exact hrun₂
    · rcases hx with hx | hx
      · rcases List.mem_cons.mp hx with rfl | hx
        · exact hkept₂ x (Or.inr hscope)
        · exact hkept₂ x (Or.inl hx)
      · exact hkept₂ x (Or.inr (hkept₁ x hx))

/-- More scopes than sync slots, each discovered and synced in turn: every step succeeds and
leaves the sync queue empty, and then a `Reset` schedules them all in one turn of the loop,
fills the queue and waits in `send` for a slot only the loop itself would free. -/
theorem syncRun_reset_blocks (config : SyncConfiguration)
    (hpos : 0 < config.maxConcurrentSyncSessions) (scopes : List (Scope T)) (hnodup : scopes.Nodup)
    (hmore : config.maxConcurrentSyncSessions < scopes.length) (now : Nat) :
    ∃ s₀ s, SyncActor.new config = .ok s₀ ∧ syncRun s₀ (discoverAndSync now scopes) = some s ∧
      s.syncQueue = [] ∧
      (∃ pre scope post s', s.sessions.keys = pre ++ scope :: post ∧
        ({ s with sessions := s.sessions.mapVal fun _ (attempt : Attempt) => attempt.reset } :
          SyncActor T).scheduleAll pre = some s' ∧ s'.scheduleAttempt scope = .waits) ∧
      syncRun s₀ (discoverAndSync now scopes ++ [.inbox .reset]) = none := by
  let s₀ : SyncActor T := ⟨config, ∅, [], [], [], [], hpos⟩
  have hnew : SyncActor.new config = .ok s₀ := by
    simp [SyncActor.new, hpos, s₀]
  obtain ⟨s, hrun, hconfig, hq, htracked⟩ := syncRun_discoverAndSync now scopes s₀ rfl
  -- every scope is tracked, so there are more tracked scopes than slots
  have hkeys : scopes.length ≤ s.sessions.keys.length :=
    (List.Nodup.subperm hnodup fun x hx => AList.mem_keys.mp (htracked x (Or.inl hx))).length_le
  have hslots : s.config.maxConcurrentSyncSessions - s.syncQueue.length < s.sessions.keys.length := by
    have hconfig₀ : s₀.config = config := rfl
    rw [hq, hconfig, hconfig₀]
    simp only [List.length_nil, Nat.sub_zero]
    omega
  -- the `Reset` queues the tracked scopes in turn until one waits in `send`
  let reset : SyncActor T :=
    { s with sessions := s.sessions.mapVal fun _ (attempt : Attempt) => attempt.reset }
  obtain ⟨pre, scope, post, s', hsplit, hpre, hwait⟩ :=
    SyncActor.scheduleAll_waits reset.sessions.keys reset (by simpa [reset] using hslots)
  rw [AList.keys_mapVal] at hsplit
  have hreset : s.onReset = none := SyncActor.onReset_eq_none hslots
  refine ⟨s₀, s, hnew, hrun, hq, ⟨pre, scope, post, s', hsplit, hpre, hwait⟩, ?_⟩
  rw [syncRun_append, hrun, Option.bind_some]
  simp [syncRun, syncStep, hreset]

/-- One sync slot and two scopes. -/
theorem syncRun_reset_blocks_one_slot :
    0 < ({ SyncConfiguration.new with maxConcurrentSyncSessions := 1 }).maxConcurrentSyncSessions ∧
      [testScope, ⟨testPeer, .secondary⟩].Nodup ∧
      ({ SyncConfiguration.new with maxConcurrentSyncSessions := 1 }).maxConcurrentSyncSessions <
        [testScope, (⟨testPeer, .secondary⟩ : Scope TestTopic)].length ∧
      ∃ s₀ s, SyncActor.new { SyncConfiguration.new with maxConcurrentSyncSessions := 1 } = .ok s₀ ∧
        syncRun s₀ (discoverAndSync 0 [testScope, ⟨testPeer, .secondary⟩]) = some s ∧
        s.syncQueue = [] ∧
        (∃ pre scope post s', s.sessions.keys = pre ++ scope :: post ∧
          ({ s with sessions := s.sessions.mapVal fun _ (attempt : Attempt) => attempt.reset } :
            SyncActor TestTopic).scheduleAll pre = some s' ∧ s'.scheduleAttempt scope = .waits) ∧
        syncRun s₀ (discoverAndSync 0 [testScope, ⟨testPeer, .secondary⟩] ++ [.inbox .reset]) = none :=
  ⟨by decide, by decide, by decide,
    syncRun_reset_blocks { SyncConfiguration.new with maxConcurrentSyncSessions := 1 } (by decide)
      [testScope, ⟨testPeer, .secondary⟩] (by decide) (by decide) 0⟩

end FullQueue

end P2panda.Net
