import Mathlib.Algebra.Order.BigOperators.Group.Finset
import P2panda.Net.TopicStreamsDelivery
import P2panda.Sync.Heights
import P2panda.Sync.LogSync

/- The gossip-buffer locks across the sync stack: what each sync session reports to the
   engine actor (`p2panda-net/src/sync/manager.rs`, `sync/initiate.rs`, `sync/accept.rs`,
   `sync/handler.rs`), and what the engine does with it (`engine/engine.rs`,
   `engine/topic_streams.rs`).

   A session is the list of `ToEngineActor` messages it sends. An initiated attempt
   (`connect_and_sync`, then `complete_successful_sync` or `complete_failed_sync`) ends
   in one of a few ways: the connection fails, the glue task or `initiate` fails, or the
   session is done and the clean-up of the streams succeeds or fails
   (`initiatorMessages`). An accepted session (`handle_connection`) reports what its glue
   task read before the protocol's error reached it, if one did (`acceptorMessages`). The
   engine reads the sessions' messages in any interleaving, each session's in its order,
   between its own calls (`engineRun`).

   A session pairs its lock (`WellPaired`) when it reports at most one handshake, and
   a `SyncDone` or `SyncFailed` with a topic only after it, for a topic of the same id. For
   sessions that all pair their locks, every counter of the gossip buffer is the number of
   sessions with that peer, on a topic of that id, that have reported the handshake and not
   yet their end (`engineRun_counts`). Every accepted session pairs its lock
   (`acceptorMessages_wellPaired`). An initiated one pairs it exactly when it connected,
   reached the handshake and, if it was done, cleaned up
   (`initiatorMessages_wellPaired_iff`): `complete_failed_sync` sends `SyncFailed` with the
   topic for every failed attempt, and that releases a lock another session took
   (`engineRun_foreign_release`).

   An accepted session's topic is the remote's choice, which only the acceptor's topic map
   checks. An engine that never subscribed to a topic lists no streams under it
   (`engineRun_topicToStream`) and panics at the first sync message for it
   (`engineRun_syncMessage_unsubscribed`); a log-sync session with a remote that has data
   gets there (`engineRun_remote_topic_panics`). -/

namespace P2panda.Net

open Sync

variable {T : Type}

/-- `ToEngineActor`, the messages of a sync session to the engine actor. -/
inductive ToEngineActor (T : Type) where
  | syncStart (topic : Option T) (peer : PublicKey)
  | syncHandshakeSuccess (topic : T) (peer : PublicKey)
  | syncMessage (topic : T) (header : List UInt8) (payload : Option (List UInt8))
      (deliveredFrom : PublicKey)
  | syncDone (topic : T) (peer : PublicKey)
  | syncFailed (topic : Option T) (peer : PublicKey)

/-- The peer a message is about. -/
def ToEngineActor.peer : ToEngineActor T → PublicKey
  | .syncStart _ peer => peer
  | .syncHandshakeSuccess _ peer => peer
  | .syncMessage _ _ _ deliveredFrom => deliveredFrom
  | .syncDone _ peer => peer
  | .syncFailed _ peer => peer

/-- A glue task's message to the engine, sent for a session with `peer`. -/
def sentToEngine (peer : PublicKey) : ToEngine T → ToEngineActor T
  | .syncHandshakeSuccess topic => .syncHandshakeSuccess topic peer
  | .syncMessage header payload topic => .syncMessage topic header payload peer

/-- The call on `TopicStreams` that the engine makes for a message; `on_sync_start` does
nothing there. -/
def ToEngineActor.streamsCall : ToEngineActor T → Option (StreamsCall T)
  | .syncStart _ _ => none
  | .syncHandshakeSuccess topic peer => some (.onSyncHandshakeSuccess topic peer)
  | .syncMessage topic header payload deliveredFrom =>
    some (.onSyncMessage topic header payload deliveredFrom)
  | .syncDone topic peer => some (.onSyncDone topic peer)
  | .syncFailed topic peer => some (.onSyncFailed topic peer)

/-! ## What a session reports -/

/-- How an initiated sync attempt goes: whether the connection and the bidirectional
stream open, what the protocol hands the glue task, what `initiate` returns, and whether
the clean-up of the streams succeeds. -/
structure InitiatorRun (T : Type) where
  connected : Bool
  events : List (FromSync T)
  result : Except SyncError Unit
  cleanedUp : Bool

/-- The messages of an attempt of `connect_and_sync` with `peer` on `topic`: `SyncStart`,
what the glue task forwards up to its end, then `SyncDone` if the glue task and `initiate`
succeeded, and `SyncFailed` with the topic from `complete_failed_sync` for every failure. -/
def initiatorMessages (peer : PublicKey) (topic : T) (run : InitiatorRun T) :
    List (ToEngineActor T) :=
  if !run.connected then [.syncFailed (some topic) peer]
  else
    let glue := foldlMUntil (initiateSyncGlueStep topic) (false, []) run.events
    .syncStart (some topic) peer :: glue.1.2.map (sentToEngine peer) ++
      match glue.2, run.result with
      | none, .ok () =>
        .syncDone topic peer :: if run.cleanedUp then [] else [.syncFailed (some topic) peer]
      | _, _ => [.syncFailed (some topic) peer]

/-- How an accepted session goes: what the protocol hands the glue task, what `accept`
returns, and, when it fails, after how many events the error reaches the glue task (`none`:
only after the glue task saw the channel close). -/
structure AcceptorRun (T : Type) where
  events : List (FromSync T)
  result : Except SyncError Unit
  errorAfter : Option Nat

/-- After how many events the glue task of an accepted session takes the protocol's
error, if it does. -/
def AcceptorRun.failedAfter (run : AcceptorRun T) : Option Nat :=
  match run.result with
  | .ok () => none
  | .error _ => run.errorAfter

/-- The messages of `accept_sync` with `peer`: `SyncStart` without a topic, what the glue
task forwards up to its end, then `SyncFailed` with the topic it learned if the protocol's
error reached it, or `SyncDone` if it learned a topic and the channel closed. A glue task
that fails itself sends nothing more. -/
def acceptorMessages (peer : PublicKey) (run : AcceptorRun T) : List (ToEngineActor T) :=
  let read := match run.failedAfter with
    | none => run.events
    | some n => run.events.take n
  let glue := foldlMUntil acceptSyncGlueStep ⟨none, []⟩ read
  .syncStart none peer :: glue.1.toEngine.map (sentToEngine peer) ++
    match glue.2, run.failedAfter, glue.1.topic with
    | some _, _, _ => []
    | none, none, some topic => [.syncDone topic peer]
    | none, none, none => []
    | none, some _, topic => [.syncFailed topic peer]

/-! ## Pairing a lock -/

/-- Where a session is with its lock: not taken yet, held for a topic id, given back. -/
inductive LockPhase where
  | before
  | locked (topicId : Bytes32)
  | released
  deriving DecidableEq

@[simp] theorem peer_sentToEngine (peer : PublicKey) (m : ToEngine T) :
    (sentToEngine peer m).peer = peer := by
  cases m <;> rfl

/-- The data a glue task forwards under `topic`. -/
def dataMessages (topic : T) (data : List (List UInt8 × Option (List UInt8))) :
    List (ToEngine T) :=
  data.map fun d => .syncMessage d.1 d.2 topic

/-- What the accept glue task has sent: nothing before it learns the topic, then the
handshake and data under that topic. -/
def acceptShaped (glue : AcceptGlue T) : Prop :=
  match glue.topic with
  | none => glue.toEngine = []
  | some topic => ∃ data, glue.toEngine = .syncHandshakeSuccess topic :: dataMessages topic data

theorem acceptGlue_shaped (events : List (FromSync T)) :
    acceptShaped (foldlMUntil acceptSyncGlueStep ⟨none, []⟩ events).1 := by
  refine foldlMUntil_invariant _ acceptShaped (fun glue e glue' hshape hstep => ?_) events
    ⟨none, []⟩ rfl
  cases e with
  | handshakeSuccess topic =>
    -- the first topic: the handshake is the first message
    simp only [acceptSyncGlueStep] at hstep
    split at hstep
    · cases hstep
    · next hnone =>
      cases hstep
      have htopic : glue.topic = none := by simpa using hnone
      simp only [acceptShaped, htopic] at hshape
      exact ⟨[], by simp [hshape, dataMessages]⟩
  | data header payload =>
    simp only [acceptSyncGlueStep] at hstep
    split at hstep
    · cases hstep
    · next topic htopic =>
      cases hstep
      simp only [acceptShaped, htopic] at hshape ⊢
      obtain ⟨data, hdata⟩ := hshape
      exact ⟨data ++ [(header, payload)], by simp [hdata, dataMessages]⟩

/-- What the initiate glue task has sent: data, and once it saw the handshake, the
handshake under the session's topic and more data. -/
def initiateShaped (topic : T) (glue : Bool × List (ToEngine T)) : Prop :=
  if glue.1 then
    ∃ before after, glue.2 =
      dataMessages topic before ++ .syncHandshakeSuccess topic :: dataMessages topic after
  else ∃ data, glue.2 = dataMessages topic data

theorem initiateGlue_shaped (topic : T) (events : List (FromSync T)) :
    initiateShaped topic (foldlMUntil (initiateSyncGlueStep topic) (false, []) events).1 := by
  refine foldlMUntil_invariant _ (initiateShaped topic)
    (fun glue e glue' hshape hstep => ?_) events (false, []) ⟨[], rfl⟩
  cases e with
  | handshakeSuccess _ =>
    simp only [initiateSyncGlueStep] at hstep
    split at hstep
    · cases hstep
    · next hseen =>
      -- the first handshake, after the data so far
      cases hstep
      simp only [initiateShaped, hseen] at hshape
      obtain ⟨data, hdata⟩ := hshape
      exact ⟨data, [], by simp [hdata, dataMessages]⟩
  | data header payload =>
    simp only [initiateSyncGlueStep] at hstep
    cases hstep
    cases hseen : glue.1 with
    | false =>
      simp only [initiateShaped, hseen] at hshape ⊢
      obtain ⟨data, hdata⟩ := hshape
      exact ⟨data ++ [(header, payload)], by simp [hdata, dataMessages]⟩
    | true =>
      simp only [initiateShaped, hseen] at hshape ⊢
      obtain ⟨before, after, hdata⟩ := hshape
      exact ⟨before, after ++ [(header, payload)], by simp [hdata, dataMessages]⟩

section Pairing

variable [TopicId T]

/-- One message as the lock sees it; `none` where the message does not pair with the
session's lock. -/
def lockStep : LockPhase → ToEngineActor T → Option LockPhase
  | phase, .syncStart _ _ => some phase
  | .before, .syncHandshakeSuccess topic _ => some (.locked (TopicId.id topic))
  | phase, .syncMessage _ _ _ _ => some phase
  | .locked topicId, .syncDone topic _ =>
    if TopicId.id topic = topicId then some .released else none
  | .locked topicId, .syncFailed (some topic) _ =>
    if TopicId.id topic = topicId then some .released else none
  | .before, .syncFailed none _ => some .before
  | _, _ => none

/-- Where a session is after the messages the engine has read. -/
def lockPhase (messages : List (ToEngineActor T)) : Option LockPhase :=
  messages.foldlM lockStep .before

/-- A session that pairs its lock: all its messages are about its peer, and the lock
follows them to the end. -/
def WellPaired (peer : PublicKey) (messages : List (ToEngineActor T)) : Prop :=
  (∀ m ∈ messages, m.peer = peer) ∧ lockPhase messages ≠ none

instance (peer : PublicKey) (messages : List (ToEngineActor T)) :
    Decidable (WellPaired peer messages) :=
  inferInstanceAs (Decidable ((∀ m ∈ messages, m.peer = peer) ∧ lockPhase messages ≠ none))

/-- Data leaves the lock where it is. The induction is on the data. -/
theorem foldlM_lockStep_data (peer : PublicKey) (topic : T) (phase : LockPhase) :
    ∀ data : List (List UInt8 × Option (List UInt8)),
      ((dataMessages topic data).map (sentToEngine peer)).foldlM lockStep phase = some phase
  | [] => rfl
  | _ :: data => foldlM_lockStep_data peer topic phase data

/-- A session that starts, forwards what an accept glue task sent, and ends with nothing,
with `SyncDone` for the topic it learned, or with `SyncFailed` for what it learned, pairs
its lock. -/
theorem wellPaired_accepted (peer : PublicKey) {glue : AcceptGlue T} (hshape : acceptShaped glue)
    {tail : List (ToEngineActor T)}
    (htail : tail = [] ∨ (∃ topic, glue.topic = some topic ∧ tail = [.syncDone topic peer]) ∨
      tail = [.syncFailed glue.topic peer]) :
    WellPaired peer (.syncStart none peer :: glue.toEngine.map (sentToEngine peer) ++ tail) := by
  refine ⟨fun m hm => ?_, ?_⟩
  · rcases List.mem_cons.mp hm with rfl | hm
    · rfl
    rcases List.mem_append.mp hm with hm | hm
    · obtain ⟨m', -, rfl⟩ := List.mem_map.mp hm
      exact peer_sentToEngine peer m'
    · rcases htail with rfl | ⟨topic, -, rfl⟩ | rfl <;> simp_all [ToEngineActor.peer]
  · unfold lockPhase
    unfold acceptShaped at hshape
    cases htopic : glue.topic with
    | none =>
      rw [htopic] at hshape
      rcases htail with rfl | ⟨topic, h, -⟩ | rfl
      · simp [hshape, lockStep]
      · simp [htopic] at h
      · simp [hshape, htopic, lockStep]
    | some topic =>
      rw [htopic] at hshape
      obtain ⟨data, hdata⟩ := hshape
      -- the handshake takes the lock, the data keep it, the end gives it back
      have hlocked : ((.syncStart none peer :: glue.toEngine.map (sentToEngine peer)).foldlM
          lockStep LockPhase.before) = some (.locked (TopicId.id topic)) := by
        rw [hdata]
        simp [lockStep, sentToEngine, foldlM_lockStep_data]
      rw [List.foldlM_append, hlocked]
      rcases htail with rfl | ⟨topic', h, rfl⟩ | rfl
      · simp
      · rw [htopic, Option.some.injEq] at h
        subst h
        simp [lockStep]
      · simp [htopic, lockStep]

/-- Every accepted session pairs its lock: the glue task reports a handshake only for the
first topic, and `SyncDone` or `SyncFailed` only for the topic it learned. -/
theorem acceptorMessages_wellPaired (peer : PublicKey) (run : AcceptorRun T) :
    WellPaired peer (acceptorMessages peer run) := by
  unfold acceptorMessages
  refine wellPaired_accepted peer (acceptGlue_shaped _) ?_
  split
  · exact .inl rfl
  · next _ topic _ _ htopic => exact .inr (.inl ⟨topic, htopic, rfl⟩)
  · exact .inl rfl
  · exact .inr (.inr rfl)

/-- After what the initiate glue task sent, the lock is held for the session's topic if
the glue task saw the handshake, and not taken otherwise. -/
theorem foldlM_lockStep_initiated (peer : PublicKey) (topic : T)
    {glue : Bool × List (ToEngine T)} (hshape : initiateShaped topic glue) :
    (glue.2.map (sentToEngine peer)).foldlM lockStep .before =
      some (if glue.1 then .locked (TopicId.id topic) else .before) := by
  obtain ⟨seen, sent⟩ := glue
  cases seen with
  | false =>
    obtain ⟨data, rfl⟩ := hshape
    exact foldlM_lockStep_data peer topic _ data
  | true =>
    obtain ⟨before, after, rfl⟩ := hshape
    simp [List.foldlM_append, foldlM_lockStep_data, lockStep, sentToEngine]

/-- An initiated attempt pairs its lock exactly when it connected, its glue task saw the
handshake, and it cleaned up the streams if the glue task and `initiate` succeeded. -/
theorem initiatorMessages_wellPaired_iff (peer : PublicKey) (topic : T) (run : InitiatorRun T) :
    WellPaired peer (initiatorMessages peer topic run) ↔
      run.connected = true ∧
        (foldlMUntil (initiateSyncGlueStep topic) (false, []) run.events).1.1 = true ∧
        ((foldlMUntil (initiateSyncGlueStep topic) (false, []) run.events).2 = none →
          run.result = .ok () → run.cleanedUp = true) := by
  have hshape := initiateGlue_shaped topic run.events
  unfold initiatorMessages
  generalize foldlMUntil (initiateSyncGlueStep topic) (false, []) run.events = glue at hshape ⊢
  obtain ⟨⟨seen, sent⟩, err⟩ := glue
  have hsent := foldlM_lockStep_initiated peer topic hshape
  cases hc : run.connected with
  | false => simp [WellPaired, lockPhase, lockStep]
  | true =>
    simp only [Bool.not_true, Bool.false_eq_true, if_false, true_and]
    -- every message is about `peer`; the lock decides
    have hpeer : ∀ tail : List (ToEngineActor T), (∀ m ∈ tail, m.peer = peer) →
        ∀ m ∈ .syncStart (some topic) peer :: sent.map (sentToEngine peer) ++ tail, m.peer = peer := by
      intro tail htail m hm
      simp only [List.cons_append, List.mem_cons, List.mem_append, List.mem_map] at hm
      rcases hm with rfl | ⟨m', -, rfl⟩ | hm
      · rfl
      · exact peer_sentToEngine peer m'
      · exact htail m hm
    have hlocked : (.syncStart (some topic) peer :: sent.map (sentToEngine peer)).foldlM
        lockStep LockPhase.before = some (if seen then .locked (TopicId.id topic) else .before) := by
      rw [List.foldlM_cons]
      exact hsent
    unfold WellPaired lockPhase
    refine (and_iff_right (hpeer _ ?_)).trans ?_
    · split
      · split <;> simp [ToEngineActor.peer]
      · simp [ToEngineActor.peer]
    · rw [List.foldlM_append, hlocked]
      cases seen <;> cases err <;> rcases hr : run.result with e | ⟨⟩ <;> cases run.cleanedUp <;>
        simp [lockStep]

end Pairing

/-! ## What the engine does to the counters -/

/-- The calls on `TopicStreams` that only sync sessions cause. -/
def StreamsCall.isSync : StreamsCall T → Bool
  | .onSyncHandshakeSuccess _ _ => true
  | .onSyncMessage _ _ _ _ => true
  | .onSyncDone _ _ => true
  | .onSyncFailed _ _ => true
  | _ => false

namespace TopicStreams

variable {s s' : TopicStreams T}

/-- The replay of held-back messages leaves the counters as they are. -/
theorem counters_replay (t : Bytes32) (p : PublicKey) (buffer : List (List UInt8))
    (hrun : buffer.foldlM (fun s bytes => s.onGossipMessage t bytes p) s = .ok s') :
    s'.gossipBuffer.counters = s.gossipBuffer.counters :=
  foldlM_invariant _ (fun s₁ : TopicStreams T => s₁.gossipBuffer.counters = s.gossipBuffer.counters)
    buffer (fun s₁ _ s₂ _ h₁ hstep => by
      rcases onGossipMessage_cases hstep with ⟨-, rfl⟩ | ⟨-, -, rfl⟩ | ⟨-, -, -, -, rfl⟩ <;>
        exact h₁)
    buffer s s' (fun _ h => h) rfl hrun

/-- `unlockBuffer` counts one session less with `p` on `t`, down to zero, when what it
hands the drained buffer to keeps the counters. -/
theorem count_unlockBuffer {p : PublicKey} {t : Bytes32}
    {onDrained : TopicStreams T → List (List UInt8) → Except String (TopicStreams T)}
    (hdrained : ∀ s₁ buffer s₂, onDrained s₁ buffer = .ok s₂ →
      s₂.gossipBuffer.counters = s₁.gossipBuffer.counters)
    (hrun : s.unlockBuffer p t onDrained = .ok s') (k : PublicKey × Bytes32) :
    (s'.gossipBuffer.counters k).getD 0 =
      if k = (p, t) then (s.gossipBuffer.counters k).getD 0 - 1
      else (s.gossipBuffer.counters k).getD 0 := by
  rcases Nat.lt_trichotomy (s.gossipBuffer.count p t) 1 with hlt | heq | hgt
  · rw [unlockBuffer_of_count_eq_zero (by omega), Except.ok.injEq] at hrun
    subst hrun
    split
    · next hk =>
      subst hk
      unfold GossipBuffer.count at hlt
      omega
    · rfl
  · cases hbuffer : s.gossipBuffer.buffers (p, t) with
    | none =>
      rw [unlockBuffer_of_missing heq hbuffer] at hrun
      cases hrun
    | some buffer =>
      rw [unlockBuffer_of_count_eq_one heq hbuffer] at hrun
      rw [hdrained _ buffer s' hrun]
      split
      · next hk =>
        subst hk
        unfold GossipBuffer.count at heq
        simp [heq]
      · next hk => simp [Function.update_of_ne hk]
  · rw [unlockBuffer_of_one_lt_count hgt, Except.ok.injEq] at hrun
    subst hrun
    split
    · next hk =>
      subst hk
      simp [GossipBuffer.count]
    · next hk => simp [Function.update_of_ne hk]

end TopicStreams

section Counters

variable [TopicId T]

/-- What a call does to the counter of `k`: a handshake counts one more session, an end
with a topic one less, and nothing else changes it. -/
def StreamsCall.countEffect : StreamsCall T → PublicKey × Bytes32 → Nat → Nat
  | .onSyncHandshakeSuccess topic peer, k, n => if k = (peer, TopicId.id topic) then n + 1 else n
  | .onSyncDone topic peer, k, n => if k = (peer, TopicId.id topic) then n - 1 else n
  | .onSyncFailed (some topic) peer, k, n => if k = (peer, TopicId.id topic) then n - 1 else n
  | _, _, n => n

theorem countEffect_of_not_isSync {c : StreamsCall T} (h : c.isSync = false)
    (k : PublicKey × Bytes32) (n : Nat) : c.countEffect k n = n := by
  cases c <;> first | rfl | exact nomatch h

namespace TopicStreams

variable {s s' : TopicStreams T}

/-- Every call changes the counters as `countEffect` says. -/
theorem count_call [DecidableEq T] {c : StreamsCall T} (hrun : s.call c = .ok s')
    (peer : PublicKey) (topicId : Bytes32) :
    s'.gossipBuffer.count peer topicId = c.countEffect (peer, topicId) (s.gossipBuffer.count peer topicId) := by
  unfold GossipBuffer.count
  cases c with
  | subscribe topic =>
    cases hrun
    rfl
  | onGossipJoined topicId' =>
    cases hrun
    rw [onGossipJoined_gossipBuffer]
    rfl
  | moveJoinedToPending =>
    cases hrun
    rfl
  | onGossipMessage topicId' bytes deliveredFrom =>
    rcases onGossipMessage_cases hrun with ⟨-, rfl⟩ | ⟨-, -, rfl⟩ | ⟨-, -, -, -, rfl⟩ <;> rfl
  | onSyncHandshakeSuccess topic p =>
    cases hrun
    simp only [onSyncHandshakeSuccess, GossipBuffer.lock_counters, StreamsCall.countEffect]
    split
    · next hk =>
      rw [hk, Function.update_self]
      rfl
    · next hk => rw [Function.update_of_ne hk]
  | onSyncMessage topic header payload deliveredFrom =>
    simp only [TopicStreams.call, onSyncMessage] at hrun
    split at hrun
    · cases hrun
    · obtain rfl := sendToStreams_ok _ _ s s' hrun
      rfl
  | onSyncDone topic p =>
    simp only [TopicStreams.call, onSyncDone] at hrun
    exact count_unlockBuffer (fun _ _ _ h => counters_replay _ _ _ h) hrun _
  | onSyncFailed topic p =>
    cases topic with
    | none =>
      cases hrun
      rfl
    | some topic =>
      simp only [TopicStreams.call, onSyncFailed] at hrun
      exact count_unlockBuffer (fun _ _ _ h => by cases h; rfl) hrun _

end TopicStreams

/-- What a message makes the engine do to the counter of `k`. -/
def ToEngineActor.countEffect (m : ToEngineActor T) (k : PublicKey × Bytes32) (n : Nat) : Nat :=
  match m.streamsCall with
  | none => n
  | some c => c.countEffect k n

/-- One if a session with `p`, in phase `phase`, holds a lock with `peer` on `topicId`. -/
def heldBy (p : PublicKey) (phase : Option LockPhase) (peer : PublicKey) (topicId : Bytes32) :
    Nat :=
  if p = peer ∧ phase = some (.locked topicId) then 1 else 0

/-- Taking the lock on `topicId₀` counts one more session on that counter. -/
theorem heldBy_take (p : PublicKey) (topicId₀ : Bytes32) (peer : PublicKey) (topicId : Bytes32)
    (n : Nat) :
    (if (peer, topicId) = (p, topicId₀) then n + 1 else n) + heldBy p (some .before) peer topicId =
      n + heldBy p (some (.locked topicId₀)) peer topicId := by
  by_cases hk : (peer, topicId) = (p, topicId₀)
  · obtain ⟨rfl, rfl⟩ := Prod.mk.inj hk
    simp [heldBy]
  · have hne : ¬ (p = peer ∧ topicId₀ = topicId) := fun h => hk (by rw [h.1, h.2])
    simp [heldBy, hk]
    simpa using hne

/-- Giving the lock on `topicId₀` back counts one session less on that counter. -/
theorem heldBy_release {p : PublicKey} {topicId₀ : Bytes32} {peer : PublicKey}
    {topicId : Bytes32} {n : Nat} (hn : heldBy p (some (.locked topicId₀)) peer topicId ≤ n) :
    (if (peer, topicId) = (p, topicId₀) then n - 1 else n) +
        heldBy p (some (.locked topicId₀)) peer topicId =
      n + heldBy p (some .released) peer topicId := by
  by_cases hk : (peer, topicId) = (p, topicId₀)
  · obtain ⟨rfl, rfl⟩ := Prod.mk.inj hk
    simp [heldBy] at hn ⊢
    omega
  · have hne : ¬ (p = peer ∧ topicId₀ = topicId) := fun h => hk (by rw [h.1, h.2])
    simp [heldBy, hk]
    simpa using hne

/-- A message that pairs with the lock changes the count of locks its session holds as the
engine changes the counter: a handshake takes one, an end gives the one back. -/
theorem countEffect_lockStep {phase phase' : LockPhase} {m : ToEngineActor T}
    (hstep : lockStep phase m = some phase') (peer : PublicKey) (topicId : Bytes32) {n : Nat}
    (hn : heldBy m.peer (some phase) peer topicId ≤ n) :
    m.countEffect (peer, topicId) n + heldBy m.peer (some phase) peer topicId =
      n + heldBy m.peer (some phase') peer topicId := by
  cases m with
  | syncStart topic p =>
    simp only [lockStep, Option.some.injEq] at hstep
    subst hstep
    rfl
  | syncMessage topic header payload p =>
    simp only [lockStep, Option.some.injEq] at hstep
    subst hstep
    rfl
  | syncHandshakeSuccess topic p =>
    cases phase <;> simp only [lockStep, Option.some.injEq, reduceCtorEq] at hstep
    subst hstep
    exact heldBy_take p _ peer topicId n
  | syncDone topic p =>
    cases phase <;> simp only [lockStep, reduceCtorEq] at hstep
    split at hstep
    · next hid =>
      cases hstep
      subst hid
      exact heldBy_release hn
    · cases hstep
  | syncFailed topic p =>
    cases topic with
    | none =>
      cases phase <;> simp only [lockStep, Option.some.injEq, reduceCtorEq] at hstep
      subst hstep
      rfl
    | some topic =>
      cases phase <;> simp only [lockStep, reduceCtorEq] at hstep
      split at hstep
      · next hid =>
        cases hstep
        subst hid
        exact heldBy_release hn
      · cases hstep

end Counters

/-! ## The engine over interleaved sessions -/

/-- A sync session with `peer`, and the messages it sends the engine actor, in order. -/
structure Session (T : Type) where
  peer : PublicKey
  messages : List (ToEngineActor T)

/-- What the engine actor handles next (`on_actor_message`): the next message of a session,
or a call on the topic streams of its own, such as a subscription or a gossip message. -/
inductive EngineInput (T : Type) where
  | session (i : Nat)
  | streams (c : StreamsCall T)

/-- The next message of session `i`, after the `delivered i` the engine has read. -/
def nextMessage (sessions : List (Session T)) (delivered : Nat → Nat) (i : Nat) :
    Option (ToEngineActor T) :=
  sessions[i]?.bind fun session => session.messages[delivered i]?

section Held

variable [TopicId T]

/-- The messages up to a further one: the lock takes one more step. -/
theorem lockPhase_take_succ {messages : List (ToEngineActor T)} {d : Nat} {m : ToEngineActor T}
    (hm : messages[d]? = some m) :
    lockPhase (messages.take (d + 1)) = (lockPhase (messages.take d)).bind fun phase =>
      lockStep phase m := by
  simp [lockPhase, List.take_add_one, hm, List.foldlM_append]

/-- A session that pairs its lock pairs it on every prefix of its messages. -/
theorem lockPhase_take_ne_none {messages : List (ToEngineActor T)}
    (hpaired : lockPhase messages ≠ none) (d : Nat) : lockPhase (messages.take d) ≠ none := by
  intro hnone
  apply hpaired
  rw [← List.take_append_drop d messages]
  unfold lockPhase at hnone ⊢
  rw [List.foldlM_append, hnone]
  rfl

/-- One if session `i` holds a lock with `peer` on `topicId` after the messages of it the
engine has read. -/
def heldOf (sessions : List (Session T)) (delivered : Nat → Nat) (peer : PublicKey)
    (topicId : Bytes32) (i : Nat) : Nat :=
  match sessions[i]? with
  | none => 0
  | some session =>
    heldBy session.peer (lockPhase (session.messages.take (delivered i))) peer topicId

/-- The sessions with `peer` that hold a lock on `topicId`: those that have reported the
handshake to the engine and not yet their end. -/
def openSessions (sessions : List (Session T)) (delivered : Nat → Nat) (peer : PublicKey)
    (topicId : Bytes32) : Nat :=
  ∑ i ∈ Finset.range sessions.length, heldOf sessions delivered peer topicId i

/-- A sum in which one term changed, with the old term added, is the old sum with the new
term added. -/
theorem sum_add_eq_of_eq_off {s : Finset Nat} {f g : Nat → Nat} {i : Nat} (hi : i ∈ s)
    (h : ∀ j ≠ i, g j = f j) : ∑ j ∈ s, g j + f i = ∑ j ∈ s, f j + g i := by
  have hf := Finset.add_sum_erase s f hi
  have hg := Finset.add_sum_erase s g hi
  have hrest : ∑ j ∈ s.erase i, g j = ∑ j ∈ s.erase i, f j :=
    Finset.sum_congr rfl fun j hj => h j (Finset.ne_of_mem_erase hj)
  omega

/-- Reading one more message of session `i` moves its term of `openSessions` from the lock
it held to the lock it holds now. -/
theorem openSessions_deliver {sessions : List (Session T)} {i : Nat} {session : Session T}
    (hsession : sessions[i]? = some session) (delivered : Nat → Nat) (peer : PublicKey)
    (topicId : Bytes32) :
    openSessions sessions (Function.update delivered i (delivered i + 1)) peer topicId +
        heldOf sessions delivered peer topicId i =
      openSessions sessions delivered peer topicId +
        heldBy session.peer (lockPhase (session.messages.take (delivered i + 1))) peer topicId := by
  have hi : i ∈ Finset.range sessions.length :=
    Finset.mem_range.mpr (List.getElem?_eq_some_iff.mp hsession).1
  have hnew : heldOf sessions (Function.update delivered i (delivered i + 1)) peer topicId i =
      heldBy session.peer (lockPhase (session.messages.take (delivered i + 1))) peer topicId := by
    simp [heldOf, hsession]
  rw [← hnew]
  exact sum_add_eq_of_eq_off hi fun j hj => by simp [heldOf, Function.update_of_ne hj]

theorem heldOf_le_openSessions {sessions : List (Session T)} {i : Nat}
    (hi : i < sessions.length) (delivered : Nat → Nat) (peer : PublicKey) (topicId : Bytes32) :
    heldOf sessions delivered peer topicId i ≤ openSessions sessions delivered peer topicId :=
  Finset.single_le_sum (fun _ _ => Nat.zero_le _) (Finset.mem_range.mpr hi)

/-- Every counter of the gossip buffer is the number of sessions that hold a lock on it. -/
def CountsOpen (sessions : List (Session T)) (st : TopicStreams T × (Nat → Nat)) : Prop :=
  ∀ peer topicId, st.1.gossipBuffer.count peer topicId = openSessions sessions st.2 peer topicId

theorem countsOpen_new (sessions : List (Session T)) :
    CountsOpen sessions (.new, fun _ => 0) := by
  intro peer topicId
  -- no session has sent anything yet, so none holds a lock
  have hzero : ∀ i, heldOf sessions (fun _ => 0) peer topicId i = 0 := by
    intro i
    unfold heldOf
    split <;> simp [heldBy, lockPhase]
  simp [openSessions, hzero, TopicStreams.new, GossipBuffer.count, GossipBuffer.default]

variable {sessions : List (Session T)} {s s' : TopicStreams T} {delivered : Nat → Nat}

/-- Reading a message of a session that pairs its lock keeps every counter at the number of
sessions that hold a lock on it: the message moves its session's lock as it moves the
counter (`countEffect_lockStep`). -/
theorem CountsOpen.deliver (hpaired : ∀ session ∈ sessions, WellPaired session.peer session.messages)
    {i : Nat} {m : ToEngineActor T} (hm : nextMessage sessions delivered i = some m)
    (hcounts : CountsOpen sessions (s, delivered))
    (hcount : ∀ peer topicId, s'.gossipBuffer.count peer topicId =
      m.countEffect (peer, topicId) (s.gossipBuffer.count peer topicId)) :
    CountsOpen sessions (s', Function.update delivered i (delivered i + 1)) := by
  intro peer topicId
  obtain ⟨session, hsession, hmsg⟩ := Option.bind_eq_some_iff.mp hm
  have hi : i < sessions.length := (List.getElem?_eq_some_iff.mp hsession).1
  obtain ⟨hpeers, hlock⟩ := hpaired session (List.mem_of_getElem? hsession)
  have hpeer : m.peer = session.peer := hpeers m (List.mem_of_getElem? hmsg)
  -- the lock of the session before and after the message
  obtain ⟨phase, hphase⟩ := Option.ne_none_iff_exists'.mp
    (lockPhase_take_ne_none hlock (delivered i))
  have hnext := lockPhase_take_ne_none hlock (delivered i + 1)
  rw [lockPhase_take_succ hmsg, hphase, Option.bind_some] at hnext
  obtain ⟨phase', hphase'⟩ := Option.ne_none_iff_exists'.mp hnext
  have hold : heldOf sessions delivered peer topicId i = heldBy m.peer (some phase) peer topicId := by
    simp [heldOf, hsession, hphase, hpeer]
  have hnew : lockPhase (session.messages.take (delivered i + 1)) = some phase' := by
    rw [lockPhase_take_succ hmsg, hphase, Option.bind_some, hphase']
  have hsum := openSessions_deliver hsession delivered peer topicId
  rw [hnew, hold, ← hpeer] at hsum
  have hbefore : s.gossipBuffer.count peer topicId = openSessions sessions delivered peer topicId :=
    hcounts peer topicId
  have hle := heldOf_le_openSessions hi delivered peer topicId
  rw [hold, ← hbefore] at hle
  have heffect := countEffect_lockStep hphase' peer topicId hle
  show s'.gossipBuffer.count peer topicId =
    openSessions sessions (Function.update delivered i (delivered i + 1)) peer topicId
  rw [hcount peer topicId]
  omega

end Held

section Engine

variable [TopicId T] [DecidableEq T]

/-- One input of the engine actor. A session with nothing more to send leaves the engine
waiting; an error ends the actor. -/
def engineStep (sessions : List (Session T)) :
    TopicStreams T × (Nat → Nat) → EngineInput T → Except String (TopicStreams T × (Nat → Nat))
  | (s, delivered), .session i =>
    match nextMessage sessions delivered i with
    | none => .ok (s, delivered)
    | some m =>
      let delivered' := Function.update delivered i (delivered i + 1)
      match m.streamsCall with
      | none => .ok (s, delivered')
      | some c => (s.call c).map fun s' => (s', delivered')
  | (s, delivered), .streams c => (s.call c).map fun s' => (s', delivered)

/-- The engine actor from its start, over the inputs in the order it handles them. -/
def engineRun (sessions : List (Session T)) (inputs : List (EngineInput T)) :
    Except String (TopicStreams T × (Nat → Nat)) :=
  inputs.foldlM (engineStep sessions) (.new, fun _ => 0)

variable {sessions : List (Session T)} {s s' : TopicStreams T} {delivered delivered' : Nat → Nat}

/-- What a session's input can do: nothing, when the session has nothing more to send, or
read its next message, and change the counters as that message says. -/
theorem engineStep_session {i : Nat}
    (hstep : engineStep sessions (s, delivered) (.session i) = .ok (s', delivered')) :
    (nextMessage sessions delivered i = none ∧ s' = s ∧ delivered' = delivered) ∨
      ∃ m, nextMessage sessions delivered i = some m ∧
        delivered' = Function.update delivered i (delivered i + 1) ∧
        ∀ peer topicId, s'.gossipBuffer.count peer topicId =
          m.countEffect (peer, topicId) (s.gossipBuffer.count peer topicId) := by
  simp only [engineStep] at hstep
  split at hstep
  · next hnone =>
    cases hstep
    exact .inl ⟨hnone, rfl, rfl⟩
  · next m hm =>
    refine .inr ⟨m, hm, ?_⟩
    split at hstep
    · next hc =>
      cases hstep
      exact ⟨rfl, fun _ _ => by simp [ToEngineActor.countEffect, hc]⟩
    · next c hc =>
      cases hcall : s.call c with
      | error e =>
        rw [hcall] at hstep
        cases hstep
      | ok s₁ =>
        rw [hcall] at hstep
        cases hstep
        refine ⟨rfl, fun peer topicId => ?_⟩
        simp only [ToEngineActor.countEffect, hc]
        exact TopicStreams.count_call hcall peer topicId

/-- A call of the engine's own that no sync session causes leaves the counters as they
are. -/
theorem engineStep_streams {c : StreamsCall T} (hc : c.isSync = false)
    (hstep : engineStep sessions (s, delivered) (.streams c) = .ok (s', delivered')) :
    delivered' = delivered ∧
      ∀ peer topicId, s'.gossipBuffer.count peer topicId = s.gossipBuffer.count peer topicId := by
  simp only [engineStep] at hstep
  cases hcall : s.call c with
  | error e =>
    rw [hcall] at hstep
    cases hstep
  | ok s₁ =>
    rw [hcall] at hstep
    cases hstep
    refine ⟨rfl, fun peer topicId => ?_⟩
    rw [TopicStreams.count_call hcall, countEffect_of_not_isSync hc]

/-- One input keeps every counter at the number of sessions that hold a lock on it. -/
theorem CountsOpen.engineStep
    (hpaired : ∀ session ∈ sessions, WellPaired session.peer session.messages)
    {input : EngineInput T} (hlocal : ∀ c, input = .streams c → c.isSync = false)
    (hcounts : CountsOpen sessions (s, delivered))
    (hstep : engineStep sessions (s, delivered) input = .ok (s', delivered')) :
    CountsOpen sessions (s', delivered') := by
  cases input with
  | session i =>
    rcases engineStep_session hstep with ⟨-, rfl, rfl⟩ | ⟨m, hm, rfl, hcount⟩
    · exact hcounts
    · exact hcounts.deliver hpaired hm hcount
  | streams c =>
    obtain ⟨rfl, hcount⟩ := engineStep_streams (hlocal c rfl) hstep
    intro peer topicId
    rw [hcount peer topicId]
    exact hcounts peer topicId

end Engine

/-- For sessions that all pair their locks, read by the engine in any interleaving with its
own calls, every counter of the gossip buffer is the number of sessions with that peer, on a
topic of that id, that have reported the handshake and not yet their end. The induction is
on the engine's inputs, with `CountsOpen` as the invariant. -/
theorem engineRun_counts [TopicId T] [DecidableEq T] (sessions : List (Session T))
    (hpaired : ∀ session ∈ sessions, WellPaired session.peer session.messages)
    (inputs : List (EngineInput T)) (hlocal : ∀ c, .streams c ∈ inputs → c.isSync = false)
    {s : TopicStreams T} {delivered : Nat → Nat}
    (hrun : engineRun sessions inputs = .ok (s, delivered)) (peer : PublicKey)
    (topicId : Bytes32) :
    s.gossipBuffer.count peer topicId = openSessions sessions delivered peer topicId :=
  foldlM_invariant (engineStep sessions) (CountsOpen sessions) inputs
    (fun _ _ _ hinput hcounts hstep =>
      hcounts.engineStep hpaired (fun c hc => hlocal c (hc ▸ hinput)) hstep)
    inputs _ _ (fun _ h => h) (countsOpen_new sessions) hrun peer topicId

/-- An accepted session on the primary topic that reports its handshake and is then done. -/
def acceptedSession : Session TestTopic :=
  ⟨testPeer, acceptorMessages testPeer ⟨[.handshakeSuccess .primary], .ok (), none⟩⟩

/-- The engine subscribes, then reads the start and the handshake of the accepted session. -/
def acceptedInputs : List (EngineInput TestTopic) :=
  [.streams (.subscribe .primary), .session 0, .session 0]

theorem engineRun_counts_accepted :
    ∃ s delivered, engineRun [acceptedSession] acceptedInputs = .ok (s, delivered) ∧
      s.gossipBuffer.count testPeer (TopicId.id TestTopic.primary) =
        openSessions [acceptedSession] delivered testPeer (TopicId.id TestTopic.primary) ∧
      openSessions [acceptedSession] delivered testPeer (TopicId.id TestTopic.primary) = 1 :=
  ⟨_, _, rfl,
    engineRun_counts [acceptedSession] (by decide) acceptedInputs
      (by simp [acceptedInputs, StreamsCall.isSync]) rfl testPeer _,
    by decide⟩

/-- An attempt of the sync manager with the same peer on the same topic whose connection
fails. -/
def failedAttempt : Session TestTopic :=
  ⟨testPeer, initiatorMessages testPeer .primary ⟨false, [], .ok (), true⟩⟩

/-- The `SyncFailed` that `complete_failed_sync` sends for the failed attempt gives back the
lock of the accepted session, which is still open: the counter falls to zero while one
session holds a lock on it, and the gossip buffer lets through what it should hold back. -/
theorem engineRun_foreign_release :
    ∃ s delivered,
      engineRun [acceptedSession, failedAttempt] (acceptedInputs ++ [.session 1]) =
        .ok (s, delivered) ∧
      openSessions [acceptedSession, failedAttempt] delivered testPeer
        (TopicId.id TestTopic.primary) = 1 ∧
      s.gossipBuffer.count testPeer (TopicId.id TestTopic.primary) = 0 :=
  ⟨_, _, rfl, by decide, by decide⟩

/-! ## A topic the remote chooses

An accepted session learns its topic from the remote's `Have`, and the acceptor only asks its
topic map for it, which knows nothing of the topics the node subscribed to. The data of such a
session reaches `on_sync_message` for a topic without streams, whose `expect` panics. -/

section Unsubscribed

variable [TopicId T] [DecidableEq T] {sessions : List (Session T)} {topic : T}

/-- No engine input but a subscription to `topic` changes the streams listed under it: the
call a session's message makes is never a subscription. -/
theorem engineStep_topicToStream {st st' : TopicStreams T × (Nat → Nat)} {input : EngineInput T}
    (hinput : ∀ t, input = .streams (.subscribe t) → t ≠ topic)
    (hstep : engineStep sessions st input = .ok st') :
    st'.1.topicToStream topic = st.1.topicToStream topic := by
  obtain ⟨s, delivered⟩ := st
  cases input with
  | session i =>
    simp only [engineStep] at hstep
    split at hstep
    · cases hstep
      rfl
    · next m _ =>
      split at hstep
      · cases hstep
        rfl
      · next c hc =>
        have hnot : ∀ t, c = .subscribe t → t ≠ topic := by
          intro t hct
          subst hct
          cases m <;> simp [ToEngineActor.streamsCall] at hc
        cases hcall : s.call c with
        | error e =>
          rw [hcall] at hstep
          cases hstep
        | ok s₁ =>
          rw [hcall] at hstep
          cases hstep
          exact TopicStreams.topicToStream_call hnot hcall
  | streams c =>
    simp only [engineStep] at hstep
    cases hcall : s.call c with
    | error e =>
      rw [hcall] at hstep
      cases hstep
    | ok s₁ =>
      rw [hcall] at hstep
      cases hstep
      exact TopicStreams.topicToStream_call (fun t hct => hinput t (hct ▸ rfl)) hcall

/-- An engine that never subscribes to `topic` lists no streams under it. The induction is
on the inputs. -/
theorem engineRun_topicToStream (inputs : List (EngineInput T))
    (hnosub : ∀ t, .streams (.subscribe t) ∈ inputs → t ≠ topic) {s : TopicStreams T}
    {delivered : Nat → Nat} (hrun : engineRun sessions inputs = .ok (s, delivered)) :
    s.topicToStream topic = none :=
  foldlM_invariant (engineStep sessions) (fun st => st.1.topicToStream topic = none) inputs
    (fun _ _ _ hinput hnone hstep =>
      (engineStep_topicToStream (fun t ht => hnosub t (ht ▸ hinput)) hstep).trans hnone)
    inputs _ _ (fun _ h => h) rfl hrun

/-- So the engine panics at the first session message for a topic it never subscribed to. -/
theorem engineRun_syncMessage_unsubscribed (inputs : List (EngineInput T))
    (hnosub : ∀ t, .streams (.subscribe t) ∈ inputs → t ≠ topic) {s : TopicStreams T}
    {delivered : Nat → Nat} (hrun : engineRun sessions inputs = .ok (s, delivered)) {i : Nat}
    {header : List UInt8} {payload : Option (List UInt8)} {peer : PublicKey}
    (hnext : nextMessage sessions delivered i = some (.syncMessage topic header payload peer)) :
    engineRun sessions (inputs ++ [.session i]) = .error "consistent topic to stream id mapping" := by
  have hnone := engineRun_topicToStream inputs hnosub hrun
  unfold engineRun at hrun ⊢
  rw [List.foldlM_append, hrun, Except.ok_bind]
  simp only [List.foldlM_cons, List.foldlM_nil, engineStep, hnext, ToEngineActor.streamsCall,
    TopicStreams.call, TopicStreams.onSyncMessage, hnone]
  rfl

end Unsubscribed

/-- Topics that are numbers, all on the overlay `[0; 32]`. -/
instance : TopicId Nat := ⟨fun _ => ⟨List.replicate 32 0, Bytes32.length_zeros⟩⟩

/-- A remote that holds the first operation of the sample log syncs topic `0` with a node
whose log-sync protocol serves every topic from an empty store, and whose engine subscribed
to topic `1` only. The session ends with `Ok` on the accepting side, its application handed
the topic and the operation; the engine reads the session's start, handshake and data, and
panics at the data. -/
theorem engineRun_remote_topic_panics :
    ∃ d, Duplex.Session.Reachable ((samplePeer genesisStore).initiate 0) (samplePeer .new).accept d ∧
      Duplex.Session.Stuck ((samplePeer genesisStore).initiate 0) (samplePeer .new).accept d ∧
      d.right = .stopped (.ok ()) ∧
      engineRun [⟨testPeer, acceptorMessages testPeer ⟨d.rightOut, .ok (), none⟩⟩]
          [.streams (.subscribe 1), .session 0, .session 0, .session 0] =
        .error "consistent topic to stream id mapping" := by
  obtain ⟨-, ⟨d, hreach, hstuck⟩, hend⟩ := log_sync_agreement (samplePeer genesisStore)
    (samplePeer .new) 0 rfl rfl
    (show _ = Except.ok [(sampleGenesis.publicKey, [(0, 0)])] by decide +kernel)
    (show _ = Except.ok [(sampleGenesis.publicKey, [])] by decide +kernel)
    (show _ = Except.ok ([] : List (Message Nat Nat)) by decide +kernel)
    (show _ = Except.ok [Message.data (sampleGenesis.toBytes cborPrimitives) none] by
      decide +kernel)
  obtain ⟨-, hright, -, hout⟩ := hend d hreach hstuck
  refine ⟨d, hreach, hstuck, hright, ?_⟩
  rw [hout]
  -- the subscription, the session's start and its handshake run; its data comes next
  exact engineRun_syncMessage_unsubscribed [.streams (.subscribe 1), .session 0, .session 0]
    (by simp) rfl rfl

end P2panda.Net
