import Mathlib.Data.List.Nodup
import Mathlib.Logic.Function.Basic
import P2panda.Core.Identity
import P2panda.Lib.Run

/- The engine's topic streams (`p2panda-net/src/engine/topic_streams.rs`) and the gossip
   buffer they hold (`engine/gossip_buffer.rs`), as far as they route gossip and sync
   messages to the subscribed streams.

   A `HashMap` is a function into `Option` and a `HashSet` a function into `Bool`. A
   stream's channel is its id, and what went into the channels is the log `sent`; no
   channel closes, so no send fails. Joining overlays (`join_gossip`, the broadcast task)
   and the gossip-ready signals are not modelled, so `gossip_pending` is its set of keys.
   An `expect` that fails panics, modelled as `.error` with its text.

   Every state a run of calls reaches is `Wired`: each stream listed under a topic id is
   listed once and subscribed under a topic of that id, a joined or pending topic id has
   streams, and a gossip buffer exists exactly while its counter is above zero
   (`Wired.call`). So the only panic a run can reach is `on_sync_message` for a topic that
   was never subscribed (`streamsRun_wired`). -/

namespace P2panda.Net

/-- A `[u8; 32]`, as topic ids are. -/
structure Bytes32 where
  bytes : List UInt8
  length_eq : bytes.length = 32

theorem Bytes32.bytes_injective : Function.Injective Bytes32.bytes := by
  rintro ⟨a, ha⟩ ⟨b, hb⟩ h
  cases h
  rfl

instance : DecidableEq Bytes32 := fun a b => decidable_of_iff _ Bytes32.bytes_injective.eq_iff

/-- `[0; 32]`. -/
theorem Bytes32.length_zeros : (List.replicate 32 (0 : UInt8)).length = 32 := rfl

/-- `TopicId`: the id of the gossip overlay of a topic. -/
class TopicId (T : Type) where
  id : T → Bytes32

/-- `FromNetwork`, what a stream's channel carries to the application. -/
inductive FromNetwork where
  | gossipMessage (bytes : List UInt8) (deliveredFrom : PublicKey)
  | syncMessage (header : List UInt8) (payload : Option (List UInt8)) (deliveredFrom : PublicKey)
  deriving DecidableEq

/-- `GossipBuffer`: per peer and topic id, the gossip messages held back while sync
sessions with the peer run, and how many of them run. -/
structure GossipBuffer where
  buffers : PublicKey × Bytes32 → Option (List (List UInt8))
  counters : PublicKey × Bytes32 → Option Nat

namespace GossipBuffer

def default : GossipBuffer := ⟨fun _ => none, fun _ => none⟩

/-- Count one more session, and open the buffer if there is none. -/
def lock (b : GossipBuffer) (peer : PublicKey) (topicId : Bytes32) : GossipBuffer where
  counters := Function.update b.counters (peer, topicId)
    (some ((b.counters (peer, topicId)).getD 0 + 1))
  buffers := Function.update b.buffers (peer, topicId)
    (some ((b.buffers (peer, topicId)).getD []))

/-- Count one session less, only if the counter exists and is above zero, and return the
new count. -/
def unlock (b : GossipBuffer) (peer : PublicKey) (topicId : Bytes32) :
    GossipBuffer × Option Nat :=
  match b.counters (peer, topicId) with
  | some counter =>
    if counter > 0 then
      ({ b with counters := Function.update b.counters (peer, topicId) (some (counter - 1)) },
        some (counter - 1))
    else (b, none)
  | none => (b, none)

def drain (b : GossipBuffer) (peer : PublicKey) (topicId : Bytes32) :
    Option (List (List UInt8)) × GossipBuffer :=
  (b.buffers (peer, topicId), { b with buffers := Function.update b.buffers (peer, topicId) none })

def buffer (b : GossipBuffer) (peer : PublicKey) (topicId : Bytes32) :
    Option (List (List UInt8)) :=
  b.buffers (peer, topicId)

/-- `buffer.push(bytes)` on the buffer that `buffer` returns. -/
def push (b : GossipBuffer) (peer : PublicKey) (topicId : Bytes32) (bytes : List UInt8) :
    GossipBuffer :=
  { b with
    buffers := Function.update b.buffers (peer, topicId)
      ((b.buffers (peer, topicId)).map (· ++ [bytes])) }

/-- The counter, zero where there is none. -/
def count (b : GossipBuffer) (peer : PublicKey) (topicId : Bytes32) : Nat :=
  (b.counters (peer, topicId)).getD 0

@[simp] theorem lock_counters (b : GossipBuffer) (peer : PublicKey) (topicId : Bytes32) :
    (b.lock peer topicId).counters = Function.update b.counters (peer, topicId)
      (some (b.count peer topicId + 1)) := rfl

/-- `unlock` by the count: nothing at zero, one less above. -/
theorem unlock_eq (b : GossipBuffer) (peer : PublicKey) (topicId : Bytes32) :
    b.unlock peer topicId =
      if 0 < b.count peer topicId then
        ({ b with
            counters := Function.update b.counters (peer, topicId)
              (some (b.count peer topicId - 1)) }, some (b.count peer topicId - 1))
      else (b, none) := by
  unfold unlock count
  cases b.counters (peer, topicId) <;> simp

/-- A buffer exists exactly while its counter is above zero. -/
def Locked (b : GossipBuffer) : Prop :=
  ∀ k : PublicKey × Bytes32, b.buffers k ≠ none ↔ 0 < (b.counters k).getD 0

theorem locked_default : default.Locked := fun _ => by simp [default]

/-- While sessions are counted, there is a buffer. -/
theorem Locked.buffer_of_count_pos {b : GossipBuffer} (h : b.Locked) {peer : PublicKey}
    {topicId : Bytes32} (hpos : 0 < b.count peer topicId) :
    ∃ buffer, b.buffers (peer, topicId) = some buffer :=
  Option.ne_none_iff_exists'.mp ((h (peer, topicId)).mpr hpos)

theorem Locked.lock {b : GossipBuffer} (h : b.Locked) (peer : PublicKey) (topicId : Bytes32) :
    (b.lock peer topicId).Locked := by
  intro k
  by_cases hk : k = (peer, topicId)
  · subst hk
    simp [GossipBuffer.lock]
  · simp only [GossipBuffer.lock, Function.update_of_ne hk]
    exact h k

theorem Locked.push {b : GossipBuffer} (h : b.Locked) (peer : PublicKey) (topicId : Bytes32)
    (bytes : List UInt8) : (b.push peer topicId bytes).Locked := by
  intro k
  by_cases hk : k = (peer, topicId)
  · subst hk
    simpa [GossipBuffer.push] using h (peer, topicId)
  · simp only [GossipBuffer.push, Function.update_of_ne hk]
    exact h k

end GossipBuffer

/-- `TopicStreams`: the subscribed streams, the maps from topics and topic ids to them,
the gossip overlays joined and still to join, the gossip buffer, and what was sent into
each stream's channel. -/
structure TopicStreams (T : Type) where
  gossipBuffer : GossipBuffer
  gossipJoined : Bytes32 → Bool
  gossipPending : Bytes32 → Bool
  nextStreamId : Nat
  subscribed : Nat → Option T
  topicIdToStream : Bytes32 → Option (List Nat)
  topicToStream : T → Option (List Nat)
  sent : List (Nat × FromNetwork)

namespace TopicStreams

variable {T : Type}

def new : TopicStreams T :=
  ⟨.default, fun _ => false, fun _ => false, 1, fun _ => none, fun _ => none, fun _ => none, []⟩

/-- Every joined topic id is to be joined again. -/
def moveJoinedToPending (s : TopicStreams T) : TopicStreams T :=
  { s with
    gossipJoined := fun _ => false
    gossipPending := fun topicId => s.gossipPending topicId || s.gossipJoined topicId }

/-- A pending topic id is joined. -/
def onGossipJoined (s : TopicStreams T) (topicId : Bytes32) : TopicStreams T :=
  if s.gossipPending topicId then
    { s with
      gossipPending := Function.update s.gossipPending topicId false
      gossipJoined := Function.update s.gossipJoined topicId true }
  else s

@[simp] theorem onGossipJoined_gossipBuffer (s : TopicStreams T) (topicId : Bytes32) :
    (s.onGossipJoined topicId).gossipBuffer = s.gossipBuffer := by
  unfold onGossipJoined
  split <;> rfl

/-- The loop that sends `message` into the channel of each of `streamIds`. -/
def sendToStreams (s : TopicStreams T) (streamIds : List Nat) (message : FromNetwork) :
    Except String (TopicStreams T) :=
  streamIds.foldlM (fun s streamId =>
    match s.subscribed streamId with
    | none => .error "stream should exist"
    | some _ => .ok { s with sent := s.sent ++ [(streamId, message)] }) s

/-- A gossip message of a joined topic id is held back while a sync session with its
sender runs, and sent to every stream of the topic id otherwise. -/
def onGossipMessage (s : TopicStreams T) (topicId : Bytes32) (bytes : List UInt8)
    (deliveredFrom : PublicKey) : Except String (TopicStreams T) :=
  if !s.gossipJoined topicId then .ok s
  else
    match s.gossipBuffer.buffer deliveredFrom topicId with
    | some _ => .ok { s with gossipBuffer := s.gossipBuffer.push deliveredFrom topicId bytes }
    | none =>
      match s.topicIdToStream topicId with
      | none => .error "consistent topic id to stream id mapping"
      | some streamIds => s.sendToStreams streamIds (.gossipMessage bytes deliveredFrom)

section Topics

variable [TopicId T]

def onSyncHandshakeSuccess (s : TopicStreams T) (topic : T) (peer : PublicKey) :
    TopicStreams T :=
  { s with gossipBuffer := s.gossipBuffer.lock peer (TopicId.id topic) }

/-- A message of a sync session goes to every stream of its topic. -/
def onSyncMessage (s : TopicStreams T) (topic : T) (header : List UInt8)
    (payload : Option (List UInt8)) (deliveredFrom : PublicKey) : Except String (TopicStreams T) :=
  match s.topicToStream topic with
  | none => .error "consistent topic to stream id mapping"
  | some streamIds => s.sendToStreams streamIds (.syncMessage header payload deliveredFrom)

/-- What `on_sync_done` and `on_sync_failed` share: one session less with `peer` on
`topicId` and, when it was the last, the buffer drained and handed to `onDrained`. -/
def unlockBuffer (s : TopicStreams T) (peer : PublicKey) (topicId : Bytes32)
    (onDrained : TopicStreams T → List (List UInt8) → Except String (TopicStreams T)) :
    Except String (TopicStreams T) :=
  let (gossipBuffer, counter) := s.gossipBuffer.unlock peer topicId
  let s := { s with gossipBuffer }
  match counter with
  | some 0 =>
    let (buffer, gossipBuffer) := s.gossipBuffer.drain peer topicId
    match buffer with
    | none => .error "missing expected gossip buffer"
    | some buffer => onDrained { s with gossipBuffer } buffer
  | _ => .ok s

/-- After the last session, the held-back messages are replayed through
`on_gossip_message`. -/
def onSyncDone (s : TopicStreams T) (topic : T) (peer : PublicKey) :
    Except String (TopicStreams T) :=
  s.unlockBuffer peer (TopicId.id topic) fun s buffer =>
    buffer.foldlM (fun s bytes => s.onGossipMessage (TopicId.id topic) bytes peer) s

/-- After the last session, the held-back messages are dropped. -/
def onSyncFailed (s : TopicStreams T) (topic : Option T) (peer : PublicKey) :
    Except String (TopicStreams T) :=
  match topic with
  | none => .ok s
  | some topic => s.unlockBuffer peer (TopicId.id topic) fun s _ => .ok s

variable [DecidableEq T]

/-- A new stream for `topic`, under a fresh id, listed under the topic and its id; the
topic id is to be joined. -/
def subscribe (s : TopicStreams T) (topic : T) : TopicStreams T :=
  let streamId := s.nextStreamId
  { s with
    nextStreamId := streamId + 1
    subscribed := Function.update s.subscribed streamId (some topic)
    gossipPending := Function.update s.gossipPending (TopicId.id topic) true
    topicToStream := Function.update s.topicToStream topic
      (some ((s.topicToStream topic).getD [] ++ [streamId]))
    topicIdToStream := Function.update s.topicIdToStream (TopicId.id topic)
      (some ((s.topicIdToStream (TopicId.id topic)).getD [] ++ [streamId])) }

end Topics

end TopicStreams

/-- The calls on `TopicStreams` that route messages. -/
inductive StreamsCall (T : Type) where
  | subscribe (topic : T)
  | onGossipJoined (topicId : Bytes32)
  | moveJoinedToPending
  | onGossipMessage (topicId : Bytes32) (bytes : List UInt8) (deliveredFrom : PublicKey)
  | onSyncHandshakeSuccess (topic : T) (peer : PublicKey)
  | onSyncMessage (topic : T) (header : List UInt8) (payload : Option (List UInt8))
      (deliveredFrom : PublicKey)
  | onSyncDone (topic : T) (peer : PublicKey)
  | onSyncFailed (topic : Option T) (peer : PublicKey)

namespace TopicStreams

variable {T : Type} [DecidableEq T] [TopicId T]

def call (s : TopicStreams T) : StreamsCall T → Except String (TopicStreams T)
  | .subscribe topic => .ok (s.subscribe topic)
  | .onGossipJoined topicId => .ok (s.onGossipJoined topicId)
  | .moveJoinedToPending => .ok s.moveJoinedToPending
  | .onGossipMessage topicId bytes deliveredFrom => s.onGossipMessage topicId bytes deliveredFrom
  | .onSyncHandshakeSuccess topic peer => .ok (s.onSyncHandshakeSuccess topic peer)
  | .onSyncMessage topic header payload deliveredFrom =>
    s.onSyncMessage topic header payload deliveredFrom
  | .onSyncDone topic peer => s.onSyncDone topic peer
  | .onSyncFailed topic peer => s.onSyncFailed topic peer

end TopicStreams

/-- A run of calls, stopping at the first panic. -/
def streamsRun {T : Type} [DecidableEq T] [TopicId T] (s : TopicStreams T)
    (calls : List (StreamsCall T)) : Except String (TopicStreams T) :=
  calls.foldlM TopicStreams.call s

namespace TopicStreams

variable {T : Type}

/-! ## What each call does -/

/-- Sending into subscribed streams appends one message per stream. The induction is on
the streams. -/
theorem sendToStreams_eq (message : FromNetwork) :
    ∀ (streamIds : List Nat) (s : TopicStreams T), (∀ sid ∈ streamIds, s.subscribed sid ≠ none) →
      s.sendToStreams streamIds message =
        .ok { s with sent := s.sent ++ streamIds.map fun sid => (sid, message) }
  | [], s, _ => by simp [sendToStreams]
  | sid :: rest, s, hsub => by
    obtain ⟨topic, htopic⟩ := Option.ne_none_iff_exists'.mp (hsub sid List.mem_cons_self)
    have hrest := sendToStreams_eq message rest { s with sent := s.sent ++ [(sid, message)] }
      fun sid' h => hsub sid' (List.mem_cons_of_mem _ h)
    simp only [sendToStreams, List.foldlM_cons, htopic, Except.ok_bind] at hrest ⊢
    rw [hrest, List.map_cons, List.append_assoc, List.singleton_append]

/-- A send that succeeds appended one message per stream. The induction is on the
streams. -/
theorem sendToStreams_ok (message : FromNetwork) :
    ∀ (streamIds : List Nat) (s s' : TopicStreams T), s.sendToStreams streamIds message = .ok s' →
      s' = { s with sent := s.sent ++ streamIds.map fun sid => (sid, message) }
  | [], s, s', h => by
    simp only [sendToStreams, List.foldlM_nil, Except.pure_eq_ok, Except.ok.injEq] at h
    simp [← h]
  | sid :: rest, s, s', h => by
    cases htopic : s.subscribed sid with
    | none => simp [sendToStreams, htopic] at h
    | some topic =>
      simp only [sendToStreams, List.foldlM_cons, htopic, Except.ok_bind] at h
      rw [sendToStreams_ok message rest _ s' h]
      simp

theorem onGossipMessage_not_joined {s : TopicStreams T} {topicId : Bytes32}
    (hjoined : s.gossipJoined topicId = false) (bytes : List UInt8) (deliveredFrom : PublicKey) :
    s.onGossipMessage topicId bytes deliveredFrom = .ok s := by
  simp [onGossipMessage, hjoined]

theorem onGossipMessage_buffered {s : TopicStreams T} {topicId : Bytes32}
    {deliveredFrom : PublicKey} {buffer : List (List UInt8)} (hjoined : s.gossipJoined topicId = true)
    (hbuffer : s.gossipBuffer.buffers (deliveredFrom, topicId) = some buffer) (bytes : List UInt8) :
    s.onGossipMessage topicId bytes deliveredFrom =
      .ok { s with gossipBuffer := s.gossipBuffer.push deliveredFrom topicId bytes } := by
  simp [onGossipMessage, hjoined, GossipBuffer.buffer, hbuffer]

theorem onGossipMessage_forwarded {s : TopicStreams T} {topicId : Bytes32}
    {deliveredFrom : PublicKey} (hjoined : s.gossipJoined topicId = true)
    (hbuffer : s.gossipBuffer.buffers (deliveredFrom, topicId) = none) {ids : List Nat}
    (hids : s.topicIdToStream topicId = some ids) (bytes : List UInt8) :
    s.onGossipMessage topicId bytes deliveredFrom =
      s.sendToStreams ids (.gossipMessage bytes deliveredFrom) := by
  simp [onGossipMessage, hjoined, GossipBuffer.buffer, hbuffer, hids]

/-- What `on_gossip_message` can do: nothing for a topic id not joined, hold the message
back where a buffer exists, or send it into every stream of the topic id. -/
theorem onGossipMessage_cases {s s' : TopicStreams T} {topicId : Bytes32} {bytes : List UInt8}
    {deliveredFrom : PublicKey} (h : s.onGossipMessage topicId bytes deliveredFrom = .ok s') :
    (s.gossipJoined topicId = false ∧ s' = s) ∨
    (s.gossipJoined topicId = true ∧
      (∃ buffer, s.gossipBuffer.buffers (deliveredFrom, topicId) = some buffer) ∧
      s' = { s with gossipBuffer := s.gossipBuffer.push deliveredFrom topicId bytes }) ∨
    (s.gossipJoined topicId = true ∧ s.gossipBuffer.buffers (deliveredFrom, topicId) = none ∧
      ∃ ids, s.topicIdToStream topicId = some ids ∧
        s' = { s with sent := s.sent ++ ids.map fun sid => (sid, .gossipMessage bytes deliveredFrom) }) := by
  cases hjoined : s.gossipJoined topicId with
  | false =>
    rw [onGossipMessage_not_joined hjoined, Except.ok.injEq] at h
    exact .inl ⟨rfl, h.symm⟩
  | true =>
    cases hbuffer : s.gossipBuffer.buffers (deliveredFrom, topicId) with
    | some buffer =>
      rw [onGossipMessage_buffered hjoined hbuffer, Except.ok.injEq] at h
      exact .inr (.inl ⟨rfl, ⟨buffer, rfl⟩, h.symm⟩)
    | none =>
      cases hids : s.topicIdToStream topicId with
      | none => simp [onGossipMessage, hjoined, GossipBuffer.buffer, hbuffer, hids] at h
      | some ids =>
        rw [onGossipMessage_forwarded hjoined hbuffer hids] at h
        exact .inr (.inr ⟨rfl, rfl, ids, rfl, sendToStreams_ok _ ids s s' h⟩)

/-- `unlockBuffer` with no session counted changes nothing. -/
theorem unlockBuffer_of_count_eq_zero {s : TopicStreams T} {peer : PublicKey} {topicId : Bytes32}
    (h : s.gossipBuffer.count peer topicId = 0)
    (onDrained : TopicStreams T → List (List UInt8) → Except String (TopicStreams T)) :
    s.unlockBuffer peer topicId onDrained = .ok s := by
  simp [unlockBuffer, GossipBuffer.unlock_eq, h]

/-- `unlockBuffer` with more than one session counted counts one less. -/
theorem unlockBuffer_of_one_lt_count {s : TopicStreams T} {peer : PublicKey} {topicId : Bytes32}
    (h : 1 < s.gossipBuffer.count peer topicId)
    (onDrained : TopicStreams T → List (List UInt8) → Except String (TopicStreams T)) :
    s.unlockBuffer peer topicId onDrained =
      .ok { s with gossipBuffer := { s.gossipBuffer with
        counters := Function.update s.gossipBuffer.counters (peer, topicId)
          (some (s.gossipBuffer.count peer topicId - 1)) } } := by
  have hpos : 0 < s.gossipBuffer.count peer topicId := by omega
  have hne : s.gossipBuffer.count peer topicId - 1 ≠ 0 := by omega
  simp only [unlockBuffer, GossipBuffer.unlock_eq, hpos, if_true]
  split
  · next heq => exact absurd (Option.some.inj heq) hne
  · rfl

/-- `unlockBuffer` at the last session drains the buffer and hands it on. -/
theorem unlockBuffer_of_count_eq_one {s : TopicStreams T} {peer : PublicKey} {topicId : Bytes32}
    (h : s.gossipBuffer.count peer topicId = 1) {buffer : List (List UInt8)}
    (hbuffer : s.gossipBuffer.buffers (peer, topicId) = some buffer)
    (onDrained : TopicStreams T → List (List UInt8) → Except String (TopicStreams T)) :
    s.unlockBuffer peer topicId onDrained =
      onDrained { s with gossipBuffer :=
        ⟨Function.update s.gossipBuffer.buffers (peer, topicId) none,
          Function.update s.gossipBuffer.counters (peer, topicId) (some 0)⟩ } buffer := by
  simp [unlockBuffer, GossipBuffer.unlock_eq, h, GossipBuffer.drain, hbuffer]

/-- `unlockBuffer` at the last session with no buffer panics. -/
theorem unlockBuffer_of_missing {s : TopicStreams T} {peer : PublicKey} {topicId : Bytes32}
    (h : s.gossipBuffer.count peer topicId = 1)
    (hbuffer : s.gossipBuffer.buffers (peer, topicId) = none)
    (onDrained : TopicStreams T → List (List UInt8) → Except String (TopicStreams T)) :
    s.unlockBuffer peer topicId onDrained = .error "missing expected gossip buffer" := by
  simp [unlockBuffer, GossipBuffer.unlock_eq, h, GossipBuffer.drain, hbuffer]

/-! ## The maps agree -/

section Wired

variable [TopicId T]

/-- The maps of a state agree: each stream listed under a topic id or a topic is listed
once, has an id already given out, and is subscribed under that topic (id); a joined or
pending topic id has streams. -/
structure Maps (s : TopicStreams T) : Prop where
  streams : ∀ topicId ids, s.topicIdToStream topicId = some ids → ids.Nodup ∧
    ∀ sid ∈ ids, sid < s.nextStreamId ∧
      ∃ topic, s.subscribed sid = some topic ∧ TopicId.id topic = topicId
  topics : ∀ topic ids, s.topicToStream topic = some ids → ids.Nodup ∧
    ∀ sid ∈ ids, sid < s.nextStreamId ∧ s.subscribed sid = some topic
  mapped : ∀ topicId, s.gossipJoined topicId = true ∨ s.gossipPending topicId = true →
    s.topicIdToStream topicId ≠ none

/-- A state whose maps agree and whose gossip buffer exists exactly while it is locked. -/
structure Wired (s : TopicStreams T) : Prop where
  maps : s.Maps
  locked : s.gossipBuffer.Locked

theorem wired_new : (new : TopicStreams T).Wired where
  maps := ⟨fun _ _ h => (nomatch h), fun _ _ h => (nomatch h), fun _ h => by simp [new] at h⟩
  locked := GossipBuffer.locked_default

/-- The maps do not read the gossip buffer or the channels. -/
theorem Maps.congr {s s' : TopicStreams T} (h : s.Maps) (hjoined : s'.gossipJoined = s.gossipJoined)
    (hpending : s'.gossipPending = s.gossipPending) (hnext : s'.nextStreamId = s.nextStreamId)
    (hsub : s'.subscribed = s.subscribed) (hids : s'.topicIdToStream = s.topicIdToStream)
    (htopics : s'.topicToStream = s.topicToStream) : s'.Maps := by
  obtain ⟨hstreams, htopics', hmapped⟩ := h
  refine ⟨?_, ?_, ?_⟩ <;> simp only [hjoined, hpending, hnext, hsub, hids, htopics]
  exacts [hstreams, htopics', hmapped]

theorem Maps.moveJoinedToPending {s : TopicStreams T} (h : s.Maps) :
    s.moveJoinedToPending.Maps where
  streams := h.streams
  topics := h.topics
  mapped := by
    intro topicId hjp
    simp only [TopicStreams.moveJoinedToPending, Bool.false_eq_true, false_or,
      Bool.or_eq_true] at hjp
    exact h.mapped topicId hjp.symm

theorem Maps.onGossipJoined {s : TopicStreams T} (h : s.Maps) (topicId : Bytes32) :
    (s.onGossipJoined topicId).Maps := by
  unfold TopicStreams.onGossipJoined
  split
  · next hpending =>
    refine ⟨h.streams, h.topics, fun topicId' hjp => ?_⟩
    by_cases heq : topicId' = topicId
    · subst heq
      exact h.mapped topicId' (.inr hpending)
    · simp only [Function.update_of_ne heq] at hjp
      exact h.mapped topicId' hjp
  · exact h

/-- Every stream listed under a joined topic id is subscribed. -/
theorem Maps.subscribed_of_mem {s : TopicStreams T} (h : s.Maps) {topicId : Bytes32}
    {ids : List Nat} (hids : s.topicIdToStream topicId = some ids) :
    ∀ sid ∈ ids, s.subscribed sid ≠ none := fun sid hsid => by
  obtain ⟨topic, htopic, -⟩ := ((h.streams topicId ids hids).2 sid hsid).2
  simp [htopic]

/-- `on_gossip_message` on a wired state does not panic, and leaves it wired. -/
theorem Wired.onGossipMessage {s : TopicStreams T} (h : s.Wired) (topicId : Bytes32)
    (bytes : List UInt8) (deliveredFrom : PublicKey) :
    ∃ s', s.onGossipMessage topicId bytes deliveredFrom = .ok s' ∧ s'.Wired := by
  cases hjoined : s.gossipJoined topicId with
  | false => exact ⟨s, onGossipMessage_not_joined hjoined bytes deliveredFrom, h⟩
  | true =>
    cases hbuffer : s.gossipBuffer.buffers (deliveredFrom, topicId) with
    | some buffer =>
      refine ⟨_, onGossipMessage_buffered hjoined hbuffer bytes, ?_⟩
      exact ⟨h.maps.congr rfl rfl rfl rfl rfl rfl, h.locked.push deliveredFrom topicId bytes⟩
    | none =>
      obtain ⟨ids, hids⟩ := Option.ne_none_iff_exists'.mp (h.maps.mapped topicId (.inl hjoined))
      rw [onGossipMessage_forwarded hjoined hbuffer hids, sendToStreams_eq _ ids s
        (h.maps.subscribed_of_mem hids)]
      exact ⟨_, rfl, h.maps.congr rfl rfl rfl rfl rfl rfl, h.locked⟩

/-- A run of `on_gossip_message` calls on a wired state does not panic. -/
theorem Wired.replay {s : TopicStreams T} (h : s.Wired) (topicId : Bytes32)
    (buffer : List (List UInt8)) (peer : PublicKey) :
    ∃ s', buffer.foldlM (fun s bytes => s.onGossipMessage topicId bytes peer) s = .ok s' ∧
      s'.Wired :=
  foldlM_ok_of_step _ Wired (fun _ bytes hs => hs.onGossipMessage topicId bytes peer) buffer s h

/-- `unlockBuffer` on a wired state does not panic, and leaves it wired when what it hands
the drained buffer to keeps states wired. -/
theorem Wired.unlockBuffer {s : TopicStreams T} (h : s.Wired) (peer : PublicKey)
    (topicId : Bytes32)
    (onDrained : TopicStreams T → List (List UInt8) → Except String (TopicStreams T))
    (hdrained : ∀ s buffer, s.Wired → ∃ s', onDrained s buffer = .ok s' ∧ s'.Wired) :
    ∃ s', s.unlockBuffer peer topicId onDrained = .ok s' ∧ s'.Wired := by
  have hlocked := h.locked (peer, topicId)
  rcases Nat.lt_trichotomy (s.gossipBuffer.count peer topicId) 1 with hlt | heq | hgt
  · exact ⟨s, unlockBuffer_of_count_eq_zero (by omega) onDrained, h⟩
  · -- the last session: the buffer exists, and is drained
    have hpos : 0 < s.gossipBuffer.count peer topicId := by omega
    obtain ⟨buffer, hbuffer⟩ := h.locked.buffer_of_count_pos hpos
    rw [unlockBuffer_of_count_eq_one heq hbuffer]
    refine hdrained _ buffer ⟨h.maps.congr rfl rfl rfl rfl rfl rfl, fun k => ?_⟩
    by_cases hk : k = (peer, topicId)
    · subst hk
      simp
    · simp only [Function.update_of_ne hk]
      exact h.locked k
  · refine ⟨_, unlockBuffer_of_one_lt_count hgt onDrained,
      h.maps.congr rfl rfl rfl rfl rfl rfl, fun k => ?_⟩
    by_cases hk : k = (peer, topicId)
    · subst hk
      have hpos : 0 < (s.gossipBuffer.counters (peer, topicId)).getD 0 := by
        unfold GossipBuffer.count at hgt
        omega
      simp only [Function.update_self, Option.getD_some]
      exact ⟨fun _ => by unfold GossipBuffer.count at hgt ⊢; omega, fun _ => hlocked.mpr hpos⟩
    · simp only [Function.update_of_ne hk]
      exact h.locked k

variable [DecidableEq T]

/-- A list under an updated key gains one fresh id: it stays without repeats, and its ids
stay below the next one. -/
theorem nodup_append_fresh {ids : List Nat} {next : Nat} (hnodup : ids.Nodup)
    (hlt : ∀ sid ∈ ids, sid < next) : (ids ++ [next]).Nodup :=
  List.nodup_append.mpr ⟨hnodup, List.nodup_singleton _,
    fun a ha b hb => by rw [List.mem_singleton] at hb; subst hb; exact (hlt a ha).ne⟩

theorem Maps.subscribe {s : TopicStreams T} (h : s.Maps) (topic : T) : (s.subscribe topic).Maps where
  streams := by
    intro topicId ids hids
    simp only [TopicStreams.subscribe] at hids ⊢
    -- the listed ids are below `nextStreamId`, so the new stream changes none of them
    have hold : ∀ ids, s.topicIdToStream topicId = some ids → ids.Nodup ∧
        ∀ sid ∈ ids, sid < s.nextStreamId + 1 ∧ ∃ topic',
          Function.update s.subscribed s.nextStreamId (some topic) sid = some topic' ∧
            TopicId.id topic' = topicId := by
      intro ids hids
      obtain ⟨hnodup, hsids⟩ := h.streams topicId ids hids
      refine ⟨hnodup, fun sid hsid => ?_⟩
      obtain ⟨hlt, hsub⟩ := hsids sid hsid
      rw [Function.update_of_ne hlt.ne]
      exact ⟨by omega, hsub⟩
    by_cases htopic : topicId = TopicId.id topic
    · subst htopic
      rw [Function.update_self, Option.some.injEq] at hids
      subst hids
      cases hprev : s.topicIdToStream (TopicId.id topic) with
      | none =>
        simp only [Option.getD_none, List.nil_append, List.nodup_singleton, List.mem_singleton,
          forall_eq, true_and, Function.update_self]
        exact ⟨by omega, topic, rfl, rfl⟩
      | some prev =>
        obtain ⟨hnodup, hsids⟩ := hold prev hprev
        obtain ⟨hnodup₀, hlt₀⟩ := h.streams _ prev hprev
        refine ⟨nodup_append_fresh hnodup₀ fun sid h => (hlt₀ sid h).1, fun sid hsid => ?_⟩
        rcases List.mem_append.mp hsid with hsid | hsid
        · exact hsids sid hsid
        · rw [List.mem_singleton] at hsid
          subst hsid
          exact ⟨by simp, topic, by simp, rfl⟩
    · rw [Function.update_of_ne htopic] at hids
      exact hold ids hids
  topics := by
    intro topic' ids hids
    simp only [TopicStreams.subscribe] at hids ⊢
    have hold : ∀ ids, s.topicToStream topic' = some ids → ids.Nodup ∧
        ∀ sid ∈ ids, sid < s.nextStreamId + 1 ∧
          Function.update s.subscribed s.nextStreamId (some topic) sid = some topic' := by
      intro ids hids
      obtain ⟨hnodup, hsids⟩ := h.topics topic' ids hids
      refine ⟨hnodup, fun sid hsid => ?_⟩
      obtain ⟨hlt, hsub⟩ := hsids sid hsid
      rw [Function.update_of_ne hlt.ne]
      exact ⟨by omega, hsub⟩
    by_cases htopic : topic' = topic
    · subst htopic
      rw [Function.update_self, Option.some.injEq] at hids
      subst hids
      cases hprev : s.topicToStream topic' with
      | none => simp
      | some prev =>
        obtain ⟨hnodup, hsids⟩ := hold prev hprev
        obtain ⟨hnodup₀, hlt₀⟩ := h.topics _ prev hprev
        refine ⟨nodup_append_fresh hnodup₀ fun sid h => (hlt₀ sid h).1, fun sid hsid => ?_⟩
        rcases List.mem_append.mp hsid with hsid | hsid
        · exact hsids sid hsid
        · rw [List.mem_singleton] at hsid
          subst hsid
          simp
    · rw [Function.update_of_ne htopic] at hids
      exact hold ids hids
  mapped := by
    intro topicId hjp
    simp only [TopicStreams.subscribe] at hjp ⊢
    by_cases htopic : topicId = TopicId.id topic
    · subst htopic
      simp
    · rw [Function.update_of_ne htopic] at hjp ⊢
      exact h.mapped topicId hjp

/-- Every call keeps a state wired; none but `on_sync_message` can panic on one, and that
one only for a topic that has no streams. -/
theorem Wired.call {s : TopicStreams T} (h : s.Wired) :
    ∀ c : StreamsCall T, (∀ s', s.call c = .ok s' → s'.Wired) ∧
      ∀ e, s.call c = .error e → e = "consistent topic to stream id mapping"
  | .subscribe topic => ⟨fun _ hs => by cases hs; exact ⟨h.maps.subscribe topic, h.locked⟩,
      fun _ he => nomatch he⟩
  | .onGossipJoined topicId => ⟨fun _ hs => by
      cases hs
      exact ⟨h.maps.onGossipJoined topicId, by rw [onGossipJoined_gossipBuffer]; exact h.locked⟩,
      fun _ he => nomatch he⟩
  | .moveJoinedToPending => ⟨fun _ hs => by cases hs; exact ⟨h.maps.moveJoinedToPending,
      h.locked⟩, fun _ he => nomatch he⟩
  | .onGossipMessage topicId bytes deliveredFrom => by
    obtain ⟨s', hs', hw⟩ := h.onGossipMessage topicId bytes deliveredFrom
    refine ⟨fun s'' hs'' => ?_, fun e he => ?_⟩
    · simp only [TopicStreams.call, hs', Except.ok.injEq] at hs''
      exact hs'' ▸ hw
    · simp only [TopicStreams.call, hs'] at he
      cases he
  | .onSyncHandshakeSuccess topic peer => ⟨fun _ hs => by
      cases hs
      exact ⟨h.maps.congr rfl rfl rfl rfl rfl rfl, h.locked.lock peer (TopicId.id topic)⟩,
      fun _ he => nomatch he⟩
  | .onSyncMessage topic header payload deliveredFrom => by
    simp only [TopicStreams.call, TopicStreams.onSyncMessage]
    cases hids : s.topicToStream topic with
    | none => exact ⟨fun _ hs => (nomatch hs), fun e he => by cases he; rfl⟩
    | some ids =>
      have hsub : ∀ sid ∈ ids, s.subscribed sid ≠ none := fun sid hsid => by
        simp [((h.maps.topics topic ids hids).2 sid hsid).2]
      simp only [sendToStreams_eq _ ids s hsub, Except.ok.injEq]
      exact ⟨fun _ hs => hs ▸ ⟨h.maps.congr rfl rfl rfl rfl rfl rfl, h.locked⟩,
        fun _ he => nomatch he⟩
  | .onSyncDone topic peer => by
    obtain ⟨s', hs', hw⟩ := h.unlockBuffer peer (TopicId.id topic) _
      fun s buffer hs => hs.replay (TopicId.id topic) buffer peer
    refine ⟨fun s'' hs'' => ?_, fun e he => ?_⟩
    · simp only [TopicStreams.call, TopicStreams.onSyncDone, hs', Except.ok.injEq] at hs''
      exact hs'' ▸ hw
    · simp only [TopicStreams.call, TopicStreams.onSyncDone, hs'] at he
      cases he
  | .onSyncFailed none peer => ⟨fun _ hs => by cases hs; exact h, fun _ he => nomatch he⟩
  | .onSyncFailed (some topic) peer => by
    obtain ⟨s', hs', hw⟩ := h.unlockBuffer peer (TopicId.id topic) (fun s _ => .ok s)
      fun s _ hs => ⟨s, rfl, hs⟩
    refine ⟨fun s'' hs'' => ?_, fun e he => ?_⟩
    · simp only [TopicStreams.call, TopicStreams.onSyncFailed, hs', Except.ok.injEq] at hs''
      exact hs'' ▸ hw
    · simp only [TopicStreams.call, TopicStreams.onSyncFailed, hs'] at he
      cases he

end Wired

/-! ## The streams of a topic

No call but a subscription to the topic changes the streams listed under it. -/

section Frame

theorem topicToStream_onGossipMessage {s s' : TopicStreams T} {topicId : Bytes32}
    {bytes : List UInt8} {deliveredFrom : PublicKey}
    (h : s.onGossipMessage topicId bytes deliveredFrom = .ok s') :
    s'.topicToStream = s.topicToStream := by
  rcases onGossipMessage_cases h with ⟨-, rfl⟩ | ⟨-, -, rfl⟩ | ⟨-, -, -, -, rfl⟩ <;> rfl

/-- `unlockBuffer` keeps the streams of every topic when what it hands the buffer to does. -/
theorem topicToStream_unlockBuffer {s s' : TopicStreams T} {peer : PublicKey}
    {topicId : Bytes32}
    {onDrained : TopicStreams T → List (List UInt8) → Except String (TopicStreams T)}
    (hdrained : ∀ s₁ buffer s₂, onDrained s₁ buffer = .ok s₂ →
      s₂.topicToStream = s₁.topicToStream)
    (h : s.unlockBuffer peer topicId onDrained = .ok s') : s'.topicToStream = s.topicToStream := by
  -- the cases of the counter, as the lemmas of `unlockBuffer` split them
  rcases Nat.lt_trichotomy (s.gossipBuffer.count peer topicId) 1 with hlt | hone | hgt
  · rw [unlockBuffer_of_count_eq_zero (by omega)] at h
    cases h
    rfl
  · cases hbuffer : s.gossipBuffer.buffers (peer, topicId) with
    | none =>
      rw [unlockBuffer_of_missing hone hbuffer] at h
      cases h
    | some buffer =>
      rw [unlockBuffer_of_count_eq_one hone hbuffer] at h
      have hkept := hdrained _ _ _ h
      exact hkept
  · rw [unlockBuffer_of_one_lt_count hgt] at h
    cases h
    rfl

variable [TopicId T] [DecidableEq T]

/-- Every call but a subscription to `topic` leaves the streams listed under `topic`. -/
theorem topicToStream_call {s s' : TopicStreams T} {topic : T} {c : StreamsCall T}
    (hc : ∀ t, c = .subscribe t → t ≠ topic) (h : s.call c = .ok s') :
    s'.topicToStream topic = s.topicToStream topic := by
  cases c with
  | subscribe t =>
    cases h
    exact Function.update_of_ne (hc t rfl).symm _ _
  | onGossipJoined topicId =>
    simp only [call, onGossipJoined, Except.ok.injEq] at h
    subst h
    split <;> rfl
  | moveJoinedToPending =>
    cases h
    rfl
  | onGossipMessage topicId bytes deliveredFrom =>
    exact congrFun (topicToStream_onGossipMessage h) topic
  | onSyncHandshakeSuccess t peer =>
    cases h
    rfl
  | onSyncMessage t header payload deliveredFrom =>
    simp only [call, onSyncMessage] at h
    split at h
    · cases h
    · next ids _ =>
      rw [sendToStreams_ok _ ids s s' h]
  | onSyncDone t peer =>
    -- the replay is a run of `on_gossip_message`, each of which keeps the streams
    refine congrFun (topicToStream_unlockBuffer (fun s₁ buffer s₂ hreplay => ?_) h) topic
    exact foldlM_invariant _ (fun s₃ : TopicStreams T => s₃.topicToStream = s₁.topicToStream)
      buffer (fun _ _ _ _ hs hmsg => (topicToStream_onGossipMessage hmsg).trans hs)
      buffer s₁ s₂ (fun _ h => h) rfl hreplay
  | onSyncFailed t peer =>
    cases t with
    | none =>
      cases h
      rfl
    | some t =>
      simp only [call, onSyncFailed] at h
      refine congrFun (topicToStream_unlockBuffer (fun s₁ _ s₂ hok => ?_) h) topic
      cases hok
      rfl

end Frame

end TopicStreams

/-- Topic streams never panic at a missing gossip buffer, a topic id without streams or a
stream that does not exist: a run of any calls from new ends wired, or stops at
`on_sync_message` for a topic no stream was subscribed to. -/
theorem streamsRun_wired {T : Type} [DecidableEq T] [TopicId T] (calls : List (StreamsCall T)) :
    (∀ s, streamsRun .new calls = .ok s → s.Wired) ∧
      ∀ e, streamsRun .new calls = .error e → e = "consistent topic to stream id mapping" :=
  ⟨fun s hrun => foldlM_invariant _ TopicStreams.Wired calls
      (fun _ c s' _ hs hc => (hs.call c).1 s' hc) calls .new s (fun _ h => h)
      TopicStreams.wired_new hrun,
    fun e hrun => foldlM_error_of_step _ TopicStreams.Wired _
      (fun _ c s' hs hc => (hs.call c).1 s' hc) (fun _ c e hs hc => (hs.call c).2 e hc)
      calls .new e TopicStreams.wired_new hrun⟩

end P2panda.Net
