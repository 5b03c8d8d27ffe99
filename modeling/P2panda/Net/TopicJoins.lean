import P2panda.Net.AddressBook
import P2panda.Net.TopicDiscovery
import P2panda.Net.SyncManager

/- How the topic streams join the gossip overlays of their topics, and what they do with the
   topic ids another peer announces (`p2panda-net/src/engine/topic_streams.rs`:
   `topic_ids`, `has_joined_gossip`, `join_gossip`, `try_join_pending_gossips`,
   `on_discovered_topic_ids`).

   `join_gossip` reads the address book and sends to the gossip actor; here it is given the
   book and the random draws of its `random_set`, and returns the `Join` it sends, if any.
   The streams are a `HashMap` keyed by stream id, and every id given out is below
   `next_stream_id`, so `subscribed.values()` are the topics under the ids below it
   (`topics`), in the order of the ids where the map has an order of its own. The keys of
   `gossip_pending` are a set the model keeps as a function, so `try_join_pending_gossips`
   goes over the pending topic ids among `topic_ids`, each once (`pendingKeys`): every
   topic id a run makes pending or joined is one of them (`Subscribed`, kept by every
   call), so these are all the keys.

   * `joinGossip_eq_some`: a `Join` is sent exactly for a topic id not joined that the
     address book knows a peer interested in, with the peers `random_set` drew: at most
     `JOIN_PEERS_SAMPLE_LEN`, distinct, each interested (`JoinPeers`).
   * `joinTopics_tryJoinPendingGossips`: `try_join_pending_gossips` sends one `Join` for
     each pending topic id that `join_gossip` joins, and none for any other.
   * `on_discovered_topic_ids` tells the sync actor of the announcing peer for every
     stream whose topic's id was announced, and only with a sync actor does it try to join
     the pending overlays: without one, the flag `found_common_topic` is never set.
   * `Routes`: the calls that route messages leave the subscriptions and the joins as
     they are (`Routes.call`). -/

namespace P2panda.Net

/-- `JOIN_PEERS_SAMPLE_LEN`. -/
def joinPeersSampleLen : Nat := 7

namespace AddressBook

variable (ab : AddressBook) (draws : Nat → Nat) (topicId : Bytes32) (sampleLen : Nat)

theorem nodup_randomSet : (ab.randomSet draws topicId sampleLen).Nodup :=
  Reservoir.nodup_chooseMultiple draws sampleLen (nodup_nodesInterestedInTopic ab topicId)

theorem length_randomSet :
    (ab.randomSet draws topicId sampleLen).length =
      min sampleLen (ab.nodesInterestedInTopic topicId).length :=
  Reservoir.length_chooseMultiple draws sampleLen _

variable {ab draws topicId sampleLen}

theorem interested_of_mem_randomSet {p : PublicKey} (h : p ∈ ab.randomSet draws topicId sampleLen) :
    ab.Interested p topicId :=
  mem_nodesInterestedInTopic.mp (Reservoir.mem_of_mem_chooseMultiple draws sampleLen h)

/-- A sample of some peers draws one exactly when the book knows a peer interested in the
topic. -/
theorem randomSet_ne_nil_iff (hlen : 0 < sampleLen) :
    ab.randomSet draws topicId sampleLen ≠ [] ↔ ∃ p, ab.Interested p topicId := by
  rw [← List.length_pos_iff, length_randomSet, Nat.lt_min]
  simp only [hlen, true_and, List.length_pos_iff_exists_mem, mem_nodesInterestedInTopic]

end AddressBook

/-- What the peers of a `Join` are: at most `JOIN_PEERS_SAMPLE_LEN`, none twice, each known
to the address book as interested in the topic id. -/
structure JoinPeers (ab : AddressBook) (topicId : Bytes32) (peers : List PublicKey) : Prop where
  nodup : peers.Nodup
  length_le : peers.length ≤ joinPeersSampleLen
  interested : ∀ p ∈ peers, ab.Interested p topicId

theorem joinPeers_randomSet (ab : AddressBook) (draws : Nat → Nat) (topicId : Bytes32) :
    JoinPeers ab topicId (ab.randomSet draws topicId joinPeersSampleLen) where
  nodup := AddressBook.nodup_randomSet ab draws topicId _
  length_le := by
    rw [AddressBook.length_randomSet]
    exact Nat.min_le_left _ _
  interested := fun _ hp => AddressBook.interested_of_mem_randomSet hp

/-- A book with at least the same interests keeps the peers of a join good. -/
theorem JoinPeers.mono {ab ab' : AddressBook} {topicId : Bytes32} {peers : List PublicKey}
    (h : JoinPeers ab topicId peers) (hgrow : ∀ p t, ab.Interested p t → ab'.Interested p t) :
    JoinPeers ab' topicId peers :=
  ⟨h.nodup, h.length_le, fun p hp => hgrow p topicId (h.interested p hp)⟩

namespace TopicStreams

variable {T : Type}

/-- The topics of the subscribed streams (`subscribed.values()`), by stream id. -/
def topics (s : TopicStreams T) : List T :=
  (List.range s.nextStreamId).filterMap s.subscribed

@[simp] theorem topics_moveJoinedToPending (s : TopicStreams T) :
    s.moveJoinedToPending.topics = s.topics := rfl

@[simp] theorem topics_onGossipJoined (s : TopicStreams T) (topicId : Bytes32) :
    (s.onGossipJoined topicId).topics = s.topics := by
  unfold onGossipJoined
  split <;> rfl

/-- `has_joined_gossip`. -/
def hasJoinedGossip (s : TopicStreams T) (topicId : Bytes32) : Bool := s.gossipJoined topicId

/-- `join_gossip`, given the address book and the draws of its `random_set`: the `Join` it
sends, if any. -/
def joinGossip (s : TopicStreams T) (addressBook : AddressBook) (draws : Nat → Nat)
    (topicId : Bytes32) : Option ToGossipActor :=
  if s.hasJoinedGossip topicId then none
  else
    let peers := addressBook.randomSet draws topicId joinPeersSampleLen
    if !peers.isEmpty then some (.join topicId peers) else none

section JoinGossip

variable {s : TopicStreams T} {ab : AddressBook} {draws : Nat → Nat} {topicId : Bytes32}

theorem joinGossip_eq_some {m : ToGossipActor} :
    s.joinGossip ab draws topicId = some m ↔
      s.gossipJoined topicId = false ∧ ab.randomSet draws topicId joinPeersSampleLen ≠ [] ∧
        m = .join topicId (ab.randomSet draws topicId joinPeersSampleLen) := by
  unfold joinGossip hasJoinedGossip
  cases s.gossipJoined topicId <;>
    cases hpeers : ab.randomSet draws topicId joinPeersSampleLen <;> simp [eq_comm]

theorem joinTopic_joinGossip {m : ToGossipActor} (h : s.joinGossip ab draws topicId = some m) :
    m.joinTopic = some topicId := by
  obtain ⟨-, -, rfl⟩ := joinGossip_eq_some.mp h
  rfl

/-- `join_gossip` joins a topic id exactly when it is not joined and the address book
knows a peer interested in it. -/
theorem isSome_joinGossip :
    (s.joinGossip ab draws topicId).isSome = true ↔
      s.gossipJoined topicId = false ∧ ∃ p, ab.Interested p topicId := by
  have hlen : 0 < joinPeersSampleLen := by decide
  constructor
  · intro h
    obtain ⟨m, hm⟩ := Option.isSome_iff_exists.mp h
    obtain ⟨hj, hne, -⟩ := joinGossip_eq_some.mp hm
    exact ⟨hj, (AddressBook.randomSet_ne_nil_iff hlen).mp hne⟩
  · rintro ⟨hj, hp⟩
    exact Option.isSome_iff_exists.mpr
      ⟨_, joinGossip_eq_some.mpr ⟨hj, (AddressBook.randomSet_ne_nil_iff hlen).mpr hp, rfl⟩⟩

/-- The joins of a loop of `join_gossip` over topic ids are of the ids it joins, in order.
The induction is on the ids. -/
theorem joinTopics_filterMap_joinGossip (s : TopicStreams T) (ab : AddressBook)
    (draws : Bytes32 → Nat → Nat) :
    ∀ l : List Bytes32,
      (l.filterMap fun t => s.joinGossip ab (draws t) t).filterMap ToGossipActor.joinTopic =
        l.filter fun t => (s.joinGossip ab (draws t) t).isSome
  | [] => rfl
  | t :: l => by
    have ih := joinTopics_filterMap_joinGossip s ab draws l
    cases h : s.joinGossip ab (draws t) t with
    | none => simp [h, ih]
    | some m => simp [h, joinTopic_joinGossip h, ih]

end JoinGossip

section Joins

variable [TopicId T]

/-- `topic_ids`. -/
def topicIds (s : TopicStreams T) : List Bytes32 := s.topics.map TopicId.id

/-- The keys of `gossip_pending`, each once: the pending topic ids among `topic_ids`. -/
def pendingKeys (s : TopicStreams T) : List Bytes32 :=
  s.topicIds.dedup.filter s.gossipPending

/-- `try_join_pending_gossips`, given the draws of each `random_set` by topic id: the
`Join`s it sends, in order. -/
def tryJoinPendingGossips (s : TopicStreams T) (addressBook : AddressBook)
    (draws : Bytes32 → Nat → Nat) : List ToGossipActor :=
  s.pendingKeys.filterMap fun topicId => s.joinGossip addressBook (draws topicId) topicId

/-- `on_discovered_topic_ids`, on whether there is a sync actor: the `Discovery` of `peer`
for every stream whose topic's id the peer announced, and the `Join`s of
`try_join_pending_gossips` when there was one. -/
def onDiscoveredTopicIds (s : TopicStreams T) (sync : Bool) (addressBook : AddressBook)
    (draws : Bytes32 → Nat → Nat) (theirTopicIds : List Bytes32) (peer : PublicKey) :
    List (ToSyncActor T) × List ToGossipActor :=
  let discoveries :=
    if sync then
      (s.topics.filter fun topic => TopicId.id topic ∈ theirTopicIds).map (.discovery peer)
    else []
  (discoveries, if discoveries.isEmpty then [] else s.tryJoinPendingGossips addressBook draws)

@[simp] theorem topicIds_moveJoinedToPending (s : TopicStreams T) :
    s.moveJoinedToPending.topicIds = s.topicIds := rfl

@[simp] theorem topicIds_onGossipJoined (s : TopicStreams T) (topicId : Bytes32) :
    (s.onGossipJoined topicId).topicIds = s.topicIds := by
  rw [topicIds, topics_onGossipJoined]
  rfl

variable {s : TopicStreams T} {ab : AddressBook} {topicId : Bytes32}

theorem mem_pendingKeys {t : Bytes32} :
    t ∈ s.pendingKeys ↔ t ∈ s.topicIds ∧ s.gossipPending t = true := by
  simp [pendingKeys]

theorem nodup_pendingKeys (s : TopicStreams T) : s.pendingKeys.Nodup :=
  (List.nodup_dedup _).filter _

theorem joinTopics_tryJoinPendingGossips (s : TopicStreams T) (ab : AddressBook)
    (draws : Bytes32 → Nat → Nat) :
    (s.tryJoinPendingGossips ab draws).filterMap ToGossipActor.joinTopic =
      s.pendingKeys.filter fun t => (s.joinGossip ab (draws t) t).isSome :=
  joinTopics_filterMap_joinGossip s ab draws _

theorem mem_tryJoinPendingGossips {draws : Bytes32 → Nat → Nat} {m : ToGossipActor} :
    m ∈ s.tryJoinPendingGossips ab draws ↔ ∃ t ∈ s.pendingKeys, s.joinGossip ab (draws t) t = some m :=
  List.mem_filterMap

/-- Every message `try_join_pending_gossips` sends is a `Join` of a pending topic id of a
subscribed stream, not yet joined, with peers `random_set` drew. -/
theorem eq_join_of_mem_tryJoinPendingGossips {draws : Bytes32 → Nat → Nat} {m : ToGossipActor}
    (h : m ∈ s.tryJoinPendingGossips ab draws) :
    ∃ t, m = .join t (ab.randomSet (draws t) t joinPeersSampleLen) ∧ t ∈ s.topicIds ∧
      s.gossipPending t = true ∧ ab.randomSet (draws t) t joinPeersSampleLen ≠ [] ∧
      s.gossipJoined t = false := by
  obtain ⟨t, ht, hm⟩ := mem_tryJoinPendingGossips.mp h
  obtain ⟨hjoined, hne, rfl⟩ := joinGossip_eq_some.mp hm
  exact ⟨t, rfl, (mem_pendingKeys.mp ht).1, (mem_pendingKeys.mp ht).2, hne, hjoined⟩

variable {draws : Bytes32 → Nat → Nat} {theirTopicIds : List Bytes32} {peer : PublicKey}

theorem mem_onDiscoveredTopicIds_fst {sync : Bool} {m : ToSyncActor T} :
    m ∈ (s.onDiscoveredTopicIds sync ab draws theirTopicIds peer).1 ↔
      sync = true ∧ ∃ topic ∈ s.topics, TopicId.id topic ∈ theirTopicIds ∧
        m = .discovery peer topic := by
  cases sync with
  | false => simp [onDiscoveredTopicIds]
  | true =>
    simp only [onDiscoveredTopicIds, ↓reduceIte, List.mem_map, List.mem_filter,
      decide_eq_true_eq, true_and]
    constructor
    · rintro ⟨topic, ⟨htopic, hid⟩, rfl⟩
      exact ⟨topic, htopic, hid, rfl⟩
    · rintro ⟨topic, htopic, hid, rfl⟩
      exact ⟨topic, ⟨htopic, hid⟩, rfl⟩

theorem onDiscoveredTopicIds_snd_eq (sync : Bool) :
    (s.onDiscoveredTopicIds sync ab draws theirTopicIds peer).2 =
      if (s.onDiscoveredTopicIds sync ab draws theirTopicIds peer).1.isEmpty then []
      else s.tryJoinPendingGossips ab draws := rfl

/-- The streams try to join the pending overlays, or do nothing. -/
theorem onDiscoveredTopicIds_snd_cases (sync : Bool) :
    (s.onDiscoveredTopicIds sync ab draws theirTopicIds peer).2 = [] ∨
      (s.onDiscoveredTopicIds sync ab draws theirTopicIds peer).2 =
        s.tryJoinPendingGossips ab draws := by
  rw [onDiscoveredTopicIds_snd_eq]
  split
  · exact .inl rfl
  · exact .inr rfl

/-- With a sync actor, a peer that shares the topic id of a stream makes the streams try to
join the pending overlays. -/
theorem onDiscoveredTopicIds_snd_of_shared {topic : T} (htopic : topic ∈ s.topics)
    (hid : TopicId.id topic ∈ theirTopicIds) :
    (s.onDiscoveredTopicIds true ab draws theirTopicIds peer).2 =
      s.tryJoinPendingGossips ab draws := by
  have hmem : ToSyncActor.discovery peer topic ∈
      (s.onDiscoveredTopicIds true ab draws theirTopicIds peer).1 :=
    mem_onDiscoveredTopicIds_fst.mpr ⟨rfl, topic, htopic, hid, rfl⟩
  have hne : (s.onDiscoveredTopicIds true ab draws theirTopicIds peer).1.isEmpty = false :=
    List.isEmpty_eq_false_iff.mpr (List.ne_nil_of_mem hmem)
  rw [onDiscoveredTopicIds_snd_eq, hne]
  rfl

/-- Without a sync actor the streams never try to join on an announcement. -/
@[simp] theorem onDiscoveredTopicIds_false :
    s.onDiscoveredTopicIds false ab draws theirTopicIds peer = ([], []) := rfl

end Joins

/-! ## The calls that route messages -/

/-- `s'` differs from `s` at most in the gossip buffer and what was sent: the
subscriptions and the joins are the same. -/
structure Routes (s s' : TopicStreams T) : Prop where
  gossipJoined : s'.gossipJoined = s.gossipJoined
  gossipPending : s'.gossipPending = s.gossipPending
  nextStreamId : s'.nextStreamId = s.nextStreamId
  subscribed : s'.subscribed = s.subscribed

theorem Routes.refl (s : TopicStreams T) : Routes s s := ⟨rfl, rfl, rfl, rfl⟩

theorem Routes.trans {s₁ s₂ s₃ : TopicStreams T} (h₁ : Routes s₁ s₂) (h₂ : Routes s₂ s₃) :
    Routes s₁ s₃ :=
  ⟨h₂.gossipJoined.trans h₁.gossipJoined, h₂.gossipPending.trans h₁.gossipPending,
    h₂.nextStreamId.trans h₁.nextStreamId, h₂.subscribed.trans h₁.subscribed⟩

theorem Routes.topics {s s' : TopicStreams T} (h : Routes s s') : s'.topics = s.topics := by
  rw [TopicStreams.topics, h.nextStreamId, h.subscribed]
  rfl

theorem routes_sendToStreams {s s' : TopicStreams T} {ids : List Nat} {message : FromNetwork}
    (h : s.sendToStreams ids message = .ok s') : Routes s s' := by
  rw [sendToStreams_ok message ids s s' h]
  exact ⟨rfl, rfl, rfl, rfl⟩

theorem routes_onGossipMessage {s s' : TopicStreams T} {topicId : Bytes32} {bytes : List UInt8}
    {deliveredFrom : PublicKey} (h : s.onGossipMessage topicId bytes deliveredFrom = .ok s') :
    Routes s s' := by
  rcases onGossipMessage_cases h with ⟨-, rfl⟩ | ⟨-, -, rfl⟩ | ⟨-, -, -, -, rfl⟩ <;>
    exact ⟨rfl, rfl, rfl, rfl⟩

/-- `unlockBuffer` routes when what it hands the drained buffer to does. -/
theorem routes_unlockBuffer {s s' : TopicStreams T} {peer : PublicKey} {topicId : Bytes32}
    {onDrained : TopicStreams T → List (List UInt8) → Except String (TopicStreams T)}
    (hdrained : ∀ s₁ buffer s₂, onDrained s₁ buffer = .ok s₂ → Routes s₁ s₂)
    (h : s.unlockBuffer peer topicId onDrained = .ok s') : Routes s s' := by
  -- the cases of the counter, as the lemmas of `unlockBuffer` split them
  rcases Nat.lt_trichotomy (s.gossipBuffer.count peer topicId) 1 with hlt | hone | hgt
  · rw [unlockBuffer_of_count_eq_zero (by omega), Except.ok.injEq] at h
    exact h ▸ Routes.refl s
  · cases hbuffer : s.gossipBuffer.buffers (peer, topicId) with
    | none =>
      rw [unlockBuffer_of_missing hone hbuffer] at h
      cases h
    | some buffer =>
      rw [unlockBuffer_of_count_eq_one hone hbuffer] at h
      refine Routes.trans ?_ (hdrained _ _ _ h)
      exact ⟨rfl, rfl, rfl, rfl⟩
  · rw [unlockBuffer_of_one_lt_count hgt, Except.ok.injEq] at h
    exact h ▸ ⟨rfl, rfl, rfl, rfl⟩

section Keys

variable [TopicId T] {s s' : TopicStreams T}

/-- Every topic id joined or pending is the id of a subscribed stream's topic. -/
def Subscribed (s : TopicStreams T) : Prop :=
  ∀ topicId, s.gossipJoined topicId = true ∨ s.gossipPending topicId = true →
    topicId ∈ s.topicIds

theorem subscribed_new : (new : TopicStreams T).Subscribed := fun _ h => by simp [new] at h

theorem Subscribed.routes (h : s.Subscribed) (hr : Routes s s') : s'.Subscribed := by
  intro t ht
  rw [hr.gossipJoined, hr.gossipPending] at ht
  rw [topicIds, hr.topics]
  exact h t ht

/-- On such a state the loop of `try_join_pending_gossips` goes over every key of
`gossip_pending`. -/
theorem Subscribed.mem_pendingKeys (h : s.Subscribed) {t : Bytes32} :
    t ∈ s.pendingKeys ↔ s.gossipPending t = true :=
  TopicStreams.mem_pendingKeys.trans ⟨And.right, fun hp => ⟨h t (.inr hp), hp⟩⟩

end Keys

end TopicStreams

/-- The calls that route messages: all but the subscriptions and the joins. -/
def StreamsCall.routes {T : Type} : StreamsCall T → Bool
  | .subscribe _ | .onGossipJoined _ | .moveJoinedToPending => false
  | _ => true

namespace TopicStreams

variable {T : Type} [DecidableEq T] [TopicId T] {s s' : TopicStreams T}

theorem Routes.call {c : StreamsCall T} (hc : c.routes = true) (h : s.call c = .ok s') :
    Routes s s' := by
  cases c with
  | subscribe | onGossipJoined | moveJoinedToPending => exact nomatch hc
  | onGossipMessage topicId bytes deliveredFrom => exact routes_onGossipMessage h
  | onSyncHandshakeSuccess topic peer =>
    cases h
    exact ⟨rfl, rfl, rfl, rfl⟩
  | onSyncMessage topic header payload deliveredFrom =>
    simp only [TopicStreams.call, onSyncMessage] at h
    split at h
    · cases h
    · exact routes_sendToStreams h
  | onSyncDone topic peer =>
    -- the replay is a run of `on_gossip_message`, each of which routes
    refine routes_unlockBuffer (fun s₁ buffer s₂ hreplay => ?_) h
    exact foldlM_invariant _ (fun s₃ => Routes s₁ s₃) buffer
      (fun _ _ _ _ hs hmsg => hs.trans (routes_onGossipMessage hmsg)) buffer s₁ s₂
      (fun _ h => h) (Routes.refl s₁) hreplay
  | onSyncFailed topic peer =>
    cases topic with
    | none =>
      cases h
      exact Routes.refl s
    | some topic =>
      simp only [TopicStreams.call, onSyncFailed] at h
      exact routes_unlockBuffer (fun s₁ _ s₂ hok => by cases hok; exact Routes.refl s₁) h

theorem topics_subscribe (s : TopicStreams T) (topic : T) :
    (s.subscribe topic).topics = s.topics ++ [topic] := by
  simp only [topics, subscribe, List.range_succ, List.filterMap_append]
  congr 1
  · -- the ids given out before are not the new one
    apply List.filterMap_congr
    intro sid hsid
    rw [Function.update_of_ne (List.mem_range.mp hsid).ne]
  · simp

/-- No call unsubscribes a topic. -/
theorem topics_call {c : StreamsCall T} (hc : s.call c = .ok s') {topic : T}
    (h : topic ∈ s.topics) : topic ∈ s'.topics := by
  cases c with
  | subscribe t =>
    cases hc
    rw [topics_subscribe]
    exact List.mem_append_left _ h
  | onGossipJoined t =>
    cases hc
    rwa [topics_onGossipJoined]
  | moveJoinedToPending =>
    cases hc
    exact h
  | onGossipMessage | onSyncHandshakeSuccess | onSyncMessage | onSyncDone | onSyncFailed =>
    rwa [(Routes.call rfl hc).topics]

/-! ## The keys of `gossip_pending` -/

/-- Every call keeps the joined and pending topic ids among those of the streams: a
subscription makes its own topic id pending, a join and a rejoin move ids between the
two sets. -/
theorem Subscribed.call (h : s.Subscribed) {c : StreamsCall T} (hc : s.call c = .ok s') :
    s'.Subscribed := by
  cases c with
  | subscribe topic =>
    cases hc
    intro t ht
    rw [topicIds, topics_subscribe, List.map_append, List.mem_append]
    by_cases heq : t = TopicId.id topic
    · exact .inr (by simp [heq])
    · simp only [subscribe, Function.update_of_ne heq] at ht
      exact .inl (h t ht)
  | onGossipJoined topicId =>
    cases hc
    intro t ht
    rw [topicIds_onGossipJoined]
    unfold onGossipJoined at ht
    split at ht
    · next hpending =>
      by_cases heq : t = topicId
      · subst heq
        exact h t (.inr hpending)
      · simp only [Function.update_of_ne heq] at ht
        exact h t ht
    · exact h t ht
  | moveJoinedToPending =>
    cases hc
    intro t ht
    simp only [moveJoinedToPending, Bool.false_eq_true, false_or, Bool.or_eq_true] at ht
    exact h t ht.symm
  | onGossipMessage | onSyncHandshakeSuccess | onSyncMessage | onSyncDone | onSyncFailed =>
    exact h.routes (Routes.call rfl hc)

/-! ## Panics -/

/-- `on_sync_message` for a topic without streams panics. -/
theorem call_onSyncMessage_of_none {topic : T} (h : s.topicToStream topic = none)
    (header : List UInt8) (payload : Option (List UInt8)) (deliveredFrom : PublicKey) :
    s.call (.onSyncMessage topic header payload deliveredFrom) =
      .error "consistent topic to stream id mapping" := by
  simp [TopicStreams.call, onSyncMessage, h]

/-- On a wired state only `on_sync_message` panics, and only for a topic without
streams. -/
theorem Wired.call_error (h : s.Wired) {c : StreamsCall T} {err : String}
    (he : s.call c = .error err) :
    ∃ topic header payload deliveredFrom,
      c = .onSyncMessage topic header payload deliveredFrom ∧ s.topicToStream topic = none := by
  cases c with
  | subscribe | onGossipJoined | moveJoinedToPending | onSyncHandshakeSuccess => cases he
  | onGossipMessage topicId bytes deliveredFrom =>
    obtain ⟨s', hs', -⟩ := h.onGossipMessage topicId bytes deliveredFrom
    simp only [TopicStreams.call, hs'] at he
    cases he
  | onSyncMessage topic header payload deliveredFrom =>
    refine ⟨topic, header, payload, deliveredFrom, rfl, ?_⟩
    cases hids : s.topicToStream topic with
    | none => rfl
    | some ids =>
      have hsub : ∀ sid ∈ ids, s.subscribed sid ≠ none := fun sid hsid => by
        simp [((h.maps.topics topic ids hids).2 sid hsid).2]
      simp [TopicStreams.call, onSyncMessage, hids, sendToStreams_eq _ ids s hsub] at he
  | onSyncDone topic peer =>
    obtain ⟨s', hs', -⟩ := h.unlockBuffer peer (TopicId.id topic) _
      fun s buffer hs => hs.replay (TopicId.id topic) buffer peer
    simp only [TopicStreams.call, onSyncDone, hs'] at he
    cases he
  | onSyncFailed topic peer =>
    cases topic with
    | none => cases he
    | some topic =>
      obtain ⟨s', hs', -⟩ := h.unlockBuffer peer (TopicId.id topic) (fun s _ => .ok s)
        fun s _ hs => ⟨s, rfl, hs⟩
      simp only [TopicStreams.call, onSyncFailed, hs'] at he
      cases he

/-! ## One topic id -/

/-- Only `on_gossip_joined` of a topic id joins it. -/
theorem gossipJoined_call {c : StreamsCall T} (hc : s.call c = .ok s') {topicId : Bytes32}
    (hjoin : c ≠ .onGossipJoined topicId) (hj : s.gossipJoined topicId = false) :
    s'.gossipJoined topicId = false := by
  cases c with
  | subscribe topic =>
    cases hc
    exact hj
  | onGossipJoined t =>
    cases hc
    have ht : topicId ≠ t := fun heq => hjoin (heq ▸ rfl)
    unfold onGossipJoined
    split
    · simp only [Function.update_of_ne ht]
      exact hj
    · exact hj
  | moveJoinedToPending =>
    cases hc
    rfl
  | onGossipMessage | onSyncHandshakeSuccess | onSyncMessage | onSyncDone | onSyncFailed =>
    rw [(Routes.call rfl hc).gossipJoined]
    exact hj

/-- A topic id neither joined nor pending becomes pending only by a subscription to a
topic of that id. -/
theorem gossipPending_call {c : StreamsCall T} (hc : s.call c = .ok s') {topicId : Bytes32}
    (hsub : ∀ topic, c = .subscribe topic → TopicId.id topic ≠ topicId)
    (hj : s.gossipJoined topicId = false) (hp : s.gossipPending topicId = false) :
    s'.gossipPending topicId = false := by
  cases c with
  | subscribe topic =>
    cases hc
    simp only [subscribe, Function.update_of_ne (hsub topic rfl).symm]
    exact hp
  | onGossipJoined t =>
    cases hc
    unfold onGossipJoined
    split
    · by_cases ht : topicId = t
      · subst ht
        simp
      · simp only [Function.update_of_ne ht]
        exact hp
    · exact hp
  | moveJoinedToPending =>
    cases hc
    simp [moveJoinedToPending, hj, hp]
  | onGossipMessage | onSyncHandshakeSuccess | onSyncMessage | onSyncDone | onSyncFailed =>
    rw [(Routes.call rfl hc).gossipPending]
    exact hp

end TopicStreams

end P2panda.Net
