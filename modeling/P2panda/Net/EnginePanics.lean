import P2panda.Net.Engine

/- Where the engine actor can panic (`topic_discovery.rs`: `on_gossip_joined`;
   `topic_streams.rs`: the `expect`s of `on_sync_message`, `on_gossip_message` and
   `on_sync_done`).

   The node panics only at the `GossipJoined` of the network id while the topic discovery
   is idle, and a settled node never does (`Node.Settled`). The engine adds two things: its
   topic streams join their topics' overlays, which would be the network-wide overlay for a
   topic whose id is the network id; and it hands the sync sessions' messages to the topic
   streams, whose only panic on a wired state is `on_sync_message` for a topic without
   streams (`TopicStreams.Wired.call_error`).

   * `Engine.Calm`: the node is settled, and the streams are wired and have neither joined
     nor pending the network id, so they never join it. Every step but an interface change
     and a subscription to a topic of the network id keeps it (`Calm.engineActorStep`), and
     from it only a sync message for a topic without streams panics
     (`Calm.engineActorStep_error`).
   * `engineActorRun_settled`: a run from a new engine without an interface change and
     without a subscription to a topic of the network id ends settled, or panics with
     `consistent topic to stream id mapping` at a sync message for a topic it has no stream
     of. -/

namespace P2panda.Net

namespace Node

variable {T : Type} {s : Node T}

/-- `Join`s of other overlays keep a node settled. -/
theorem Settled.append (hs : s.Settled) {msgs : List ToGossipActor}
    (hmsgs : ∀ m ∈ msgs, m.joinTopic ≠ some s.discovery.networkId) :
    ({ s with gossipInbox := s.gossipInbox ++ msgs } : Node T).Settled := by
  intro hidle hflight
  apply hs hidle
  simp only [InFlight, joinsInFlight, List.filterMap_append, List.mem_append] at hflight ⊢
  rcases hflight with ((hold | hnew) | hrunning) | hinbox
  · exact .inl (.inl hold)
  · obtain ⟨m, hm, hjoin⟩ := List.mem_filterMap.mp hnew
    exact absurd hjoin (hmsgs m hm)
  · exact .inl (.inr hrunning)
  · exact .inr hinbox

end Node

/-- Only a sync message calls `on_sync_message`. -/
theorem ToEngineActor.eq_syncMessage_of_streamsCall {T : Type} {msg : ToEngineActor T} {topic : T}
    {header : List UInt8} {payload : Option (List UInt8)} {deliveredFrom : PublicKey}
    (h : msg.streamsCall = some (.onSyncMessage topic header payload deliveredFrom)) :
    msg = .syncMessage topic header payload deliveredFrom := by
  cases msg <;> simp only [ToEngineActor.streamsCall, Option.some.injEq, reduceCtorEq,
    StreamsCall.onSyncMessage.injEq] at h
  obtain ⟨rfl, rfl, rfl, rfl⟩ := h
  rfl

namespace TopicStreams

variable {T : Type} [DecidableEq T] [TopicId T] {s s' : TopicStreams T} {topic : T}

/-- No call takes a topic's streams away, and a subscription to it gives it some. -/
theorem topicToStream_ne_none_call {c : StreamsCall T} (h : s.call c = .ok s')
    (hs : s.topicToStream topic ≠ none ∨ c = .subscribe topic) :
    s'.topicToStream topic ≠ none := by
  by_cases hc : c = .subscribe topic
  · subst hc
    cases h
    simp [subscribe]
  · rw [topicToStream_call (fun t ht htopic => hc (by subst htopic; exact ht)) h]
    exact hs.resolve_right hc

end TopicStreams

namespace Engine

variable {T : Type} {networkId : Bytes32} {bootstrap : Bool} {s s' : Engine T}

/-- A step of the node other than the interface change keeps it settled. -/
theorem settled_onNode {e : NodeEvent} (hstep : s.onNode e = .ok s') (hs : s.node.Settled)
    (he : e ≠ .interfaceChange) : s'.node.Settled :=
  Node.Settled.nodeStep hs (fun hreset => he hreset.1) (onNode_eq_ok hstep).1

/-- A settled node makes no step panic. -/
theorem not_settled_of_onNode_eq_error {e : NodeEvent} {err : String}
    (hstep : s.onNode e = .error err) : ¬s.node.Settled := by
  intro hs
  unfold onNode at hstep
  cases hnode : nodeStep s.node e with
  | error err' => exact Node.Settled.nodeStep_ne_error hs err' hnode
  | ok node =>
    rw [hnode] at hstep
    cases hstep

variable [TopicId T]

/-- The events that could make the streams join the network-wide overlay, or reset the
discovery while it joins: an interface change, and a subscription to a topic of the network
id. -/
def Unsettles (networkId : Bytes32) : EngineEvent T → Prop
  | .interfaceChange => True
  | .subscribeTopic topic _ _ => TopicId.id topic = networkId
  | _ => False

/-- A state from which only a sync message for a topic without streams panics. -/
structure Calm (networkId : Bytes32) (bootstrap : Bool) (s : Engine T) : Prop where
  good : s.Good networkId bootstrap
  settled : s.node.Settled
  wired : s.node.streams.Wired
  unjoined : s.node.streams.gossipJoined networkId = false
  unpending : s.node.streams.gossipPending networkId = false

theorem calm_new (sync : Bool) :
    (new networkId bootstrap sync : Engine T).Calm networkId bootstrap where
  good := good_new sync
  settled := Node.settled_new networkId bootstrap
  wired := TopicStreams.wired_new
  unjoined := rfl
  unpending := rfl

/-- The streams' joins of pending topic ids, none of them the network id, keep the node
settled. -/
theorem Calm.settled_tryJoin (h : s.Calm networkId bootstrap) {ab : AddressBook}
    {draws : Bytes32 → Nat → Nat} :
    ∀ m ∈ s.node.streams.tryJoinPendingGossips ab draws,
      m.joinTopic ≠ some s.node.discovery.networkId := by
  intro m hm hjoin
  obtain ⟨t, rfl, -, hpending, -⟩ := TopicStreams.eq_join_of_mem_tryJoinPendingGossips hm
  have ht : t = networkId := h.good.networkId_eq ▸ Option.some.inj hjoin
  rw [ht, h.unpending] at hpending
  cases hpending

variable [DecidableEq T]

/-- The engine fails at a call of its streams only where the streams do. -/
theorem onStreams_eq_error {c : StreamsCall T} {err : String} (h : s.onStreams c = .error err) :
    s.node.streams.call c = .error err := by
  unfold onStreams at h
  cases hcall : s.node.streams.call c with
  | error err' =>
    rw [hcall] at h
    cases h
    rfl
  | ok streams =>
    rw [hcall] at h
    cases h

/-- The node stays settled under every step that does not unsettle: the streams' joins are
of other overlays. -/
theorem Calm.settled_engineActorStep (h : s.Calm networkId bootstrap) {e : EngineEvent T}
    (he : ¬Unsettles networkId e) (hstep : engineActorStep s e = .ok s') : s'.node.Settled := by
  cases e with
  | addPeer nodeAddr accepted draws =>
    simp only [engineActorStep, addPeer, start] at hstep
    split at hstep
    · cases hstep
      exact h.settled
    · exact settled_onNode hstep h.settled fun heq => NodeEvent.noConfusion heq
  | subscribeTopic topic draws bytes =>
    simp only [engineActorStep, onSubscribe] at hstep
    refine settled_onNode hstep (Node.Settled.append h.settled fun m hm hjoin => ?_)
      fun heq => NodeEvent.noConfusion heq
    -- the hot-path join is of the topic's own id, which is not the network id
    have hsome := Option.mem_toList.mp hm
    rw [TopicStreams.joinTopic_joinGossip hsome, Option.some.injEq] at hjoin
    exact he (hjoin.trans h.good.networkId_eq)
  | joinNetworkTick draws =>
    simp only [engineActorStep, start] at hstep
    exact settled_onNode hstep h.settled fun heq => NodeEvent.noConfusion heq
  | joinTopicsTick draws =>
    cases hstep
    exact Node.Settled.append h.settled h.settled_tryJoin
  | neighborUp topicId peer remoteInfo bytes =>
    simp only [engineActorStep, onPeerConnected] at hstep
    split at hstep
    · exact settled_onNode hstep h.settled fun heq => NodeEvent.noConfusion heq
    · cases hstep
      exact h.settled
  | topicAnnouncement publicKey topicIds draws =>
    cases hstep
    -- the announcement's joins are those of `try_join_pending_gossips`, or none
    obtain ⟨msgs, hnode, hmsgs⟩ := onTopicAnnouncement_node (s := s) publicKey topicIds draws
    rw [hnode]
    refine Node.Settled.append h.settled fun m hm => ?_
    rcases hmsgs with rfl | rfl
    · cases hm
    · exact h.settled_tryJoin m hm
  | gossipMessage topicId bytes deliveredFrom =>
    simp only [engineActorStep, onGossipMessage] at hstep
    split at hstep
    · cases hstep
      exact h.settled
    · rw [(onStreams_eq_ok hstep).1]
      exact h.settled
  | session msg =>
    simp only [engineActorStep, onSession] at hstep
    split at hstep
    · cases hstep
      exact h.settled
    · rw [(onStreams_eq_ok hstep).1]
      exact h.settled
  | interfaceChange => exact absurd trivial he
  | announceTick bytes => exact settled_onNode hstep h.settled fun heq => NodeEvent.noConfusion heq
  | engineRecv => exact settled_onNode hstep h.settled fun heq => NodeEvent.noConfusion heq
  | gossipRecv => exact settled_onNode hstep h.settled fun heq => NodeEvent.noConfusion heq
  | joinNext i joined => exact settled_onNode hstep h.settled fun heq => NodeEvent.noConfusion heq

/-- Every step that does not unsettle keeps a state calm. -/
theorem Calm.engineActorStep (h : s.Calm networkId bootstrap) {e : EngineEvent T}
    (he : ¬Unsettles networkId e) (hstep : P2panda.Net.engineActorStep s e = .ok s') :
    s'.Calm networkId bootstrap := by
  have hnet := h.good.networkId_eq
  refine ⟨h.good.engineActorStep hstep, h.settled_engineActorStep he hstep, ?_, ?_, ?_⟩ <;>
    rcases engineActorStep_streams hstep with hsame | ⟨c, hcall, hjoin, hsub⟩
  · exact hsame ▸ h.wired
  · exact (h.wired.call c).1 _ hcall
  · exact hsame ▸ h.unjoined
  · exact TopicStreams.gossipJoined_call hcall (hnet ▸ hjoin) h.unjoined
  · exact hsame ▸ h.unpending
  · refine TopicStreams.gossipPending_call hcall (fun topic htopic hid => ?_) h.unjoined
      h.unpending
    obtain ⟨draws, bytes, rfl⟩ := hsub topic htopic
    exact he hid

/-- From a calm state only a sync message for a topic without streams panics. -/
theorem Calm.engineActorStep_error (h : s.Calm networkId bootstrap) {e : EngineEvent T}
    (he : ¬Unsettles networkId e) {err : String}
    (hstep : P2panda.Net.engineActorStep s e = .error err) :
    ∃ topic header payload deliveredFrom,
      e = .session (.syncMessage topic header payload deliveredFrom) ∧
        s.node.streams.topicToStream topic = none := by
  cases e with
  | addPeer nodeAddr accepted draws =>
    simp only [P2panda.Net.engineActorStep, addPeer, start] at hstep
    split at hstep
    · cases hstep
    · exact (not_settled_of_onNode_eq_error hstep h.settled).elim
  | subscribeTopic topic draws bytes =>
    simp only [P2panda.Net.engineActorStep, onSubscribe, onNode, nodeStep] at hstep
    cases hstep
  | joinNetworkTick draws =>
    simp only [P2panda.Net.engineActorStep, start] at hstep
    exact (not_settled_of_onNode_eq_error hstep h.settled).elim
  | joinTopicsTick | topicAnnouncement => cases hstep
  | neighborUp topicId peer remoteInfo bytes =>
    simp only [P2panda.Net.engineActorStep, onPeerConnected] at hstep
    split at hstep
    · exact (not_settled_of_onNode_eq_error hstep h.settled).elim
    · cases hstep
  | gossipMessage topicId bytes deliveredFrom =>
    simp only [P2panda.Net.engineActorStep, onGossipMessage] at hstep
    split at hstep
    · cases hstep
    · obtain ⟨_, _, _, _, hc, -⟩ := h.wired.call_error (onStreams_eq_error hstep)
      cases hc
  | session msg =>
    simp only [P2panda.Net.engineActorStep, onSession] at hstep
    split at hstep
    · cases hstep
    · next c hc =>
      obtain ⟨topic, header, payload, deliveredFrom, rfl, hnone⟩ :=
        h.wired.call_error (onStreams_eq_error hstep)
      exact ⟨topic, header, payload, deliveredFrom,
        congrArg _ (ToEngineActor.eq_syncMessage_of_streamsCall hc), hnone⟩
  | interfaceChange => exact absurd trivial he
  | announceTick bytes => exact (not_settled_of_onNode_eq_error hstep h.settled).elim
  | engineRecv => exact (not_settled_of_onNode_eq_error hstep h.settled).elim
  | gossipRecv => exact (not_settled_of_onNode_eq_error hstep h.settled).elim
  | joinNext i joined => exact (not_settled_of_onNode_eq_error hstep h.settled).elim

/-- `on_subscribe` leaves the streams as the subscription makes them: the announcement
that follows does not touch them. -/
theorem streams_onSubscribe {topic : T} {draws : Nat → Nat} {bytes : List UInt8}
    (h : s.onSubscribe topic draws bytes = .ok s') :
    s'.node.streams = s.node.streams.subscribe topic := by
  simp only [onSubscribe] at h
  have hnode := (onNode_eq_ok h).1
  simp only [nodeStep, Except.ok.injEq] at hnode
  rw [← hnode, Node.streams_sendToGossip]
  rfl

/-- A step keeps a topic's streams, and a subscription to the topic gives it some. -/
theorem topicToStream_engineActorStep {topic : T} {e : EngineEvent T}
    (hstep : P2panda.Net.engineActorStep s e = .ok s')
    (hs : s.node.streams.topicToStream topic ≠ none ∨
      ∃ draws bytes, e = .subscribeTopic topic draws bytes) :
    s'.node.streams.topicToStream topic ≠ none := by
  rcases hs with hs | ⟨draws, bytes, rfl⟩
  · rcases engineActorStep_streams hstep with hsame | ⟨c, hcall, -, -⟩
    · rw [hsame]
      exact hs
    · exact TopicStreams.topicToStream_ne_none_call hcall (.inl hs)
  · rw [streams_onSubscribe hstep]
    exact TopicStreams.topicToStream_ne_none_call rfl (.inr rfl)

/-- A topic subscribed to in a run has streams at its end. -/
theorem topicToStream_engineActorRun {topic : T} {events : List (EngineEvent T)}
    {draws : Nat → Nat} {bytes : List UInt8} (hmem : .subscribeTopic topic draws bytes ∈ events)
    (hrun : engineActorRun s events = .ok s') : s'.node.streams.topicToStream topic ≠ none := by
  obtain ⟨pre, post, rfl⟩ := List.append_of_mem hmem
  rw [engineActorRun, List.foldlM_append] at hrun
  obtain ⟨s₀, -, hrest⟩ := Except.bind_eq_ok.mp hrun
  rw [List.foldlM_cons] at hrest
  obtain ⟨s₁, hstep, hpost⟩ := Except.bind_eq_ok.mp hrest
  -- from the subscription on, every step keeps the topic's streams
  exact foldlM_invariant _ (fun t : Engine T => t.node.streams.topicToStream topic ≠ none) post
    (fun _ _ _ _ ht hstep' => topicToStream_engineActorStep hstep' (.inl ht)) post s₁ s'
    (fun _ h => h) (topicToStream_engineActorStep hstep (.inr ⟨draws, bytes, rfl⟩)) hpost

/-- A run that reaches a state without streams for a topic fails at a sync message for it,
whatever follows. -/
theorem engineActorRun_syncMessage_of_none {topic : T} {pre : List (EngineEvent T)}
    {header : List UInt8} {payload : Option (List UInt8)} {deliveredFrom : PublicKey}
    (hpre : engineActorRun s pre = .ok s') (hnone : s'.node.streams.topicToStream topic = none)
    (post : List (EngineEvent T)) :
    engineActorRun s (pre ++ .session (.syncMessage topic header payload deliveredFrom) :: post) =
      .error "consistent topic to stream id mapping" := by
  have hstep : P2panda.Net.engineActorStep s'
      (.session (.syncMessage topic header payload deliveredFrom)) =
        .error "consistent topic to stream id mapping" := by
    simp only [P2panda.Net.engineActorStep, onSession, ToEngineActor.streamsCall, onStreams,
      TopicStreams.call_onSyncMessage_of_none hnone]
    rfl
  rw [engineActorRun, List.foldlM_append]
  rw [engineActorRun] at hpre
  rw [hpre]
  show (P2panda.Net.engineActorStep s' _ >>= fun s => post.foldlM P2panda.Net.engineActorStep s) = _
  rw [hstep]
  rfl

end Engine

/-- A run from a new engine with no major interface change and no subscription to a topic
whose id is the network id never panics in the topic discovery: it ends settled, or stops at
a sync message for a topic it never subscribed to, where `on_sync_message` panics with
`consistent topic to stream id mapping`. -/
theorem engineActorRun_settled {T : Type} [DecidableEq T] [TopicId T] (networkId : Bytes32)
    (bootstrap sync : Bool) (events : List (EngineEvent T))
    (hevents : ∀ e ∈ events, e ≠ .interfaceChange)
    (htopics : ∀ topic draws bytes, EngineEvent.subscribeTopic topic draws bytes ∈ events →
      TopicId.id topic ≠ networkId) :
    (∃ s, engineActorRun (Engine.new networkId bootstrap sync) events = .ok s ∧ s.node.Settled) ∨
      ∃ pre topic header payload deliveredFrom post,
        events = pre ++ .session (.syncMessage topic header payload deliveredFrom) :: post ∧
        (∀ draws bytes, EngineEvent.subscribeTopic topic draws bytes ∉ pre) ∧
        engineActorRun (Engine.new networkId bootstrap sync) events =
          .error "consistent topic to stream id mapping" := by
  have hcalm : ∀ e ∈ events, ¬Engine.Unsettles networkId e := by
    intro e he hun
    cases e with
    | interfaceChange => exact hevents _ he rfl
    | subscribeTopic topic draws bytes => exact htopics topic draws bytes he hun
    | _ => exact hun
  cases hrun : engineActorRun (Engine.new networkId bootstrap sync : Engine T) events with
  | ok s =>
    exact .inl ⟨s, rfl, (foldlM_invariant _ (Engine.Calm networkId bootstrap) events
      (fun _ e _ he h hstep => h.engineActorStep (hcalm e he) hstep) events _ s (fun _ h => h)
      (Engine.calm_new sync) hrun).settled⟩
  | error err =>
    -- a calm run stops only at a sync message for a topic without streams
    obtain ⟨pre, e, post, t, rfl, hpre, -, hbad⟩ := foldlM_error_cause _
      (Engine.Calm networkId bootstrap)
      (fun t e => Engine.Unsettles networkId e ∨ ∃ topic header payload deliveredFrom,
        e = .session (.syncMessage topic header payload deliveredFrom) ∧
          t.node.streams.topicToStream topic = none)
      (fun _ _ _ h hbad hstep => h.engineActorStep (not_or.mp hbad).1 hstep)
      (fun _ _ _ h hbad hstep => hbad (.inr (h.engineActorStep_error (not_or.mp hbad).1 hstep)))
      events _ err (Engine.calm_new sync) hrun
    rcases hbad with hun | ⟨topic, header, payload, deliveredFrom, rfl, hnone⟩
    · exact absurd hun (hcalm e (List.mem_append_right _ List.mem_cons_self))
    exact .inr ⟨pre, topic, header, payload, deliveredFrom, post, rfl,
      fun draws bytes hmem => Engine.topicToStream_engineActorRun hmem hpre hnone,
      hrun.symm.trans (Engine.engineActorRun_syncMessage_of_none hpre hnone post)⟩

/-- A peer is added and announces `[0; 32]`, the engine subscribes to a topic of that id,
and the gossip actor joins the network-wide overlay, whose `GossipJoined` the engine takes. -/
def settledEvents : List (EngineEvent Unit) :=
  twoJoinsEvents ++ [.gossipRecv, .joinNext 0 true, .engineRecv]

theorem engineActorRun_settled_join :
    (∀ e ∈ settledEvents, e ≠ .interfaceChange) ∧
      (∀ topic draws bytes, EngineEvent.subscribeTopic topic draws bytes ∈ settledEvents →
        TopicId.id topic ≠ testNetworkId) ∧
      ∃ s, engineActorRun (Engine.new testNetworkId false false) settledEvents = .ok s ∧
        s.node.Settled := by
  have hevents : ∀ e ∈ settledEvents, e ≠ .interfaceChange := by
    simp [settledEvents, twoJoinsEvents]
  have htopics : ∀ topic draws bytes,
      EngineEvent.subscribeTopic topic draws bytes ∈ settledEvents →
        TopicId.id topic ≠ testNetworkId := by
    intro topic _ _ _
    cases topic
    decide
  refine ⟨hevents, htopics, ?_⟩
  rcases engineActorRun_settled testNetworkId false false settledEvents hevents htopics with
    hok | ⟨pre, topic, header, payload, deliveredFrom, post, hsplit, -, -⟩
  · exact hok
  · -- the run has no sync message
    have hmem : EngineEvent.session (.syncMessage topic header payload deliveredFrom) ∈
        settledEvents := hsplit ▸ List.mem_append_right _ List.mem_cons_self
    simp [settledEvents, twoJoinsEvents] at hmem

end P2panda.Net
