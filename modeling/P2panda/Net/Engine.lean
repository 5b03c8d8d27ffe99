import P2panda.Net.SyncSessions
import P2panda.Net.TopicJoins

/- The engine actor (`p2panda-net/src/engine/engine.rs`: the branches of `run_inner` and
   `on_actor_message`, `add_peer`, `on_subscribe`, `on_peer_connected`, `on_gossip_message`)
   with the address book that its topic discovery and its topic streams read, and the
   messages it sends the sync actor.

   `Node` is the topic discovery, the topic streams, the gossip actor and the two inboxes
   between them. The engine adds the address book, from which `random_set` draws the peers
   of every join (`start`, `join_gossip`), the joins the topic streams send (on a
   subscription, on the `join_topics_interval` tick, and on an announcement that shares a
   topic id), and what it sends the sync actor (`Discovery`, `Reset`), kept as the list of
   messages sent, or `none` when the engine has no sync actor. An event is one branch of the
   engine's or the gossip actor's loop, with what the model takes as input: whether the
   endpoint takes an address, the random draws, the encoded announcements, and the decoded
   ones. A panic is `.error` with its text.

   * `engineActorRun_streamsRun`: the engine drives its topic streams by calls of their
     model only, never the join of the network id, and a subscription only where it
     subscribes; so its streams stay `Wired` and `Subscribed` (`Engine.streams_facts`).
   * `Engine.Good`: every `Join` waiting in the gossip actor's inbox lists at most
     `JOIN_PEERS_SAMPLE_LEN` distinct peers, each known to the address book as interested in
     its topic id, and is the network-wide overlay's, with a peer unless the node is a
     bootstrap node, or the overlay of a subscribed topic's id, with a peer; every
     `Discovery` sent to the sync actor is of a subscribed topic and a peer known to be
     interested in its id. Every step keeps it (`Good.engineActorStep`), so every run does
     (`engineActorRun_joinsKnown`, `engineActorRun_discoveries`).
   * The hot paths: a peer added starts the topic discovery
     (`engineActorRun_addPeer_starts`); a `join_topics_interval` tick sends one `Join` for
     each pending topic id not yet joined that a known peer is interested in, and none
     other (`engineActorRun_joinTopicsTick`); an announcement that shares a topic id joins
     every announced overlay still pending, but only when the engine has a sync actor
     (`engineActorStep_announcement_joins`).

   Not modelled: the system events, `SubscribeEvents`, `KnownPeers`, `Shutdown`, the
   broadcast task of a stream, the gossip-ready signals, and the endpoint's own records of
   addresses. -/

namespace P2panda.Net

/-- The engine actor: the node of the topic discovery model, the address book, and the
messages sent to the sync actor, if there is one. -/
structure Engine (T : Type) where
  node : Node T
  addressBook : AddressBook
  syncActor : Option (List (ToSyncActor T))

/-- A branch of the engine's or the gossip actor's loop, with what the model takes as
input. -/
inductive EngineEvent (T : Type) where
  /-- `AddPeer`, with whether the endpoint took the address, and the draws of
  `random_set` -/
  | addPeer (nodeAddr : NodeAddress) (accepted : Bool) (draws : Nat → Nat)
  /-- `SubscribeTopic`, with the draws of `random_set` and the encoded announcement -/
  | subscribeTopic (topic : T) (draws : Nat → Nat) (bytes : List UInt8)
  /-- the `join_network_interval` tick, with the draws of `random_set` -/
  | joinNetworkTick (draws : Nat → Nat)
  /-- the `join_topics_interval` tick, with the draws of each `random_set` by topic id -/
  | joinTopicsTick (draws : Bytes32 → Nat → Nat)
  /-- `GossipNeighborUp`, with the address the endpoint knows for the peer, if any, and
  the encoded announcement -/
  | neighborUp (topicId : Bytes32) (peer : PublicKey) (remoteInfo : Option NodeAddress)
      (bytes : List UInt8)
  /-- a `GossipMessage` of the network-wide overlay that decodes to a verified
  announcement: its author and topic ids, with the draws of each `random_set` -/
  | topicAnnouncement (publicKey : PublicKey) (topicIds : List Bytes32)
      (draws : Bytes32 → Nat → Nat)
  /-- any other `GossipMessage` -/
  | gossipMessage (topicId : Bytes32) (bytes : List UInt8) (deliveredFrom : PublicKey)
  /-- a message of a sync session -/
  | session (msg : ToEngineActor T)
  /-- a major network interface change -/
  | interfaceChange
  /-- the `announce_topics_interval` tick, with the encoded announcement -/
  | announceTick (bytes : List UInt8)
  /-- the engine takes the next `GossipJoined` of its inbox -/
  | engineRecv
  /-- the gossip actor takes the next message of its inbox -/
  | gossipRecv
  /-- the `i`-th running join finishes, joined or failed -/
  | joinNext (i : Nat) (joined : Bool)

namespace Engine

variable {T : Type}

/-- `Engine::new`, with a sync actor or without. -/
def new (networkId : Bytes32) (bootstrap sync : Bool) : Engine T :=
  ⟨.new networkId bootstrap, .new networkId, if sync then some [] else none⟩

/-- A step of the node, with the address book and the sync actor as they are. -/
def onNode (s : Engine T) (e : NodeEvent) : Except String (Engine T) :=
  (nodeStep s.node e).map fun node => { s with node }

/-- The peers `start` joins with: `random_set(network_id, JOIN_PEERS_SAMPLE_LEN)`. -/
def startPeers (s : Engine T) (draws : Nat → Nat) : List PublicKey :=
  s.addressBook.randomSet draws s.node.discovery.networkId joinPeersSampleLen

/-- The topic discovery's `start`. -/
def start (s : Engine T) (draws : Nat → Nat) : Except String (Engine T) :=
  s.onNode (.start (s.startPeers draws))

/-- `add_peer`: an address the endpoint refuses is not added. -/
def addPeer (s : Engine T) (nodeAddr : NodeAddress) (accepted : Bool) (draws : Nat → Nat) :
    Except String (Engine T) :=
  if !accepted then .ok s
  else { s with addressBook := s.addressBook.addPeer nodeAddr }.start draws

/-- `on_peer_connected`: the peer is interested in the topic, and is added under the address
the endpoint knows for it; a neighbour in the network-wide overlay is sent the node's
topics. -/
def onPeerConnected (s : Engine T) (topicId : Bytes32) (peer : PublicKey)
    (remoteInfo : Option NodeAddress) (bytes : List UInt8) : Except String (Engine T) :=
  let addressBook := s.addressBook.addTopicId peer topicId
  let s := { s with
    addressBook :=
      match remoteInfo with
      | some nodeAddr => addressBook.addPeer nodeAddr
      | none => addressBook }
  if topicId = s.node.discovery.networkId then s.onNode (.announce bytes) else .ok s

/-- What the topic streams send to the gossip actor. -/
def sendToGossip (s : Engine T) (msgs : List ToGossipActor) : Engine T :=
  { s with node := { s.node with gossipInbox := s.node.gossipInbox ++ msgs } }

/-- What is sent to the sync actor, if there is one. -/
def sendToSync (s : Engine T) (msgs : List (ToSyncActor T)) : Engine T :=
  { s with syncActor := s.syncActor.map (· ++ msgs) }

/-- The engine with other topic streams. -/
def setStreams (s : Engine T) (streams : TopicStreams T) : Engine T :=
  { s with node := { s.node with streams } }

variable [TopicId T]

/-- The part of the topic discovery's `on_gossip_message` that follows the decoding: the
author is interested in every topic id it announced. Then the topic streams tell the sync
actor and join on the hot path (`on_discovered_topic_ids`). -/
def onTopicAnnouncement (s : Engine T) (publicKey : PublicKey) (topicIds : List Bytes32)
    (draws : Bytes32 → Nat → Nat) : Engine T :=
  let s := { s with
    addressBook := topicIds.foldl (fun ab topicId => ab.addTopicId publicKey topicId)
      s.addressBook }
  let sent := s.node.streams.onDiscoveredTopicIds s.syncActor.isSome s.addressBook draws
    topicIds publicKey
  (s.sendToSync sent.1).sendToGossip sent.2

/-- The `join_topics_interval` tick: `try_join_pending_gossips`. -/
def joinTopics (s : Engine T) (draws : Bytes32 → Nat → Nat) : Engine T :=
  s.sendToGossip (s.node.streams.tryJoinPendingGossips s.addressBook draws)

variable [DecidableEq T]

/-- A call of the topic streams. -/
def onStreams (s : Engine T) (c : StreamsCall T) : Except String (Engine T) :=
  (s.node.streams.call c).map s.setStreams

/-- `on_subscribe`: the topic streams subscribe and, on the hot path, join the topic's
overlay; then the node's topics are announced. -/
def onSubscribe (s : Engine T) (topic : T) (draws : Nat → Nat) (bytes : List UInt8) :
    Except String (Engine T) :=
  let s := s.setStreams (s.node.streams.subscribe topic)
  (s.sendToGossip
    (s.node.streams.joinGossip s.addressBook draws (TopicId.id topic)).toList).onNode
    (.announce bytes)

/-- The engine's `on_gossip_message`: a message of the network-wide overlay that is not a
verified announcement is dropped with a warning; any other goes to the topic streams. -/
def onGossipMessage (s : Engine T) (topicId : Bytes32) (bytes : List UInt8)
    (deliveredFrom : PublicKey) : Except String (Engine T) :=
  if topicId = s.node.discovery.networkId then .ok s
  else s.onStreams (.onGossipMessage topicId bytes deliveredFrom)

/-- A message of a sync session: `on_sync_start` does nothing to the topic streams. -/
def onSession (s : Engine T) (msg : ToEngineActor T) : Except String (Engine T) :=
  match msg.streamsCall with
  | none => .ok s
  | some c => s.onStreams c

/-- The interface-change branch of `run_inner`, which also sends the sync actor a
`Reset`; it runs only while the engine's inbox is empty. -/
def onInterfaceChange (s : Engine T) : Except String (Engine T) :=
  if s.node.engineInbox = [] then (s.sendToSync [.reset]).onNode .interfaceChange else .ok s

end Engine

def engineActorStep {T : Type} [DecidableEq T] [TopicId T] (s : Engine T) :
    EngineEvent T → Except String (Engine T)
  | .addPeer nodeAddr accepted draws => s.addPeer nodeAddr accepted draws
  | .subscribeTopic topic draws bytes => s.onSubscribe topic draws bytes
  | .joinNetworkTick draws => s.start draws
  | .joinTopicsTick draws => .ok (s.joinTopics draws)
  | .neighborUp topicId peer remoteInfo bytes => s.onPeerConnected topicId peer remoteInfo bytes
  | .topicAnnouncement publicKey topicIds draws =>
    .ok (s.onTopicAnnouncement publicKey topicIds draws)
  | .gossipMessage topicId bytes deliveredFrom => s.onGossipMessage topicId bytes deliveredFrom
  | .session msg => s.onSession msg
  | .interfaceChange => s.onInterfaceChange
  | .announceTick bytes => s.onNode (.announce bytes)
  | .engineRecv => s.onNode .engineRecv
  | .gossipRecv => s.onNode .gossipRecv
  | .joinNext i joined => s.onNode (.joinNext i joined)

def engineActorRun {T : Type} [DecidableEq T] [TopicId T] (s : Engine T)
    (events : List (EngineEvent T)) : Except String (Engine T) :=
  events.foldlM engineActorStep s

/-! ## What each part of a step does -/

namespace Engine

variable {T : Type} {s s' : Engine T}

@[simp] theorem node_sendToGossip (msgs : List ToGossipActor) :
    (s.sendToGossip msgs).node = { s.node with gossipInbox := s.node.gossipInbox ++ msgs } := rfl

@[simp] theorem addressBook_sendToGossip (msgs : List ToGossipActor) :
    (s.sendToGossip msgs).addressBook = s.addressBook := rfl

@[simp] theorem syncActor_sendToGossip (msgs : List ToGossipActor) :
    (s.sendToGossip msgs).syncActor = s.syncActor := rfl

@[simp] theorem node_sendToSync (msgs : List (ToSyncActor T)) :
    (s.sendToSync msgs).node = s.node := rfl

@[simp] theorem addressBook_sendToSync (msgs : List (ToSyncActor T)) :
    (s.sendToSync msgs).addressBook = s.addressBook := rfl

@[simp] theorem syncActor_sendToSync (msgs : List (ToSyncActor T)) :
    (s.sendToSync msgs).syncActor = s.syncActor.map (· ++ msgs) := rfl

@[simp] theorem node_setStreams (streams : TopicStreams T) :
    (s.setStreams streams).node = { s.node with streams } := rfl

@[simp] theorem addressBook_setStreams (streams : TopicStreams T) :
    (s.setStreams streams).addressBook = s.addressBook := rfl

@[simp] theorem syncActor_setStreams (streams : TopicStreams T) :
    (s.setStreams streams).syncActor = s.syncActor := rfl

theorem onNode_eq_ok {e : NodeEvent} (h : s.onNode e = .ok s') :
    nodeStep s.node e = .ok s'.node ∧ s'.addressBook = s.addressBook ∧
      s'.syncActor = s.syncActor := by
  unfold onNode at h
  cases hstep : nodeStep s.node e with
  | error err =>
    rw [hstep] at h
    cases h
  | ok node =>
    rw [hstep] at h
    cases h
    exact ⟨rfl, rfl, rfl⟩

theorem onStreams_eq_ok [DecidableEq T] [TopicId T] {c : StreamsCall T}
    (h : s.onStreams c = .ok s') :
    s' = s.setStreams s'.node.streams ∧ s.node.streams.call c = .ok s'.node.streams := by
  unfold onStreams at h
  cases hcall : s.node.streams.call c with
  | error err =>
    rw [hcall] at h
    cases h
  | ok streams =>
    rw [hcall] at h
    cases h
    exact ⟨rfl, rfl⟩

end Engine

/-! ### The node's steps -/

namespace TopicDiscovery

/-- `start` sends a `Join` of the network id with its peers, and only when there are some
or the node is a bootstrap node; the discovery is then pending. -/
theorem start_eq_some {d : TopicDiscovery} {peers : List PublicKey} {m : ToGossipActor}
    (h : (d.start peers).2 = some m) :
    m = .join d.networkId peers ∧ (d.start peers).1 = { d with status := .pending } ∧
      (peers ≠ [] ∨ d.bootstrap = true) := by
  unfold start at h ⊢
  by_cases hbusy : (!d.bootstrap && d.status != .idle) = true
  · rw [if_pos hbusy] at h
    cases h
  · by_cases hguard : (!peers.isEmpty || d.bootstrap) = true
    · rw [if_neg hbusy, if_pos hguard] at h ⊢
      cases h
      refine ⟨rfl, rfl, ?_⟩
      simp only [Bool.or_eq_true, Bool.not_eq_true', List.isEmpty_eq_false_iff] at hguard
      exact hguard
    · rw [if_neg hbusy, if_neg hguard] at h
      cases h

/-- With peers to join, `start` leaves the discovery pending or as it was, not idle. -/
theorem start_status_ne_idle (d : TopicDiscovery) {peers : List PublicKey} (hpeers : peers ≠ []) :
    (d.start peers).1.status ≠ .idle := by
  unfold start
  split
  · next hbusy =>
    simp only [Bool.and_eq_true, Bool.not_eq_true', bne_iff_ne, ne_eq] at hbusy
    exact hbusy.2
  · split
    · simp
    · next hguard =>
      simp only [Bool.or_eq_true, Bool.not_eq_true', List.isEmpty_eq_false_iff, not_or] at hguard
      exact absurd hpeers hguard.1

end TopicDiscovery

namespace Node

variable {T : Type} {s s' : Node T} {e : NodeEvent}

/-- A step changes the discovery's status only. -/
theorem discovery_nodeStep (h : nodeStep s e = .ok s') :
    s'.discovery = { s.discovery with status := s'.discovery.status } := by
  cases e with
  | start peers =>
    simp only [nodeStep, Except.ok.injEq] at h
    subst h
    rcases TopicDiscovery.start_cases s.discovery peers with hstart | hstart <;>
      simp [hstart]
  | interfaceChange =>
    simp only [nodeStep] at h
    split at h <;> cases h <;> rfl
  | announce bytes =>
    simp only [nodeStep, Except.ok.injEq] at h
    subst h
    simp
  | engineRecv =>
    simp only [nodeStep] at h
    split at h
    · cases h
      rfl
    · simp only [onGossipJoined] at h
      split at h
      · rcases TopicDiscovery.onGossipJoined_cases s.discovery with ⟨-, hd⟩ | ⟨-, hd⟩ <;>
          rw [hd] at h <;> cases h
        rfl
      · cases h
        rfl
  | gossipRecv =>
    simp only [nodeStep] at h
    split at h <;> cases h <;> rfl
  | joinNext i joined =>
    simp only [nodeStep] at h
    split at h <;> cases h <;> rfl

/-- What a step does to the topic streams: nothing, the rejoin of the interface change, or
the join of a topic id other than the network id. -/
theorem streams_nodeStep (h : nodeStep s e = .ok s') :
    s'.streams = s.streams ∨ s'.streams = s.streams.moveJoinedToPending ∨
      ∃ topicId, topicId ≠ s.discovery.networkId ∧
        s'.streams = s.streams.onGossipJoined topicId := by
  cases e with
  | start peers =>
    simp only [nodeStep, Except.ok.injEq] at h
    subst h
    exact .inl (by simp)
  | interfaceChange =>
    simp only [nodeStep] at h
    split at h <;> cases h
    · exact .inr (.inl rfl)
    · exact .inl rfl
  | announce bytes =>
    simp only [nodeStep, Except.ok.injEq] at h
    subst h
    exact .inl (by simp)
  | engineRecv =>
    simp only [nodeStep] at h
    split at h
    · cases h
      exact .inl rfl
    · next topicId rest _ =>
      simp only [onGossipJoined] at h
      split at h
      · -- the network-wide overlay's join goes to the discovery
        rcases TopicDiscovery.onGossipJoined_cases s.discovery with ⟨-, hd⟩ | ⟨-, hd⟩ <;>
          rw [hd] at h <;> cases h
        exact .inl rfl
      · next hnet =>
        cases h
        exact .inr (.inr ⟨topicId, hnet, rfl⟩)
  | gossipRecv =>
    simp only [nodeStep] at h
    split at h <;> cases h <;> exact .inl rfl
  | joinNext i joined =>
    simp only [nodeStep] at h
    split at h <;> cases h <;> exact .inl rfl

theorem gossipInbox_start {peers : List PublicKey} (h : nodeStep s (.start peers) = .ok s') :
    s'.gossipInbox = s.gossipInbox ++ (s.discovery.start peers).2.toList := by
  simp only [nodeStep, Except.ok.injEq] at h
  subst h
  cases (s.discovery.start peers).2 <;> simp [Node.sendToGossip]

/-- A step other than `start` adds no `Join` to the gossip actor's inbox. -/
theorem mem_gossipInbox_nodeStep (h : nodeStep s e = .ok s') (hstart : ∀ peers, e ≠ .start peers) :
    ∀ m ∈ s'.gossipInbox, m ∈ s.gossipInbox ∨ m.joinTopic = none := by
  intro m hm
  cases e with
  | start peers => exact absurd rfl (hstart peers)
  | interfaceChange =>
    simp only [nodeStep] at h
    split at h <;> cases h
    · simp only [onInterfaceChange, List.mem_append, List.mem_singleton] at hm
      rcases hm with hm | rfl
      · exact .inl hm
      · exact .inr rfl
    · exact .inl hm
  | announce bytes =>
    simp only [nodeStep, Except.ok.injEq] at h
    subst h
    cases hsent : s.discovery.announce bytes with
    | none => exact .inl (by simpa [hsent, sendToGossip] using hm)
    | some sent =>
      simp only [hsent, sendToGossip, List.mem_append, List.mem_singleton] at hm
      rcases hm with hm | rfl
      · exact .inl hm
      · exact .inr (TopicDiscovery.joinTopic_announce s.discovery bytes m hsent)
  | engineRecv =>
    simp only [nodeStep] at h
    split at h
    · cases h
      exact .inl hm
    · simp only [onGossipJoined] at h
      split at h
      · rcases TopicDiscovery.onGossipJoined_cases s.discovery with ⟨-, hd⟩ | ⟨-, hd⟩ <;>
          rw [hd] at h <;> cases h
        exact .inl hm
      · cases h
        exact .inl hm
  | gossipRecv =>
    simp only [nodeStep] at h
    split at h <;> cases h
    · exact .inl hm
    · next rest hinbox => exact .inl (by rw [hinbox]; exact List.mem_cons_of_mem _ hm)
  | joinNext i joined =>
    simp only [nodeStep] at h
    split at h <;> cases h <;> exact .inl hm

end Node

/-! ## The engine drives its topic streams -/

namespace Engine

variable {T : Type} [DecidableEq T] [TopicId T] {s s' : Engine T}

/-- The streams after a step are the streams before it, or after one call of theirs that is
not the join of `networkId`, and a subscription only to a topic `subscribes` allows. -/
def StreamsStep (networkId : Bytes32) (subscribes : T → Prop) (streams streams' : TopicStreams T) :
    Prop :=
  streams' = streams ∨ ∃ c, streams.call c = .ok streams' ∧ c ≠ .onGossipJoined networkId ∧
    ∀ topic, c = .subscribe topic → subscribes topic

theorem StreamsStep.call {networkId : Bytes32} {subscribes : T → Prop} {c : StreamsCall T}
    {streams streams' : TopicStreams T} (h : streams.call c = .ok streams') (hc : c.routes = true) :
    StreamsStep networkId subscribes streams streams' := by
  refine .inr ⟨c, h, fun heq => ?_, fun topic heq => ?_⟩ <;> subst heq <;> cases hc

theorem streamsStep_onNode {e : NodeEvent} (subscribes : T → Prop) (h : s.onNode e = .ok s') :
    StreamsStep s.node.discovery.networkId subscribes s.node.streams s'.node.streams := by
  obtain ⟨hnode, -, -⟩ := onNode_eq_ok h
  rcases Node.streams_nodeStep hnode with hsame | hmove | ⟨topicId, hnet, hjoined⟩
  · exact .inl hsame
  · exact .inr ⟨.moveJoinedToPending, by rw [hmove]; rfl, (fun h => by cases h),
    (fun _ h => by cases h)⟩
  · refine .inr ⟨.onGossipJoined topicId, by rw [hjoined]; rfl, ?_,
    (fun _ h => by cases h)⟩
    intro heq
    cases heq
    exact hnet rfl

theorem streamsStep_onStreams {c : StreamsCall T} (subscribes : T → Prop) (hc : c.routes = true)
    (h : s.onStreams c = .ok s') :
    StreamsStep s.node.discovery.networkId subscribes s.node.streams s'.node.streams :=
  StreamsStep.call (onStreams_eq_ok h).2 hc

end Engine

/-- Every sync message is a call that routes. -/
theorem ToEngineActor.routes_streamsCall {T : Type} {msg : ToEngineActor T} {c : StreamsCall T}
    (h : msg.streamsCall = some c) : c.routes = true := by
  cases msg <;> simp only [ToEngineActor.streamsCall, Option.some.injEq, reduceCtorEq] at h <;>
    subst h <;> rfl

open Engine in
/-- What a step of the engine does to its topic streams: at most one call of theirs, never
the join of the network id, and a subscription only where the step subscribes. -/
theorem engineActorStep_streams {T : Type} [DecidableEq T] [TopicId T] {s s' : Engine T}
    {e : EngineEvent T} (h : engineActorStep s e = .ok s') :
    StreamsStep s.node.discovery.networkId
      (fun topic => ∃ draws bytes, e = .subscribeTopic topic draws bytes)
      s.node.streams s'.node.streams := by
  cases e with
  | addPeer nodeAddr accepted draws =>
    simp only [engineActorStep, addPeer] at h
    split at h
    · cases h
      exact .inl rfl
    · have hstreams := streamsStep_onNode
        (fun topic => ∃ d b, EngineEvent.addPeer nodeAddr accepted draws =
          .subscribeTopic topic d b) h
      exact hstreams
  | subscribeTopic topic draws bytes =>
    simp only [engineActorStep, onSubscribe] at h
    have hnode := (onNode_eq_ok h).1
    -- `announce` leaves the streams as the subscription made them
    simp only [nodeStep, Except.ok.injEq] at hnode
    refine .inr ⟨.subscribe topic, ?_, (fun h => by cases h), fun topic' heq => ?_⟩
    · rw [← hnode]
      simp
      rfl
    · cases heq
      exact ⟨draws, bytes, rfl⟩
  | joinNetworkTick draws =>
    simp only [engineActorStep, start] at h
    exact streamsStep_onNode _ h
  | joinTopicsTick draws =>
    cases h
    exact .inl rfl
  | neighborUp topicId peer remoteInfo bytes =>
    simp only [engineActorStep, onPeerConnected] at h
    split at h
    · have hstreams := streamsStep_onNode
        (fun topic => ∃ d b, EngineEvent.neighborUp topicId peer remoteInfo bytes =
          .subscribeTopic topic d b) h
      exact hstreams
    · cases h
      exact .inl rfl
  | topicAnnouncement publicKey topicIds draws =>
    cases h
    exact .inl rfl
  | gossipMessage topicId bytes deliveredFrom =>
    simp only [engineActorStep, onGossipMessage] at h
    split at h
    · cases h
      exact .inl rfl
    · exact streamsStep_onStreams _ rfl h
  | session msg =>
    simp only [engineActorStep, onSession] at h
    split at h
    · cases h
      exact .inl rfl
    · next c hc => exact streamsStep_onStreams _ (ToEngineActor.routes_streamsCall hc) h
  | interfaceChange =>
    simp only [engineActorStep, onInterfaceChange] at h
    split at h
    · have hstreams := streamsStep_onNode
        (fun topic => ∃ draws bytes, (EngineEvent.interfaceChange : EngineEvent T) =
          .subscribeTopic topic draws bytes) h
      exact hstreams
    · cases h
      exact .inl rfl
  | announceTick bytes => exact streamsStep_onNode _ h
  | engineRecv => exact streamsStep_onNode _ h
  | gossipRecv => exact streamsStep_onNode _ h
  | joinNext i joined => exact streamsStep_onNode _ h

/-! ## The joins and the discoveries the engine sends -/

namespace Engine

variable {T : Type} [TopicId T]

/-- What a `Join` waiting in the gossip actor's inbox is: its peers are at most
`JOIN_PEERS_SAMPLE_LEN`, distinct and known to the address book as interested in its topic
id; it is the network-wide overlay's, with a peer unless the node is a bootstrap node, or the
overlay of a subscribed topic's id, with a peer. -/
def JoinOk (networkId : Bytes32) (bootstrap : Bool) (s : Engine T) (topicId : Bytes32)
    (peers : List PublicKey) : Prop :=
  JoinPeers s.addressBook topicId peers ∧
    (topicId = networkId ∧ (peers ≠ [] ∨ bootstrap = true) ∨
      topicId ∈ s.node.streams.topicIds ∧ peers ≠ [])

/-- What a `Discovery` sent to the sync actor is: of a subscribed topic, and of a peer known
to be interested in its id. -/
def DiscoveryOk (s : Engine T) (peer : PublicKey) (topic : T) : Prop :=
  topic ∈ s.node.streams.topics ∧ s.addressBook.Interested peer (TopicId.id topic)

variable {networkId : Bytes32} {bootstrap : Bool} {s s' : Engine T}

theorem JoinOk.mono {topicId : Bytes32} {peers : List PublicKey}
    (h : s.JoinOk networkId bootstrap topicId peers)
    (hab : ∀ p t, s.addressBook.Interested p t → s'.addressBook.Interested p t)
    (htopics : ∀ topic ∈ s.node.streams.topics, topic ∈ s'.node.streams.topics) :
    s'.JoinOk networkId bootstrap topicId peers := by
  obtain ⟨hpeers, hoverlay | ⟨hid, hne⟩⟩ := h
  · exact ⟨hpeers.mono hab, .inl hoverlay⟩
  · obtain ⟨topic, htopic, rfl⟩ := List.mem_map.mp hid
    exact ⟨hpeers.mono hab, .inr ⟨List.mem_map_of_mem (htopics topic htopic), hne⟩⟩

theorem DiscoveryOk.mono {peer : PublicKey} {topic : T} (h : s.DiscoveryOk peer topic)
    (hab : ∀ p t, s.addressBook.Interested p t → s'.addressBook.Interested p t)
    (htopics : ∀ topic ∈ s.node.streams.topics, topic ∈ s'.node.streams.topics) :
    s'.DiscoveryOk peer topic :=
  ⟨htopics topic h.1, hab peer _ h.2⟩

/-- The invariant of the runs from `Engine.new networkId bootstrap sync`: the discovery keeps
its network id and bootstrap flag, the address book has the same network id, and every
`Join` waiting in the gossip actor's inbox and every `Discovery` sent to the sync actor is
as it should be. -/
structure Good (networkId : Bytes32) (bootstrap : Bool) (s : Engine T) : Prop where
  networkId_eq : s.node.discovery.networkId = networkId
  bootstrap_eq : s.node.discovery.bootstrap = bootstrap
  agrees : s.addressBook.networkId = networkId
  joins : ∀ topicId peers, ToGossipActor.join topicId peers ∈ s.node.gossipInbox →
    s.JoinOk networkId bootstrap topicId peers
  discoveries : ∀ sent, s.syncActor = some sent → ∀ peer topic,
    ToSyncActor.discovery peer topic ∈ sent → s.DiscoveryOk peer topic

theorem good_new (sync : Bool) : (new networkId bootstrap sync : Engine T).Good networkId bootstrap where
  networkId_eq := rfl
  bootstrap_eq := rfl
  agrees := rfl
  joins := fun _ _ h => absurd h List.not_mem_nil
  discoveries := fun sent hsent _ _ h => by
    cases sync <;> simp only [new, Bool.false_eq_true, ↓reduceIte, reduceCtorEq,
      Option.some.injEq] at hsent
    subst hsent
    exact absurd h List.not_mem_nil

/-- How a step keeps the invariant: it keeps the network id and the bootstrap flag, lets the
address book and the topics only grow, and every `Join` and `Discovery` it adds is as it
should be. -/
theorem Good.of_step (h : s.Good networkId bootstrap)
    (hdisc : s'.node.discovery = { s.node.discovery with status := s'.node.discovery.status })
    (hnet : s'.addressBook.networkId = s.addressBook.networkId)
    (hab : ∀ p t, s.addressBook.Interested p t → s'.addressBook.Interested p t)
    (htopics : ∀ topic ∈ s.node.streams.topics, topic ∈ s'.node.streams.topics)
    (hjoins : ∀ topicId peers, ToGossipActor.join topicId peers ∈ s'.node.gossipInbox →
      ToGossipActor.join topicId peers ∈ s.node.gossipInbox ∨
        s'.JoinOk networkId bootstrap topicId peers)
    (hsync : ∀ sent', s'.syncActor = some sent' → ∀ peer topic,
      ToSyncActor.discovery peer topic ∈ sent' →
        (∃ sent, s.syncActor = some sent ∧ ToSyncActor.discovery peer topic ∈ sent) ∨
          s'.DiscoveryOk peer topic) :
    s'.Good networkId bootstrap where
  networkId_eq := by
    rw [hdisc]
    exact h.networkId_eq
  bootstrap_eq := by
    rw [hdisc]
    exact h.bootstrap_eq
  agrees := hnet.trans h.agrees
  joins := fun topicId peers hm => by
    rcases hjoins topicId peers hm with hm | hok
    · exact (h.joins topicId peers hm).mono hab htopics
    · exact hok
  discoveries := fun sent' hsent' peer topic hm => by
    rcases hsync sent' hsent' peer topic hm with ⟨sent, hsent, hm⟩ | hok
    · exact (h.discoveries sent hsent peer topic hm).mono hab htopics
    · exact hok

/-- An address book with the same network id and at least the same interests keeps the
invariant. -/
theorem Good.grow (h : s.Good networkId bootstrap) (ab : AddressBook)
    (hnet : ab.networkId = s.addressBook.networkId)
    (hgrow : ∀ p t, s.addressBook.Interested p t → ab.Interested p t) :
    ({ s with addressBook := ab } : Engine T).Good networkId bootstrap :=
  h.of_step rfl hnet hgrow (fun _ h => h) (fun _ _ hm => .inl hm)
    (fun sent hsent _ _ hm => .inl ⟨sent, hsent, hm⟩)

/-- `Join`s the topic streams send keep the invariant when they are as they should be. -/
theorem Good.sendToGossip (h : s.Good networkId bootstrap) {msgs : List ToGossipActor}
    (hmsgs : ∀ topicId peers, ToGossipActor.join topicId peers ∈ msgs →
      s.JoinOk networkId bootstrap topicId peers) :
    (s.sendToGossip msgs).Good networkId bootstrap := by
  refine h.of_step rfl rfl (fun _ _ h => h) (fun _ h => h) (fun topicId peers hm => ?_)
    (fun sent hsent _ _ hm => .inl ⟨sent, hsent, hm⟩)
  rcases List.mem_append.mp hm with hm | hm
  · exact .inl hm
  · exact .inr (hmsgs topicId peers hm)

/-- Messages to the sync actor keep the invariant when their `Discovery`s are as they
should be. -/
theorem Good.sendToSync (h : s.Good networkId bootstrap) {msgs : List (ToSyncActor T)}
    (hmsgs : ∀ peer topic, ToSyncActor.discovery peer topic ∈ msgs → s.DiscoveryOk peer topic) :
    (s.sendToSync msgs).Good networkId bootstrap := by
  refine h.of_step rfl rfl (fun _ _ h => h) (fun _ h => h) (fun _ _ hm => .inl hm)
    (fun sent' hsent' peer topic hm => ?_)
  obtain ⟨sent, hsent, rfl⟩ := Option.map_eq_some_iff.mp hsent'
  rcases List.mem_append.mp hm with hm | hm
  · exact .inl ⟨sent, hsent, hm⟩
  · exact .inr (hmsgs peer topic hm)

/-- A step of the node other than `start` keeps the invariant: it adds no join. -/
theorem Good.onNode (h : s.Good networkId bootstrap) {e : NodeEvent}
    (hstep : s.onNode e = .ok s') (hstart : ∀ peers, e ≠ .start peers) :
    s'.Good networkId bootstrap := by
  obtain ⟨hnode, hab, hsync⟩ := onNode_eq_ok hstep
  have htopics : s'.node.streams.topics = s.node.streams.topics := by
    rcases Node.streams_nodeStep hnode with hsame | hmove | ⟨topicId, -, hjoined⟩ <;>
      simp [*]
  refine h.of_step (Node.discovery_nodeStep hnode) (by rw [hab]) (fun _ _ hi => by rwa [hab])
    (fun _ ht => by rwa [htopics]) (fun topicId peers hm => ?_)
    (fun sent hsent _ _ hm => .inl ⟨sent, hsync ▸ hsent, hm⟩)
  rcases Node.mem_gossipInbox_nodeStep hnode hstart _ hm with hm | hm
  · exact .inl hm
  · cases hm

/-- `start` keeps the invariant: the peers it joins with are what `random_set` drew. -/
theorem Good.start (h : s.Good networkId bootstrap) {draws : Nat → Nat}
    (hstep : s.start draws = .ok s') : s'.Good networkId bootstrap := by
  obtain ⟨hnode, hab, hsync⟩ := onNode_eq_ok hstep
  have hstreams : s'.node.streams = s.node.streams := by
    simp only [nodeStep, Except.ok.injEq] at hnode
    rw [← hnode]
    simp
  refine h.of_step (Node.discovery_nodeStep hnode) (by rw [hab]) (fun _ _ hi => by rwa [hab])
    (fun _ ht => by rwa [hstreams]) (fun topicId peers hm => ?_)
    (fun sent hsent _ _ hm => .inl ⟨sent, hsync ▸ hsent, hm⟩)
  rw [Node.gossipInbox_start hnode, List.mem_append] at hm
  rcases hm with hm | hm
  · exact .inl hm
  · -- the new join: distinct peers of the network, as many as the sample allows
    obtain ⟨hjoin, -, hne⟩ := TopicDiscovery.start_eq_some (Option.mem_toList.mp hm)
    obtain ⟨rfl, rfl⟩ := ToGossipActor.join.injEq _ _ _ _ ▸ hjoin
    refine .inr ⟨?_, .inl ⟨h.networkId_eq, by rw [← h.bootstrap_eq]; exact hne⟩⟩
    rw [hab]
    exact joinPeers_randomSet _ draws _

/-- A call of the topic streams keeps the invariant: no call unsubscribes a topic. -/
theorem Good.onStreams [DecidableEq T] (h : s.Good networkId bootstrap) {c : StreamsCall T}
    (hstep : s.onStreams c = .ok s') : s'.Good networkId bootstrap := by
  obtain ⟨hs', hcall⟩ := onStreams_eq_ok hstep
  rw [hs']
  exact h.of_step rfl rfl (fun _ _ h => h) (fun _ ht => TopicStreams.topics_call hcall ht)
    (fun _ _ hm => .inl hm) (fun sent hsent _ _ hm => .inl ⟨sent, hsent, hm⟩)

/-- A subscription keeps the invariant: the streams gain a topic. -/
theorem Good.subscribe [DecidableEq T] (h : s.Good networkId bootstrap) (topic : T) :
    (s.setStreams (s.node.streams.subscribe topic)).Good networkId bootstrap :=
  h.of_step rfl rfl (fun _ _ h => h)
    (fun _ ht => by simp [TopicStreams.topics_subscribe, ht])
    (fun _ _ hm => .inl hm) (fun sent hsent _ _ hm => .inl ⟨sent, hsent, hm⟩)

/-- A `Join` of `join_gossip` is as it should be for a topic id of the streams. -/
theorem joinOk_joinGossip {draws : Nat → Nat} {topicId : Bytes32} {m : ToGossipActor}
    (hid : topicId ∈ s.node.streams.topicIds)
    (h : s.node.streams.joinGossip s.addressBook draws topicId = some m) :
    ∀ t peers, m = ToGossipActor.join t peers → s.JoinOk networkId bootstrap t peers := by
  intro t peers hm
  obtain ⟨-, hne, rfl⟩ := TopicStreams.joinGossip_eq_some.mp h
  obtain ⟨rfl, rfl⟩ := ToGossipActor.join.injEq _ _ _ _ ▸ hm
  exact ⟨joinPeers_randomSet _ draws _, .inr ⟨hid, hne⟩⟩

/-- The `Join`s of `try_join_pending_gossips` are as they should be. -/
theorem joinOk_tryJoinPendingGossips {draws : Bytes32 → Nat → Nat} :
    ∀ topicId peers, ToGossipActor.join topicId peers ∈
        s.node.streams.tryJoinPendingGossips s.addressBook draws →
      s.JoinOk networkId bootstrap topicId peers := by
  intro topicId peers hm
  obtain ⟨t, heq, hid, -, hne, -⟩ := TopicStreams.eq_join_of_mem_tryJoinPendingGossips hm
  obtain ⟨rfl, rfl⟩ := ToGossipActor.join.injEq _ _ _ _ ▸ heq
  exact ⟨joinPeers_randomSet _ (draws topicId) _, .inr ⟨hid, hne⟩⟩

theorem interested_foldl_addTopicId {p : PublicKey} {t : Bytes32} (q : PublicKey) :
    ∀ (topicIds : List Bytes32) (ab : AddressBook), ab.Interested p t →
      (topicIds.foldl (fun ab topicId => ab.addTopicId q topicId) ab).Interested p t
  | [], _, h => h
  | _ :: topicIds, _, h =>
    interested_foldl_addTopicId q topicIds _ (AddressBook.interested_addTopicId.mpr (.inl h))

/-- The author of an announcement is interested in every topic id it announced. -/
theorem interested_foldl_addTopicId_self (q : PublicKey) {t : Bytes32} :
    ∀ (topicIds : List Bytes32) (ab : AddressBook), t ∈ topicIds →
      (topicIds.foldl (fun ab topicId => ab.addTopicId q topicId) ab).Interested q t
  | [], _, h => absurd h List.not_mem_nil
  | t' :: topicIds, ab, h => by
    rcases List.mem_cons.mp h with rfl | h
    · exact interested_foldl_addTopicId q topicIds _
        (AddressBook.interested_addTopicId.mpr (.inr ⟨rfl, rfl⟩))
    · exact interested_foldl_addTopicId_self q topicIds _ h

theorem networkId_foldl_addTopicId (q : PublicKey) :
    ∀ (topicIds : List Bytes32) (ab : AddressBook),
      (topicIds.foldl (fun ab topicId => ab.addTopicId q topicId) ab).networkId = ab.networkId
  | [], _ => rfl
  | _ :: topicIds, _ => networkId_foldl_addTopicId q topicIds _

/-- An announcement appends to the gossip inbox nothing, or the joins of
`try_join_pending_gossips` over the address book that files its author under its topic ids. -/
theorem onTopicAnnouncement_node (publicKey : PublicKey) (topicIds : List Bytes32)
    (draws : Bytes32 → Nat → Nat) :
    ∃ msgs, (s.onTopicAnnouncement publicKey topicIds draws).node =
        { s.node with gossipInbox := s.node.gossipInbox ++ msgs } ∧
      (msgs = [] ∨ msgs = s.node.streams.tryJoinPendingGossips
        (topicIds.foldl (fun ab topicId => ab.addTopicId publicKey topicId) s.addressBook) draws) :=
  ⟨_, rfl, TopicStreams.onDiscoveredTopicIds_snd_cases _⟩

/-- An announcement keeps the invariant: its author is interested in the topic ids it
announced, and the streams tell the sync actor of it only for their own topics. -/
theorem Good.onTopicAnnouncement (h : s.Good networkId bootstrap) (publicKey : PublicKey)
    (topicIds : List Bytes32) (draws : Bytes32 → Nat → Nat) :
    (s.onTopicAnnouncement publicKey topicIds draws).Good networkId bootstrap := by
  -- the address book once the announced topic ids are filed under their author
  let ab := topicIds.foldl (fun ab topicId => ab.addTopicId publicKey topicId) s.addressBook
  let sent := s.node.streams.onDiscoveredTopicIds s.syncActor.isSome ab draws topicIds publicKey
  have hgood : ({ s with addressBook := ab } : Engine T).Good networkId bootstrap :=
    h.grow ab (networkId_foldl_addTopicId _ _ _) fun p t hi => interested_foldl_addTopicId _ _ _ hi
  have hcases : sent.2 = [] ∨ sent.2 = s.node.streams.tryJoinPendingGossips ab draws :=
    TopicStreams.onDiscoveredTopicIds_snd_cases _
  show (((({ s with addressBook := ab } : Engine T).sendToSync sent.1).sendToGossip sent.2)).Good
    networkId bootstrap
  refine (hgood.sendToSync fun peer topic hm => ?_).sendToGossip fun topicId peers hm => ?_
  · obtain ⟨-, topic', htopic, hid, heq⟩ := TopicStreams.mem_onDiscoveredTopicIds_fst.mp hm
    cases heq
    exact ⟨htopic, interested_foldl_addTopicId_self _ _ _ hid⟩
  · rcases hcases with hnil | htry
    · rw [hnil] at hm
      cases hm
    · rw [htry] at hm
      exact joinOk_tryJoinPendingGossips topicId peers hm

/-- `on_peer_connected`'s writes to the address book keep the invariant: the topic, and the
address when there is one. -/
theorem Good.connected (h : s.Good networkId bootstrap) (topicId : Bytes32) (peer : PublicKey)
    (remoteInfo : Option NodeAddress) :
    ({ s with
      addressBook :=
        match remoteInfo with
        | some nodeAddr => (s.addressBook.addTopicId peer topicId).addPeer nodeAddr
        | none => s.addressBook.addTopicId peer topicId } : Engine T).Good
      networkId bootstrap := by
  refine h.grow _ (by cases remoteInfo <;> simp) fun p t hi => ?_
  have hi' : (s.addressBook.addTopicId peer topicId).Interested p t :=
    AddressBook.interested_addTopicId.mpr (.inl hi)
  cases remoteInfo with
  | none => exact hi'
  | some nodeAddr => exact AddressBook.interested_addPeer.mpr (.inl hi')

/-- Every step keeps the invariant: the address book and the topics only grow, and every
join and discovery sent is one that `start`, `join_gossip` or `on_discovered_topic_ids`
makes. -/
theorem Good.engineActorStep [DecidableEq T] (h : s.Good networkId bootstrap)
    {e : EngineEvent T} (hstep : P2panda.Net.engineActorStep s e = .ok s') :
    s'.Good networkId bootstrap := by
  cases e with
  | addPeer nodeAddr accepted draws =>
    simp only [P2panda.Net.engineActorStep, addPeer] at hstep
    split at hstep
    · cases hstep
      exact h
    · exact (h.grow _ (AddressBook.networkId_addPeer _ _)
        fun p t hi => AddressBook.interested_addPeer.mpr (.inl hi)).start hstep
  | subscribeTopic topic draws bytes =>
    simp only [P2panda.Net.engineActorStep, onSubscribe] at hstep
    -- the hot-path join is of the new stream's topic id
    have hid : TopicId.id topic ∈ (s.node.streams.subscribe topic).topicIds := by
      simp [TopicStreams.topicIds, TopicStreams.topics_subscribe]
    refine ((h.subscribe topic).sendToGossip fun t peers hm => ?_).onNode hstep
      fun _ h => NodeEvent.noConfusion h
    exact joinOk_joinGossip hid (Option.mem_toList.mp hm) t peers rfl
  | joinNetworkTick draws => exact h.start hstep
  | joinTopicsTick draws =>
    cases hstep
    exact h.sendToGossip joinOk_tryJoinPendingGossips
  | neighborUp topicId peer remoteInfo bytes =>
    simp only [P2panda.Net.engineActorStep, onPeerConnected] at hstep
    have hgood := h.connected topicId peer remoteInfo
    split at hstep
    · exact hgood.onNode hstep fun _ h => NodeEvent.noConfusion h
    · cases hstep
      exact hgood
  | topicAnnouncement publicKey topicIds draws =>
    cases hstep
    exact h.onTopicAnnouncement publicKey topicIds draws
  | gossipMessage topicId bytes deliveredFrom =>
    simp only [P2panda.Net.engineActorStep, onGossipMessage] at hstep
    split at hstep
    · cases hstep
      exact h
    · exact h.onStreams hstep
  | session msg =>
    simp only [P2panda.Net.engineActorStep, onSession] at hstep
    split at hstep
    · cases hstep
      exact h
    · exact h.onStreams hstep
  | interfaceChange =>
    simp only [P2panda.Net.engineActorStep, onInterfaceChange] at hstep
    split at hstep
    · exact (h.sendToSync fun _ _ hm => by simp at hm).onNode hstep
        fun _ h => NodeEvent.noConfusion h
    · cases hstep
      exact h
  | announceTick bytes => exact h.onNode hstep fun _ h => NodeEvent.noConfusion h
  | engineRecv => exact h.onNode hstep fun _ h => NodeEvent.noConfusion h
  | gossipRecv => exact h.onNode hstep fun _ h => NodeEvent.noConfusion h
  | joinNext i joined => exact h.onNode hstep fun _ h => NodeEvent.noConfusion h

/-- Every run from a new engine keeps the invariant. -/
theorem good_engineActorRun [DecidableEq T] {sync : Bool} {events : List (EngineEvent T)}
    (hrun : engineActorRun (new networkId bootstrap sync) events = .ok s) :
    s.Good networkId bootstrap :=
  foldlM_invariant P2panda.Net.engineActorStep (Good networkId bootstrap) events
    (fun _ _ _ _ h hstep => h.engineActorStep hstep) events _ s (fun _ he => he) (good_new sync)
    hrun

/-- Right after a peer the endpoint takes is added, the discovery is not idle: the new peer
is in the network, so `random_set` draws at least one peer for `start`. -/
theorem Good.addPeer_status (h : s.Good networkId bootstrap) {nodeAddr : NodeAddress}
    {draws : Nat → Nat} (hstep : s.addPeer nodeAddr true draws = .ok s') :
    s'.node.discovery.status ≠ .idle := by
  simp only [addPeer, Bool.not_true, Bool.false_eq_true, ↓reduceIte] at hstep
  obtain ⟨hnode, -, -⟩ := onNode_eq_ok hstep
  have hinterested : (s.addressBook.addPeer nodeAddr).Interested nodeAddr.publicKey
      s.node.discovery.networkId :=
    AddressBook.interested_addPeer.mpr (.inr ⟨rfl, h.agrees.trans h.networkId_eq.symm⟩)
  have hpeers : ({ s with addressBook := s.addressBook.addPeer nodeAddr } : Engine T).startPeers
      draws ≠ [] :=
    (AddressBook.randomSet_ne_nil_iff (by decide)).mpr ⟨_, hinterested⟩
  simp only [nodeStep, Except.ok.injEq] at hnode
  rw [← hnode, Node.discovery_sendToGossip]
  exact TopicDiscovery.start_status_ne_idle _ hpeers

end Engine

/-! ## The topic streams of a run -/

section Streams

variable {T : Type} [DecidableEq T] [TopicId T] {networkId : Bytes32} {bootstrap sync : Bool}
  {events : List (EngineEvent T)} {s : Engine T}

/-- The topic streams of every run from a new engine are those of a run of their own calls
from new: none of them the join of the network id, and a subscription only to a topic the
engine was asked to subscribe to. -/
theorem engineActorRun_streamsRun
    (hrun : engineActorRun (Engine.new networkId bootstrap sync) events = .ok s) :
    ∃ calls, streamsRun .new calls = .ok s.node.streams ∧
      (∀ c ∈ calls, c ≠ .onGossipJoined networkId) ∧
      ∀ topic, StreamsCall.subscribe topic ∈ calls →
        ∃ draws bytes, EngineEvent.subscribeTopic topic draws bytes ∈ events := by
  -- each step of the engine is no call of the streams, or one, from a state of the invariant
  have hstep : ∀ (s : Engine T) (t : TopicStreams T) (e : EngineEvent T) (s' : Engine T),
      (t = s.node.streams ∧ s.Good networkId bootstrap) → engineActorStep s e = .ok s' →
      ∃ (bs : List (StreamsCall T)) (t' : TopicStreams T),
        (∀ c ∈ bs, c ≠ .onGossipJoined networkId ∧
          ∀ topic, c = .subscribe topic → ∃ draws bytes, e = .subscribeTopic topic draws bytes) ∧
        bs.foldlM TopicStreams.call t = .ok t' ∧
        (t' = s'.node.streams ∧ s'.Good networkId bootstrap) := by
    rintro s t e s' ⟨rfl, hgood⟩ hstep
    have hgood' := hgood.engineActorStep hstep
    rcases engineActorStep_streams hstep with hsame | ⟨c, hcall, hjoin, hsub⟩
    · exact ⟨[], _, fun _ h => absurd h List.not_mem_nil, rfl, hsame.symm, hgood'⟩
    · refine ⟨[c], _, fun c' hc' => ?_, by simp [hcall], rfl, hgood'⟩
      rw [List.mem_singleton] at hc'
      subst hc'
      exact ⟨hgood.networkId_eq ▸ hjoin, hsub⟩
  obtain ⟨calls, t, hcalls, hrun', rfl, -⟩ := foldlM_refines engineActorStep TopicStreams.call _ _
    hstep events _ _ s ⟨rfl, Engine.good_new sync⟩ hrun
  refine ⟨calls, hrun', fun c hc => ?_, fun topic hc => ?_⟩
  · obtain ⟨e, -, hjoin, -⟩ := hcalls c hc
    exact hjoin
  · obtain ⟨e, he, -, hsub⟩ := hcalls _ hc
    obtain ⟨draws, bytes, rfl⟩ := hsub topic rfl
    exact ⟨draws, bytes, he⟩

/-- The topic streams of every run are wired, keep the joined and pending topic ids among
their topics' ids, and have not joined the network id. -/
theorem streams_engineActorRun
    (hrun : engineActorRun (Engine.new networkId bootstrap sync) events = .ok s) :
    s.node.streams.Wired ∧ s.node.streams.Subscribed ∧
      s.node.streams.gossipJoined networkId = false := by
  obtain ⟨calls, hcalls, hjoin, -⟩ := engineActorRun_streamsRun hrun
  exact foldlM_invariant TopicStreams.call
    (fun st => st.Wired ∧ st.Subscribed ∧ st.gossipJoined networkId = false) calls
    (fun st c st' hc ⟨hw, hsub, hj⟩ hstep =>
      ⟨(hw.call c).1 st' hstep, hsub.call hstep, TopicStreams.gossipJoined_call hstep (hjoin c hc) hj⟩)
    calls .new _ (fun _ h => h) ⟨TopicStreams.wired_new, TopicStreams.subscribed_new, rfl⟩ hcalls

end Streams

/-! ## Over every run -/

deriving instance DecidableEq for ToSyncActor

theorem Bytes32.length_sevens : (List.replicate 32 (7 : UInt8)).length = 32 := rfl

/-- The network id `[7; 32]` of the source's `ensure_status_reset` test, the overlay
`[0; 32]` of its other tests, and a peer with no address. -/
def testNetworkId : Bytes32 := ⟨List.replicate 32 7, Bytes32.length_sevens⟩

def zeroTopicId : Bytes32 := ⟨List.replicate 32 0, Bytes32.length_zeros⟩

def samplePeerAddr : NodeAddress := ⟨⟨List.replicate 32 1, List.length_replicate⟩, [], none⟩

/-- Over every run from a new engine, every `Join` waiting in the gossip actor's inbox lists
at most `JOIN_PEERS_SAMPLE_LEN` distinct peers, each known to the address book as interested
in its topic id, and is the network-wide overlay's, with a peer unless the node is a
bootstrap node, or the overlay of a subscribed topic's id, with a peer. -/
theorem engineActorRun_joinsKnown {T : Type} [DecidableEq T] [TopicId T] (networkId : Bytes32)
    (bootstrap sync : Bool) (events : List (EngineEvent T)) {s : Engine T}
    (hrun : engineActorRun (Engine.new networkId bootstrap sync) events = .ok s) :
    ∀ topicId peers, ToGossipActor.join topicId peers ∈ s.node.gossipInbox →
      peers.Nodup ∧ peers.length ≤ joinPeersSampleLen ∧
        (∀ p ∈ peers, s.addressBook.Interested p topicId) ∧
        (topicId = networkId ∧ (peers ≠ [] ∨ bootstrap = true) ∨
          topicId ∈ s.node.streams.topicIds ∧ peers ≠ []) := by
  intro topicId peers hm
  obtain ⟨hpeers, hoverlay⟩ := (Engine.good_engineActorRun hrun).joins topicId peers hm
  exact ⟨hpeers.nodup, hpeers.length_le, hpeers.interested, hoverlay⟩

/-- A peer is added and announces the topic id `[0; 32]`, and the engine subscribes to a
topic of that id: it joins both overlays with the peer. -/
def twoJoinsEvents : List (EngineEvent Unit) :=
  [.addPeer samplePeerAddr true fun _ => 0,
    .topicAnnouncement samplePeerAddr.publicKey [zeroTopicId] fun _ _ => 0,
    .subscribeTopic () (fun _ => 0) []]

theorem engineActorRun_joinsKnown_addPeer :
    ∃ s : Engine Unit, engineActorRun (Engine.new testNetworkId false false) twoJoinsEvents = .ok s ∧
      s.node.gossipInbox = [.join testNetworkId [samplePeerAddr.publicKey],
        .join zeroTopicId [samplePeerAddr.publicKey]] ∧
      ∀ topicId peers, ToGossipActor.join topicId peers ∈ s.node.gossipInbox →
        peers.Nodup ∧ peers.length ≤ joinPeersSampleLen ∧
          (∀ p ∈ peers, s.addressBook.Interested p topicId) ∧
          (topicId = testNetworkId ∧ (peers ≠ [] ∨ false = true) ∨
            topicId ∈ s.node.streams.topicIds ∧ peers ≠ []) := by
  obtain ⟨s, hrun, hinbox⟩ := Except.map_eq_ok.mp
    (show (engineActorRun (Engine.new testNetworkId false false : Engine Unit)
        twoJoinsEvents).map (fun s => s.node.gossipInbox) =
        .ok [.join testNetworkId [samplePeerAddr.publicKey],
          .join zeroTopicId [samplePeerAddr.publicKey]] by decide +kernel)
  exact ⟨s, hrun, hinbox, engineActorRun_joinsKnown testNetworkId false false _ hrun⟩

/-- Over every run from a new engine, every `Discovery` sent to the sync actor names a topic
of a subscribed stream and a peer the address book knows to be interested in its id. -/
theorem engineActorRun_discoveries {T : Type} [DecidableEq T] [TopicId T] (networkId : Bytes32)
    (bootstrap sync : Bool) (events : List (EngineEvent T)) {s : Engine T}
    (hrun : engineActorRun (Engine.new networkId bootstrap sync) events = .ok s) :
    ∀ sent, s.syncActor = some sent → ∀ peer topic, ToSyncActor.discovery peer topic ∈ sent →
      topic ∈ s.node.streams.topics ∧ s.addressBook.Interested peer (TopicId.id topic) :=
  (Engine.good_engineActorRun hrun).discoveries

/-- The engine subscribes to a topic, and a peer announces its id. -/
def discoveryEvents : List (EngineEvent Unit) :=
  [.subscribeTopic () (fun _ => 0) [],
    .topicAnnouncement samplePeerAddr.publicKey [zeroTopicId] fun _ _ => 0]

theorem engineActorRun_discoveries_announced :
    ∃ s : Engine Unit, engineActorRun (Engine.new testNetworkId false true) discoveryEvents = .ok s ∧
      s.syncActor = some [.discovery samplePeerAddr.publicKey ()] ∧
      ∀ sent, s.syncActor = some sent → ∀ peer topic, ToSyncActor.discovery peer topic ∈ sent →
        topic ∈ s.node.streams.topics ∧ s.addressBook.Interested peer (TopicId.id topic) := by
  obtain ⟨s, hrun, hsync⟩ := Except.map_eq_ok.mp
    (show (engineActorRun (Engine.new testNetworkId false true : Engine Unit)
        discoveryEvents).map (fun s => s.syncActor) =
        .ok (some [.discovery samplePeerAddr.publicKey ()]) by decide +kernel)
  exact ⟨s, hrun, hsync, engineActorRun_discoveries testNetworkId false true _ hrun⟩

/-- The hot path of `add_peer` works: after every run from a new engine, adding a peer the
endpoint takes leaves the topic discovery not idle. -/
theorem engineActorRun_addPeer_starts {T : Type} [DecidableEq T] [TopicId T]
    (networkId : Bytes32) (bootstrap sync : Bool) (events : List (EngineEvent T))
    (nodeAddr : NodeAddress) (draws : Nat → Nat) {s : Engine T}
    (hrun : engineActorRun (Engine.new networkId bootstrap sync)
      (events ++ [.addPeer nodeAddr true draws]) = .ok s) :
    s.node.discovery.status ≠ .idle := by
  rw [engineActorRun, List.foldlM_append] at hrun
  obtain ⟨s₀, hrun₀, hlast⟩ := Except.bind_eq_ok.mp hrun
  have hgood := Engine.good_engineActorRun hrun₀
  obtain ⟨s₁, hstep, hpure⟩ := Except.bind_eq_ok.mp hlast
  cases hpure
  exact hgood.addPeer_status hstep

/-- A tick with an empty address book leaves a node that is not a bootstrap node idle; the
peer added after it starts the discovery. -/
theorem engineActorRun_addPeer_starts_after_idle :
    ∃ s₀ s : Engine Unit,
      engineActorRun (Engine.new testNetworkId false false) [.joinNetworkTick fun _ => 0] =
        .ok s₀ ∧
      s₀.node.discovery.status = .idle ∧
      engineActorRun (Engine.new testNetworkId false false)
        ([.joinNetworkTick fun _ => 0] ++ [.addPeer samplePeerAddr true fun _ => 0]) = .ok s ∧
      s.node.discovery.status ≠ .idle := by
  obtain ⟨s₀, hrun₀, hidle⟩ := Except.map_eq_ok.mp
    (show (engineActorRun (Engine.new testNetworkId false false : Engine Unit)
        [.joinNetworkTick fun _ => 0]).map (fun s => s.node.discovery.status) = .ok .idle by
      decide +kernel)
  obtain ⟨s, hrun⟩ := Except.exists_ok_of_toBool
    (x := engineActorRun (Engine.new testNetworkId false false : Engine Unit)
      ([.joinNetworkTick fun _ => 0] ++ [.addPeer samplePeerAddr true fun _ => 0]))
    (by decide +kernel)
  exact ⟨s₀, s, hrun₀, hidle, hrun,
    engineActorRun_addPeer_starts testNetworkId false false _ samplePeerAddr _ hrun⟩

/-- At every state a run from a new engine reaches, a `join_topics_interval` tick sends one
`Join` for each topic id that is pending, not yet joined, and known to interest some peer,
and no other message. -/
theorem engineActorRun_joinTopicsTick {T : Type} [DecidableEq T] [TopicId T]
    (networkId : Bytes32) (bootstrap sync : Bool) (events : List (EngineEvent T)) {s : Engine T}
    (hrun : engineActorRun (Engine.new networkId bootstrap sync) events = .ok s)
    (draws : Bytes32 → Nat → Nat) :
    ∃ joins, engineActorStep s (.joinTopicsTick draws) = .ok (s.sendToGossip joins) ∧
      (∀ m ∈ joins, ∃ topicId peers, m = .join topicId peers) ∧
      (joins.filterMap ToGossipActor.joinTopic).Nodup ∧
      ∀ topicId, topicId ∈ joins.filterMap ToGossipActor.joinTopic ↔
        s.node.streams.gossipPending topicId = true ∧
          s.node.streams.gossipJoined topicId = false ∧ ∃ p, s.addressBook.Interested p topicId := by
  -- the pending topic ids among the streams' are all the keys of `gossip_pending`
  have hsub := (streams_engineActorRun hrun).2.1
  refine ⟨s.node.streams.tryJoinPendingGossips s.addressBook draws, rfl, fun m hm => ?_, ?_,
    fun topicId => ?_⟩
  · obtain ⟨t, rfl, -⟩ := TopicStreams.eq_join_of_mem_tryJoinPendingGossips hm
    exact ⟨t, _, rfl⟩
  · rw [TopicStreams.joinTopics_tryJoinPendingGossips]
    exact (TopicStreams.nodup_pendingKeys _).filter _
  · rw [TopicStreams.joinTopics_tryJoinPendingGossips, List.mem_filter, hsub.mem_pendingKeys,
      TopicStreams.isSome_joinGossip]

/-- The engine subscribes to a topic with no peer known, and a neighbour of its overlay
comes up. -/
def neighbourEvents : List (EngineEvent Unit) :=
  [.subscribeTopic () (fun _ => 0) [], .neighborUp zeroTopicId samplePeerAddr.publicKey none []]

theorem engineActorRun_joinTopicsTick_neighbour :
    ∃ s : Engine Unit, engineActorRun (Engine.new testNetworkId false false) neighbourEvents = .ok s ∧
      s.node.gossipInbox = [] ∧
      ∃ joins, engineActorStep s (.joinTopicsTick fun _ _ => 0) = .ok (s.sendToGossip joins) ∧
        (∀ m ∈ joins, ∃ topicId peers, m = .join topicId peers) ∧
        (joins.filterMap ToGossipActor.joinTopic).Nodup ∧
        ∀ topicId, topicId ∈ joins.filterMap ToGossipActor.joinTopic ↔
          s.node.streams.gossipPending topicId = true ∧
            s.node.streams.gossipJoined topicId = false ∧
            ∃ p, s.addressBook.Interested p topicId := by
  obtain ⟨s, hrun, hinbox⟩ := Except.map_eq_ok.mp
    (show (engineActorRun (Engine.new testNetworkId false false : Engine Unit)
        neighbourEvents).map (fun s => s.node.gossipInbox) = .ok [] by decide +kernel)
  exact ⟨s, hrun, hinbox,
    engineActorRun_joinTopicsTick testNetworkId false false _ hrun fun _ _ => 0⟩

/-- An announcement only appends `Join`s to the gossip inbox, each of a subscribed stream's
topic id that is pending and not joined, with a peer. It joins at once every such overlay it
shares, but only when the engine has a sync actor: without one, no announcement sends a
`Join`. -/
theorem engineActorStep_announcement_joins {T : Type} [DecidableEq T] [TopicId T] (s : Engine T)
    (publicKey : PublicKey) (topicIds : List Bytes32) (draws : Bytes32 → Nat → Nat) :
    ∃ s' joins, engineActorStep s (.topicAnnouncement publicKey topicIds draws) = .ok s' ∧
      s'.node.gossipInbox = s.node.gossipInbox ++ joins ∧
      (∀ m ∈ joins, ∃ topicId peers, m = .join topicId peers ∧ peers ≠ [] ∧
        topicId ∈ s.node.streams.topicIds ∧ s.node.streams.gossipPending topicId = true ∧
        s.node.streams.gossipJoined topicId = false) ∧
      (s.syncActor = none → joins = []) ∧
      (s.syncActor ≠ none → ∀ topicId ∈ topicIds, topicId ∈ s.node.streams.topicIds →
        s.node.streams.gossipPending topicId = true →
        s.node.streams.gossipJoined topicId = false →
          ∃ peers, ToGossipActor.join topicId peers ∈ joins) := by
  -- the address book once the author is filed under the topic ids it announced
  let ab := topicIds.foldl (fun ab topicId => ab.addTopicId publicKey topicId) s.addressBook
  refine ⟨_, (s.node.streams.onDiscoveredTopicIds s.syncActor.isSome ab draws topicIds
    publicKey).2, rfl, rfl, fun m hm => ?_, fun hnone => ?_,
    fun hsync topicId hann hid hpending hjoined => ?_⟩
  · -- the joins are none, or those of `try_join_pending_gossips`
    rcases TopicStreams.onDiscoveredTopicIds_snd_cases (s := s.node.streams) s.syncActor.isSome
      with hnil | htry
    · rw [hnil] at hm
      cases hm
    · rw [htry] at hm
      obtain ⟨t, rfl, hid, hpending, hne, hjoined⟩ :=
        TopicStreams.eq_join_of_mem_tryJoinPendingGossips hm
      exact ⟨t, _, rfl, hne, hid, hpending, hjoined⟩
  · rw [hnone]
    rfl
  · obtain ⟨topic, htopic, rfl⟩ := List.mem_map.mp hid
    rw [Option.isSome_iff_ne_none.mpr hsync,
      TopicStreams.onDiscoveredTopicIds_snd_of_shared htopic hann]
    -- the author is interested now, so `join_gossip` joins the pending topic id
    obtain ⟨m, hm⟩ := Option.isSome_iff_exists.mp (TopicStreams.isSome_joinGossip.mpr
      ⟨hjoined, publicKey, Engine.interested_foldl_addTopicId_self _ _ _ hann⟩)
    obtain ⟨-, -, rfl⟩ := TopicStreams.joinGossip_eq_some.mp hm
    exact ⟨_, TopicStreams.mem_tryJoinPendingGossips.mpr
      ⟨_, TopicStreams.mem_pendingKeys.mpr ⟨hid, hpending⟩, hm⟩⟩

/-- Over every run from a new engine the topic streams never count the network id as
joined: `on_gossip_joined` hands the network-wide overlay to the topic discovery, so the
streams of a topic whose id is the network id never see it joined. -/
theorem engineActorRun_networkId_unjoined {T : Type} [DecidableEq T] [TopicId T]
    (networkId : Bytes32) (bootstrap sync : Bool) (events : List (EngineEvent T)) {s : Engine T}
    (hrun : engineActorRun (Engine.new networkId bootstrap sync) events = .ok s) :
    s.node.streams.gossipJoined networkId = false :=
  (streams_engineActorRun hrun).2.2

/-- The engine subscribes to a topic of the network id `[0; 32]`, adds a peer and joins the
network-wide overlay: the discovery is active and the topic still pending. -/
def networkTopicEvents : List (EngineEvent Unit) :=
  [.subscribeTopic () (fun _ => 0) [], .addPeer samplePeerAddr true (fun _ => 0), .gossipRecv,
    .joinNext 0 true, .engineRecv]

theorem engineActorRun_networkId_unjoined_subscribed :
    ∃ s : Engine Unit, engineActorRun (Engine.new zeroTopicId false false) networkTopicEvents = .ok s ∧
      s.node.discovery.status = .active ∧ s.node.streams.gossipPending zeroTopicId = true ∧
      s.node.streams.gossipJoined zeroTopicId = false := by
  obtain ⟨s, hrun, hstate⟩ := Except.map_eq_ok.mp
    (show (engineActorRun (Engine.new zeroTopicId false false : Engine Unit)
        networkTopicEvents).map
        (fun s => (s.node.discovery.status, s.node.streams.gossipPending zeroTopicId)) =
        .ok (.active, true) by decide +kernel)
  obtain ⟨hactive, hpending⟩ := Prod.mk.injEq _ _ _ _ ▸ hstate
  exact ⟨s, hrun, hactive, hpending,
    engineActorRun_networkId_unjoined zeroTopicId false false _ hrun⟩

end P2panda.Net
