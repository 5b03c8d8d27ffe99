import P2panda.Lib.Run
import P2panda.Net.TopicStreams

/- The topic discovery of the engine (`p2panda-net/src/engine/topic_discovery.rs`), the
   gossip actor as far as it joins overlays (`engine/gossip.rs`), and the two inboxes
   between them, as the engine's event loop (`engine.rs`, `run_inner`) drives them.

   A `Node` is the engine actor (its topic discovery and topic streams), the gossip actor
   (the topic ids it wants to join, and the topic id of each join still running), and the
   two inboxes, each a list that sends append to and the actor takes from the front. A
   `NodeEvent` is one branch of either actor's loop, or a running join that finishes, and
   a run is any list of them. The engine's `select!` is biased, so its interface-change
   branch runs only while its inbox is empty; a branch that is not ready leaves the node as
   it is. The address book is not modelled: `start` is given the peers `random_set`
   returned, and `announce` the encoded announcement. A panic is `.error` with its text.

   An interface change resets the status to idle but cancels no join, and `Reset` only
   clears the topic ids the gossip actor wants to join. So:
     1. `nodeStep_cases` says what a step can do: it starts or completes the discovery, or
        it keeps the status, or resets it, and in both cases takes joins out of flight
        only. `nodeStep_error`: the only panic is `on_gossip_joined` while idle.
     2. `Node.Settled` (idle only while no join of the network id is in flight) holds of
        the new node and every step keeps it but an interface change taken while a join is
        in flight: no run without an interface change panics, and
        every panic of a run comes after an interface change taken while a join of the
        network id was in flight (`nodeRun_panic_cause`).
     3. `nodeRun_stale_join`: such a run, on every network id and bootstrap flag.

   Not modelled: gossip events and broadcasts (`gossip_events`, `gossip_senders`,
   `joined`), the topic streams' own joins (`try_join_pending_gossips`), the `Reset` sent
   to the sync actor, system events, `Shutdown`, and channels that close or are full. -/

namespace P2panda.Net

/-- `ToGossipActor`, without `Shutdown`, which only the engine's shutdown sends. -/
inductive ToGossipActor where
  | broadcast (topicId : Bytes32) (bytes : List UInt8)
  | join (topicId : Bytes32) (peers : List PublicKey)
  | leave (topicId : Bytes32)
  | reset
  deriving DecidableEq

/-- The topic id a message asks to join. -/
def ToGossipActor.joinTopic : ToGossipActor → Option Bytes32
  | .join topicId _ => some topicId
  | _ => none

/-- The `Status` of the topic discovery. -/
inductive TopicDiscovery.Status where
  | idle
  | pending
  | active
  deriving DecidableEq, Repr

/-- `TopicDiscovery`, without its address book and its sender to the gossip actor: what it
sends is returned. -/
structure TopicDiscovery where
  bootstrap : Bool
  networkId : Bytes32
  status : TopicDiscovery.Status

namespace TopicDiscovery

def new (networkId : Bytes32) (bootstrap : Bool) : TopicDiscovery :=
  ⟨bootstrap, networkId, .idle⟩

/-- `start`, given the peers the address book returned: the new state and the `Join` it
sends, if any. A bootstrap node starts from every status. -/
def start (d : TopicDiscovery) (peers : List PublicKey) :
    TopicDiscovery × Option ToGossipActor :=
  if !d.bootstrap && d.status != .idle then (d, none)
  else if !peers.isEmpty || d.bootstrap then
    ({ d with status := .pending }, some (.join d.networkId peers))
  else (d, none)

def resetStatus (d : TopicDiscovery) : TopicDiscovery :=
  { d with status := .idle }

def onGossipJoined (d : TopicDiscovery) : Except String TopicDiscovery :=
  if d.status = .active then .ok d
  else if d.status = .idle then
    .error "can't set state to 'active' if joining was never attempted"
  else .ok { d with status := .active }

/-- `announce`, given the encoded announcement: the `Broadcast` it sends, if any. -/
def announce (d : TopicDiscovery) (bytes : List UInt8) : Option ToGossipActor :=
  if d.status != .active then none else some (.broadcast d.networkId bytes)

end TopicDiscovery

/-- `GossipActor`, as far as it joins overlays: the topic ids it wants to join
(`want_join`) and the topic id of each join still running (`pending_joins`). -/
structure GossipActor where
  bootstrap : Bool
  wantJoin : Bytes32 → Bool
  pendingJoins : List Bytes32

namespace GossipActor

def new (bootstrap : Bool) : GossipActor := ⟨bootstrap, fun _ => false, []⟩

/-- `on_actor_message`. A broadcast goes to the sender of a joined overlay, which is not
modelled; a leave also drops the overlay's handles. -/
def onActorMessage (g : GossipActor) : ToGossipActor → GossipActor
  | .broadcast _ _ => g
  | .join topicId _ =>
    if !g.bootstrap && g.wantJoin topicId then g
    else
      { g with
        wantJoin := Function.update g.wantJoin topicId true
        pendingJoins := g.pendingJoins ++ [topicId] }
  | .leave topicId => { g with wantJoin := Function.update g.wantJoin topicId false }
  | .reset => { g with wantJoin := fun _ => false }

/-- `pending_joins.join_next()` when the `i`-th running join finishes: the actor without it,
and the topic id of the `GossipJoined` that `on_joined` sends if it joined. A join that
failed is only logged. -/
def joinNext (g : GossipActor) (i : Nat) (joined : Bool) :
    Option (GossipActor × Option Bytes32) :=
  g.pendingJoins[i]?.map fun topicId =>
    ({ g with pendingJoins := g.pendingJoins.eraseIdx i }, if joined then some topicId else none)

end GossipActor

/-- The engine actor's topic discovery and topic streams, the gossip actor, and the two
inboxes: the topic ids of the `GossipJoined` messages the engine has still to take, and
the messages the gossip actor has still to take. -/
structure Node (T : Type) where
  discovery : TopicDiscovery
  streams : TopicStreams T
  engineInbox : List Bytes32
  gossip : GossipActor
  gossipInbox : List ToGossipActor

/-- One branch of the engine's or the gossip actor's loop. -/
inductive NodeEvent where
  /-- `start`, on the `join_network_interval` tick or after `add_peer`, with the peers the
  address book returned -/
  | start (peers : List PublicKey)
  /-- a major network interface change -/
  | interfaceChange
  /-- `announce`, on the `announce_topics_interval` tick or when a neighbour comes up in
  the network-wide overlay -/
  | announce (bytes : List UInt8)
  /-- the engine takes the next message of its inbox -/
  | engineRecv
  /-- the gossip actor takes the next message of its inbox -/
  | gossipRecv
  /-- the `i`-th running join finishes, joined or failed -/
  | joinNext (i : Nat) (joined : Bool)
  deriving DecidableEq

namespace Node

variable {T : Type}

def new (networkId : Bytes32) (bootstrap : Bool) : Node T :=
  ⟨.new networkId bootstrap, .new, [], .new bootstrap, []⟩

/-- Send to the gossip actor, if there is something to send. -/
def sendToGossip (s : Node T) : Option ToGossipActor → Node T
  | none => s
  | some m => { s with gossipInbox := s.gossipInbox ++ [m] }

/-- The engine's `on_gossip_joined`: the network-wide overlay is the topic discovery's,
every other one the topic streams'. -/
def onGossipJoined (s : Node T) (topicId : Bytes32) : Except String (Node T) :=
  if topicId = s.discovery.networkId then
    s.discovery.onGossipJoined.map fun d => { s with discovery := d }
  else .ok { s with streams := s.streams.onGossipJoined topicId }

/-- The interface-change branch of `run_inner`: the status is reset, the joined topics are
to be joined again, and the gossip actor is told to reset. -/
def onInterfaceChange (s : Node T) : Node T :=
  { s with
    discovery := s.discovery.resetStatus
    streams := s.streams.moveJoinedToPending
    gossipInbox := s.gossipInbox ++ [.reset] }

end Node

def nodeStep {T : Type} (s : Node T) : NodeEvent → Except String (Node T)
  | .start peers =>
    .ok ({ s with discovery := (s.discovery.start peers).1 }.sendToGossip
      (s.discovery.start peers).2)
  | .interfaceChange =>
    -- the select is biased: while a message waits in the inbox, its branch runs first
    if s.engineInbox = [] then .ok s.onInterfaceChange else .ok s
  | .announce bytes => .ok (s.sendToGossip (s.discovery.announce bytes))
  | .engineRecv =>
    match s.engineInbox with
    | [] => .ok s
    | topicId :: rest => { s with engineInbox := rest }.onGossipJoined topicId
  | .gossipRecv =>
    match s.gossipInbox with
    | [] => .ok s
    | m :: rest => .ok { s with gossip := s.gossip.onActorMessage m, gossipInbox := rest }
  | .joinNext i joined =>
    match s.gossip.joinNext i joined with
    | none => .ok s
    | some (g, sent) => .ok { s with gossip := g, engineInbox := s.engineInbox ++ sent.toList }

def nodeRun {T : Type} (s : Node T) (events : List NodeEvent) : Except String (Node T) :=
  events.foldlM nodeStep s

namespace Node

variable {T : Type}

/-- The topic ids of the joins in flight: those asked for in the gossip actor's inbox, those
running, and those whose `GossipJoined` waits in the engine's inbox. -/
def joinsInFlight (s : Node T) : List Bytes32 :=
  s.gossipInbox.filterMap ToGossipActor.joinTopic ++ s.gossip.pendingJoins ++ s.engineInbox

/-- A join of the network-wide overlay is in flight. -/
def InFlight (s : Node T) : Prop :=
  s.discovery.networkId ∈ s.joinsInFlight

instance (s : Node T) : Decidable s.InFlight := inferInstanceAs (Decidable (_ ∈ _))

/-- The topic discovery is idle only while no join of its overlay is in flight. -/
def Settled (s : Node T) : Prop :=
  s.discovery.status = .idle → ¬s.InFlight

/-- The step is an interface change that resets the status while a join of the network id
is in flight. -/
def ResetsJoin (s : Node T) (e : NodeEvent) : Prop :=
  e = .interfaceChange ∧ s.engineInbox = [] ∧ s.InFlight

end Node

/-! ### What each part does -/

namespace TopicDiscovery

theorem start_cases (d : TopicDiscovery) (peers : List PublicKey) :
    d.start peers = (d, none) ∨
      d.start peers = ({ d with status := .pending }, some (.join d.networkId peers)) := by
  unfold start
  split
  · exact .inl rfl
  · split
    · exact .inr rfl
    · exact .inl rfl

/-- `on_gossip_joined` panics exactly when idle, and otherwise makes the discovery active. -/
theorem onGossipJoined_cases (d : TopicDiscovery) :
    d.status = .idle ∧
        d.onGossipJoined = .error "can't set state to 'active' if joining was never attempted" ∨
      d.status ≠ .idle ∧ d.onGossipJoined = .ok { d with status := .active } := by
  obtain ⟨bootstrap, networkId, status⟩ := d
  cases status <;> simp [onGossipJoined]

theorem joinTopic_announce (d : TopicDiscovery) (bytes : List UInt8) :
    ∀ m ∈ d.announce bytes, m.joinTopic = none := by
  intro m hm
  unfold announce at hm
  split at hm
  · cases hm
  · cases hm
    rfl

end TopicDiscovery

namespace GossipActor

theorem mem_pendingJoins_onActorMessage {g : GossipActor} {m : ToGossipActor} {topicId : Bytes32}
    (h : topicId ∈ (g.onActorMessage m).pendingJoins) :
    topicId ∈ g.pendingJoins ∨ m.joinTopic = some topicId := by
  cases m with
  | join t peers =>
    simp only [onActorMessage] at h
    split at h
    · exact .inl h
    · rcases List.mem_append.mp h with h | h
      · exact .inl h
      · exact .inr (by simp_all [ToGossipActor.joinTopic])
  | broadcast | leave | reset => exact .inl h

theorem joinNext_eq_some {g g' : GossipActor} {i : Nat} {joined : Bool}
    {sent : Option Bytes32} (h : g.joinNext i joined = some (g', sent)) :
    g'.pendingJoins = g.pendingJoins.eraseIdx i ∧ ∀ topicId ∈ sent, topicId ∈ g.pendingJoins := by
  simp only [joinNext, Option.map_eq_some_iff, Prod.mk.injEq] at h
  obtain ⟨t, ht, rfl, rfl⟩ := h
  refine ⟨rfl, fun topicId hsent => ?_⟩
  have : t = topicId := by cases joined <;> simp_all
  exact this ▸ List.mem_of_getElem? ht

end GossipActor

namespace Node

variable {T : Type} {s s' : Node T} {e : NodeEvent}

@[simp] theorem discovery_sendToGossip (s : Node T) (m : Option ToGossipActor) :
    (s.sendToGossip m).discovery = s.discovery := by
  cases m <;> rfl

@[simp] theorem streams_sendToGossip (s : Node T) (m : Option ToGossipActor) :
    (s.sendToGossip m).streams = s.streams := by
  cases m <;> rfl

theorem joinsInFlight_onInterfaceChange (s : Node T) :
    s.onInterfaceChange.joinsInFlight = s.joinsInFlight := by
  simp [onInterfaceChange, joinsInFlight, ToGossipActor.joinTopic]

theorem joinsInFlight_announce (s : Node T) (bytes : List UInt8) :
    (s.sendToGossip (s.discovery.announce bytes)).joinsInFlight = s.joinsInFlight := by
  cases hm : s.discovery.announce bytes with
  | none => rfl
  | some m =>
    have hjoin := TopicDiscovery.joinTopic_announce s.discovery bytes m hm
    simp [sendToGossip, joinsInFlight, hjoin]

/-- What a step does. It keeps the network id, and the topic streams or makes one call of
theirs. Either it leaves the discovery pending or active, or it takes joins out of flight
only, and keeps the status unless it is the interface change that resets it. -/
theorem nodeStep_cases (h : nodeStep s e = .ok s') :
    s'.discovery.networkId = s.discovery.networkId ∧
      (s'.streams = s.streams ∨ s'.streams = s.streams.moveJoinedToPending ∨
        ∃ topicId, s'.streams = s.streams.onGossipJoined topicId) ∧
      (s'.discovery.status ≠ .idle ∨
        s'.joinsInFlight ⊆ s.joinsInFlight ∧
          (s'.discovery.status = s.discovery.status ∨
            e = .interfaceChange ∧ s.engineInbox = [])) := by
  cases e with
  | start peers =>
    simp only [nodeStep, Except.ok.injEq] at h
    subst h
    rcases TopicDiscovery.start_cases s.discovery peers with hstart | hstart
    · rw [hstart]
      exact ⟨rfl, .inl rfl, .inr ⟨List.Subset.refl _, .inl rfl⟩⟩
    · rw [hstart]
      exact ⟨rfl, .inl rfl, .inl (by simp)⟩
  | interfaceChange =>
    simp only [nodeStep] at h
    by_cases hinbox : s.engineInbox = []
    · rw [if_pos hinbox, Except.ok.injEq] at h
      subst h
      refine ⟨rfl, .inr (.inl rfl), .inr ⟨?_, .inr ⟨rfl, hinbox⟩⟩⟩
      rw [joinsInFlight_onInterfaceChange]
      exact List.Subset.refl _
    · rw [if_neg hinbox, Except.ok.injEq] at h
      subst h
      exact ⟨rfl, .inl rfl, .inr ⟨List.Subset.refl _, .inl rfl⟩⟩
  | announce bytes =>
    simp only [nodeStep, Except.ok.injEq] at h
    subst h
    refine ⟨by simp, .inl (by simp), .inr ⟨?_, .inl (by simp)⟩⟩
    rw [joinsInFlight_announce]
    exact List.Subset.refl _
  | engineRecv =>
    simp only [nodeStep] at h
    cases hinbox : s.engineInbox with
    | nil =>
      rw [hinbox, Except.ok.injEq] at h
      subst h
      exact ⟨rfl, .inl rfl, .inr ⟨List.Subset.refl _, .inl rfl⟩⟩
    | cons topicId rest =>
      simp only [hinbox, onGossipJoined] at h
      by_cases hnet : topicId = s.discovery.networkId
      · -- the network-wide overlay: the discovery becomes active, or panics
        rw [if_pos hnet] at h
        rcases TopicDiscovery.onGossipJoined_cases s.discovery with ⟨-, hd⟩ | ⟨-, hd⟩
        · rw [hd] at h
          cases h
        · rw [hd] at h
          cases h
          exact ⟨rfl, .inl rfl, .inl (by simp)⟩
      · rw [if_neg hnet, Except.ok.injEq] at h
        subst h
        refine ⟨rfl, .inr (.inr ⟨topicId, rfl⟩), .inr ⟨?_, .inl rfl⟩⟩
        intro x hx
        simp only [joinsInFlight, hinbox, List.mem_append, List.mem_cons] at hx ⊢
        tauto
  | gossipRecv =>
    simp only [nodeStep] at h
    cases hinbox : s.gossipInbox with
    | nil =>
      rw [hinbox, Except.ok.injEq] at h
      subst h
      exact ⟨rfl, .inl rfl, .inr ⟨List.Subset.refl _, .inl rfl⟩⟩
    | cons m rest =>
      rw [hinbox, Except.ok.injEq] at h
      subst h
      refine ⟨rfl, .inl rfl, .inr ⟨?_, .inl rfl⟩⟩
      -- the message leaves the inbox, and a join of it becomes a running join
      intro x hx
      simp only [joinsInFlight, List.mem_append, List.mem_filterMap] at hx
      simp only [joinsInFlight, hinbox, List.mem_append, List.mem_filterMap, List.mem_cons]
      rcases hx with (hx | hx) | hx
      · obtain ⟨m', hm', hjoin⟩ := hx
        exact .inl (.inl ⟨m', .inr hm', hjoin⟩)
      · rcases GossipActor.mem_pendingJoins_onActorMessage hx with hx | hjoin
        · exact .inl (.inr hx)
        · exact .inl (.inl ⟨m, .inl rfl, hjoin⟩)
      · exact .inr hx
  | joinNext i joined =>
    simp only [nodeStep] at h
    cases hjoin : s.gossip.joinNext i joined with
    | none =>
      rw [hjoin, Except.ok.injEq] at h
      subst h
      exact ⟨rfl, .inl rfl, .inr ⟨List.Subset.refl _, .inl rfl⟩⟩
    | some next =>
      obtain ⟨g, sent⟩ := next
      rw [hjoin, Except.ok.injEq] at h
      subst h
      obtain ⟨hpending, hsent⟩ := GossipActor.joinNext_eq_some hjoin
      refine ⟨rfl, .inl rfl, .inr ⟨?_, .inl rfl⟩⟩
      -- the join leaves the running ones, and what it joined goes to the engine's inbox
      intro x hx
      simp only [joinsInFlight, hpending, List.mem_append, Option.mem_toList] at hx
      simp only [joinsInFlight, List.mem_append]
      rcases hx with (hx | hx) | hx | hx
      · exact .inl (.inl hx)
      · exact .inl (.inr (List.mem_of_mem_eraseIdx hx))
      · exact .inr hx
      · exact .inl (.inr (hsent x hx))

/-- The only panic: `on_gossip_joined` for the network id while the discovery is idle. -/
theorem nodeStep_error {err : String} (h : nodeStep s e = .error err) :
    e = .engineRecv ∧ s.engineInbox.head? = some s.discovery.networkId ∧
      s.discovery.status = .idle ∧
      err = "can't set state to 'active' if joining was never attempted" := by
  cases e with
  | engineRecv =>
    simp only [nodeStep] at h
    cases hinbox : s.engineInbox with
    | nil =>
      rw [hinbox] at h
      cases h
    | cons topicId rest =>
      simp only [hinbox, onGossipJoined] at h
      by_cases hnet : topicId = s.discovery.networkId
      · rw [if_pos hnet] at h
        rcases TopicDiscovery.onGossipJoined_cases s.discovery with ⟨hidle, hd⟩ | ⟨-, hd⟩
        · rw [hd] at h
          cases h
          exact ⟨rfl, by rw [hnet]; rfl, hidle, rfl⟩
        · rw [hd] at h
          cases h
      · rw [if_neg hnet] at h
        cases h
  | interfaceChange =>
    simp only [nodeStep] at h
    split at h <;> cases h
  | gossipRecv =>
    simp only [nodeStep] at h
    split at h <;> cases h
  | joinNext i joined =>
    simp only [nodeStep] at h
    split at h <;> cases h
  | start | announce => cases h

/-! ### Settled nodes -/

theorem settled_new (networkId : Bytes32) (bootstrap : Bool) :
    (new networkId bootstrap : Node T).Settled := by
  intro _ hflight
  simp [InFlight, joinsInFlight, new, GossipActor.new] at hflight

/-- Every step but an interface change taken while a join of the network id is in flight
keeps a node settled. -/
theorem Settled.nodeStep (hs : s.Settled) (hreset : ¬s.ResetsJoin e)
    (h : P2panda.Net.nodeStep s e = .ok s') : s'.Settled := by
  intro hidle hflight
  obtain ⟨hid, -, hstatus | ⟨hsub, hkept⟩⟩ := nodeStep_cases h
  · exact hstatus hidle
  · have hflight' : s.InFlight := by
      unfold InFlight at hflight ⊢
      rw [← hid]
      exact hsub hflight
    rcases hkept with hsame | ⟨rfl, hinbox⟩
    · exact hs (hsame ▸ hidle) hflight'
    · exact hreset ⟨rfl, hinbox, hflight'⟩

/-- A settled node cannot panic: the `GossipJoined` of the network id that would is in
flight while the discovery is idle. -/
theorem Settled.nodeStep_ne_error (hs : s.Settled) (err : String) :
    P2panda.Net.nodeStep s e ≠ .error err := by
  intro h
  obtain ⟨-, hhead, hidle, -⟩ := nodeStep_error h
  apply hs hidle
  have hmem : s.discovery.networkId ∈ s.engineInbox := List.mem_of_head? hhead
  simp [InFlight, joinsInFlight, hmem]

end Node

/-- A join of the network-wide overlay is started and spawned; the interface changes while
it runs, which resets the status and then the gossip actor; and the join finishes. -/
def staleJoin (peer : PublicKey) : List NodeEvent :=
  [.start [peer], .gossipRecv, .interfaceChange, .gossipRecv, .joinNext 0 true]

theorem nodeRun_stale_join {T : Type} (networkId : Bytes32) (bootstrap : Bool)
    (peer : PublicKey) :
    ∃ s, nodeRun (Node.new networkId bootstrap : Node T) (staleJoin peer) = .ok s ∧
      s.discovery.status = .idle ∧ s.engineInbox = [networkId] ∧
      nodeRun (Node.new networkId bootstrap : Node T) (staleJoin peer ++ [.engineRecv]) =
        .error "can't set state to 'active' if joining was never attempted" := by
  -- idle again, the join no longer running, and its `GossipJoined` waiting for the engine
  let s : Node T := ⟨⟨bootstrap, networkId, .idle⟩, TopicStreams.new.moveJoinedToPending,
    [networkId], ⟨bootstrap, fun _ => false, []⟩, []⟩
  have hrun : nodeRun (Node.new networkId bootstrap : Node T) (staleJoin peer) = .ok s := by
    cases bootstrap <;>
      simp [nodeRun, staleJoin, nodeStep, Node.new, TopicDiscovery.new, GossipActor.new,
        TopicDiscovery.start, GossipActor.onActorMessage, GossipActor.joinNext,
        Node.sendToGossip, Node.onInterfaceChange, TopicDiscovery.resetStatus, s]
  refine ⟨s, hrun, rfl, rfl, ?_⟩
  rw [nodeRun, List.foldlM_append, ← nodeRun, hrun]
  simp [nodeStep, s, Node.onGossipJoined, TopicDiscovery.onGossipJoined, Except.map]

/-- The topics of a node with the one overlay `[0; 32]`. -/
instance instTopicIdUnit : TopicId Unit := ⟨fun _ => ⟨List.replicate 32 0, Bytes32.length_zeros⟩⟩

end P2panda.Net
