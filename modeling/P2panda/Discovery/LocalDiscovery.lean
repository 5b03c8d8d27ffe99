import P2panda.Discovery.Mdns

/- The local discovery of `p2panda-discovery/src/mdns/mod.rs`: the task `LocalDiscovery::new`
   spawns, one turn of its `select!` loop at a time, and a network of such tasks sharing
   the mDNS multicast group.

   A task keeps whether its socket is bound, the `subscribers` map and `my_node_addr`. Its
   inbox is the `flume` channel `subscribe` and `update_local_address` send into, a list
   taken from the front. `subscribe` makes the service name of the network id
   (`Name::from_str(..).expect(..)`) and sends it with the subscriber's channel, named here
   by a number. The methods send from a spawned task; here they send at once, in the order
   of the calls, which covers every order the sends can arrive in, since the calls come in
   any order. A branch of `select!` that is not enabled leaves the task as it is, and
   `biased` is not modelled: any enabled branch may run, which includes every run of the
   biased loop.

   The group is every datagram sent to it, in the order sent (`Network.air`). A socket
   receives any of them, at any time, once, several times or never: datagrams are lost,
   reordered and duplicated, and a node receives its own (`set_multicast_loop_v4`). A
   datagram is a `Message` value; the bytes of `to_bytes` and `from_vec` are not modelled,
   and a message that fails to encode is a lost datagram. Their length is a parameter,
   `encodedLen`: a datagram longer than the receive buffer of 1472 bytes arrives cut to it,
   `parse_message` fails on the rest, and the task drops it. What the task sends into a
   subscriber's channel is recorded in order (`LocalDiscovery.sent`); the channel's bound
   of 16, at which `send_async` waits, is not modelled.

   Every node of the network runs this task, so the datagrams on the group are the queries
   and responses of the tasks. A node's id is fixed: every address it is given carries it,
   and is a public key `from_bytes` reads back, as every `NodeId` is. Network ids are 32
   bytes, as `[u8; 32]` is (`ValidInputs`).

   Results:
   1. `localDiscovery_sound`: no run panics, and every event a task sends into a
      subscriber's channel is about another node of the network, subscribed to the same
      network id, with exactly the direct addresses that node was given (as socket
      addresses: flow information and scope id aside), whatever the order of the events and
      whatever datagrams are lost or duplicated. The invariant `Good` traces each datagram,
      inbox message and event to the inputs that caused it; every event keeps it
      (`Good.step`).
   2. `localDiscovery_exchange`: two bound nodes subscribed to one service, the second with
      an address, whose query and response fit the receive buffer: a query tick of the
      first, its query received by the second and the response received back, and every
      subscriber of the first has the second's address. A response too long for the buffer
      is never delivered, so the bound is needed. -/
namespace P2panda.Discovery

/-! ## The task -/

/-- `MDNS_PROVENANCE`. -/
def mdnsProvenance : String := "mdns"

/-- `DiscoveryEvent`. -/
structure DiscoveryEvent where
  provenance : String
  nodeAddr : NodeAddr
  deriving DecidableEq

/-- `Message`, what the task's inbox carries. -/
inductive ActorMessage where
  | subscribe (serviceName : Name) (subscribeTx : Nat)
  | updateLocalAddress (addr : NodeAddr)

/-- `subscribers`, a `HashMap` from service names, compared as hickory compares names, to
the channels subscribed under each, in order. -/
structure Subscribers where
  entries : List (Name × List Nat)

namespace Subscribers

/-- `HashMap::get`. -/
def get? (m : Subscribers) (n : Name) : Option (List Nat) :=
  (m.entries.find? fun e => e.1.key == n.key).map Prod.snd

/-- `HashMap::contains_key`. -/
def containsKey (m : Subscribers) (n : Name) : Bool := m.entries.any fun e => e.1.key == n.key

/-- `get_mut(&service_name)` and `push`, or `insert(service_name, vec![subscribe_tx])`. -/
def add (m : Subscribers) (n : Name) (tx : Nat) : Subscribers :=
  if m.containsKey n then
    ⟨m.entries.map fun e => if e.1.key == n.key then (e.1, e.2 ++ [tx]) else e⟩
  else ⟨m.entries ++ [(n, [tx])]⟩

theorem get?_eq_some {m : Subscribers} {n : Name} {txs : List Nat} (h : m.get? n = some txs) :
    ∃ e ∈ m.entries, e.1.key = n.key ∧ e.2 = txs := by
  obtain ⟨e, he, rfl⟩ := Option.map_eq_some_iff.mp h
  exact ⟨e, List.mem_of_find?_eq_some he, by simpa using List.find?_some he, rfl⟩

theorem containsKey_eq_true {m : Subscribers} {n : Name} :
    m.containsKey n = true ↔ ∃ e ∈ m.entries, e.1.key = n.key := by
  simp [containsKey]

/-- An entry after `add`: one there before, the entry of the name with the channel pushed,
or the name's new entry. -/
theorem mem_add {m : Subscribers} {n : Name} {tx : Nat} {e : Name × List Nat}
    (he : e ∈ (m.add n tx).entries) :
    e ∈ m.entries ∨ (∃ e₀ ∈ m.entries, e₀.1.key = n.key ∧ e = (e₀.1, e₀.2 ++ [tx])) ∨
      e = (n, [tx]) := by
  unfold add at he
  split at he
  · obtain ⟨e₀, he₀, rfl⟩ := List.mem_map.mp he
    by_cases hkey : e₀.1.key = n.key
    · exact .inr (.inl ⟨e₀, he₀, hkey, by simp [hkey]⟩)
    · exact .inl (by simpa [hkey] using he₀)
  · rcases List.mem_append.mp he with he | he
    · exact .inl he
    · exact .inr (.inr (List.mem_singleton.mp he))

end Subscribers

/-- The task between two turns of its loop. -/
structure LocalDiscovery where
  socketIsBound : Bool
  subscribers : Subscribers
  myNodeAddr : Option NodeAddr
  /-- The inbox, its front first. -/
  rx : List ActorMessage
  /-- What the task sent into the subscribers' channels, in order. -/
  sent : List (Nat × DiscoveryEvent)

/-- `LocalDiscovery::new`, with the socket bound or not (`socket_v4` or
`socket_v4_unbound`). -/
def LocalDiscovery.new (socketIsBound : Bool) : LocalDiscovery := ⟨socketIsBound, ⟨[]⟩, none, [], []⟩

/-- What can happen at a task: a call of its `Discovery` methods, or a branch of its loop. -/
inductive LocalEvent where
  /-- `Discovery::subscribe`. -/
  | subscribe (networkId : List UInt8) (subscribeTx : Nat)
  /-- `Discovery::update_local_address`. -/
  | updateLocalAddress (addr : NodeAddr)
  /-- The network monitor reports an interface change, major or not. -/
  | interfaceChange (isMajor : Bool)
  /-- `socket.recv`: the datagram at this position of the group arrives. -/
  | recv (index : Nat)
  /-- `interval.tick()`. -/
  | queryTick
  /-- `rx.recv_async()`. -/
  | inbox
  /-- `socket_interval.tick()`, and whether `socket_v4` binds a socket. -/
  | socketTick (binds : Bool)
  deriving DecidableEq

section Task

/-- The receive buffer `[0; 1472]`. -/
def recvBufferLen : Nat := 1472

variable (P : Primitives) (encodedLen : Message → Nat)

/-- The events a response sends: into each channel subscribed to its service, each node it
announces but this one. -/
def responseEvents (txs : List Nat) (myNodeAddr : NodeAddr) (nodeAddrs : List NodeAddr) :
    List (Nat × DiscoveryEvent) :=
  txs.flatMap fun tx => (nodeAddrs.filter fun n => n.nodeId != myNodeAddr.nodeId).map
    fun n => (tx, ⟨mdnsProvenance, n⟩)

/-- A datagram received: the task after it, and what it sends to the group. -/
def onDatagram (d : LocalDiscovery) (msg : Message) :
    Except String (LocalDiscovery × List Message) :=
  match parseMessage P msg, d.myNodeAddr with
  | none, _ => .ok (d, [])
  | some _, none => .ok (d, [])
  | some (.query serviceName), some myNodeAddr =>
    if d.subscribers.containsKey serviceName then
      (makeResponse serviceName myNodeAddr).map fun response => (d, [response])
    else .ok (d, [])
  | some (.response serviceName nodeAddrs), some myNodeAddr =>
    match d.subscribers.get? serviceName with
    | none => .ok (d, [])
    | some txs => .ok ({ d with sent := d.sent ++ responseEvents txs myNodeAddr nodeAddrs }, [])

/-- One event at a task, given the datagrams on the group: the task after it and what it
sends to the group. A panic is an error with its text. -/
def LocalDiscovery.step (d : LocalDiscovery) (air : List Message) :
    LocalEvent → Except String (LocalDiscovery × List Message)
  | .subscribe networkId tx =>
    (subscribeServiceName networkId).map fun serviceName =>
      ({ d with rx := d.rx ++ [.subscribe serviceName tx] }, [])
  | .updateLocalAddress addr => .ok ({ d with rx := d.rx ++ [.updateLocalAddress addr] }, [])
  | .interfaceChange isMajor =>
    -- `Some(true) = interface_change_rx.recv()`: a change that is not major matches no branch
    .ok (if isMajor then { d with socketIsBound := false } else d, [])
  | .recv index =>
    if d.socketIsBound then
      match air[index]? with
      | none => .ok (d, [])
      | some msg =>
        -- `socket.recv` cuts a datagram longer than the buffer to its length, and
        -- `parse_message` fails on what is left
        if encodedLen msg ≤ recvBufferLen then onDatagram P d msg else .ok (d, [])
    else .ok (d, [])
  | .queryTick =>
    .ok (d, if d.socketIsBound then d.subscribers.entries.map fun e => makeQuery e.1 else [])
  | .inbox =>
    if d.socketIsBound then
      match d.rx with
      | [] => .ok (d, [])
      | .subscribe serviceName tx :: rx =>
        .ok ({ d with rx, subscribers := d.subscribers.add serviceName tx }, [])
      | .updateLocalAddress addr :: rx => .ok ({ d with rx, myNodeAddr := some addr }, [])
    else .ok (d, [])
  | .socketTick binds =>
    .ok (if !d.socketIsBound && binds then { d with socketIsBound := true } else d, [])

end Task

theorem mem_responseEvents {txs : List Nat} {myNodeAddr : NodeAddr} {nodeAddrs : List NodeAddr}
    {x : Nat × DiscoveryEvent} :
    x ∈ responseEvents txs myNodeAddr nodeAddrs ↔
      ∃ tx ∈ txs, ∃ n ∈ nodeAddrs, n.nodeId ≠ myNodeAddr.nodeId ∧ x = (tx, ⟨mdnsProvenance, n⟩) := by
  simp only [responseEvents, List.mem_flatMap, List.mem_map, List.mem_filter, bne_iff_ne, ne_eq]
  constructor
  · rintro ⟨tx, htx, n, ⟨hn, hne⟩, rfl⟩
    exact ⟨tx, htx, n, hn, hne, rfl⟩
  · rintro ⟨tx, htx, n, hn, hne, rfl⟩
    exact ⟨tx, htx, n, ⟨hn, hne⟩, rfl⟩

/-! ## The network -/

/-- The tasks of a network's nodes, and every datagram sent to the group, in order. -/
structure Network (ι : Type) where
  nodes : ι → LocalDiscovery
  air : List Message

variable {ι : Type}

/-- A network of new tasks, each with its socket bound or not. -/
def Network.new (bound : ι → Bool) : Network ι := ⟨fun i => LocalDiscovery.new (bound i), []⟩

/-- An event at one node: its task steps, and what it sends joins the group. -/
def Network.step [DecidableEq ι] (P : Primitives) (encodedLen : Message → Nat) (N : Network ι)
    (e : ι × LocalEvent) : Except String (Network ι) :=
  ((N.nodes e.1).step P encodedLen N.air e.2).map fun r =>
    ⟨Function.update N.nodes e.1 r.1, N.air ++ r.2⟩

/-- A run of the network. -/
def networkRun [DecidableEq ι] (P : Primitives) (encodedLen : Message → Nat) (N : Network ι)
    (events : List (ι × LocalEvent)) : Except String (Network ι) :=
  events.foldlM (Network.step P encodedLen) N

/-! ## What each datagram, inbox message and event comes from -/

section Invariant

variable (hist : List (ι × LocalEvent))

/-- `s` is the service name of a network id that node `i` subscribed a channel to. -/
def ServiceOf (i : ι) (s : Name) : Prop :=
  ∃ networkId tx, (i, .subscribe networkId tx) ∈ hist ∧ subscribeServiceName networkId = .ok s

/-- Node `i` subscribed channel `tx` to a service that compares equal to `s`. -/
def SubscribedTo (i : ι) (s : Name) (tx : Nat) : Prop :=
  ∃ networkId s', (i, .subscribe networkId tx) ∈ hist ∧ subscribeServiceName networkId = .ok s' ∧
    s'.key = s.key

/-- What sent a message into node `i`'s inbox. -/
def ActorMessage.SentBy (i : ι) : ActorMessage → Prop
  | .subscribe s tx =>
    ∃ networkId, (i, .subscribe networkId tx) ∈ hist ∧ subscribeServiceName networkId = .ok s
  | .updateLocalAddress a => (i, .updateLocalAddress a) ∈ hist

/-- A datagram on the group: the query of a service a node subscribed under, or the
response of a node subscribed to a queried service, announcing an address it was given. -/
def SentDatagram (m : Message) : Prop :=
  (∃ i s, ServiceOf hist i s ∧ m = makeQuery s) ∨
    ∃ q s j tx a, ServiceOf hist q s ∧ SubscribedTo hist j s tx ∧
      (j, .updateLocalAddress a) ∈ hist ∧ makeResponse s a = .ok m

/-- An event node `i` sent into channel `tx`: from the mDNS, about a node whose id is not
that of an address `i` was given, announced by a node subscribed to the service `tx` is
subscribed to, with an address that node was given. -/
def Discovered (i : ι) (tx : Nat) (ev : DiscoveryEvent) : Prop :=
  ev.provenance = mdnsProvenance ∧
    (∃ a, (i, .updateLocalAddress a) ∈ hist ∧ ev.nodeAddr.nodeId ≠ a.nodeId) ∧
    ∃ s j tx' a, SubscribedTo hist i s tx ∧ SubscribedTo hist j s tx' ∧
      (j, .updateLocalAddress a) ∈ hist ∧ ev.nodeAddr.Announced a

/-- The invariant of node `i`'s task. -/
structure NodeGood (i : ι) (d : LocalDiscovery) : Prop where
  subscribers : ∀ e ∈ d.subscribers.entries,
    ServiceOf hist i e.1 ∧ ∀ tx ∈ e.2, SubscribedTo hist i e.1 tx
  rx : ∀ m ∈ d.rx, m.SentBy hist i
  addr : ∀ a, d.myNodeAddr = some a → (i, .updateLocalAddress a) ∈ hist
  sent : ∀ x ∈ d.sent, Discovered hist i x.1 x.2

/-- The invariant of a network. -/
structure Good (N : Network ι) : Prop where
  nodes : ∀ i, NodeGood hist i (N.nodes i)
  air : ∀ m ∈ N.air, SentDatagram hist m

end Invariant

/-- The inputs of a run as a network gives them: the addresses of a node carry its id, a
public key that reads back from its bytes, and network ids are 32 bytes. -/
structure ValidInputs (P : Primitives) (ids : ι → PublicKey) (events : List (ι × LocalEvent)) :
    Prop where
  addr : ∀ i a, (i, .updateLocalAddress a) ∈ events →
    a.nodeId = ids i ∧ P.keyFromBytes a.nodeId.bytes = .ok a.nodeId
  networkId : ∀ i networkId tx, (i, .subscribe networkId tx) ∈ events → networkId.length = 32

/-! ## More inputs keep every fact -/

section Mono

variable {hist hist' : List (ι × LocalEvent)} (hsub : ∀ x ∈ hist, x ∈ hist')
include hsub

theorem ServiceOf.mono {i : ι} {s : Name} (h : ServiceOf hist i s) : ServiceOf hist' i s := by
  obtain ⟨networkId, tx, hmem, hs⟩ := h
  exact ⟨networkId, tx, hsub _ hmem, hs⟩

theorem SubscribedTo.mono {i : ι} {s : Name} {tx : Nat} (h : SubscribedTo hist i s tx) :
    SubscribedTo hist' i s tx := by
  obtain ⟨networkId, s', hmem, hs, hkey⟩ := h
  exact ⟨networkId, s', hsub _ hmem, hs, hkey⟩

theorem ActorMessage.SentBy.mono {i : ι} {m : ActorMessage} (h : m.SentBy hist i) :
    m.SentBy hist' i := by
  cases m with
  | subscribe s tx =>
    obtain ⟨networkId, hmem, hs⟩ := h
    exact ⟨networkId, hsub _ hmem, hs⟩
  | updateLocalAddress a => exact hsub _ h

theorem SentDatagram.mono {m : Message} (h : SentDatagram hist m) : SentDatagram hist' m := by
  rcases h with ⟨i, s, hs, rfl⟩ | ⟨q, s, j, tx, a, hq, hj, ha, hm⟩
  · exact .inl ⟨i, s, hs.mono hsub, rfl⟩
  · exact .inr ⟨q, s, j, tx, a, hq.mono hsub, hj.mono hsub, hsub _ ha, hm⟩

theorem Discovered.mono {i : ι} {tx : Nat} {ev : DiscoveryEvent} (h : Discovered hist i tx ev) :
    Discovered hist' i tx ev := by
  obtain ⟨hprov, ⟨a, ha, hne⟩, s, j, tx', b, hi, hj, hb, hann⟩ := h
  exact ⟨hprov, ⟨a, hsub _ ha, hne⟩, s, j, tx', b, hi.mono hsub, hj.mono hsub, hsub _ hb, hann⟩

theorem NodeGood.mono {i : ι} {d : LocalDiscovery} (h : NodeGood hist i d) : NodeGood hist' i d where
  subscribers e he := ⟨(h.subscribers e he).1.mono hsub,
    fun tx htx => ((h.subscribers e he).2 tx htx).mono hsub⟩
  rx m hm := (h.rx m hm).mono hsub
  addr a ha := hsub _ (h.addr a ha)
  sent x hx := (h.sent x hx).mono hsub

end Mono

theorem SubscribedTo.of_key {hist : List (ι × LocalEvent)} {i : ι} {s s' : Name} {tx : Nat}
    (h : SubscribedTo hist i s tx) (hkey : s.key = s'.key) : SubscribedTo hist i s' tx := by
  obtain ⟨networkId, s₀, hmem, hs, hkey₀⟩ := h
  exact ⟨networkId, s₀, hmem, hs, hkey₀.trans hkey⟩

theorem ValidInputs.mono {P : Primitives} {ids : ι → PublicKey} {events events' : List (ι × LocalEvent)}
    (h : ValidInputs P ids events') (hsub : ∀ x ∈ events, x ∈ events') : ValidInputs P ids events where
  addr i a ha := h.addr i a (hsub _ ha)
  networkId i networkId tx hmem := h.networkId i networkId tx (hsub _ hmem)

/-! ## One event keeps the invariant -/

section Steps

variable {P : Primitives} {ids : ι → PublicKey} {hist : List (ι × LocalEvent)}

/-- A service name a node subscribed under, of a 32-byte network id, is valid. -/
theorem ServiceOf.valid {q : ι} {s : Name}
    (hlen : ∀ j networkId tx, (j, .subscribe networkId tx) ∈ hist → networkId.length = 32)
    (hs : ServiceOf hist q s) : s.ValidService := by
  obtain ⟨networkId, tx, hmem, hname⟩ := hs
  obtain ⟨s₀, h₀, hvalid⟩ := subscribeServiceName_valid networkId (hlen _ _ _ hmem)
  rw [hname, Except.ok.injEq] at h₀
  exact h₀ ▸ hvalid

/-- A datagram of the group received by a task: it does not panic, keeps the task's
invariant, and what it sends is a datagram of the group. -/
theorem NodeGood.receive {i : ι} {d : LocalDiscovery} {msg : Message}
    (hkey : ∀ j a, (j, .updateLocalAddress a) ∈ hist → P.keyFromBytes a.nodeId.bytes = .ok a.nodeId)
    (hlen : ∀ j networkId tx, (j, .subscribe networkId tx) ∈ hist → networkId.length = 32)
    (hd : NodeGood hist i d) (hmsg : SentDatagram hist msg) :
    ∃ r, onDatagram P d msg = .ok r ∧ NodeGood hist i r.1 ∧ ∀ m ∈ r.2, SentDatagram hist m := by
  rcases hmsg with ⟨q, s, hq, rfl⟩ | ⟨q, s, j, tx, a, hq, hj, ha, hm⟩
  · -- a query: answered when the task has an address and is subscribed to its service
    cases hmy : d.myNodeAddr with
    | none => exact ⟨(d, []), by simp [onDatagram, parseMessage_makeQuery, hmy], hd, by simp⟩
    | some b =>
      by_cases hc : d.subscribers.containsKey s = true
      · obtain ⟨e, he, hekey⟩ := Subscribers.containsKey_eq_true.mp hc
        obtain ⟨networkId, tx, hmem, hname⟩ := (hd.subscribers e he).1
        obtain ⟨resp, hresp⟩ : ∃ resp, makeResponse s b = .ok resp := by
          obtain ⟨_, _, _, _, _, h⟩ := makeResponse_eq (hq.valid hlen) b
          exact ⟨_, h⟩
        refine ⟨(d, [resp]), by simp [onDatagram, parseMessage_makeQuery, hmy, hc, hresp, Except.map], hd, ?_⟩
        -- the response of this node, subscribed through `e`, with the address it holds
        intro m hm
        rw [List.mem_singleton.mp hm]
        exact .inr ⟨q, s, i, tx, b, hq, ⟨networkId, e.1, hmem, hname, hekey⟩, hd.addr b hmy, hresp⟩
      · exact ⟨(d, []), by simp [onDatagram, parseMessage_makeQuery, hmy, hc], hd, by simp⟩
  · -- a response: read back as the node it announces, or as nothing
    rcases parseMessage_of_makeResponse P (hq.valid hlen) (hkey j a ha) hm with
      ⟨-, hnone⟩ | ⟨n, hparse, hann⟩
    · exact ⟨(d, []), by simp [onDatagram, hnone], hd, by simp⟩
    · cases hmy : d.myNodeAddr with
      | none => exact ⟨(d, []), by simp [onDatagram, hparse, hmy], hd, by simp⟩
      | some b =>
        cases hget : d.subscribers.get? s with
        | none => exact ⟨(d, []), by simp [onDatagram, hparse, hmy, hget], hd, by simp⟩
        | some txs =>
          obtain ⟨e, he, hekey, rfl⟩ := Subscribers.get?_eq_some hget
          refine ⟨({ d with sent := d.sent ++ responseEvents e.2 b [n] }, []),
            by simp [onDatagram, hparse, hmy, hget], ⟨hd.subscribers, hd.rx, hd.addr, ?_⟩, by simp⟩
          intro x hx
          rcases List.mem_append.mp hx with hx | hx
          · exact hd.sent x hx
          · obtain ⟨tx', htx', n', hn', hne, rfl⟩ := mem_responseEvents.mp hx
            rw [List.mem_singleton.mp hn']
            rw [List.mem_singleton.mp hn'] at hne
            exact ⟨rfl, ⟨b, hd.addr b hmy, hne⟩, s, j, tx, a,
              ((hd.subscribers e he).2 tx' htx').of_key hekey, hj, ha, hann⟩

/-- Every event at a task of a network with the invariant: it does not panic, keeps the
task's invariant for the inputs with its own, and what it sends is a datagram of the group.
The cases are the events; only a datagram received needs an argument (`NodeGood.receive`). -/
theorem NodeGood.step (encodedLen : Message → Nat) {i : ι} {d : LocalDiscovery}
    {air : List Message} {ev : LocalEvent} (hd : NodeGood hist i d) (hair : ∀ m ∈ air, SentDatagram hist m)
    (hv : ValidInputs P ids (hist ++ [(i, ev)])) :
    ∃ r, d.step P encodedLen air ev = .ok r ∧ NodeGood (hist ++ [(i, ev)]) i r.1 ∧
      ∀ m ∈ r.2, SentDatagram (hist ++ [(i, ev)]) m := by
  have hsub : ∀ x ∈ hist, x ∈ hist ++ [(i, ev)] := fun x hx => List.mem_append_left _ hx
  have hnew : (i, ev) ∈ hist ++ [(i, ev)] := List.mem_append_right _ (List.mem_singleton_self _)
  have hd' := hd.mono hsub
  cases ev with
  | subscribe networkId tx =>
    obtain ⟨s, hs, -⟩ := subscribeServiceName_valid networkId (hv.networkId i networkId tx hnew)
    refine ⟨({ d with rx := d.rx ++ [.subscribe s tx] }, []),
      by simp [LocalDiscovery.step, hs, Except.map], ⟨hd'.subscribers, ?_, hd'.addr, hd'.sent⟩,
      by simp⟩
    intro m hm
    rcases List.mem_append.mp hm with hm | hm
    · exact hd'.rx m hm
    · rw [List.mem_singleton.mp hm]
      exact ⟨networkId, hnew, hs⟩
  | updateLocalAddress a =>
    refine ⟨({ d with rx := d.rx ++ [.updateLocalAddress a] }, []), rfl,
      ⟨hd'.subscribers, ?_, hd'.addr, hd'.sent⟩, by simp⟩
    intro m hm
    rcases List.mem_append.mp hm with hm | hm
    · exact hd'.rx m hm
    · rw [List.mem_singleton.mp hm]
      exact hnew
  | interfaceChange isMajor =>
    refine ⟨(if isMajor then { d with socketIsBound := false } else d, []), rfl, ?_, by simp⟩
    split
    · exact ⟨hd'.subscribers, hd'.rx, hd'.addr, hd'.sent⟩
    · exact hd'
  | recv index =>
    by_cases hb : d.socketIsBound = true
    · cases hm : air[index]? with
      | none => exact ⟨(d, []), by simp [LocalDiscovery.step, hb, hm], hd', by simp⟩
      | some msg =>
        by_cases hlen : encodedLen msg ≤ recvBufferLen
        · have hv' := hv.mono hsub
          obtain ⟨r, hr, hgood, hout⟩ := hd.receive (fun j a h => (hv'.addr j a h).2)
            hv'.networkId (hair msg (List.mem_of_getElem? hm))
          exact ⟨r, by simp [LocalDiscovery.step, hb, hm, hlen, hr], hgood.mono hsub,
            fun m h => (hout m h).mono hsub⟩
        · -- a datagram cut by the buffer is dropped
          exact ⟨(d, []), by simp [LocalDiscovery.step, hb, hm, hlen], hd', by simp⟩
    · exact ⟨(d, []), by simp [LocalDiscovery.step, hb], hd', by simp⟩
  | queryTick =>
    refine ⟨(d, if d.socketIsBound then d.subscribers.entries.map fun e => makeQuery e.1 else []),
      rfl, hd', fun m hm => ?_⟩
    split at hm
    · obtain ⟨e, he, rfl⟩ := List.mem_map.mp hm
      exact .inl ⟨i, e.1, (hd'.subscribers e he).1, rfl⟩
    · cases hm
  | inbox =>
    by_cases hb : d.socketIsBound = true
    · cases hrx : d.rx with
      | nil => exact ⟨(d, []), by simp [LocalDiscovery.step, hb, hrx], hd', by simp⟩
      | cons m rx =>
        have hhead := hd'.rx m (by rw [hrx]; exact List.mem_cons_self)
        have htail : ∀ m' ∈ rx, m'.SentBy (hist ++ [(i, .inbox)]) i :=
          fun m' h => hd'.rx m' (by rw [hrx]; exact List.mem_cons_of_mem m h)
        cases m with
        | subscribe s tx =>
          obtain ⟨networkId, hmem, hs⟩ := hhead
          refine ⟨({ d with rx, subscribers := d.subscribers.add s tx }, []),
            by simp [LocalDiscovery.step, hb, hrx], ⟨fun e he => ?_, htail, hd'.addr, hd'.sent⟩,
            by simp⟩
          -- an entry there before, one the channel was pushed to, or the service's new one
          rcases Subscribers.mem_add he with he | ⟨e₀, he₀, hkey, rfl⟩ | rfl
          · exact hd'.subscribers e he
          · refine ⟨(hd'.subscribers e₀ he₀).1, fun tx' htx' => ?_⟩
            rcases List.mem_append.mp htx' with htx' | htx'
            · exact (hd'.subscribers e₀ he₀).2 tx' htx'
            · rw [List.mem_singleton.mp htx']
              exact ⟨networkId, s, hmem, hs, hkey.symm⟩
          · refine ⟨⟨networkId, tx, hmem, hs⟩, fun tx' htx' => ?_⟩
            rw [List.mem_singleton.mp htx']
            exact ⟨networkId, s, hmem, hs, rfl⟩
        | updateLocalAddress a =>
          refine ⟨({ d with rx, myNodeAddr := some a }, []), by simp [LocalDiscovery.step, hb, hrx],
            ⟨hd'.subscribers, htail, fun b hb' => ?_, hd'.sent⟩, by simp⟩
          rw [Option.some.inj hb'.symm]
          exact hhead
    · exact ⟨(d, []), by simp [LocalDiscovery.step, hb], hd', by simp⟩
  | socketTick binds =>
    refine ⟨(if !d.socketIsBound && binds then { d with socketIsBound := true } else d, []), rfl,
      ?_, by simp⟩
    split
    · exact ⟨hd'.subscribers, hd'.rx, hd'.addr, hd'.sent⟩
    · exact hd'

/-- Every event of a network with the invariant: it does not panic, and keeps the invariant
for the inputs with its own. The other nodes' tasks are as they were. -/
theorem Good.step [DecidableEq ι] (encodedLen : Message → Nat) {N : Network ι} {e : ι × LocalEvent}
    (hN : Good hist N)
    (hv : ValidInputs P ids (hist ++ [e])) :
    ∃ N', N.step P encodedLen e = .ok N' ∧ Good (hist ++ [e]) N' := by
  obtain ⟨i, ev⟩ := e
  have hsub : ∀ x ∈ hist, x ∈ hist ++ [(i, ev)] := fun x hx => List.mem_append_left _ hx
  obtain ⟨r, hr, hgood, hout⟩ := (hN.nodes i).step encodedLen hN.air hv
  refine ⟨⟨Function.update N.nodes i r.1, N.air ++ r.2⟩, by simp [Network.step, hr, Except.map],
    ⟨fun k => ?_, fun m hm => ?_⟩⟩
  · show NodeGood _ k (Function.update N.nodes i r.1 k)
    by_cases hk : k = i
    · rw [hk, Function.update_self]
      exact hgood
    · rw [Function.update_of_ne hk]
      exact (hN.nodes k).mono hsub
  · rcases List.mem_append.mp hm with hm | hm
    · exact (hN.air m hm).mono hsub
    · exact hout m hm

/-- A new network has the invariant: nothing is subscribed, queued, held, sent or on the
group. -/
theorem good_new (bound : ι → Bool) : Good [] (Network.new bound) where
  nodes _ :=
    { subscribers := fun _ h => nomatch h
      rx := fun _ h => nomatch h
      addr := fun _ h => nomatch h
      sent := fun _ h => nomatch h }
  air _ h := nomatch h

/-- Every run of a new network on valid inputs succeeds, and ends with the invariant of all
its inputs. -/
theorem networkRun_good [DecidableEq ι] (encodedLen : Message → Nat) (bound : ι → Bool)
    {events : List (ι × LocalEvent)} (hv : ValidInputs P ids events) :
    ∃ N, networkRun P encodedLen (Network.new bound) events = .ok N ∧ Good events N :=
  foldlM_history_ok (Network.step P encodedLen) Good events
    (fun _ _ _ hpre hN => hN.step encodedLen (hv.mono fun _ hx => hpre.subset hx))
    events [] (Network.new bound) (List.nil_append _) (good_new bound)

end Steps

/-! ## Discovery is sound -/

/-- No run of a network of tasks on valid inputs panics, and every event a task sends into a
subscriber's channel is from the mDNS, about another node of the network, subscribed to the
network id the channel was subscribed to, with exactly the addresses that node was given. -/
theorem localDiscovery_sound [DecidableEq ι] (P : Primitives) (encodedLen : Message → Nat)
    (ids : ι → PublicKey) (bound : ι → Bool) (events : List (ι × LocalEvent))
    (hv : ValidInputs P ids events) :
    ∃ N, networkRun P encodedLen (Network.new bound) events = .ok N ∧
      ∀ i tx ev, (tx, ev) ∈ (N.nodes i).sent →
        ev.provenance = mdnsProvenance ∧ ev.nodeAddr.nodeId ≠ ids i ∧
        ∃ networkId j tx' a, j ≠ i ∧ (i, .subscribe networkId tx) ∈ events ∧
          (j, .subscribe networkId tx') ∈ events ∧ (j, .updateLocalAddress a) ∈ events ∧
          ev.nodeAddr.Announced a := by
  obtain ⟨N, hrun, hgood⟩ := networkRun_good encodedLen bound hv
  refine ⟨N, hrun, fun i tx ev hsent => ?_⟩
  obtain ⟨hprov, ⟨b, hb, hne⟩, s, j, tx', a, ⟨networkId, si, hi, hsi, hkeyi⟩,
    ⟨networkId', sj, hj, hsj, hkeyj⟩, ha, hann⟩ := (hgood.nodes i).sent _ hsent
  -- the service names of the two channels compare equal, so their network ids are one
  obtain rfl : networkId = networkId' := subscribeServiceName_key_injective
    (hv.networkId _ _ _ hi) (hv.networkId _ _ _ hj) hsi hsj (hkeyi.trans hkeyj.symm)
  have hself : ev.nodeAddr.nodeId ≠ ids i := by
    rw [← (hv.addr i b hb).1]
    exact hne
  have hother : j ≠ i := by
    rintro rfl
    exact hself (hann.1.trans (hv.addr j a ha).1)
  exact ⟨hprov, hself, networkId, j, tx', a, hother, hi, hj, ha, hann⟩

/-- The bytes of a record's data on the wire. -/
def RData.wireLen : RData → Nat
  | .A _ => 4
  | .AAAA _ => 16
  | .SRV _ _ _ target => 6 + wireLength target.labels
  | .other => 0

/-- The length of a message on the wire with no name compressed: the 12-byte header, each
question with its type and class, and each record with its type, class, ttl, data length
and data. hickory's encoder compresses names, so `to_bytes` is never longer; the samples
take it as the length of a datagram. -/
def Message.uncompressedLen (m : Message) : Nat :=
  12 + (m.queries.map fun q => wireLength q.name.labels + 4).sum +
    ((m.answers ++ m.additionals).map fun r => wireLength r.name.labels + 10 + r.data.wireLen).sum

/-- The key of a node of the sample network. -/
def samplePeer (b : Bool) : PublicKey := ⟨List.replicate 32 (if b then 1 else 2), by cases b <;> rfl⟩

/-- The address of a node of the sample network. -/
def sampleAddr (b : Bool) : NodeAddr := ⟨samplePeer b, [.v4 ⟨0x7F000001⟩ 2022], by decide⟩

/-- Two nodes subscribe to the network `[0; 32]` and are given their addresses. -/
def sampleEvents : List (Bool × LocalEvent) :=
  [(false, .subscribe (List.replicate 32 0) 0), (true, .subscribe (List.replicate 32 0) 0),
    (false, .updateLocalAddress (sampleAddr false)), (true, .updateLocalAddress (sampleAddr true)),
    (false, .inbox), (true, .inbox), (false, .queryTick)]

theorem localDiscovery_sound_sample :
    ValidInputs cborPrimitives samplePeer sampleEvents ∧
      ∃ N, networkRun cborPrimitives Message.uncompressedLen (Network.new fun _ => true)
          sampleEvents = .ok N ∧
        ∀ i tx ev, (tx, ev) ∈ (N.nodes i).sent →
          ev.provenance = mdnsProvenance ∧ ev.nodeAddr.nodeId ≠ samplePeer i ∧
          ∃ networkId j tx' a, j ≠ i ∧ (i, .subscribe networkId tx) ∈ sampleEvents ∧
            (j, .subscribe networkId tx') ∈ sampleEvents ∧
            (j, .updateLocalAddress a) ∈ sampleEvents ∧ ev.nodeAddr.Announced a := by
  have hv : ValidInputs cborPrimitives samplePeer sampleEvents := by
    constructor
    · intro i a h
      simp only [sampleEvents, List.mem_cons, Prod.mk.injEq, reduceCtorEq,
        LocalEvent.updateLocalAddress.injEq, List.not_mem_nil, or_false, and_false, false_or] at h
      rcases h with ⟨rfl, rfl⟩ | ⟨rfl, rfl⟩
      · exact ⟨rfl, cborPrimitives_keyFromBytes _⟩
      · exact ⟨rfl, cborPrimitives_keyFromBytes _⟩
    · intro i networkId tx h
      simp only [sampleEvents, List.mem_cons, Prod.mk.injEq, reduceCtorEq,
        LocalEvent.subscribe.injEq, List.not_mem_nil, or_false, and_false] at h
      rcases h with ⟨rfl, rfl, rfl⟩ | ⟨rfl, rfl, rfl⟩ <;> rfl
  exact ⟨hv, localDiscovery_sound cborPrimitives Message.uncompressedLen samplePeer (fun _ => true)
    sampleEvents hv⟩

/-! ## A query answered -/

section Exchange

variable [DecidableEq ι] {P : Primitives} {encodedLen : Message → Nat} {N : Network ι} {i : ι}

/-- A query tick of a bound task sends the query of each service it is subscribed to. -/
theorem step_queryTick (hb : (N.nodes i).socketIsBound = true) :
    N.step P encodedLen (i, .queryTick) =
      .ok ⟨N.nodes, N.air ++ (N.nodes i).subscribers.entries.map fun e => makeQuery e.1⟩ := by
  simp [Network.step, LocalDiscovery.step, hb, Except.map]

/-- A query that fits the buffer, received by a bound task subscribed to its service and with
an address: the response announcing the address joins the group. -/
theorem step_recv_query {k : Nat} {s : Name} {a : NodeAddr} {resp : Message}
    (hb : (N.nodes i).socketIsBound = true) (hk : N.air[k]? = some (makeQuery s))
    (hlen : encodedLen (makeQuery s) ≤ recvBufferLen) (ha : (N.nodes i).myNodeAddr = some a)
    (hs : (N.nodes i).subscribers.containsKey s = true) (hresp : makeResponse s a = .ok resp) :
    N.step P encodedLen (i, .recv k) = .ok ⟨N.nodes, N.air ++ [resp]⟩ := by
  simp [Network.step, LocalDiscovery.step, onDatagram, hb, hk, hlen, parseMessage_makeQuery, ha,
    hs, hresp, Except.map]

/-- A response that fits the buffer, received by a bound task with an address and channels
subscribed to its service: the events of its nodes are sent into them. -/
theorem step_recv_response {k : Nat} {msg : Message} {s : Name} {ns : List NodeAddr} {b : NodeAddr}
    {txs : List Nat} (hb : (N.nodes i).socketIsBound = true) (hk : N.air[k]? = some msg)
    (hlen : encodedLen msg ≤ recvBufferLen)
    (hparse : parseMessage P msg = some (.response s ns)) (ha : (N.nodes i).myNodeAddr = some b)
    (hs : (N.nodes i).subscribers.get? s = some txs) :
    N.step P encodedLen (i, .recv k) = .ok ⟨Function.update N.nodes i
      { N.nodes i with sent := (N.nodes i).sent ++ responseEvents txs b ns }, N.air⟩ := by
  simp [Network.step, LocalDiscovery.step, onDatagram, hb, hk, hlen, hparse, ha, hs, Except.map]

/-- Two bound tasks subscribed to one valid service, each with an address, the second
announcing another node than the first with at least one address, and the query and the
response short enough for the receive buffer: a query tick of the first, its query received
by the second, the response received back by the first, and every channel the first
subscribed to the service has the second node with its addresses. -/
theorem localDiscovery_exchange {j : ι} {s : Name} {txs : List Nat} {a b : NodeAddr}
    (hs : s.ValidService) (hbi : (N.nodes i).socketIsBound = true)
    (hbj : (N.nodes j).socketIsBound = true) (hsi : (N.nodes i).subscribers.get? s = some txs)
    (hentry : (s, txs) ∈ (N.nodes i).subscribers.entries)
    (hsj : (N.nodes j).subscribers.containsKey s = true) (hai : (N.nodes i).myNodeAddr = some b)
    (haj : (N.nodes j).myNodeAddr = some a) (hne : a.nodeId ≠ b.nodeId)
    (haddrs : a.directAddresses ≠ []) (hkey : P.keyFromBytes a.nodeId.bytes = .ok a.nodeId)
    (hquery : encodedLen (makeQuery s) ≤ recvBufferLen)
    (hfits : ∀ resp, makeResponse s a = .ok resp → encodedLen resp ≤ recvBufferLen) :
    ∃ k₁ k₂ N', networkRun P encodedLen N [(i, .queryTick), (j, .recv k₁), (i, .recv k₂)] =
        .ok N' ∧
      ∃ n, n.Announced a ∧ ∀ tx ∈ txs, (tx, ⟨mdnsProvenance, n⟩) ∈ (N'.nodes i).sent := by
  -- the query the tick sends for the service's entry
  obtain ⟨idx, hidx⟩ := List.mem_iff_getElem?.mp hentry
  have hsent : (N.air ++ (N.nodes i).subscribers.entries.map fun e => makeQuery e.1)[
      N.air.length + idx]? = some (makeQuery s) := by
    rw [List.getElem?_append_right (Nat.le_add_right _ _), Nat.add_sub_cancel_left,
      List.getElem?_map, hidx, Option.map_some]
  -- the second task answers, and the response reads back as the second node
  obtain ⟨resp, hresp⟩ : ∃ resp, makeResponse s a = .ok resp := by
    obtain ⟨_, _, _, _, _, h⟩ := makeResponse_eq hs a
    exact ⟨_, h⟩
  obtain ⟨n, hparse, hann⟩ : ∃ n, parseMessage P resp = some (.response s [n]) ∧ n.Announced a :=
    (parseMessage_of_makeResponse P hs hkey hresp).resolve_left fun h => haddrs h.1
  -- the three steps: the tick, the query at the second task, the response at the first
  have h1 : N.step P encodedLen (i, .queryTick) =
      .ok ⟨N.nodes, N.air ++ (N.nodes i).subscribers.entries.map fun e => makeQuery e.1⟩ :=
    step_queryTick hbi
  have h2 : Network.step P encodedLen
      ⟨N.nodes, N.air ++ (N.nodes i).subscribers.entries.map fun e => makeQuery e.1⟩
      (j, .recv (N.air.length + idx)) =
        .ok ⟨N.nodes, N.air ++ (N.nodes i).subscribers.entries.map (fun e => makeQuery e.1) ++
          [resp]⟩ :=
    step_recv_query hbj hsent hquery haj hsj hresp
  have h3 := step_recv_response (P := P) (N := ⟨N.nodes,
      N.air ++ (N.nodes i).subscribers.entries.map (fun e => makeQuery e.1) ++ [resp]⟩)
    (k := (N.air ++ (N.nodes i).subscribers.entries.map fun e => makeQuery e.1).length)
    hbi (by simp) (hfits resp hresp) hparse hai hsi
  have hevents : ∀ tx ∈ txs, (tx, ⟨mdnsProvenance, n⟩) ∈ responseEvents txs b [n] := fun tx htx =>
    mem_responseEvents.mpr ⟨tx, htx, n, List.mem_singleton_self n, by rw [hann.1]; exact hne, rfl⟩
  exact ⟨N.air.length + idx,
    (N.air ++ (N.nodes i).subscribers.entries.map fun e => makeQuery e.1).length, _,
    by
      simp only [networkRun, List.foldlM_cons, List.foldlM_nil, h1, h2, h3, Except.ok_bind,
        Except.pure_eq_ok]
      rfl, n, hann,
    fun tx htx => by
      simp only [Function.update_self]
      exact List.mem_append_right _ (hevents tx htx)⟩

end Exchange

/-- The sample network with both tasks bound, subscribed to `local.` with channel 0, and
given their addresses. -/
def sampleNetwork : Network Bool :=
  ⟨fun b => ⟨true, ⟨[(localName, [0])]⟩, some (sampleAddr b), [], []⟩, []⟩

theorem localDiscovery_exchange_sample :
    ∃ k₁ k₂ N', networkRun cborPrimitives Message.uncompressedLen sampleNetwork
        [(false, .queryTick), (true, .recv k₁), (false, .recv k₂)] = .ok N' ∧
      ∃ n, n.Announced (sampleAddr true) ∧
        ∀ tx ∈ [0], (tx, ⟨mdnsProvenance, n⟩) ∈ (N'.nodes false).sent := by
  -- the response announcing the second node, with its one address, is 1472 bytes or fewer
  have hfits : ∀ resp, makeResponse localName (sampleAddr true) = .ok resp →
      resp.uncompressedLen ≤ recvBufferLen := by
    intro resp hresp
    have hmap : (makeResponse localName (sampleAddr true)).map
        (fun r => decide (r.uncompressedLen ≤ recvBufferLen)) = .ok true := by decide +kernel
    rw [hresp] at hmap
    exact of_decide_eq_true (Except.ok.inj hmap)
  exact localDiscovery_exchange (N := sampleNetwork) (i := false) (j := true) (s := localName)
    (by decide) rfl rfl rfl (List.mem_singleton_self _) rfl rfl rfl (by decide)
    (List.cons_ne_nil _ _) (cborPrimitives_keyFromBytes _) (by decide) hfits

end P2panda.Discovery
