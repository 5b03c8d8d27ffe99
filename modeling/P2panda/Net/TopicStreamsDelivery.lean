import P2panda.Net.TopicStreams

/- What the topic streams deliver of the gossip they accept.

   A gossip message is accepted when its topic id is joined as it arrives. While a sync
   session with its sender on that topic id runs it is held back; otherwise it goes to
   every stream of the topic id at once, and the held-back messages go there in their
   order when the last session is done, by re-entering `on_gossip_message`.

   So long as no call forgets a joined overlay (`move_joined_to_pending`) or drops what
   is held back (`on_sync_failed`), nothing is lost: for a stream listed under a topic
   id, what a run sends into it from a peer, followed by what stays held back, is what
   was held back before followed by what the run accepted from that peer on that topic id
   (`streamsRun_delivers`). One run step by step: `Conserves` composes along a run, each
   call conserves (`conserves_call`), and held-back messages stay under joined overlays
   (`HeldJoined`).

   `move_joined_to_pending` breaks `HeldJoined`: a message held back during a session and
   replayed after the overlay was moved back to pending is dropped by the replay as one of
   an unknown topic, though it was accepted (`streamsRun_rejoin_drops`). -/

namespace P2panda.Net

variable {T : Type}

/-- The bytes of a gossip message from `peer` sent into stream `sid`. -/
def gossipFrom (sid : Nat) (peer : PublicKey) : Nat × FromNetwork → Option (List UInt8)
  | (sid', .gossipMessage bytes deliveredFrom) =>
    if sid' = sid ∧ deliveredFrom = peer then some bytes else none
  | (_, .syncMessage _ _ _) => none

/-- The gossip messages from `peer` among what was sent into stream `sid`. -/
def gossipIn (sent : List (Nat × FromNetwork)) (sid : Nat) (peer : PublicKey) :
    List (List UInt8) :=
  sent.filterMap (gossipFrom sid peer)

/-- The messages from `peer` on `topicId` held back. -/
def TopicStreams.heldBack (s : TopicStreams T) (peer : PublicKey) (topicId : Bytes32) :
    List (List UInt8) :=
  (s.gossipBuffer.buffers (peer, topicId)).getD []

/-- A message that `on_gossip_message` accepted: its sender, topic id and bytes. -/
abbrev Accepted := PublicKey × Bytes32 × List UInt8

/-- What a call accepts: a gossip message of a joined topic id. -/
def StreamsCall.accepted (s : TopicStreams T) : StreamsCall T → List Accepted
  | .onGossipMessage topicId bytes deliveredFrom =>
    if s.gossipJoined topicId then [(deliveredFrom, topicId, bytes)] else []
  | _ => []

/-- What the calls of a run accept, up to where it stops. -/
def acceptedIn [DecidableEq T] [TopicId T] :
    TopicStreams T → List (StreamsCall T) → List Accepted
  | _, [] => []
  | s, c :: calls =>
    c.accepted s ++
      match s.call c with
      | .ok s' => acceptedIn s' calls
      | .error _ => []

/-- The bytes of the accepted messages from `peer` on `topicId`. -/
def acceptedFrom (peer : PublicKey) (topicId : Bytes32) (log : List Accepted) :
    List (List UInt8) :=
  log.filterMap fun a => if a.1 = peer ∧ a.2.1 = topicId then some a.2.2 else none

/-- The calls that do not forget the joined overlays. -/
def StreamsCall.keepsJoined : StreamsCall T → Bool
  | .moveJoinedToPending => false
  | _ => true

/-- The calls that neither forget a joined overlay nor drop held-back messages. -/
def StreamsCall.keepsMessages : StreamsCall T → Bool
  | .moveJoinedToPending => false
  | .onSyncFailed _ _ => false
  | _ => true

theorem StreamsCall.keepsJoined_of_keepsMessages {c : StreamsCall T}
    (h : c.keepsMessages = true) : c.keepsJoined = true := by
  cases c <;> first | rfl | exact nomatch h

@[simp] theorem gossipIn_append (sent sent' : List (Nat × FromNetwork)) (sid : Nat)
    (peer : PublicKey) : gossipIn (sent ++ sent') sid peer = gossipIn sent sid peer ++ gossipIn sent' sid peer :=
  List.filterMap_append

@[simp] theorem gossipIn_nil (sid : Nat) (peer : PublicKey) : gossipIn [] sid peer = [] := rfl

/-- A message sent once to each of a list of streams without repeats reaches `sid` once
if `sid` is listed, and not at all otherwise. The induction is on the list. -/
theorem gossipIn_map (sid : Nat) (peer : PublicKey) (message : FromNetwork) :
    ∀ {ids : List Nat}, ids.Nodup →
      gossipIn (ids.map fun sid' => (sid', message)) sid peer =
        if sid ∈ ids then (gossipFrom sid peer (sid, message)).toList else []
  | [], _ => by simp
  | sid' :: ids, hnodup => by
    obtain ⟨hnotin, hnodup⟩ := List.nodup_cons.mp hnodup
    have ih := gossipIn_map sid peer message hnodup
    simp only [List.map_cons, gossipIn, List.filterMap_cons] at ih ⊢
    by_cases hsid : sid' = sid
    · subst hsid
      -- `sid` is not listed again
      rw [if_neg hnotin] at ih
      rw [ih, if_pos List.mem_cons_self]
      cases gossipFrom sid' peer (sid', message) <;> rfl
    · have hnone : gossipFrom sid peer (sid', message) = none := by
        cases message <;> simp [gossipFrom, hsid]
      rw [hnone, ih]
      simp [Ne.symm hsid]

theorem gossipFrom_gossipMessage (sid : Nat) (peer : PublicKey) (bytes : List UInt8)
    (deliveredFrom : PublicKey) :
    gossipFrom sid peer (sid, .gossipMessage bytes deliveredFrom) =
      if deliveredFrom = peer then some bytes else none := by
  simp [gossipFrom]

theorem acceptedFrom_append (peer : PublicKey) (topicId : Bytes32) (log log' : List Accepted) :
    acceptedFrom peer topicId (log ++ log') =
      acceptedFrom peer topicId log ++ acceptedFrom peer topicId log' :=
  List.filterMap_append

namespace TopicStreams

/-! ## Conservation along a run -/

/-- What a step from `s` to `s'` did for stream `sid` and `peer` on `topicId`: it sent
into the channels a list whose gossip messages from `peer` into `sid`, followed by what it
holds back, are what was held back before followed by `accepted`. -/
def Conserves (sid : Nat) (peer : PublicKey) (topicId : Bytes32) (s s' : TopicStreams T)
    (accepted : List (List UInt8)) : Prop :=
  ∃ sent, s'.sent = s.sent ++ sent ∧
    gossipIn sent sid peer ++ s'.heldBack peer topicId = s.heldBack peer topicId ++ accepted

variable {sid : Nat} {peer : PublicKey} {topicId : Bytes32}

theorem conserves_of_eq {s s' : TopicStreams T} (hsent : s'.sent = s.sent)
    (hheld : s'.heldBack peer topicId = s.heldBack peer topicId) :
    Conserves sid peer topicId s s' [] :=
  ⟨[], by rw [hsent, List.append_nil], by rw [hheld]; simp⟩

theorem Conserves.trans {s s' s'' : TopicStreams T} {a a' : List (List UInt8)}
    (h : Conserves sid peer topicId s s' a) (h' : Conserves sid peer topicId s' s'' a') :
    Conserves sid peer topicId s s'' (a ++ a') := by
  obtain ⟨sent, hsent, hheld⟩ := h
  obtain ⟨sent', hsent', hheld'⟩ := h'
  refine ⟨sent ++ sent', by rw [hsent', hsent, List.append_assoc], ?_⟩
  calc gossipIn (sent ++ sent') sid peer ++ s''.heldBack peer topicId
      = gossipIn sent sid peer ++ (gossipIn sent' sid peer ++ s''.heldBack peer topicId) := by
        simp
    _ = (gossipIn sent sid peer ++ s'.heldBack peer topicId) ++ a' := by
        rw [hheld', List.append_assoc]
    _ = s.heldBack peer topicId ++ (a ++ a') := by rw [hheld, List.append_assoc]

/-- Held-back messages stay under joined overlays. -/
def HeldJoined (s : TopicStreams T) : Prop :=
  ∀ k buffer, s.gossipBuffer.buffers k = some buffer → buffer ≠ [] → s.gossipJoined k.2 = true

/-- Stream `sid` is listed under `topicId`. -/
def Listed (s : TopicStreams T) (sid : Nat) (topicId : Bytes32) : Prop :=
  ∃ ids, s.topicIdToStream topicId = some ids ∧ sid ∈ ids

theorem heldJoined_new : (new : TopicStreams T).HeldJoined := fun _ _ h => nomatch h

variable {s s' : TopicStreams T}

theorem heldBack_push {p : PublicKey} {t : Bytes32} {buffer : List (List UInt8)}
    (hbuffer : s.gossipBuffer.buffers (p, t) = some buffer) (bytes : List UInt8) :
    ({ s with gossipBuffer := s.gossipBuffer.push p t bytes } : TopicStreams T).heldBack peer topicId =
      if (p, t) = (peer, topicId) then s.heldBack peer topicId ++ [bytes]
      else s.heldBack peer topicId := by
  by_cases hk : (p, t) = (peer, topicId)
  · rw [if_pos hk]
    obtain ⟨rfl, rfl⟩ := Prod.mk.inj hk
    simp [heldBack, GossipBuffer.push, hbuffer]
  · rw [if_neg hk]
    simp [heldBack, GossipBuffer.push, Function.update_of_ne (Ne.symm hk)]

/-- A state whose buffer at `k` was drained holds nothing back there. -/
theorem heldBack_of_drained {s₁ : TopicStreams T} {k : PublicKey × Bytes32}
    (hbuffers : s₁.gossipBuffer.buffers = Function.update s.gossipBuffer.buffers k none) :
    s₁.heldBack peer topicId = if k = (peer, topicId) then [] else s.heldBack peer topicId := by
  unfold heldBack
  rw [hbuffers]
  by_cases hk : k = (peer, topicId)
  · rw [if_pos hk, hk, Function.update_self]
    rfl
  · rw [if_neg hk, Function.update_of_ne (Ne.symm hk)]

theorem HeldJoined.push (hh : s.HeldJoined) {p : PublicKey} {t : Bytes32}
    (hjoined : s.gossipJoined t = true) (bytes : List UInt8) :
    ({ s with gossipBuffer := s.gossipBuffer.push p t bytes } : TopicStreams T).HeldJoined := by
  intro k buffer hb hne
  by_cases hk : k = (p, t)
  · subst hk
    exact hjoined
  · simp only [GossipBuffer.push, Function.update_of_ne hk] at hb
    exact hh k buffer hb hne

theorem HeldJoined.drained (hh : s.HeldJoined) (k : PublicKey × Bytes32)
    (counters : PublicKey × Bytes32 → Option Nat) :
    ({ s with gossipBuffer := ⟨Function.update s.gossipBuffer.buffers k none, counters⟩ } :
      TopicStreams T).HeldJoined := by
  intro k' buffer hb hne
  by_cases hk : k' = k
  · subst hk
    simp at hb
  · simp only [Function.update_of_ne hk] at hb
    exact hh k' buffer hb hne

theorem HeldJoined.onGossipJoined (hh : s.HeldJoined) (topicId' : Bytes32) :
    (s.onGossipJoined topicId').HeldJoined := by
  unfold TopicStreams.onGossipJoined
  split
  · intro k buffer hb hne
    by_cases hk : k.2 = topicId'
    · simp [hk]
    · simp only [Function.update_of_ne hk]
      exact hh k buffer hb hne
  · exact hh

theorem HeldJoined.onGossipMessage (hh : s.HeldJoined) {topicId' : Bytes32}
    {bytes : List UInt8} {deliveredFrom : PublicKey}
    (hrun : s.onGossipMessage topicId' bytes deliveredFrom = .ok s') : s'.HeldJoined := by
  rcases onGossipMessage_cases hrun with ⟨-, rfl⟩ | ⟨hjoined, -, rfl⟩ | ⟨-, -, -, -, rfl⟩
  · exact hh
  · exact hh.push hjoined bytes
  · exact hh

/-- `unlockBuffer` keeps held-back messages under joined overlays when what it hands the
drained buffer to does. -/
theorem HeldJoined.unlockBuffer (hh : s.HeldJoined) {p : PublicKey} {t : Bytes32}
    {onDrained : TopicStreams T → List (List UInt8) → Except String (TopicStreams T)}
    (hdrained : ∀ s₁ buffer s', s₁.HeldJoined → onDrained s₁ buffer = .ok s' → s'.HeldJoined)
    (hrun : s.unlockBuffer p t onDrained = .ok s') : s'.HeldJoined := by
  rcases Nat.lt_trichotomy (s.gossipBuffer.count p t) 1 with hlt | heq | hgt
  · rw [unlockBuffer_of_count_eq_zero (by omega), Except.ok.injEq] at hrun
    exact hrun ▸ hh
  · cases hbuffer : s.gossipBuffer.buffers (p, t) with
    | none => rw [unlockBuffer_of_missing heq hbuffer] at hrun; cases hrun
    | some buffer =>
      rw [unlockBuffer_of_count_eq_one heq hbuffer] at hrun
      exact hdrained _ buffer s' (hh.drained _ _) hrun
  · rw [unlockBuffer_of_one_lt_count hgt, Except.ok.injEq] at hrun
    exact hrun ▸ hh

theorem onGossipJoined_sent (topicId' : Bytes32) : (s.onGossipJoined topicId').sent = s.sent := by
  unfold TopicStreams.onGossipJoined
  split <;> rfl

theorem onGossipJoined_topicIdToStream (topicId' : Bytes32) :
    (s.onGossipJoined topicId').topicIdToStream = s.topicIdToStream := by
  unfold TopicStreams.onGossipJoined
  split <;> rfl

/-- The replay of held-back messages of `p` on `t`, once there is no buffer for them,
sends each, in order, to every stream of `t`. The induction is on the messages. -/
theorem replay_eq {t : Bytes32} {p : PublicKey} {ids : List Nat} :
    ∀ (buffer : List (List UInt8)) (s : TopicStreams T), s.gossipJoined t = true →
      s.gossipBuffer.buffers (p, t) = none → s.topicIdToStream t = some ids →
      (∀ sid ∈ ids, s.subscribed sid ≠ none) →
      buffer.foldlM (fun s bytes => s.onGossipMessage t bytes p) s =
        .ok { s with
          sent := s.sent ++ buffer.flatMap fun bytes =>
            ids.map fun sid => (sid, .gossipMessage bytes p) }
  | [], s, _, _, _, _ => by simp
  | bytes :: buffer, s, hjoined, hbuffer, hids, hsub => by
    rw [List.foldlM_cons, onGossipMessage_forwarded hjoined hbuffer hids,
      sendToStreams_eq _ ids s hsub, Except.ok_bind, replay_eq buffer
        { s with sent := s.sent ++ ids.map fun sid => (sid, .gossipMessage bytes p) }
        hjoined hbuffer hids hsub]
    simp only [List.flatMap_cons, List.append_assoc]

/-- The replay reaches `sid` with every message, in order, when `sid` is a stream of the
topic id and the messages are from `peer`, and with none otherwise. -/
theorem gossipIn_replay (sid : Nat) (peer : PublicKey) {ids : List Nat} (hnodup : ids.Nodup)
    (p : PublicKey) (buffer : List (List UInt8)) :
    gossipIn (buffer.flatMap fun bytes => ids.map fun sid' => (sid', .gossipMessage bytes p))
        sid peer = if sid ∈ ids ∧ p = peer then buffer else [] := by
  have hone : ∀ bytes, gossipIn (ids.map fun sid' => (sid', FromNetwork.gossipMessage bytes p))
      sid peer = if sid ∈ ids ∧ p = peer then [bytes] else [] := by
    intro bytes
    rw [gossipIn_map sid peer _ hnodup, gossipFrom_gossipMessage]
    by_cases hsid : sid ∈ ids <;> by_cases hp : p = peer <;> simp [hsid, hp]
  unfold gossipIn at hone ⊢
  rw [List.filterMap_flatMap]
  simp only [hone]
  by_cases h : sid ∈ ids ∧ p = peer <;> simp [h]

theorem gossipIn_syncMessages (sid : Nat) (peer : PublicKey) (ids : List Nat)
    (header : List UInt8) (payload : Option (List UInt8)) (deliveredFrom : PublicKey) :
    gossipIn (ids.map fun sid' => (sid', .syncMessage header payload deliveredFrom)) sid peer =
      [] := by
  simp [gossipIn, gossipFrom]

theorem acceptedFrom_onGossipMessage {topicId' : Bytes32} (hjoined : s.gossipJoined topicId' = true)
    (bytes : List UInt8) (deliveredFrom : PublicKey) :
    acceptedFrom peer topicId ((StreamsCall.onGossipMessage topicId' bytes deliveredFrom).accepted s) =
      if deliveredFrom = peer ∧ topicId' = topicId then [bytes] else [] := by
  by_cases hkey : deliveredFrom = peer ∧ topicId' = topicId
  · obtain ⟨rfl, rfl⟩ := hkey
    simp [StreamsCall.accepted, hjoined, acceptedFrom]
  · simp [StreamsCall.accepted, hjoined, acceptedFrom, hkey]

/-- A list that holds `sid` and sits under `topicId` is the one `sid` is listed in. -/
theorem Listed.mem_of_eq {s : TopicStreams T} (h : s.Listed sid topicId) {ids : List Nat}
    (hids : s.topicIdToStream topicId = some ids) : sid ∈ ids := by
  obtain ⟨ids₀, hids₀, hsid₀⟩ := h
  rw [hids, Option.some.injEq] at hids₀
  exact hids₀ ▸ hsid₀

theorem conserves_onSyncMessage (hl : s.Listed sid topicId) {topic : T} {header : List UInt8}
    {payload : Option (List UInt8)} {deliveredFrom : PublicKey}
    (hrun : s.onSyncMessage topic header payload deliveredFrom = .ok s') :
    Conserves sid peer topicId s s' [] ∧ s'.Listed sid topicId := by
  unfold TopicStreams.onSyncMessage at hrun
  split at hrun
  · cases hrun
  · obtain rfl := sendToStreams_ok _ _ s s' hrun
    refine ⟨⟨_, rfl, ?_⟩, hl⟩
    rw [gossipIn_syncMessages, List.nil_append, List.append_nil]
    rfl

section Calls

variable [TopicId T]

/-- A stream listed under one topic id is listed under no other. -/
theorem Maps.eq_of_listed {s : TopicStreams T} (hmaps : s.Maps) {topicId' : Bytes32}
    (h : s.Listed sid topicId) {ids : List Nat} (hids : s.topicIdToStream topicId' = some ids)
    (hsid : sid ∈ ids) : topicId' = topicId := by
  obtain ⟨ids₀, hids₀, hsid₀⟩ := h
  obtain ⟨topic, htopic, hid⟩ := ((hmaps.streams topicId ids₀ hids₀).2 sid hsid₀).2
  obtain ⟨topic', htopic', hid'⟩ := ((hmaps.streams topicId' ids hids).2 sid hsid).2
  rw [htopic, Option.some.injEq] at htopic'
  rw [← hid', ← hid, htopic']

/-- Forwarding a gossip message: stream `sid` gets it once if it is from `peer` on
`topicId`, and nothing otherwise. -/
theorem conserves_forward {s : TopicStreams T} (hmaps : s.Maps) (hlisted : s.Listed sid topicId)
    {topicId' : Bytes32} {ids : List Nat} (hids : s.topicIdToStream topicId' = some ids)
    (bytes : List UInt8) (deliveredFrom : PublicKey)
    (hheld : (deliveredFrom, topicId') = (peer, topicId) → s.heldBack peer topicId = []) :
    Conserves sid peer topicId s
      { s with sent := s.sent ++ ids.map fun sid' => (sid', .gossipMessage bytes deliveredFrom) }
      (if deliveredFrom = peer ∧ topicId' = topicId then [bytes] else []) := by
  refine ⟨_, rfl, ?_⟩
  rw [gossipIn_map sid peer _ (hmaps.streams topicId' ids hids).1]
  show _ ++ s.heldBack peer topicId = _
  by_cases hsid : sid ∈ ids
  · -- a stream listed here is listed under `topicId`
    have htopic := hmaps.eq_of_listed hlisted hids hsid
    subst htopic
    rw [if_pos hsid, gossipFrom_gossipMessage]
    by_cases hpeer : deliveredFrom = peer
    · subst hpeer
      simp [hheld rfl]
    · simp [hpeer]
  · rw [if_neg hsid]
    by_cases hkey : deliveredFrom = peer ∧ topicId' = topicId
    · obtain ⟨rfl, rfl⟩ := hkey
      exact absurd (hlisted.mem_of_eq hids) hsid
    · simp [hkey]

theorem heldBack_onSyncHandshakeSuccess (topic : T) (p : PublicKey) :
    (s.onSyncHandshakeSuccess topic p).heldBack peer topicId = s.heldBack peer topicId := by
  unfold heldBack onSyncHandshakeSuccess GossipBuffer.lock
  by_cases hk : (p, TopicId.id topic) = (peer, topicId)
  · rw [← hk]
    simp
  · simp only [Function.update_of_ne (Ne.symm hk)]

theorem HeldJoined.onSyncHandshakeSuccess (hh : s.HeldJoined) (topic : T) (p : PublicKey) :
    (s.onSyncHandshakeSuccess topic p).HeldJoined := by
  intro k buffer hb hne
  by_cases hk : k = (p, TopicId.id topic)
  · subst hk
    simp only [TopicStreams.onSyncHandshakeSuccess, GossipBuffer.lock, Function.update_self,
      Option.some.injEq] at hb
    -- the buffer is the one there was, or a new empty one
    cases hold : s.gossipBuffer.buffers (p, TopicId.id topic) with
    | none =>
      rw [hold] at hb
      exact absurd hb.symm hne
    | some old =>
      rw [hold, Option.getD_some] at hb
      exact hh _ old hold (by rwa [hb])
  · simp only [TopicStreams.onSyncHandshakeSuccess, GossipBuffer.lock,
      Function.update_of_ne hk] at hb
    exact hh k buffer hb hne

/-- A run of calls that keep the joined overlays keeps held-back messages under them. -/
theorem HeldJoined.call [DecidableEq T] (hh : s.HeldJoined) {c : StreamsCall T}
    (hc : c.keepsJoined = true) (hrun : s.call c = .ok s') : s'.HeldJoined := by
  cases c with
  | subscribe topic =>
    cases hrun
    exact hh
  | onGossipJoined topicId' =>
    cases hrun
    exact hh.onGossipJoined topicId'
  | moveJoinedToPending => exact nomatch hc
  | onGossipMessage topicId' bytes deliveredFrom => exact hh.onGossipMessage hrun
  | onSyncHandshakeSuccess topic p =>
    cases hrun
    exact hh.onSyncHandshakeSuccess topic p
  | onSyncMessage topic header payload deliveredFrom =>
    simp only [TopicStreams.call, TopicStreams.onSyncMessage] at hrun
    split at hrun
    · cases hrun
    · obtain rfl := sendToStreams_ok _ _ s s' hrun
      exact hh
  | onSyncDone topic p =>
    simp only [TopicStreams.call, TopicStreams.onSyncDone] at hrun
    -- the replay keeps it step by step
    exact hh.unlockBuffer (fun s₁ buffer s' h₁ hreplay =>
      foldlM_invariant _ HeldJoined buffer (fun _ _ _ _ hs hstep => hs.onGossipMessage hstep)
        buffer s₁ s' (fun _ h => h) h₁ hreplay) hrun
  | onSyncFailed topic p =>
    cases topic with
    | none =>
      cases hrun
      exact hh
    | some topic =>
      simp only [TopicStreams.call, TopicStreams.onSyncFailed] at hrun
      exact hh.unlockBuffer (fun s₁ _ s' h₁ hr => by cases hr; exact h₁) hrun

theorem heldJoined_run [DecidableEq T] (calls : List (StreamsCall T))
    (hkeeps : ∀ c ∈ calls, c.keepsJoined = true) {s : TopicStreams T}
    (hrun : streamsRun .new calls = .ok s) : s.HeldJoined :=
  foldlM_invariant _ HeldJoined calls (fun _ c _ hc hs hstep => hs.call (hkeeps c hc) hstep)
    calls .new s (fun _ h => h) heldJoined_new hrun

/-- `on_gossip_message` conserves: what it accepts it holds back or sends. -/
theorem conserves_onGossipMessage (hw : s.Wired) (hl : s.Listed sid topicId)
    {topicId' : Bytes32} {bytes : List UInt8} {deliveredFrom : PublicKey}
    (hrun : s.onGossipMessage topicId' bytes deliveredFrom = .ok s') :
    Conserves sid peer topicId s s' (acceptedFrom peer topicId
        ((StreamsCall.onGossipMessage topicId' bytes deliveredFrom).accepted s)) ∧
      s'.Listed sid topicId := by
  rcases onGossipMessage_cases hrun with
    ⟨hjoined, rfl⟩ | ⟨hjoined, ⟨buffer, hbuffer⟩, rfl⟩ | ⟨hjoined, hbuffer, ids, hids, rfl⟩
  · simp only [StreamsCall.accepted, hjoined]
    exact ⟨conserves_of_eq rfl rfl, hl⟩
  · -- held back
    rw [acceptedFrom_onGossipMessage hjoined]
    refine ⟨⟨[], by simp, ?_⟩, hl⟩
    rw [heldBack_push hbuffer, gossipIn_nil, List.nil_append]
    by_cases hkey : deliveredFrom = peer ∧ topicId' = topicId
    · rw [if_pos (by rw [hkey.1, hkey.2]), if_pos hkey]
    · rw [if_neg (by simpa using hkey), if_neg hkey, List.append_nil]
  · -- sent to the streams of the topic id
    rw [acceptedFrom_onGossipMessage hjoined]
    refine ⟨conserves_forward hw.maps hl hids bytes deliveredFrom fun hkey => ?_, hl⟩
    obtain ⟨rfl, rfl⟩ := Prod.mk.inj hkey
    simp [heldBack, hbuffer]

/-- The last session's buffer drained and replayed: the messages it held go, in order,
to the streams of its topic id, and are no longer held back. -/
theorem conserves_drain (hw : s.Wired) (hh : s.HeldJoined) (hl : s.Listed sid topicId)
    {p : PublicKey} {t : Bytes32} {buffer : List (List UInt8)}
    (hbuffer : s.gossipBuffer.buffers (p, t) = some buffer)
    (counters : PublicKey × Bytes32 → Option Nat)
    (hrun : buffer.foldlM (fun s bytes => s.onGossipMessage t bytes p)
      { s with gossipBuffer := ⟨Function.update s.gossipBuffer.buffers (p, t) none, counters⟩ } =
        .ok s') :
    Conserves sid peer topicId s s' [] ∧ s'.Listed sid topicId := by
  cases buffer with
  | nil =>
    -- nothing to replay, and nothing was held back
    rw [List.foldlM_nil, Except.pure_eq_ok, Except.ok.injEq] at hrun
    subst hrun
    refine ⟨conserves_of_eq rfl ?_, hl⟩
    rw [heldBack_of_drained rfl]
    split
    · next hk =>
      obtain ⟨rfl, rfl⟩ := Prod.mk.inj hk
      simp [heldBack, hbuffer]
    · rfl
  | cons bytes rest =>
    have hjoined : s.gossipJoined t = true := hh (p, t) _ hbuffer (List.cons_ne_nil bytes rest)
    obtain ⟨ids, hids⟩ := Option.ne_none_iff_exists'.mp (hw.maps.mapped t (.inl hjoined))
    rw [replay_eq (bytes :: rest)
      { s with gossipBuffer := ⟨Function.update s.gossipBuffer.buffers (p, t) none, counters⟩ }
      hjoined (by simp) hids (hw.maps.subscribed_of_mem hids), Except.ok.injEq] at hrun
    subst hrun
    refine ⟨⟨_, rfl, ?_⟩, hl⟩
    rw [gossipIn_replay sid peer (hw.maps.streams t ids hids).1, heldBack_of_drained rfl]
    by_cases hsid : sid ∈ ids ∧ p = peer
    · obtain ⟨hsid, rfl⟩ := hsid
      have ht := hw.maps.eq_of_listed hl hids hsid
      subst ht
      simp [heldBack, hbuffer, hsid]
    · -- the drained buffer is not the one of `peer` on `topicId`
      have hk : (p, t) ≠ (peer, topicId) := fun hk => by
        obtain ⟨rfl, rfl⟩ := Prod.mk.inj hk
        exact hsid ⟨hl.mem_of_eq hids, rfl⟩
      simp [hsid, hk]

/-- `on_sync_done` conserves: it accepts nothing, and after the last session sends what was
held back. -/
theorem conserves_onSyncDone (hw : s.Wired) (hh : s.HeldJoined) (hl : s.Listed sid topicId)
    (topic : T) (p : PublicKey) (hrun : s.onSyncDone topic p = .ok s') :
    Conserves sid peer topicId s s' [] ∧ s'.Listed sid topicId := by
  rcases Nat.lt_trichotomy (s.gossipBuffer.count p (TopicId.id topic)) 1 with hlt | heq | hgt
  · rw [TopicStreams.onSyncDone, unlockBuffer_of_count_eq_zero (by omega), Except.ok.injEq] at hrun
    subst hrun
    exact ⟨conserves_of_eq rfl rfl, hl⟩
  · have hpos : 0 < s.gossipBuffer.count p (TopicId.id topic) := by omega
    obtain ⟨buffer, hbuffer⟩ := hw.locked.buffer_of_count_pos hpos
    rw [TopicStreams.onSyncDone, unlockBuffer_of_count_eq_one heq hbuffer] at hrun
    exact conserves_drain hw hh hl hbuffer _ hrun
  · rw [TopicStreams.onSyncDone, unlockBuffer_of_one_lt_count hgt, Except.ok.injEq] at hrun
    subst hrun
    exact ⟨conserves_of_eq rfl rfl, hl⟩

theorem Listed.subscribe [DecidableEq T] (hl : s.Listed sid topicId) (topic : T) :
    (s.subscribe topic).Listed sid topicId := by
  obtain ⟨ids, hids, hsid⟩ := hl
  by_cases htopic : topicId = TopicId.id topic
  · subst htopic
    exact ⟨ids ++ [s.nextStreamId], by simp [TopicStreams.subscribe, hids],
      List.mem_append_left _ hsid⟩
  · exact ⟨ids, by simp [TopicStreams.subscribe, Function.update_of_ne htopic, hids], hsid⟩

/-- Every call that keeps what it accepted conserves. -/
theorem conserves_call [DecidableEq T] (hw : s.Wired) (hh : s.HeldJoined)
    (hl : s.Listed sid topicId) {c : StreamsCall T} (hc : c.keepsMessages = true)
    (hrun : s.call c = .ok s') :
    Conserves sid peer topicId s s' (acceptedFrom peer topicId (c.accepted s)) ∧
      s'.Listed sid topicId := by
  cases c with
  | subscribe topic =>
    cases hrun
    exact ⟨conserves_of_eq rfl rfl, hl.subscribe topic⟩
  | onGossipJoined topicId' =>
    cases hrun
    refine ⟨conserves_of_eq (onGossipJoined_sent _) (by simp [heldBack]), ?_⟩
    rw [Listed, onGossipJoined_topicIdToStream]
    exact hl
  | moveJoinedToPending => exact nomatch hc
  | onGossipMessage topicId' bytes deliveredFrom => exact conserves_onGossipMessage hw hl hrun
  | onSyncHandshakeSuccess topic p =>
    cases hrun
    exact ⟨conserves_of_eq rfl (heldBack_onSyncHandshakeSuccess topic p), hl⟩
  | onSyncMessage topic header payload deliveredFrom => exact conserves_onSyncMessage hl hrun
  | onSyncDone topic p => exact conserves_onSyncDone hw hh hl topic p hrun
  | onSyncFailed topic p => exact nomatch hc

/-- A run of calls that keep what they accept conserves, from any wired state whose
held-back messages are under joined overlays. The induction is on the calls. -/
theorem conserves_run [DecidableEq T] :
    ∀ (calls : List (StreamsCall T)) (s s' : TopicStreams T), s.Wired → s.HeldJoined →
      s.Listed sid topicId → (∀ c ∈ calls, c.keepsMessages = true) →
      streamsRun s calls = .ok s' →
        Conserves sid peer topicId s s' (acceptedFrom peer topicId (acceptedIn s calls))
  | [], s, s', _, _, _, _, hrun => by
    simp only [streamsRun, List.foldlM_nil, Except.pure_eq_ok, Except.ok.injEq] at hrun
    subst hrun
    exact conserves_of_eq rfl rfl
  | c :: calls, s, s', hw, hh, hl, hkeeps, hrun => by
    have hc := hkeeps c List.mem_cons_self
    cases hstep : s.call c with
    | error e => simp [streamsRun, hstep] at hrun
    | ok s₁ =>
      have hrest : streamsRun s₁ calls = .ok s' := by
        simpa [streamsRun, hstep] using hrun
      obtain ⟨hcall, hl₁⟩ := conserves_call hw hh hl hc hstep
      have hrun₁ := conserves_run calls s₁ s' ((hw.call c).1 s₁ hstep)
        (hh.call (StreamsCall.keepsJoined_of_keepsMessages hc) hstep) hl₁
        (fun c' h => hkeeps c' (List.mem_cons_of_mem _ h)) hrest
      simp only [acceptedIn, hstep, acceptedFrom_append]
      exact hcall.trans hrun₁

end Calls

end TopicStreams

/-- Gossip delivery without rejoining: split a run of calls on new topic streams anywhere
such that no call forgets the joined overlays, and none after the split drops held-back
messages, and take a stream listed under a topic id at the split. What the rest of the run
sends into the stream from a peer, followed by what it still holds back from the peer on
the topic id, is what was held back at the split followed by every message the rest of the
run accepted from the peer on the topic id, in order, each once. -/
theorem streamsRun_delivers {T : Type} [DecidableEq T] [TopicId T]
    (pre post : List (StreamsCall T)) (hpre : ∀ c ∈ pre, c.keepsJoined = true)
    (hpost : ∀ c ∈ post, c.keepsMessages = true) {s₀ s : TopicStreams T}
    (hrun₀ : streamsRun .new pre = .ok s₀) (hrun : streamsRun s₀ post = .ok s) {sid : Nat}
    {topicId : Bytes32} (hsid : ∃ ids, s₀.topicIdToStream topicId = some ids ∧ sid ∈ ids)
    (peer : PublicKey) :
    ∃ sent, s.sent = s₀.sent ++ sent ∧
      gossipIn sent sid peer ++ s.heldBack peer topicId =
        s₀.heldBack peer topicId ++ acceptedFrom peer topicId (acceptedIn s₀ post) :=
  TopicStreams.conserves_run post s₀ s ((streamsRun_wired pre).1 s₀ hrun₀)
    (TopicStreams.heldJoined_run pre hpre hrun₀) hsid hpost hrun

/-- The topics of the source's tests, both on the overlay `[0; 32]`. -/
inductive TestTopic where
  | primary
  | secondary
  deriving DecidableEq

instance : TopicId TestTopic := ⟨fun _ => ⟨List.replicate 32 0, Bytes32.length_zeros⟩⟩

def testPeer : PublicKey := ⟨List.replicate 32 1, rfl⟩

/-- The start of the source's test `ooo_gossip_buffering`: one stream subscribes, and its
overlay is joined. -/
def subscribedCalls : List (StreamsCall TestTopic) :=
  [.subscribe .primary, .onGossipJoined (TopicId.id TestTopic.primary)]

/-- The rest of `ooo_gossip_buffering`: two gossip messages arrive during a sync session,
which then ends. -/
def bufferedCalls : List (StreamsCall TestTopic) :=
  [.onSyncHandshakeSuccess .primary testPeer,
    .onGossipMessage (TopicId.id TestTopic.primary) [1] testPeer,
    .onGossipMessage (TopicId.id TestTopic.primary) [2] testPeer,
    .onSyncDone .primary testPeer]

theorem streamsRun_delivers_buffered :
    ∃ s₀ s : TopicStreams TestTopic,
      streamsRun .new subscribedCalls = .ok s₀ ∧ streamsRun s₀ bufferedCalls = .ok s ∧
      ∃ sent, s.sent = s₀.sent ++ sent ∧
        gossipIn sent 1 testPeer ++ s.heldBack testPeer (TopicId.id TestTopic.primary) =
          s₀.heldBack testPeer (TopicId.id TestTopic.primary) ++
            acceptedFrom testPeer (TopicId.id TestTopic.primary) (acceptedIn s₀ bufferedCalls) :=
  ⟨_, _, rfl, rfl, streamsRun_delivers subscribedCalls bufferedCalls (by decide) (by decide) rfl
    rfl ⟨[1], rfl, List.mem_singleton_self 1⟩ testPeer⟩

/-- `ooo_gossip_buffering` with the joined overlays moved back to pending while the session
runs, as the engine does on a major interface change. -/
def rejoinCalls : List (StreamsCall TestTopic) :=
  subscribedCalls ++
    [.onSyncHandshakeSuccess .primary testPeer,
      .onGossipMessage (TopicId.id TestTopic.primary) [1] testPeer,
      .moveJoinedToPending,
      .onSyncDone .primary testPeer]

/-- The message is accepted and the session that held it back is done, but it went into no
stream and is held back no more: stream 1, subscribed to its topic, never gets it. -/
theorem streamsRun_rejoin_drops :
    acceptedIn .new rejoinCalls = [(testPeer, TopicId.id TestTopic.primary, [1])] ∧
      ∃ s : TopicStreams TestTopic, streamsRun .new rejoinCalls = .ok s ∧ s.sent = [] ∧
        s.heldBack testPeer (TopicId.id TestTopic.primary) = [] ∧
        s.subscribed 1 = some .primary :=
  ⟨rfl, _, rfl, rfl, rfl, rfl⟩

end P2panda.Net
