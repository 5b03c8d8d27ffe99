import Mathlib.Data.List.AList
import Mathlib.Data.List.Induction
import P2panda.Lib.Duplex
import P2panda.Lib.Run
import P2panda.Store.Memory

/- The log-height sync protocol (`p2panda-sync/src/log_sync.rs`) and the glue tasks of
   `p2panda-net` that pass what a session forwards on to the engine
   (`p2panda-net/src/sync/accept.rs`, `initiate.rs`).

   Each side of a session is a `Duplex.Process`: its state is the two flags of its receive
   loop, its messages are the protocol's `Message`s, its outputs are the `FromSync` events
   it sends on `app_tx`, and it stops with the `Result` the call returns. A reaction is one
   turn of the receive loop, ending with the loop's `break` check; the end of the input
   stream leaves the loop and returns `Ok(())`.

   The `TopicLogMap` of a peer is a function from topic queries to their logs: one
   `HashMap` of authors to log ids, given as the list of its entries in iteration order.
   The `LogStore` is the two reads the protocol makes of it, each failing with the text of
   the store's error.

   What one side does with any input is said by `emitted_initiate` and `emitted_accept`:
   the initiator announces the topic first and then only forwards data; the acceptor
   forwards each message as it arrives, announcing a topic for every `Have`. The accept
   glue task takes exactly the two-phase flows, the topic once and then only data, and
   refuses data before a topic and a second topic as critical errors
   (`acceptSyncGlue_ok_iff`); a remote peer can send both, while the initiator side gives
   its glue task nothing to refuse (`initiateSyncGlue_initiate`). -/

namespace P2panda.Sync

open Duplex

/-- `TopicQuery`: what the protocol uses of a topic query besides its equality, the text
its `Debug` gives. -/
class TopicQuery (T : Type) where
  debug : T → String

/-- `Logs`: the log ids of each author, in the iteration order of the map. -/
abbrev Logs (L : Type) := List (PublicKey × List L)

/-- `LogHeights` per author, as a `Have` message carries them. -/
abbrev AuthorHeights (L : Type) := List (PublicKey × List (L × UInt64))

/-- `Message`, what the two peers send each other. -/
inductive Message (T L : Type) where
  | have (topic : T) (heights : AuthorHeights L)
  | data (header : List UInt8) (payload : Option (List UInt8))
  | done
  deriving DecidableEq

/-- `FromSync`, the events a session sends to the application. -/
inductive FromSync (T : Type) where
  | handshakeSuccess (topic : T)
  | data (header : List UInt8) (payload : Option (List UInt8))
  deriving DecidableEq

/-- `SyncError`. -/
inductive SyncError where
  | unexpectedBehaviour (msg : String)
  | invalidEncoding (msg : String)
  | critical (msg : String)
  deriving DecidableEq

/-- The reads of `LogStore` the protocol makes: `latest_operation` and `get_raw_log`. -/
structure LogStore (L E : Type) where
  latestOperation : PublicKey → L → Except String (Option (Header E × Option Body))
  getRawLog : PublicKey → L → Option UInt64 →
    Except String (Option (List (List UInt8 × Option (List UInt8))))

/-- `LogSyncProtocol`: the topic map and the store of a peer. -/
structure LogSyncProtocol (T L E : Type) where
  topicMap : T → Option (Logs L)
  store : LogStore L E

end P2panda.Sync

namespace P2panda.MemoryStore

/-- `impl LogStore for MemoryStore`: its reads do not fail. -/
def logStore {L E : Type} [DecidableEq L] (s : MemoryStore L E) : Sync.LogStore L E where
  latestOperation publicKey logId := .ok (s.latestOperation publicKey logId)
  getRawLog := s.getRawLog

end P2panda.MemoryStore

namespace P2panda.Sync

open Duplex

variable {T L E : Type}

section Protocol

variable [DecidableEq T] [DecidableEq L] [TopicQuery T]

/-! ## Log heights and the data a remote needs -/

/-- `local_log_heights`: the height of every log of the topic that has an operation,
per author. -/
def localLogHeights (store : LogStore L E) (topicMap : T → Option (Logs L)) (topicQuery : T) :
    Except SyncError (AuthorHeights L) := do
  let some logs := topicMap topicQuery
    | throw (.critical ("unknown " ++ TopicQuery.debug topicQuery ++ " topic query"))
  logs.mapM fun (publicKey, logIds) => do
    let logHeights ← logIds.foldlM (fun logHeights logId => do
      let latest ← (store.latestOperation publicKey logId).mapError
        fun err => .critical ("can't retrieve log heights from store, " ++ err)
      match latest with
      | some (header, _) => pure (logHeights ++ [(logId, header.seqNum)])
      | none => pure logHeights) []
    pure (publicKey, logHeights)

/-- `remote_log_heights.into_iter().collect()`: a later entry of an author replaces an
earlier one. -/
def heightsMap (remote : AuthorHeights L) : AList fun _ : PublicKey => List (L × UInt64) :=
  remote.foldl (fun heights entry => heights.insert entry.1 entry.2) ∅

/-- `remote_needs_from`: one past the remote's height of the log, or `0` when the remote
did not announce it. The increment wraps, as in a release build. -/
def remoteNeedsFrom (remote : AList fun _ : PublicKey => List (L × UInt64))
    (publicKey : PublicKey) (logId : L) : UInt64 :=
  match remote.lookup publicKey with
  | some logHeights =>
    match logHeights.find? (fun entry => decide (entry.1 = logId)) with
    | some (_, logHeight) => logHeight + 1
    | none => 0
  | none => 0

/-- `remote_needs`: the log from `from` on, as data messages. -/
def remoteNeeds (store : LogStore L E) (logId : L) (publicKey : PublicKey) (fromSeqNum : UInt64) :
    Except SyncError (List (Message T L)) := do
  let log ← (store.getRawLog publicKey logId (some fromSeqNum)).mapError
    fun err => .critical ("could not retrieve log from store, " ++ err)
  pure ((log.getD []).map fun (header, payload) => .data header payload)

/-- The body of the inner loop of `messages_needed_by_remote`: what one log adds, nothing
when we do not have it or the remote is not behind. -/
def messagesForLog (store : LogStore L E) (remote : AList fun _ : PublicKey => List (L × UInt64))
    (publicKey : PublicKey) (logId : L) : Except SyncError (List (Message T L)) := do
  let latest ← (store.latestOperation publicKey logId).mapError
    fun err => .critical ("can't retreive log heights from store, " ++ err)
  match latest with
  | none => pure []
  | some (header, _) =>
    let fromSeqNum := remoteNeedsFrom remote publicKey logId
    if fromSeqNum ≤ header.seqNum then remoteNeeds store logId publicKey fromSeqNum
    else pure []

/-- `messages_needed_by_remote`: the messages of every log, in the order of the logs. -/
def messagesNeededByRemote (store : LogStore L E) (logs : Logs L)
    (remote : AList fun _ : PublicKey => List (L × UInt64)) :
    Except SyncError (List (Message T L)) :=
  logs.foldlM (fun messages (publicKey, logIds) =>
    logIds.foldlM (fun messages logId =>
      (messages ++ ·) <$> messagesForLog store remote publicKey logId) messages) []

/-! ## The two sides of a session -/

/-- The flags of a receive loop. -/
structure Flags where
  syncDoneReceived : Bool
  syncDoneSent : Bool
  deriving DecidableEq

/-- The turn of a loop that sent `sent` and forwarded `emitted`: `break` once `Done` was
both received and sent. -/
def loopTurn (flags : Flags) (sent : List (Message T L)) (emitted : List (FromSync T)) :
    Reaction Flags (Message T L) (FromSync T) (Except SyncError Unit) :=
  ⟨sent, emitted,
    if flags.syncDoneReceived && flags.syncDoneSent then .stopped (.ok ()) else .running flags⟩

/-- A turn that returns `err` after sending `sent` and forwarding `emitted`. -/
def failTurn (sent : List (Message T L)) (emitted : List (FromSync T)) (err : SyncError) :
    Reaction Flags (Message T L) (FromSync T) (Except SyncError Unit) :=
  ⟨sent, emitted, .stopped (.error err)⟩

/-- What the receive loop sends to the application for a message. -/
def Message.forwarded : Message T L → List (FromSync T)
  | .data header payload => [.data header payload]
  | _ => []

/-- Whether a message is `Message::Data`. -/
def Message.isData : Message T L → Bool
  | .data _ _ => true
  | _ => false

/-- One turn of the receive loop of `initiate`. -/
def initiateTurn (p : LogSyncProtocol T L E) (topicQuery : T) (flags : Flags) :
    Option (Message T L) → Reaction Flags (Message T L) (FromSync T) (Except SyncError Unit)
  | none => ⟨[], [], .stopped (.ok ())⟩
  | some (.data header payload) => loopTurn flags [] [.data header payload]
  | some .done => loopTurn { flags with syncDoneReceived := true } [] []
  | some (.have remoteTopicQuery remoteLogHeights) =>
    if !flags.syncDoneReceived then
      failTurn [] [] (.unexpectedBehaviour "unexpected \"have\" message received")
    else if remoteTopicQuery ≠ topicQuery then
      failTurn [] [] (.unexpectedBehaviour ("incompatible topic query " ++
        TopicQuery.debug topicQuery ++ " requested from remote peer"))
    else
      match p.topicMap topicQuery with
      | none => failTurn [] [] (.unexpectedBehaviour ("unsupported topic query " ++
          TopicQuery.debug topicQuery ++ " requested from remote peer"))
      | some logs =>
        match messagesNeededByRemote p.store logs (heightsMap remoteLogHeights) with
        | .error err => failTurn [] [] err
        | .ok messages => loopTurn { flags with syncDoneSent := true } (messages ++ [.done]) []

/-- `LogSyncProtocol::initiate`: announce the local heights and the topic, then the
receive loop. -/
def LogSyncProtocol.initiate (p : LogSyncProtocol T L E) (topicQuery : T) :
    Process Flags (Message T L) (FromSync T) (Except SyncError Unit) where
  start :=
    match localLogHeights p.store p.topicMap topicQuery with
    | .error err => failTurn [] [] err
    | .ok heights =>
      ⟨[.have topicQuery heights], [.handshakeSuccess topicQuery], .running ⟨false, false⟩⟩
  react := initiateTurn p topicQuery

/-- One turn of the receive loop of `accept`. A `Have` is answered in one turn: the data
the remote needs, `Done`, and our own `Have`. -/
def acceptTurn (p : LogSyncProtocol T L E) (flags : Flags) :
    Option (Message T L) → Reaction Flags (Message T L) (FromSync T) (Except SyncError Unit)
  | none => ⟨[], [], .stopped (.ok ())⟩
  | some (.have topicQuery remoteLogHeights) =>
    match p.topicMap topicQuery with
    | none => failTurn [] [.handshakeSuccess topicQuery] (.unexpectedBehaviour
        ("unsupported topic query " ++ TopicQuery.debug topicQuery ++ " requested from remote peer"))
    | some logs =>
      match messagesNeededByRemote p.store logs (heightsMap remoteLogHeights) with
      | .error err => failTurn [] [.handshakeSuccess topicQuery] err
      | .ok messages =>
        match localLogHeights p.store p.topicMap topicQuery with
        | .error err => failTurn (messages ++ [.done]) [.handshakeSuccess topicQuery] err
        | .ok heights =>
          loopTurn { flags with syncDoneSent := true }
            (messages ++ [.done, .have topicQuery heights]) [.handshakeSuccess topicQuery]
  | some (.data header payload) => loopTurn flags [] [.data header payload]
  | some .done => loopTurn { flags with syncDoneReceived := true } [] []

/-- `LogSyncProtocol::accept`: the receive loop from the start. -/
def LogSyncProtocol.accept (p : LogSyncProtocol T L E) :
    Process Flags (Message T L) (FromSync T) (Except SyncError Unit) where
  start := ⟨[], [], .running ⟨false, false⟩⟩
  react := acceptTurn p

end Protocol

/-! ## Specs of the turns -/

section Specs

variable [DecidableEq L]

omit [DecidableEq L] in
theorem remoteNeeds_isData {store : LogStore L E} {logId : L} {publicKey : PublicKey}
    {fromSeqNum : UInt64} {ms : List (Message T L)}
    (h : remoteNeeds store logId publicKey fromSeqNum = .ok ms) : ∀ m ∈ ms, m.isData = true := by
  unfold remoteNeeds at h
  cases hlog : store.getRawLog publicKey logId (some fromSeqNum) with
  | error err => simp [hlog, Except.mapError] at h
  | ok log =>
    simp only [hlog, Except.mapError] at h
    cases h
    intro m hm
    obtain ⟨⟨header, payload⟩, -, rfl⟩ := List.mem_map.mp hm
    rfl

theorem messagesForLog_isData {store : LogStore L E}
    {remote : AList fun _ : PublicKey => List (L × UInt64)} {publicKey : PublicKey} {logId : L}
    {ms : List (Message T L)} (h : messagesForLog store remote publicKey logId = .ok ms) :
    ∀ m ∈ ms, m.isData = true := by
  unfold messagesForLog at h
  cases hlatest : store.latestOperation publicKey logId with
  | error err => simp [hlatest, Except.mapError] at h
  | ok latest =>
    simp only [hlatest, Except.mapError, Except.ok_bind] at h
    rcases latest with _ | ⟨header, body⟩
    · cases h
      simp
    · dsimp only at h
      split_ifs at h
      · exact remoteNeeds_isData h
      · cases h
        simp

/-- Everything `messages_needed_by_remote` returns is data. Both loops carry the
invariant that the messages collected so far are. -/
theorem messagesNeededByRemote_isData {store : LogStore L E} {logs : Logs L}
    {remote : AList fun _ : PublicKey => List (L × UInt64)} {ms : List (Message T L)}
    (h : messagesNeededByRemote store logs remote = .ok ms) : ∀ m ∈ ms, m.isData = true := by
  let I : List (Message T L) → Prop := fun acc => ∀ m ∈ acc, m.isData = true
  -- one log: what it adds is data
  have hlog : ∀ (publicKey : PublicKey) acc logId acc', I acc →
      ((acc ++ ·) <$> messagesForLog store remote publicKey logId) = .ok acc' → I acc' := by
    intro publicKey acc logId acc' hacc hstep
    cases hfor : messagesForLog store remote publicKey logId with
    | error err =>
      rw [hfor] at hstep
      cases hstep
    | ok new =>
      rw [hfor] at hstep
      cases hstep
      intro m hm
      rcases List.mem_append.mp hm with hm | hm
      · exact hacc m hm
      · exact messagesForLog_isData hfor m hm
  -- one author: the inner loop over its log ids
  have hauthor : ∀ acc (entry : PublicKey × List L) acc', entry ∈ logs → I acc →
      entry.2.foldlM (fun messages logId =>
        (messages ++ ·) <$> messagesForLog store remote entry.1 logId) acc = .ok acc' → I acc' :=
    fun acc entry acc' _ hacc hrun =>
      foldlM_invariant _ I entry.2 (fun s a s' _ => hlog entry.1 s a s') entry.2 acc acc'
        (fun _ ha => ha) hacc hrun
  exact foldlM_invariant _ I logs hauthor logs [] ms (fun _ ha => ha) (by simp [I]) h

/-- Every author and log id that logs name, in iteration order. -/
def Logs.pairs (logs : Logs L) : List (PublicKey × L) := logs.flatMap fun e => e.2.map (e.1, ·)

/-- When each log's messages are known, `messages_needed_by_remote` is them all, log after
log. -/
theorem messagesNeededByRemote_eq {store : LogStore L E} {logs : Logs L}
    {remote : AList fun _ : PublicKey => List (L × UInt64)} (F : PublicKey × L → List (Message T L))
    (h : ∀ x ∈ Logs.pairs logs, messagesForLog store remote x.1 x.2 = .ok (F x)) :
    messagesNeededByRemote store logs remote = .ok ((Logs.pairs logs).flatMap F) := by
  unfold messagesNeededByRemote
  -- the inner loop appends the messages of one author's logs, the outer loop those of all
  rw [foldlM_ok_append _ (fun e : PublicKey × List L => e.2.flatMap fun logId => F (e.1, logId))
    logs [] ?author]
  · simp [Logs.pairs, List.flatMap_assoc, List.flatMap_map]
  · intro acc e he
    obtain ⟨publicKey, logIds⟩ := e
    refine foldlM_ok_append _ (fun logId => F (publicKey, logId)) logIds acc fun acc logId hid => ?_
    have hx : (publicKey, logId) ∈ Logs.pairs logs :=
      List.mem_flatMap.mpr ⟨_, he, List.mem_map.mpr ⟨logId, hid, rfl⟩⟩
    rw [h _ hx]
    rfl

omit [DecidableEq L] in
/-- What the map of announced heights gives for an author is one of the announced
entries. -/
theorem heightsMap_lookup_mem {remote : AuthorHeights L} {publicKey : PublicKey}
    {heights : List (L × UInt64)} (h : (heightsMap remote).lookup publicKey = some heights) :
    (publicKey, heights) ∈ remote := by
  -- over any starting map: an announced entry, or what the start had
  have hfold : ∀ (remote : AuthorHeights L) (acc : AList fun _ : PublicKey => List (L × UInt64)),
      (remote.foldl (fun m e => m.insert e.1 e.2) acc).lookup publicKey = some heights →
        (publicKey, heights) ∈ remote ∨ acc.lookup publicKey = some heights := by
    intro remote
    induction remote with
    | nil => exact fun _ h => Or.inr h
    | cons e rest ih =>
      intro acc hl
      rcases ih _ hl with hmem | hins
      · exact Or.inl (List.mem_cons_of_mem e hmem)
      · by_cases hpk : publicKey = e.1
        · subst hpk
          rw [AList.lookup_insert] at hins
          cases hins
          exact Or.inl List.mem_cons_self
        · rw [AList.lookup_insert_ne hpk] at hins
          exact Or.inr hins
  rcases hfold remote ∅ h with hmem | hempty
  · exact hmem
  · rw [AList.lookup_empty] at hempty
    cases hempty

/-- A data message is forwarded by the initiator, which goes on as it was. -/
theorem initiateTurn_of_isData [DecidableEq T] [TopicQuery T] (p : LogSyncProtocol T L E)
    (topicQuery : T) (flags : Flags) {m : Message T L} (hm : m.isData = true) :
    initiateTurn p topicQuery flags (some m) = loopTurn flags [] m.forwarded := by
  cases m with
  | data header payload => rfl
  | «have» | done => simp [Message.isData] at hm

theorem acceptTurn_of_isData [TopicQuery T] (p : LogSyncProtocol T L E) (flags : Flags)
    {m : Message T L} (hm : m.isData = true) :
    acceptTurn p flags (some m) = loopTurn flags [] m.forwarded := by
  cases m with
  | data header payload => rfl
  | «have» | done => simp [Message.isData] at hm

/-- The start of an initiator whose log heights can be read. -/
theorem initiate_start [DecidableEq T] [TopicQuery T] (p : LogSyncProtocol T L E) {topicQuery : T}
    {heights : AuthorHeights L}
    (hheights : localLogHeights p.store p.topicMap topicQuery = .ok heights) :
    (p.initiate topicQuery).start =
      ⟨[.have topicQuery heights], [.handshakeSuccess topicQuery], .running ⟨false, false⟩⟩ := by
  simp [LogSyncProtocol.initiate, hheights]

/-- The initiator's answer to the remote's `Have` after its `Done`, when the topic is
ours and the store can be read: the data the remote needs, then `Done`. -/
theorem initiateTurn_have [DecidableEq T] [TopicQuery T] (p : LogSyncProtocol T L E)
    {topicQuery : T} {flags : Flags} {remote : AuthorHeights L} {logs : Logs L} {ms : List (Message T L)}
    (hdone : flags.syncDoneReceived = true) (hlogs : p.topicMap topicQuery = some logs)
    (hneed : messagesNeededByRemote p.store logs (heightsMap remote) = .ok ms) :
    initiateTurn p topicQuery flags (some (.have topicQuery remote)) =
      loopTurn { flags with syncDoneSent := true } (ms ++ [.done]) [] := by
  simp [initiateTurn, hdone, hlogs, hneed]

/-- The acceptor's answer to a `Have` whose topic it serves, when the store can be read:
the topic to the application, and the data the remote needs, `Done` and our `Have` to the
remote. -/
theorem acceptTurn_have [TopicQuery T] (p : LogSyncProtocol T L E) {topicQuery : T}
    {flags : Flags} {remote heights : AuthorHeights L} {logs : Logs L} {ms : List (Message T L)}
    (hlogs : p.topicMap topicQuery = some logs)
    (hneed : messagesNeededByRemote p.store logs (heightsMap remote) = .ok ms)
    (hheights : localLogHeights p.store p.topicMap topicQuery = .ok heights) :
    acceptTurn p flags (some (.have topicQuery remote)) =
      loopTurn { flags with syncDoneSent := true } (ms ++ [.done, .have topicQuery heights])
        [.handshakeSuccess topicQuery] := by
  simp [acceptTurn, hlogs, hneed, hheights]

end Specs

/-! ## The glue tasks -/

/-- `ToEngineActor`, the messages a glue task sends to the engine. -/
inductive ToEngine (T : Type) where
  | syncHandshakeSuccess (topic : T)
  | syncMessage (header : List UInt8) (payload : Option (List UInt8)) (topic : T)
  deriving DecidableEq

/-- The state of the accept glue task: the topic it learned, and what it sent to the
engine. -/
structure AcceptGlue (T : Type) where
  topic : Option T
  toEngine : List (ToEngine T)
  deriving DecidableEq

/-- The accept glue task on one event: the topic only once, data only after it. -/
def acceptSyncGlueStep (glue : AcceptGlue T) : FromSync T → Except SyncError (AcceptGlue T)
  | .handshakeSuccess handshakeTopic =>
    if glue.topic.isSome then
      .error (.critical "received topic twice from sync session in handshake phase")
    else .ok ⟨some handshakeTopic, glue.toEngine ++ [.syncHandshakeSuccess handshakeTopic]⟩
  | .data header payload =>
    match glue.topic with
    | none => .error (.critical "never received topic from sync session in handshake phase")
    | some topic => .ok ⟨glue.topic, glue.toEngine ++ [.syncMessage header payload topic]⟩

/-- The glue task of `accept_sync` over the events of a session. -/
def acceptSyncGlue (events : List (FromSync T)) : Except SyncError (AcceptGlue T) :=
  events.foldlM acceptSyncGlueStep ⟨none, []⟩

/-- The initiate glue task on one event: the handshake only once; data is forwarded under
the session's topic. -/
def initiateSyncGlueStep (topic : T) (glue : Bool × List (ToEngine T)) :
    FromSync T → Except SyncError (Bool × List (ToEngine T))
  | .handshakeSuccess _ =>
    if glue.1 then
      .error (.critical "received handshake message twice from sync session in handshake phase")
    else .ok (true, glue.2 ++ [.syncHandshakeSuccess topic])
  | .data header payload => .ok (glue.1, glue.2 ++ [.syncMessage header payload topic])

/-- The glue task of `initiate_sync` over the events of a session: whether the handshake
was seen, and what was sent to the engine. -/
def initiateSyncGlue (topic : T) (events : List (FromSync T)) :
    Except SyncError (Bool × List (ToEngine T)) :=
  events.foldlM (initiateSyncGlueStep topic) (false, [])

/-! ## The two-phase flow -/

/-- Whether an event is `FromSync::Data`. -/
def FromSync.isData : FromSync T → Bool
  | .data _ _ => true
  | .handshakeSuccess _ => false

/-- The flow the glue tasks expect of a session: no event, or the topic once and then
only data. -/
def TwoPhase : List (FromSync T) → Prop
  | [] => True
  | .handshakeSuccess _ :: rest => ∀ e ∈ rest, e.isData = true
  | .data _ _ :: _ => False

instance decTwoPhase : (events : List (FromSync T)) → Decidable (TwoPhase events)
  | [] => isTrue trivial
  | .handshakeSuccess _ :: rest => inferInstanceAs (Decidable (∀ e ∈ rest, e.isData = true))
  | .data _ _ :: _ => isFalse id

/-- Once the accept glue task knows the topic, it takes exactly the runs of data. The
induction is on the events, with the glue state generalised. -/
theorem acceptSyncGlue_after_topic :
    ∀ (events : List (FromSync T)) (glue : AcceptGlue T) (topic : T), glue.topic = some topic →
      ((∃ g, events.foldlM acceptSyncGlueStep glue = .ok g) ↔ ∀ e ∈ events, e.isData = true)
  | [], glue, _, _ => by simp
  | .handshakeSuccess t :: events, glue, topic, htopic => by
    have herr : acceptSyncGlueStep glue (.handshakeSuccess t) =
        .error (.critical "received topic twice from sync session in handshake phase") := by
      simp [acceptSyncGlueStep, htopic]
    simp only [List.foldlM_cons, herr, List.mem_cons, forall_eq_or_imp, FromSync.isData]
    exact ⟨fun ⟨_, h⟩ => (nomatch h), fun h => (nomatch h.1)⟩
  | .data header payload :: events, glue, topic, htopic => by
    have hok : acceptSyncGlueStep glue (.data header payload) =
        .ok ⟨glue.topic, glue.toEngine ++ [.syncMessage header payload topic]⟩ := by
      simp [acceptSyncGlueStep, htopic]
    simp only [List.foldlM_cons, hok, List.mem_cons, forall_eq_or_imp, FromSync.isData,
      true_and]
    exact acceptSyncGlue_after_topic events _ topic htopic

/-- The accept glue task succeeds exactly on the two-phase flow. -/
theorem acceptSyncGlue_ok_iff (events : List (FromSync T)) :
    (∃ g, acceptSyncGlue events = .ok g) ↔ TwoPhase events := by
  match events with
  | [] => exact ⟨fun _ => trivial, fun _ => ⟨_, rfl⟩⟩
  | .handshakeSuccess t :: events =>
    exact acceptSyncGlue_after_topic events ⟨some t, [.syncHandshakeSuccess t]⟩ t rfl
  | .data header payload :: events =>
    exact ⟨fun ⟨_, h⟩ => (nomatch h), fun h => (nomatch h)⟩

/-- The initiate glue task takes every two-phase flow. -/
theorem initiateSyncGlue_of_twoPhase (topic : T) (events : List (FromSync T))
    (h : TwoPhase events) : ∃ g, initiateSyncGlue topic events = .ok g := by
  -- data steps always succeed, whatever the handshake flag
  have hdata : ∀ (events : List (FromSync T)) glue, (∀ e ∈ events, e.isData = true) →
      ∃ g, events.foldlM (initiateSyncGlueStep topic) glue = .ok g := by
    intro events
    induction events with
    | nil => exact fun glue _ => ⟨glue, rfl⟩
    | cons e events ih =>
      intro glue he
      match e, he e List.mem_cons_self with
      | .data header payload, _ =>
        exact ih _ (fun e' he' => he e' (List.mem_cons_of_mem _ he'))
  match events, h with
  | [], _ => exact ⟨_, rfl⟩
  | .handshakeSuccess _ :: events, h => exact hdata events _ h

/-! ## What each side sends to the application -/

section Sides

variable [DecidableEq T] [DecidableEq L] [TopicQuery T]

/-- A turn of the initiator forwards only data. -/
theorem initiateTurn_emitted (p : LogSyncProtocol T L E) (topicQuery : T) (flags : Flags)
    (input : Option (Message T L)) :
    ∀ e ∈ (initiateTurn p topicQuery flags input).emitted, e.isData = true := by
  -- every arm forwards nothing but the arm of `Data`
  have hfail : ∀ (sent : List (Message T L)) err,
      (failTurn sent ([] : List (FromSync T)) err).emitted = [] :=
    fun _ _ => rfl
  rcases input with _ | (⟨remoteTopicQuery, remoteLogHeights⟩ | ⟨header, payload⟩ | _)
  · simp [initiateTurn]
  · simp only [initiateTurn]
    split_ifs
    · simp [hfail]
    · simp [hfail]
    · split
      · simp [hfail]
      · split <;> simp [hfail, loopTurn]
  · simp [initiateTurn, loopTurn, FromSync.isData]
  · simp [initiateTurn, loopTurn]

/-- Whatever the remote peer sends, the initiator's events are the two-phase flow: the
topic first, then only data. -/
theorem emitted_initiate (p : LogSyncProtocol T L E) (topicQuery : T)
    (inputs : List (Option (Message T L))) :
    TwoPhase ((p.initiate topicQuery).run inputs).emitted := by
  cases hheights : localLogHeights p.store p.topicMap topicQuery with
  | error err =>
    -- it stops before reading anything
    have hstart : (p.initiate topicQuery).start = failTurn [] [] err := by
      simp [LogSyncProtocol.initiate, hheights]
    have hstopped := Process.foldl_feed_stopped (p.initiate topicQuery)
      (show (p.initiate topicQuery).start.next = .stopped (.error err) by rw [hstart]; rfl) inputs
    rw [Process.run, hstopped, hstart]
    trivial
  | ok heights =>
    have hstart : (p.initiate topicQuery).start.emitted = [.handshakeSuccess topicQuery] := by
      simp [LogSyncProtocol.initiate, hheights]
    obtain ⟨os, hos, hdata⟩ := Process.run_emitted (p.initiate topicQuery) _
      (initiateTurn_emitted p topicQuery) inputs
    rw [hos, hstart]
    exact hdata

/-- So the glue task of `initiate_sync` never fails on what the initiator forwards. -/
theorem initiateSyncGlue_initiate (p : LogSyncProtocol T L E) (topicQuery : T)
    (inputs : List (Option (Message T L))) :
    ∃ g, initiateSyncGlue topicQuery ((p.initiate topicQuery).run inputs).emitted = .ok g :=
  initiateSyncGlue_of_twoPhase topicQuery _ (emitted_initiate p topicQuery inputs)

/-- What the acceptor forwards for a message: the topic of a `Have`, and data. -/
def Message.acceptForwarded : Message T L → List (FromSync T)
  | .have topic _ => [.handshakeSuccess topic]
  | .data header payload => [.data header payload]
  | .done => []

omit [DecidableEq T] in
/-- A turn of the acceptor on a message forwards it, whether the turn fails or not. -/
theorem acceptTurn_emitted (p : LogSyncProtocol T L E) (flags : Flags) (m : Message T L) :
    (acceptTurn p flags (some m)).emitted = m.acceptForwarded := by
  rcases m with ⟨topicQuery, remoteLogHeights⟩ | ⟨header, payload⟩ | _
  · simp only [acceptTurn]
    split
    · rfl
    · split
      · rfl
      · split <;> rfl
  · rfl
  · rfl

omit [DecidableEq T] in
/-- While the acceptor runs, it has forwarded each message it read, in order: data before
any `Have`, and the topic of every `Have`. The induction is on the messages from the
end. -/
theorem emitted_accept (p : LogSyncProtocol T L E) (ms : List (Message T L)) {flags : Flags}
    (h : (p.accept.run (ms.map some)).next = .running flags) :
    (p.accept.run (ms.map some)).emitted = ms.flatMap Message.acceptForwarded := by
  induction ms using List.reverseRec generalizing flags with
  | nil => rfl
  | append_singleton ms m ih =>
    rw [List.map_append, List.map_singleton, Process.run_concat] at h ⊢
    obtain ⟨flags₀, hrun, hfeed⟩ := Process.feed_running p.accept h
    rw [hfeed, ih hrun, List.flatMap_append, List.flatMap_singleton]
    exact congrArg _ (acceptTurn_emitted p flags₀ m)

/-- Topic queries of one kind only. -/
instance instTopicQueryUnit : TopicQuery Unit := ⟨fun _ => "()"⟩

/-- An acceptor with no topics and an empty store. -/
def emptyAcceptor : LogSyncProtocol Unit Nat Unit := ⟨fun _ => none, MemoryStore.logStore .new⟩

/-- Data, the remote's `Done`, and more data: the acceptor still runs and has forwarded both
data. -/
theorem emitted_accept_data :
    (emptyAcceptor.accept.run
        (([.data [1] none, .done, .data [2] none] : List (Message Unit Nat)).map some)).next =
        .running ⟨true, false⟩ ∧
      (emptyAcceptor.accept.run
        (([.data [1] none, .done, .data [2] none] : List (Message Unit Nat)).map some)).emitted =
        ([.data [1] none, .done, .data [2] none] : List (Message Unit Nat)).flatMap
          Message.acceptForwarded :=
  ⟨rfl, emitted_accept emptyAcceptor _ rfl⟩

omit [DecidableEq T] in
/-- A remote peer that sends one `Data` and closes the stream: the acceptor forwards the
data and returns `Ok`, and the glue task of `accept_sync` fails critically. -/
theorem accept_data_before_have (p : LogSyncProtocol T L E) (header : List UInt8)
    (payload : Option (List UInt8)) :
    (p.accept.run [some (.data header payload), none]).next = .stopped (.ok ()) ∧
      (p.accept.run [some (.data header payload), none]).emitted = [.data header payload] ∧
      acceptSyncGlue (p.accept.run [some (.data header payload), none]).emitted =
        .error (.critical "never received topic from sync session in handshake phase") :=
  ⟨rfl, rfl, rfl⟩

end Sides

end P2panda.Sync
