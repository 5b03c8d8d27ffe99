import P2panda.Stream.IngestPrefix
import P2panda.Sync.Session

/- Two `MemoryStore` peers that each hold a prefix of the same logs converge after one sync
   session, when each passes the data it receives through `Decode` and `ingest_operation`
   without prune flags.

   The two halves of the argument:
   * what each side sends. A store holding `n` operations of a log announces the height
     `n - 1` for it (`localLogHeights_memory`), so the other side starts the log's data at
     a sequence number no higher than what the first holds (`remoteNeedsFrom_le`), and
     sends its own operations from there up to what it holds (`messagesForLog_memory`);
   * what each side makes of what it receives. Each operation decodes to itself
     (`decodeRaw_rawOf`), so receiving a log's data is ingesting its operations in order
     (`receiveRun_stretch`), which `HoldsAll.ingestRun_stretch` computes; over the logs
     one after another (`receive_stretches`) every log ends up held to the larger of the
     two lengths.
   `log_sync_convergence` puts them together with the session of `honest_end`. -/

namespace P2panda.Sync

open Duplex MemoryStore

variable {T L E : Type} [DecidableEq L]

/-! ## What a memory store sends -/

section Sending

/-- A log's heights, as `local_log_heights` reads them from a memory store: the sequence
number of the latest operation of each log id that has one. -/
def memoryHeights (s : MemoryStore L E) (e : PublicKey × List L) :
    PublicKey × List (L × UInt64) :=
  (e.1, e.2.flatMap fun logId =>
    ((s.latestOperation e.1 logId).map fun op => (logId, op.1.seqNum)).toList)

/-- `local_log_heights` of a memory store: its reads do not fail. -/
theorem localLogHeights_memory [TopicQuery T] (s : MemoryStore L E)
    {topicMap : T → Option (Logs L)} {t : T} {logs : Logs L} (hmap : topicMap t = some logs) :
    localLogHeights s.logStore topicMap t = .ok (logs.map (memoryHeights s)) := by
  unfold localLogHeights
  simp only [hmap]
  refine Except.mapM_eq_ok_map fun e _ => ?_
  obtain ⟨publicKey, logIds⟩ := e
  -- the loop over the log ids appends one height for each log that has an operation
  rw [foldlM_ok_append _ (fun logId =>
      ((s.latestOperation publicKey logId).map fun op => (logId, op.1.seqNum)).toList)
    logIds [] fun acc logId _ => ?_]
  · rfl
  · cases hlatest : s.latestOperation publicKey logId with
    | none => simp [MemoryStore.logStore, hlatest, Except.mapError]
    | some op => simp [MemoryStore.logStore, hlatest, Except.mapError]

/-- Every height a memory store announces is the sequence number of the latest operation
of that log. -/
theorem mem_memoryHeights {s : MemoryStore L E} {e : PublicKey × List L}
    {logId : L} {height : UInt64} (h : (logId, height) ∈ (memoryHeights s e).2) :
    ∃ op, s.latestOperation e.1 logId = some op ∧ op.1.seqNum = height := by
  obtain ⟨logId', -, hmem⟩ := List.mem_flatMap.mp h
  cases hlatest : s.latestOperation e.1 logId' with
  | none => simp [hlatest] at hmem
  | some op =>
    simp only [hlatest, Option.map_some, Option.toList_some, List.mem_singleton,
      Prod.mk.injEq] at hmem
    obtain ⟨rfl, rfl⟩ := hmem
    exact ⟨op, hlatest, rfl⟩

variable {P : Primitives} [Extensions E]

/-- The other side starts a log's data at no more than what a store holding `n` of it
has: one past the announced height `n - 1`, or `0`. -/
theorem remoteNeedsFrom_le {s : MemoryStore L E} {logs : Logs L} {g : ChainedLog P L E}
    {n : Nat} (hs : HoldsPrefix P s g n) :
    (remoteNeedsFrom (heightsMap (logs.map (memoryHeights s))) g.publicKey g.logId).toNat ≤ n := by
  unfold remoteNeedsFrom
  cases hlookup : (heightsMap (logs.map (memoryHeights s))).lookup g.publicKey with
  | none => simp
  | some heights =>
    dsimp only
    cases hfind : heights.find? (fun entry => decide (entry.1 = g.logId)) with
    | none => simp
    | some entry =>
      obtain ⟨logId, height⟩ := entry
      have hid : logId = g.logId := by simpa using List.find?_some hfind
      subst hid
      -- the heights come from an entry of our own store for this author
      obtain ⟨e, -, he⟩ := List.mem_map.mp (heightsMap_lookup_mem hlookup)
      have hentry : (g.logId, height) ∈ (memoryHeights s e).2 := by
        rw [he]
        exact List.mem_of_find?_eq_some hfind
      obtain ⟨op, hlatest, rfl⟩ := mem_memoryHeights hentry
      have hpk : e.1 = g.publicKey := by rw [show e.1 = (memoryHeights s e).1 from rfl, he]
      rw [hpk, hs.latestOperation] at hlatest
      have hseq := g.getLast?_take hs.le hlatest
      simp only [UInt64.toNat_add, UInt64.toNat_one]
      omega

/-- The data message of an operation as a store sends it. -/
def dataMessage (P : Primitives) (op : Header E × Option Body) : Message T L :=
  .data (rawOf P op).1 (rawOf P op).2

/-- What a memory store holding `n` operations of a log sends of it: its operations from
where the other side needs them up to `n`. -/
theorem messagesForLog_memory [TopicQuery T] {s : MemoryStore L E} {g : ChainedLog P L E}
    {n : Nat} (hs : HoldsPrefix P s g n) (remote : AList fun _ : PublicKey => List (L × UInt64)) :
    messagesForLog s.logStore remote g.publicKey g.logId =
      .ok (((g.ops.take n).drop (remoteNeedsFrom remote g.publicKey g.logId).toNat).map
        (dataMessage P : Header E × Option Body → Message T L)) := by
  unfold messagesForLog
  simp only [MemoryStore.logStore, Except.mapError, Except.ok_bind, hs.latestOperation]
  cases hlast : (g.ops.take n).getLast? with
  | none =>
    rw [List.getLast?_eq_none_iff.mp hlast]
    simp
  | some op =>
    have hseq := g.getLast?_take hs.le hlast
    dsimp only
    split_ifs with hle
    · -- the remote is behind: the log from where it needs it
      obtain ⟨r, hr, hrD⟩ := hs.getRawLog (remoteNeedsFrom remote g.publicKey g.logId)
      simp only [remoteNeeds, hr, Except.mapError, Except.ok_bind, hrD]
      rw [List.map_map]
      rfl
    · -- the remote is not behind: nothing, and nothing is past its start
      rw [UInt64.le_iff_toNat_le] at hle
      have hnil : (g.ops.take n).drop (remoteNeedsFrom remote g.publicKey g.logId).toNat = [] :=
        List.drop_eq_nil_of_le (by simp; omega)
      rw [hnil]
      rfl

end Sending

/-! ## What a memory store makes of what it receives -/

section Receiving

variable (P : Primitives) [Extensions E]

/-- The item the `Decode` stream yields for the raw bytes of an operation: the header
decoded, the body, and the header bytes. -/
def decodeRaw (headerBytes : List UInt8) (bodyBytes : Option (List UInt8)) :
    Except DecodeError (Header E × Option Body × List UInt8) :=
  match decodeCbor P headerBytes with
  | .ok header => .ok (header, bodyBytes.map Body.mk, headerBytes)
  | .error err => .error err

/-- What the application makes of one received operation. -/
inductive Received (E : Type) where
  | decodeFailed (err : DecodeError)
  | ingested (result : Except IngestError (IngestResult E))

/-- The application of a peer: every operation a session hands it goes through `Decode`
and `ingest_operation` without a prune flag, under the log id `logIdOf` reads from its
header, in the order they arrive. -/
def receiveRun (logIdOf : Header E → L) :
    MemoryStore L E → List (FromSync T) → List (Received E) × MemoryStore L E
  | store, [] => ([], store)
  | store, .handshakeSuccess _ :: events => receiveRun logIdOf store events
  | store, .data headerBytes bodyBytes :: events =>
    match decodeRaw P headerBytes bodyBytes with
    | .error err =>
      let (results, store) := receiveRun logIdOf store events
      (.decodeFailed err :: results, store)
    | .ok (header, body, headerBytes) =>
      let (result, store) := ingestOperation P store header body headerBytes (logIdOf header) false
      let (results, store) := receiveRun logIdOf store events
      (.ingested result :: results, store)

theorem receiveRun_append (logIdOf : Header E → L) :
    ∀ (store : MemoryStore L E) (xs ys : List (FromSync T)),
      receiveRun P logIdOf store (xs ++ ys) =
        ((receiveRun P logIdOf store xs).1 ++
            (receiveRun P logIdOf (receiveRun P logIdOf store xs).2 ys).1,
          (receiveRun P logIdOf (receiveRun P logIdOf store xs).2 ys).2)
  | store, [], ys => rfl
  | store, .handshakeSuccess _ :: xs, ys => receiveRun_append logIdOf store xs ys
  | store, .data headerBytes bodyBytes :: xs, ys => by
    simp only [List.cons_append, receiveRun]
    split <;> simp [receiveRun_append logIdOf _ xs ys]

/-- The data event of an operation as a store sends it. -/
def dataEvent (op : Header E × Option Body) : FromSync T := .data (rawOf P op).1 (rawOf P op).2

omit [DecidableEq L] in
/-- The data messages of a stretch are forwarded as its data events. -/
theorem flatMap_forwarded_dataMessage (ops : List (Header E × Option Body)) :
    (ops.map (dataMessage P : Header E × Option Body → Message T L)).flatMap Message.forwarded =
      ops.map (dataEvent P) := by
  induction ops with
  | nil => rfl
  | cons op ops ih => simp only [List.map_cons, List.flatMap_cons, ih]; rfl

end Receiving

/-! ## What a side sends of a family of logs -/

section Stretches

variable (P : Primitives) [Extensions E]

/-- The log of a family with a given key. -/
def logOf (logs : List (ChainedLog P L E)) (key : PublicKey × L) : Option (ChainedLog P L E) :=
  logs.find? fun g => decide (g.key = key)

theorem logOf_key {logs : List (ChainedLog P L E)} (hsep : Separate P logs)
    {g : ChainedLog P L E} (hg : g ∈ logs) : logOf P logs g.key = some g := by
  unfold logOf
  cases hfind : logs.find? (fun g' => decide (g'.key = g.key)) with
  | none => exact absurd hg (by simpa using List.find?_eq_none.mp hfind g)
  | some g' =>
    have hkey : g'.key = g.key := by simpa using List.find?_some hfind
    rw [hsep.keys g' (List.mem_of_find?_eq_some hfind) g hg hkey]

/-- What a side holding `count` of each log sends of the log with a key: its operations
from where the other side needs them up to its count. -/
def stretchMessages (logs : List (ChainedLog P L E)) (count : PublicKey × L → Nat)
    (remote : AList fun _ : PublicKey => List (L × UInt64)) (key : PublicKey × L) :
    List (Message T L) :=
  match logOf P logs key with
  | some g => ((g.ops.take (count key)).drop (remoteNeedsFrom remote key.1 key.2).toNat).map
      (dataMessage P)
  | none => []

/-- `messages_needed_by_remote` of a memory store holding a prefix of each of the topic's
logs: their stretches, in the order of the topic map. -/
theorem messagesNeededByRemote_memory [TopicQuery T] {logs : List (ChainedLog P L E)}
    (hsep : Separate P logs) {s : MemoryStore L E} {count : PublicKey × L → Nat}
    (hs : HoldsAll P s logs count) {l : Logs L} (hcover : ∀ x ∈ Logs.pairs l, ∃ g ∈ logs, g.key = x)
    (remote : AList fun _ : PublicKey => List (L × UInt64)) :
    messagesNeededByRemote s.logStore l remote =
      .ok ((Logs.pairs l).flatMap (stretchMessages (T := T) P logs count remote)) := by
  refine messagesNeededByRemote_eq _ fun x hx => ?_
  obtain ⟨g, hg, rfl⟩ := hcover x hx
  show messagesForLog s.logStore remote g.publicKey g.logId = _
  rw [messagesForLog_memory (hs g hg) remote]
  simp only [stretchMessages, logOf_key P hsep hg]
  rfl

end Stretches

/-! ## Receiving the other side's answer -/

section RoundTrip

variable (P : Primitives) [Extensions E]
  -- what ciborium and the key decoder do: read back what they write
  (hitem : ∀ v, P.decodeItem (P.encodeItem v) = .ok (v, []))
  (hext : ∀ e : E, Extensions.deserialize (Extensions.serialize e) = .ok e)
  (hkey : ∀ pk : PublicKey, P.keyFromBytes pk.bytes = .ok pk)

include hitem hext hkey

/-- A valid operation's bytes decode to it, when ciborium reads back what it writes. -/
theorem decodeRaw_rawOf {op : Header E × Option Body}
    (hvalid : validateOperation P ⟨op.1.hash P, op.1, op.2⟩ = .ok ()) :
    decodeRaw P (rawOf P op).1 (rawOf P op).2 = .ok (op.1, op.2, (rawOf P op).1) := by
  obtain ⟨hheader, -⟩ := (validateOperation_ok_iff P _).mp hvalid
  obtain ⟨hverify, -, hwf⟩ := (validateHeader_ok_iff P _).mp hheader
  have hdecode : decodeCbor P (op.1.toBytes P) = .ok op.1 := by
    rw [decodeCbor_toBytes_eq P hitem,
      visitSeq_elements _ hext op.1 (hkey _) (verify_signature P hverify) hwf]
  simp only [decodeRaw, rawOf, hdecode, Option.map_map]
  congr
  cases op.2 <;> rfl

/-- Receiving a stretch of a log's operations is ingesting them in order. The induction is
on the stretch. -/
theorem receiveRun_stretch (g : ChainedLog P L E) (logIdOf : Header E → L)
    (hlogId : ∀ op ∈ g.ops, logIdOf op.1 = g.logId) :
    ∀ (ops : List (Header E × Option Body)), (∀ op ∈ ops, op ∈ g.ops) → ∀ store,
      receiveRun P logIdOf store (ops.map (dataEvent (T := T) P)) =
        ((ingestRun P (fun _ => false) store (ops.map g.call)).1.map .ingested,
          (ingestRun P (fun _ => false) store (ops.map g.call)).2)
  | [], _, store => rfl
  | op :: ops, hops, store => by
    have hop := hops op List.mem_cons_self
    have hdecode := decodeRaw_rawOf P hitem hext hkey (g.valid op hop)
    simp only [List.map_cons, dataEvent, receiveRun, hdecode, hlogId op hop, ingestRun,
      ChainedLog.call]
    rw [receiveRun_stretch g logIdOf hlogId ops
      (fun op' h' => hops op' (List.mem_cons_of_mem op h'))]
    rfl

/-- Receiving the stretches of the logs with keys `keys`, one after another, from a
sender holding `sent` of each, into a store holding at least `held` of each, where each
stretch starts at no more than `held`: each operation is ingested `Complete`, and each of
those logs ends up held to the larger of the two counts. The induction is on the keys. -/
theorem receive_stretches [TopicQuery T] {logs : List (ChainedLog P L E)} (hsep : Separate P logs)
    {logIdOf : Header E → L}
    (hlogId : ∀ g ∈ logs, ∀ op ∈ g.ops, logIdOf op.1 = g.logId) {sent held : PublicKey × L → Nat}
    (hsent : ∀ g ∈ logs, sent g.key ≤ g.ops.length)
    {remote : AList fun _ : PublicKey => List (L × UInt64)}
    (hfrom : ∀ g ∈ logs, (remoteNeedsFrom remote g.publicKey g.logId).toNat ≤ held g.key) :
    ∀ (keys : List (PublicKey × L)) (store : MemoryStore L E) (count : PublicKey × L → Nat),
      (∀ x ∈ keys, ∃ g ∈ logs, g.key = x) → HoldsAll P store logs count →
      (∀ g ∈ logs, held g.key ≤ count g.key) →
        (∀ r ∈ (receiveRun P logIdOf store ((keys.flatMap
            (stretchMessages (T := T) P logs sent remote)).flatMap Message.forwarded)).1,
          ∃ op, r = .ingested (.ok (.complete op))) ∧
        HoldsAll P (receiveRun P logIdOf store ((keys.flatMap
            (stretchMessages (T := T) P logs sent remote)).flatMap Message.forwarded)).2 logs
          (fun x => if x ∈ keys then max (count x) (sent x) else count x)
  | [], store, count, _, hs, _ => by
    refine ⟨by simp [receiveRun], ?_⟩
    simpa [receiveRun] using hs
  | x :: keys, store, count, hkeys, hs, hheld => by
    obtain ⟨g, hg, rfl⟩ := hkeys _ List.mem_cons_self
    -- the first log's stretch is an ingest run of its operations
    have hstretch : stretchMessages (T := T) P logs sent remote g.key =
        ((g.ops.take (sent g.key)).drop
          (remoteNeedsFrom remote g.publicKey g.logId).toNat).map (dataMessage P) := by
      simp only [stretchMessages, logOf_key P hsep hg]
      rfl
    have hops : ∀ op ∈ (g.ops.take (sent g.key)).drop
        (remoteNeedsFrom remote g.publicKey g.logId).toNat, op ∈ g.ops :=
      fun op hop => List.mem_of_mem_take (List.mem_of_mem_drop hop)
    obtain ⟨hfirst, hafter⟩ := HoldsAll.ingestRun_stretch hsep hg (hsent g hg) _ store count hs
      ((hfrom g hg).trans (hheld g hg))
    -- the counts only grow, so the rest still starts at no more than they are
    have hgrow : ∀ y, count y ≤
        Function.update count g.key (max (count g.key) (sent g.key)) y := by
      intro y
      by_cases hy : y = g.key
      · rw [hy, Function.update_self]
        exact le_max_left _ _
      · rw [Function.update_of_ne hy]
    obtain ⟨hrest, hend⟩ := receive_stretches hsep hlogId hsent hfrom keys _ _
      (fun y hy => hkeys y (List.mem_cons_of_mem _ hy)) hafter
      (fun g' hg' => (hheld g' hg').trans (hgrow g'.key))
    rw [List.flatMap_cons, List.flatMap_append, hstretch, flatMap_forwarded_dataMessage,
      receiveRun_append, receiveRun_stretch P hitem hext hkey g logIdOf (hlogId g hg) _ hops]
    refine ⟨fun r hr => ?_, ?_⟩
    · rcases List.mem_append.mp hr with hr | hr
      · obtain ⟨res, hres, rfl⟩ := List.mem_map.mp hr
        obtain ⟨op, rfl⟩ := hfirst res hres
        exact ⟨op, rfl⟩
      · exact hrest r hr
    · -- the counts after the first log and then the rest are the counts after all
      convert hend using 1
      funext y
      by_cases hy : y = g.key
      · subst hy
        by_cases hmem : g.key ∈ keys <;> simp [hmem]
      · simp [hy]

/-- One side's answer, received: the other side, holding `sent` of each log of the topic,
answers the heights of a receiver holding `held` of each with the stretches of the logs in
its topic map's order; the receiver ingests each of them `Complete` and ends up holding the
larger of the two counts of every log. -/
theorem receive_answer [TopicQuery T] {logs : List (ChainedLog P L E)} (hsep : Separate P logs)
    {logIdOf : Header E → L}
    (hlogId : ∀ g ∈ logs, ∀ op ∈ g.ops, logIdOf op.1 = g.logId)
    {sender receiver : MemoryStore L E} {sent held : PublicKey × L → Nat}
    (hsender : HoldsAll P sender logs sent) (hreceiver : HoldsAll P receiver logs held)
    {l : Logs L} (hl : ∀ x, x ∈ Logs.pairs l ↔ ∃ g ∈ logs, g.key = x) (lR : Logs L) (t : T) :
    (∀ r ∈ (receiveRun P logIdOf receiver (.handshakeSuccess t :: ((Logs.pairs l).flatMap
        (stretchMessages P logs sent (heightsMap (lR.map (memoryHeights receiver))))).flatMap
          Message.forwarded)).1, ∃ op, r = .ingested (.ok (.complete op))) ∧
      HoldsAll P (receiveRun P logIdOf receiver (.handshakeSuccess t :: ((Logs.pairs l).flatMap
        (stretchMessages P logs sent (heightsMap (lR.map (memoryHeights receiver))))).flatMap
          Message.forwarded)).2 logs (fun x => max (held x) (sent x)) := by
  obtain ⟨hcomplete, hholds⟩ := receive_stretches (T := T) P hitem hext hkey hsep hlogId
    (fun g hg => (hsender g hg).le) (fun g hg => remoteNeedsFrom_le (hreceiver g hg))
    (Logs.pairs l) receiver held (fun x hx => (hl x).mp hx) hreceiver (fun _ _ => le_rfl)
  -- every log of the family has its key among the topic map's
  refine ⟨hcomplete, HoldsAll.congr hholds fun g hg => ?_⟩
  simp [(hl g.key).mpr ⟨g, hg, rfl⟩]

end RoundTrip

/-- Sync convergence: two memory stores each holding, of every log of topic `t`, a prefix
of one chained log (`nI` and `nA` of its operations) take part in a session that ends, and
after every session that ends, each side having passed the data it was handed through
`Decode` and `ingest_operation` without prune flag, each of those ingests returned
`Complete` and both stores hold each log up to the larger of the two prefixes. -/
theorem log_sync_convergence [DecidableEq T] [TopicQuery T] (P : Primitives) [Extensions E]
    {logs : List (ChainedLog P L E)} (hsep : Separate P logs)
    (hitem : ∀ v, P.decodeItem (P.encodeItem v) = .ok (v, []))
    (hext : ∀ e : E, Extensions.deserialize (Extensions.serialize e) = .ok e)
    (hkey : ∀ pk : PublicKey, P.keyFromBytes pk.bytes = .ok pk) {logIdOf : Header E → L}
    (hlogId : ∀ g ∈ logs, ∀ op ∈ g.ops, logIdOf op.1 = g.logId)
    {mI mA : T → Option (Logs L)} {t : T} {lI lA : Logs L} (hmI : mI t = some lI)
    (hmA : mA t = some lA) (hlI : ∀ x, x ∈ Logs.pairs lI ↔ ∃ g ∈ logs, g.key = x)
    (hlA : ∀ x, x ∈ Logs.pairs lA ↔ ∃ g ∈ logs, g.key = x) {sI sA : MemoryStore L E}
    {nI nA : PublicKey × L → Nat} (hsI : HoldsAll P sI logs nI) (hsA : HoldsAll P sA logs nA) :
    let pI : LogSyncProtocol T L E := ⟨mI, sI.logStore⟩
    let pA : LogSyncProtocol T L E := ⟨mA, sA.logStore⟩
    (∃ d, Session.Reachable (pI.initiate t) pA.accept d ∧
        Session.Stuck (pI.initiate t) pA.accept d) ∧
      ∀ d, Session.Reachable (pI.initiate t) pA.accept d →
        Session.Stuck (pI.initiate t) pA.accept d →
          (∀ r ∈ (receiveRun P logIdOf sI d.leftOut).1, ∃ op, r = .ingested (.ok (.complete op))) ∧
          (∀ r ∈ (receiveRun P logIdOf sA d.rightOut).1, ∃ op, r = .ingested (.ok (.complete op))) ∧
          HoldsAll P (receiveRun P logIdOf sI d.leftOut).2 logs (fun x => max (nI x) (nA x)) ∧
          HoldsAll P (receiveRun P logIdOf sA d.rightOut).2 logs (fun x => max (nI x) (nA x)) := by
  intro pI pA
  -- the session runs as the honest one does, with each side's heights and answer read
  -- off its store
  have honest : Honest pI pA t lI lA (lI.map (memoryHeights sI)) (lA.map (memoryHeights sA))
      ((Logs.pairs lA).flatMap (stretchMessages P logs nA (heightsMap (lI.map (memoryHeights sI)))))
      ((Logs.pairs lI).flatMap (stretchMessages P logs nI (heightsMap (lA.map (memoryHeights sA))))) :=
    { topicMapI := hmI
      topicMapA := hmA
      heightsI := localLogHeights_memory sI hmI
      heightsA := localLogHeights_memory sA hmA
      needA := messagesNeededByRemote_memory P hsep hsA (fun x hx => (hlA x).mp hx) _
      needI := messagesNeededByRemote_memory P hsep hsI (fun x hx => (hlI x).mp hx) _ }
  refine ⟨honest_ends honest, fun d hd hstuck => ?_⟩
  obtain ⟨-, -, hleft, hright⟩ := honestAt_final t (lI.map (memoryHeights sI))
    (lA.map (memoryHeights sA)) _ _
  rw [honest_end honest hd hstuck, hleft, hright]
  obtain ⟨hcompleteI, hholdsI⟩ := receive_answer P hitem hext hkey hsep hlogId hsA hsI hlA lI t
  obtain ⟨hcompleteA, hholdsA⟩ := receive_answer P hitem hext hkey hsep hlogId hsI hsA hlI lA t
  exact ⟨hcompleteI, hcompleteA, hholdsI, HoldsAll.congr hholdsA fun g _ => max_comm _ _⟩

/-- The log `0` of the sample author: its first operation and one linked to it. -/
def sampleLog : ChainedLog cborPrimitives Nat Unit where
  publicKey := sampleGenesis.publicKey
  logId := 0
  ops := [(sampleGenesis, none),
    (sampleHeader 1 1 (some (sampleGenesis.hash cborPrimitives)) none, none)]
  seqNum := by decide +kernel
  author := by decide +kernel
  valid := by decide +kernel
  backlink := fun k hk => by
    -- the one link is from the first operation to the second
    have hk' : k + 1 < 2 := by simpa using hk
    obtain rfl : k = 0 := Nat.lt_one_iff.mp (Nat.lt_of_succ_lt_succ hk')
    decide +kernel +revert
  hashInj := by decide +kernel

/-- A store that ingested the first `n` operations of the sample log. -/
def sampleStore (n : Nat) : MemoryStore Nat Unit :=
  (ingestRun cborPrimitives (fun _ => false) MemoryStore.new
    (((sampleLog.ops.take n).drop 0).map sampleLog.call)).2

theorem sampleStore_holds {n : Nat} (hn : n ≤ 2) :
    HoldsAll cborPrimitives (sampleStore n) [sampleLog] (fun _ => n) :=
  HoldsAll.congr (HoldsAll.ingestRun_stretch (Separate.singleton _ sampleLog) List.mem_cons_self
    hn 0 _ _ HoldsAll.new_store le_rfl).2 (by simp)

/-- An initiator holding the sample log's first operation and an acceptor holding both:
after the session each has both, every ingest `Complete`. -/
theorem log_sync_convergence_partial :
    let pI := samplePeer (sampleStore 1)
    let pA := samplePeer (sampleStore 2)
    (∃ d, Session.Reachable (pI.initiate 0) pA.accept d ∧
        Session.Stuck (pI.initiate 0) pA.accept d) ∧
      ∀ d, Session.Reachable (pI.initiate 0) pA.accept d →
        Session.Stuck (pI.initiate 0) pA.accept d →
          (∀ r ∈ (receiveRun cborPrimitives (fun _ => 0) (sampleStore 1) d.leftOut).1,
            ∃ op, r = .ingested (.ok (.complete op))) ∧
          (∀ r ∈ (receiveRun cborPrimitives (fun _ => 0) (sampleStore 2) d.rightOut).1,
            ∃ op, r = .ingested (.ok (.complete op))) ∧
          HoldsAll cborPrimitives (receiveRun cborPrimitives (fun _ => 0) (sampleStore 1)
            d.leftOut).2 [sampleLog] (fun _ => max 1 2) ∧
          HoldsAll cborPrimitives (receiveRun cborPrimitives (fun _ => 0) (sampleStore 2)
            d.rightOut).2 [sampleLog] (fun _ => max 1 2) :=
  have hpairs : ∀ x, x ∈ Logs.pairs [(sampleGenesis.publicKey, [0])] ↔
      ∃ g ∈ [sampleLog], g.key = x := fun x => by
    simp [Logs.pairs, ChainedLog.key, sampleLog, eq_comm]
  log_sync_convergence cborPrimitives (Separate.singleton _ sampleLog)
    cborPrimitives_decodeItem_encodeItem unit_deserialize_serialize cborPrimitives_keyFromBytes
    (by simp [sampleLog]) (show (samplePeer (sampleStore 1)).topicMap 0 = _ from rfl)
    (show (samplePeer (sampleStore 2)).topicMap 0 = _ from rfl) hpairs hpairs
    (sampleStore_holds (by decide)) (sampleStore_holds (by decide))

end P2panda.Sync
