import P2panda.Store.MemoryInvariant
import P2panda.Sync.Convergence

/- What `messages_needed_by_remote` (`p2panda-sync/src/log_sync.rs`) sends a remote peer
   from a memory store, against heights the remote announced and that nothing checks.

   For every well-filed store (`MemoryStore.WellFiled`, which every run of the store's
   calls keeps), the messages for a log are the stored operations whose sequence number is
   at least `remote_needs_from`, in the order of the log (`messagesForLog_storedFrom`).
   `remote_needs_from` is one past the height the remote announced (`announcedHeight`), and
   that increment wraps at `u64::MAX`. Below it, the messages are the operations above the
   announced height, or all of them when the remote announced none
   (`messagesNeededByRemote_storedAbove`); at it, `remote_needs_from` is `0` and the whole
   log goes out (`messagesNeededByRemote_max_height`). -/

namespace P2panda.Sync

open MemoryStore

variable {T L E : Type} [DecidableEq L]

/-- The height the remote announced for a log: of the last list it sent for the author, the
first entry with the log id, if there is one. -/
def announcedHeight (remote : AList fun _ : PublicKey => List (L × UInt64))
    (publicKey : PublicKey) (logId : L) : Option UInt64 :=
  ((remote.lookup publicKey).bind fun logHeights =>
    logHeights.find? fun entry => decide (entry.1 = logId)).map Prod.snd

theorem remoteNeedsFrom_eq (remote : AList fun _ : PublicKey => List (L × UInt64))
    (publicKey : PublicKey) (logId : L) :
    remoteNeedsFrom remote publicKey logId =
      match announcedHeight remote publicKey logId with
      | some height => height + 1
      | none => 0 := by
  unfold remoteNeedsFrom announcedHeight
  cases remote.lookup publicKey with
  | none => rfl
  | some logHeights =>
    cases hfind : logHeights.find? fun entry => decide (entry.1 = logId) with
    | none => simp [hfind]
    | some entry => simp [hfind]

/-- The data message a memory store sends for a log entry: the raw header and body of the
operation stored under its hash. -/
def entryMessage (s : MemoryStore L E) (m : LogMeta) : Option (Message T L) :=
  (s.operations.lookup m.hash).map fun op => .data op.headerBytes (op.body.map Body.bytes)

/-- The messages of the stored operations of a log from `fromSeqNum` on, in the order of the
log. -/
def storedFrom (s : MemoryStore L E) (publicKey : PublicKey) (logId : L) (fromSeqNum : UInt64) :
    List (Message T L) :=
  ((s.logOrEmpty (publicKey, logId)).toList.filter fun m => decide (fromSeqNum ≤ m.seqNum)).filterMap
    (entryMessage s)

/-- What a remote that announced `height` for a log needs of it: the stored operations above
the height, or all of them when it announced none, in the order of the log. -/
def storedAbove (s : MemoryStore L E) (publicKey : PublicKey) (logId : L) (height : Option UInt64) :
    List (Message T L) :=
  ((s.logOrEmpty (publicKey, logId)).toList.filter fun m => height.all (· < m.seqNum)).filterMap
    (entryMessage s)

/-- No stored operation is above `u64::MAX`. -/
theorem storedAbove_max (s : MemoryStore L E) (publicKey : PublicKey) (logId : L) :
    (storedAbove s publicKey logId (some 18446744073709551615) : List (Message T L)) = [] := by
  unfold storedAbove
  rw [List.filter_eq_nil_iff.mpr fun m _ => ?_, List.filterMap_nil]
  have := m.seqNum.toNat_lt
  simp only [Option.all_some, decide_eq_true_eq, UInt64.lt_iff_toNat_lt, UInt64.reduceToNat]
  omega

section Memory

variable {s : MemoryStore L E}

/-- `remote_needs` of a well-filed store: its log from `fromSeqNum` on. -/
theorem remoteNeeds_memory (hs : s.WellFiled) (publicKey : PublicKey) (logId : L)
    (fromSeqNum : UInt64) :
    remoteNeeds s.logStore logId publicKey fromSeqNum =
      .ok (storedFrom s publicKey logId fromSeqNum : List (Message T L)) := by
  unfold remoteNeeds storedFrom
  simp only [MemoryStore.logStore, getRawLog]
  cases hlog : s.logs.lookup (publicKey, logId) with
  | none => simp [Except.mapError, logOrEmpty, hlog, SortedSet.empty]
  | some log =>
    -- every entry of the log names a stored operation, so no `expect` fires
    have hstored : ∀ m ∈ log, ∃ op, s.operations.lookup m.hash = some op := fun m hm =>
      (hs.entries_stored _ m ((mem_logOrEmpty s).mpr ⟨log, hlog, hm⟩)).imp fun _ h => h.1
    let raw : LogMeta → List UInt8 × Option (List UInt8) := fun m =>
      ((s.operations.lookup m.hash).map fun op => (op.headerBytes, op.body.map Body.bytes)).getD
        ([], none)
    have hmapM : (log.toList.filter (fromFilter (some fromSeqNum))).mapM (fun m =>
        (fun op => (op.headerBytes, op.body.map Body.bytes)) <$>
          s.expectOperation m.hash "exists in hash map") =
        .ok ((log.toList.filter (fromFilter (some fromSeqNum))).map raw) := by
      refine Except.mapM_eq_ok_map fun m hm => ?_
      obtain ⟨op, hop⟩ := hstored m (List.mem_filter.mp hm).1
      simp [raw, expectOperation_of_lookup _ hop, hop]
    have hmessages : (log.toList.filter fun m => decide (fromSeqNum ≤ m.seqNum)).filterMap
        (entryMessage s) =
        ((log.toList.filter (fromFilter (some fromSeqNum))).map raw).map
          fun r => (.data r.1 r.2 : Message T L) := by
      rw [List.map_map]
      refine List.filterMap_eq_map_iff_forall_eq_some.mpr fun m hm => ?_
      obtain ⟨op, hop⟩ := hstored m (List.mem_filter.mp hm).1
      simp [entryMessage, raw, hop]
    simp only [hmapM, logOrEmpty, hlog, Option.getD_some, hmessages]
    rfl

/-- A well-filed store whose `latest_operation` finds nothing for a log holds no entry of
it. -/
theorem not_mem_logOrEmpty_of_latest (hs : s.WellFiled) {publicKey : PublicKey} {logId : L}
    (hlatest : s.latestOperation publicKey logId = none) (m : LogMeta) :
    m ∉ s.logOrEmpty (publicKey, logId) := by
  intro hm
  obtain ⟨log, hlog, hmlog⟩ := (mem_logOrEmpty s).mp hm
  -- the log has a largest entry, and its operation is stored
  cases hmax : log.max? with
  | none => exact SortedSet.max?_eq_none_iff.mp hmax m hmlog
  | some top =>
    have htop : top ∈ s.logOrEmpty (publicKey, logId) :=
      (mem_logOrEmpty s).mpr ⟨log, hlog, SortedSet.max?_mem hmax⟩
    obtain ⟨op, hop, -⟩ := hs.entries_stored _ top htop
    have hsome := (latestOperation_eq_some s).mpr ⟨log, top, op, hlog, hmax, hop, rfl, rfl⟩
    rw [hlatest] at hsome
    cases hsome

/-- The messages `messages_needed_by_remote` sends for a log of a well-filed store: its stored
operations from `remote_needs_from` on. A log we do not have sends nothing, and neither does
one whose height is below `remote_needs_from`, since then no entry is that high. -/
theorem messagesForLog_storedFrom (hs : s.WellFiled)
    (remote : AList fun _ : PublicKey => List (L × UInt64)) (publicKey : PublicKey) (logId : L) :
    messagesForLog s.logStore remote publicKey logId =
      .ok (storedFrom s publicKey logId (remoteNeedsFrom remote publicKey logId) :
        List (Message T L)) := by
  unfold messagesForLog
  simp only [MemoryStore.logStore, Except.mapError, Except.ok_bind]
  cases hlatest : s.latestOperation publicKey logId with
  | none =>
    have hnil : (storedFrom s publicKey logId (remoteNeedsFrom remote publicKey logId) :
        List (Message T L)) = [] := by
      unfold storedFrom
      rw [List.eq_nil_iff_forall_not_mem.mpr (not_mem_logOrEmpty_of_latest hs hlatest),
        List.filter_nil, List.filterMap_nil]
    rw [hnil]
    rfl
  | some latest =>
    obtain ⟨header, body⟩ := latest
    obtain ⟨log, top, op, hlog, hmax, hop, rfl, -⟩ := (latestOperation_eq_some s).mp hlatest
    have htop : top ∈ s.logOrEmpty (publicKey, logId) :=
      (mem_logOrEmpty s).mpr ⟨log, hlog, SortedSet.max?_mem hmax⟩
    have hseq : top.seqNum = op.header.seqNum := by
      rw [(hs.entry_eq htop hop).1]
      rfl
    dsimp only
    split_ifs with hle
    · exact remoteNeeds_memory hs publicKey logId _
    · -- no entry is above the largest one, which is below `remote_needs_from`
      have hnil : (storedFrom s publicKey logId (remoteNeedsFrom remote publicKey logId) :
          List (Message T L)) = [] := by
        unfold storedFrom
        rw [List.filter_eq_nil_iff.mpr fun m hm => ?_, List.filterMap_nil]
        have hm' : m ∈ log := by simpa [logOrEmpty, hlog] using hm
        have hlemax := LogMeta.seqNum_le_of_le (SortedSet.le_max? hmax hm')
        simp only [decide_eq_true_eq]
        intro hfrom
        exact hle (hseq ▸ le_trans hfrom hlemax)
      rw [hnil]
      rfl

end Memory

/-- Below `u64::MAX`, one past the announced height starts where the operations above it
do: `remote_needs_from` selects exactly what the remote needs. -/
theorem storedFrom_remoteNeedsFrom (s : MemoryStore L E)
    (remote : AList fun _ : PublicKey => List (L × UInt64)) (publicKey : PublicKey) (logId : L)
    (hheight : ∀ height, announcedHeight remote publicKey logId = some height →
      height.toNat < 18446744073709551615) :
    (storedFrom s publicKey logId (remoteNeedsFrom remote publicKey logId) : List (Message T L)) =
      storedAbove s publicKey logId (announcedHeight remote publicKey logId) := by
  unfold storedFrom storedAbove
  rw [remoteNeedsFrom_eq]
  cases hannounced : announcedHeight remote publicKey logId with
  | none =>
    -- nothing announced: the whole log, from `0`
    congr 1
  | some height =>
    have hlt := hheight height hannounced
    congr 1
    refine List.filter_congr fun m _ => ?_
    -- `height + 1` does not wrap
    simp only [Option.all_some, decide_eq_decide, UInt64.le_iff_toNat_le, UInt64.lt_iff_toNat_lt,
      UInt64.toNat_add, UInt64.toNat_one]
    omega

/-- For every well-filed memory store, every topic's logs and every map of announced
heights below `u64::MAX`, `messages_needed_by_remote` sends, log after log in the order of
the topic map, the stored operations above the height the remote announced for the log, or
all of them when it announced none, each log in its order. -/
theorem messagesNeededByRemote_storedAbove {s : MemoryStore L E} (hs : s.WellFiled)
    (logs : Logs L) (remote : AList fun _ : PublicKey => List (L × UInt64))
    (hheights : ∀ x ∈ Logs.pairs logs, ∀ height, announcedHeight remote x.1 x.2 = some height →
      height.toNat < 18446744073709551615) :
    messagesNeededByRemote s.logStore logs remote =
      .ok ((Logs.pairs logs).flatMap fun x =>
        (storedAbove s x.1 x.2 (announcedHeight remote x.1 x.2) : List (Message T L))) :=
  messagesNeededByRemote_eq _ fun x hx => by
    rw [messagesForLog_storedFrom hs, storedFrom_remoteNeedsFrom s remote x.1 x.2 (hheights x hx)]

/-- The store that holds the sample log's first operation. -/
def genesisStore : MemoryStore Nat Unit :=
  (MemoryStore.new.insertOperation (sampleGenesis.hash cborPrimitives) sampleGenesis none
    (sampleGenesis.toBytes cborPrimitives) 0).2

theorem genesisStore_wellFiled : genesisStore.WellFiled :=
  insertOperation_wellFiled new_consistent.toWellFiled fun op hop => by
    simp [MemoryStore.new, AList.lookup_empty] at hop

theorem messagesNeededByRemote_storedAbove_genesis :
    messagesNeededByRemote genesisStore.logStore [(sampleGenesis.publicKey, [0])]
        (heightsMap [(sampleGenesis.publicKey, [(0, 0)])]) =
      .ok ((Logs.pairs [(sampleGenesis.publicKey, [0])]).flatMap fun x =>
        (storedAbove genesisStore x.1 x.2
          (announcedHeight (heightsMap [(sampleGenesis.publicKey, [(0, 0)])]) x.1 x.2) :
          List (Message Nat Nat))) :=
  messagesNeededByRemote_storedAbove genesisStore_wellFiled _ _ fun x hx height hheight => by
    simp only [Logs.pairs, List.flatMap_cons, List.map_cons, List.map_nil, List.flatMap_nil,
      List.append_nil, List.mem_singleton] at hx
    subst hx
    have : height = 0 := by simpa [announcedHeight, heightsMap] using hheight.symm
    subst this
    decide

/-- A remote that announces the largest height, `u64::MAX`, for log `0` of the sample log's
author. -/
def maxHeightRemote : AList fun _ : PublicKey => List (Nat × UInt64) :=
  heightsMap [(sampleLog.publicKey, [(0, 18446744073709551615)])]

/-- At `u64::MAX` the increment of `remote_needs_from` wraps to `0`: a remote that announces
the largest height for the sample log, and so needs nothing of it, gets the whole log. -/
theorem messagesNeededByRemote_max_height :
    announcedHeight maxHeightRemote sampleLog.publicKey 0 = some 18446744073709551615 ∧
      (storedAbove (sampleStore 2) sampleLog.publicKey 0 (some 18446744073709551615) :
        List (Message Nat Nat)) = [] ∧
      (messagesNeededByRemote (sampleStore 2).logStore [(sampleLog.publicKey, [0])]
        maxHeightRemote : Except SyncError (List (Message Nat Nat))) =
        .ok (sampleLog.ops.map (dataMessage cborPrimitives)) := by
  refine ⟨by decide, storedAbove_max _ _ _, ?_⟩
  have hcover : ∀ x ∈ Logs.pairs [(sampleLog.publicKey, [0])], ∃ g ∈ [sampleLog], g.key = x :=
    fun x hx => ⟨sampleLog, List.mem_singleton_self _, by
      simp only [Logs.pairs, List.flatMap_cons, List.map_cons, List.map_nil, List.flatMap_nil,
        List.append_nil, List.mem_singleton] at hx
      rw [hx]
      rfl⟩
  rw [messagesNeededByRemote_memory cborPrimitives (Separate.singleton _ sampleLog)
    (sampleStore_holds (by decide)) hcover maxHeightRemote]
  -- `u64::MAX + 1` wraps to `0`
  have hfrom : remoteNeedsFrom maxHeightRemote sampleGenesis.publicKey 0 = 0 := by decide
  simp [Logs.pairs, stretchMessages, logOf, ChainedLog.key, hfrom, sampleLog]

end P2panda.Sync
