import P2panda.Stream.Ingest

/- A log as peers hold it, and a `MemoryStore` that holds a prefix of it.

   A `ChainedLog` is a log of one author and log id with its operations in the order of
   their sequence numbers `0, 1, …`: each operation validates, each one past the first
   passes the backlink check against the one before, and no two share a hash. Its
   invariants are fields, so every log this module speaks of is one.

   `HoldsPrefix s g n` says the store `s` holds exactly the first `n` operations of `g`:
   the log's entries are theirs, each is stored under its hash, and none of the later
   ones is stored anywhere. What the store's reads then return is computed once
   (`HoldsPrefix.latestOperation`, `HoldsPrefix.getRawLog`), and so is what an ingest call
   does: an operation below `n` is found and left as it is (`HoldsPrefix.ingest_held`); the
   operation at `n` is stored, and the store then holds `n + 1` (`HoldsPrefix.ingest_next`,
   `HoldsPrefix.insertOperation_next`) while every other log is left as it was
   (`HoldsPrefix.insertOperation_other`).

   Over a family of logs with distinct keys and hashes (`Separate`), `HoldsAll` gives each
   log its prefix length. Ingesting a stretch of one log's operations that starts at or
   below its length, in order, returns `Complete` for each and moves that log's length up
   to the stretch's end (`HoldsAll.ingestRun_stretch`). -/

namespace P2panda

open MemoryStore

variable {L E : Type} (P : Primitives) [Extensions E]

/-- The entry a log keeps for an operation. -/
def logEntry (op : Header E × Option Body) : LogMeta := logMeta op.1 (op.1.hash P)

/-- The bytes `get_raw_log` returns for a stored operation. -/
def rawOf (op : Header E × Option Body) : List UInt8 × Option (List UInt8) :=
  (op.1.toBytes P, op.2.map Body.bytes)

/-- A log of one author and log id, by sequence number, each operation valid and chained to
the one before. -/
structure ChainedLog (P : Primitives) (L E : Type) [Extensions E] where
  publicKey : PublicKey
  logId : L
  ops : List (Header E × Option Body)
  seqNum : ∀ k (hk : k < ops.length), ops[k].1.seqNum.toNat = k
  author : ∀ op ∈ ops, op.1.publicKey = publicKey
  valid : ∀ op ∈ ops, validateOperation P ⟨op.1.hash P, op.1, op.2⟩ = .ok ()
  backlink : ∀ k (hk : k + 1 < ops.length), validateBacklink P ops[k].1 ops[k + 1].1 = .ok ()
  hashInj : ∀ op ∈ ops, ∀ op' ∈ ops, op.1.hash P = op'.1.hash P → op = op'

namespace ChainedLog

variable {P} (g : ChainedLog P L E)

/-- The author and log id. -/
def key : PublicKey × L := (g.publicKey, g.logId)

/-- How a store that took the operation from the log keeps it. -/
def stored (op : Header E × Option Body) : StoredOperation L E :=
  ⟨g.logId, op.1, op.2, op.1.toBytes P⟩

/-- The ingest call for an operation of the log. -/
def call (op : Header E × Option Body) : IngestCall L E :=
  ⟨op.1, op.2, op.1.toBytes P, g.logId⟩

/-- An operation of the log stands at its sequence number. -/
theorem exists_getElem_seqNum {op : Header E × Option Body} (hop : op ∈ g.ops) :
    ∃ k, ∃ hk : k < g.ops.length, g.ops[k] = op ∧ op.1.seqNum.toNat = k := by
  obtain ⟨k, hk, rfl⟩ := List.mem_iff_getElem.mp hop
  exact ⟨k, hk, rfl, g.seqNum k hk⟩

theorem seqNum_lt_of_mem_take {n : Nat} {op : Header E × Option Body}
    (h : op ∈ g.ops.take n) : op.1.seqNum.toNat < n := by
  obtain ⟨j, hj, rfl⟩ := List.mem_take_iff_getElem.mp h
  rw [g.seqNum j (by omega)]
  omega

theorem le_seqNum_of_mem_drop {n : Nat} {op : Header E × Option Body}
    (h : op ∈ g.ops.drop n) : n ≤ op.1.seqNum.toNat := by
  obtain ⟨j, hj, rfl⟩ := List.mem_drop_iff_getElem.mp h
  rw [g.seqNum (n + j) (by omega)]
  omega

/-- The operation at `n` is none of those before it. -/
theorem ne_getElem_of_mem_take {n : Nat} (hn : n < g.ops.length) {op : Header E × Option Body}
    (hop : op ∈ g.ops.take n) : op ≠ g.ops[n] := by
  intro heq
  have hlt := g.seqNum_lt_of_mem_take hop
  rw [heq, g.seqNum n hn] at hlt
  omega

/-- The operation at `n` is none of those after it. -/
theorem ne_getElem_of_mem_drop {n : Nat} (hn : n < g.ops.length) {op : Header E × Option Body}
    (hop : op ∈ g.ops.drop (n + 1)) : op ≠ g.ops[n] := by
  intro heq
  have hle := g.le_seqNum_of_mem_drop hop
  rw [heq, g.seqNum n hn] at hle
  omega

/-- Two operations of the log have the same hash only if they are the same. -/
theorem hash_ne {op op' : Header E × Option Body} (hop : op ∈ g.ops) (hop' : op' ∈ g.ops)
    (hne : op ≠ op') : op.1.hash P ≠ op'.1.hash P :=
  fun heq => hne (g.hashInj op hop op' hop' heq)

/-- The entries of the log increase, since the sequence numbers do. -/
theorem entries_sorted : (g.ops.map (logEntry P)).Pairwise (· < ·) := by
  rw [List.pairwise_iff_getElem]
  intro i j hi hj hij
  rw [List.length_map] at hi hj
  simp only [List.getElem_map]
  apply LogMeta.lt_of_seqNum_lt
  rw [logEntry, logEntry, logMeta_seqNum, logMeta_seqNum, UInt64.lt_iff_toNat_lt, g.seqNum i hi,
    g.seqNum j hj]
  exact hij

/-- The entries of the first `n` operations, as a log. -/
def prefixSet (n : Nat) : SortedSet LogMeta :=
  ⟨(g.ops.take n).map (logEntry P), by
    rw [List.map_take]
    exact g.entries_sorted.sublist (List.take_sublist n _)⟩

theorem mem_prefixSet {n : Nat} {m : LogMeta} :
    m ∈ g.prefixSet n ↔ m ∈ (g.ops.take n).map (logEntry P) := Iff.rfl

/-- The entries at or after `from` of the first `n` are those of the operations from
`from` on. -/
theorem filter_fromFilter (n : Nat) (f : UInt64) :
    ((g.ops.take n).map (logEntry P)).filter (fromFilter (some f)) =
      ((g.ops.take n).drop f.toNat).map (logEntry P) := by
  conv_lhs => rw [← List.take_append_drop f.toNat (g.ops.take n)]
  rw [List.map_append, List.filter_append, List.filter_eq_nil_iff.mpr ?below,
    List.filter_eq_self.mpr ?above, List.nil_append]
  case below =>
    intro m hm
    obtain ⟨op, hop, rfl⟩ := List.mem_map.mp hm
    rw [List.take_take] at hop
    have hlt := g.seqNum_lt_of_mem_take hop
    simp only [fromFilter, logEntry, logMeta_seqNum, ge_iff_le, UInt64.le_iff_toNat_le,
      decide_eq_true_eq]
    omega
  case above =>
    intro m hm
    obtain ⟨op, hop, rfl⟩ := List.mem_map.mp hm
    rw [List.drop_take] at hop
    have hle := g.le_seqNum_of_mem_drop (List.mem_of_mem_take hop)
    simp only [fromFilter, logEntry, logMeta_seqNum, ge_iff_le, UInt64.le_iff_toNat_le,
      decide_eq_true_eq]
    exact hle

/-- The last of the first `n` operations, for `0 < n`, is the one with sequence number
`n - 1`. -/
theorem getLast?_take {n : Nat} (hn : n ≤ g.ops.length) {op : Header E × Option Body}
    (h : (g.ops.take n).getLast? = some op) : op.1.seqNum.toNat + 1 = n := by
  rw [List.getLast?_take] at h
  split at h
  · cases h
  · next hn0 =>
    rw [List.getElem?_eq_getElem (by omega), Option.some_or] at h
    cases h
    rw [g.seqNum (n - 1) (by omega)]
    omega

end ChainedLog

variable [DecidableEq L]

/-- The store holds exactly the first `n` operations of the log. -/
structure HoldsPrefix (s : MemoryStore L E) (g : ChainedLog P L E) (n : Nat) : Prop where
  le : n ≤ g.ops.length
  log : s.logOrEmpty g.key = g.prefixSet n
  held : ∀ op ∈ g.ops.take n, s.operations.lookup (op.1.hash P) = some (g.stored op)
  notHeld : ∀ op ∈ g.ops.drop n, s.operations.lookup (op.1.hash P) = none

namespace HoldsPrefix

variable {P} {s : MemoryStore L E} {g : ChainedLog P L E} {n : Nat}

/-- A store whose log is empty there has no entry for it, or an empty one. -/
theorem lookup_log (h : HoldsPrefix P s g n) :
    (s.logs.lookup g.key = none ∧ g.ops.take n = []) ∨ s.logs.lookup g.key = some (g.prefixSet n) := by
  have hlog := h.log
  unfold logOrEmpty at hlog
  cases hl : s.logs.lookup g.key with
  | none =>
    rw [hl] at hlog
    have hnil : (g.ops.take n).map (logEntry P) = [] := (congrArg SortedSet.toList hlog).symm
    exact Or.inl ⟨rfl, List.map_eq_nil_iff.mp hnil⟩
  | some log =>
    rw [hl] at hlog
    exact Or.inr (by rw [← hlog]; rfl)

/-- `latest_operation` returns the last operation held. -/
theorem latestOperation (h : HoldsPrefix P s g n) :
    s.latestOperation g.publicKey g.logId = (g.ops.take n).getLast? := by
  unfold MemoryStore.latestOperation
  rcases h.lookup_log with ⟨hl, hnil⟩ | hl
  · simp [ChainedLog.key] at hl
    simp [hl, hnil]
  · simp only [ChainedLog.key] at hl
    have hmax : (g.prefixSet n).max? = ((g.ops.take n).getLast?).map (logEntry P) :=
      List.getLast?_map
    cases hlast : (g.ops.take n).getLast? with
    | none => simp [hl, hmax, hlast]
    | some op =>
      have hop := h.held op (List.mem_of_getLast? hlast)
      simp [hl, hmax, hlast, logEntry, hop, ChainedLog.stored]

/-- `get_raw_log` from `from` returns the bytes of the operations held from `from` on. -/
theorem getRawLog (h : HoldsPrefix P s g n) (f : UInt64) :
    ∃ r, s.getRawLog g.publicKey g.logId (some f) = .ok r ∧
      r.getD [] = ((g.ops.take n).drop f.toNat).map (rawOf P) := by
  unfold MemoryStore.getRawLog
  rcases h.lookup_log with ⟨hl, hnil⟩ | hl
  · simp only [ChainedLog.key] at hl
    rw [hl, hnil]
    exact ⟨none, rfl, by simp⟩
  · simp only [ChainedLog.key] at hl
    rw [hl]
    -- every entry from `from` on names an operation held
    have hops : ∀ op ∈ (g.ops.take n).drop f.toNat,
        ((fun op => (op.headerBytes, op.body.map Body.bytes)) <$>
          s.expectOperation (logEntry P op).hash "exists in hash map") = .ok (rawOf P op) := by
      intro op hop
      have hheld := h.held op (List.mem_of_mem_drop hop)
      simp [expectOperation, logEntry, hheld, ChainedLog.stored, rawOf]
    have hmapM : (((g.ops.take n).drop f.toNat).map (logEntry P)).mapM
        (fun m => (fun op => (op.headerBytes, op.body.map Body.bytes)) <$>
          s.expectOperation m.hash "exists in hash map") =
        .ok (((g.ops.take n).drop f.toNat).map (rawOf P)) :=
      Except.mapM_map_eq_ok_map hops
    refine ⟨some (((g.ops.take n).drop f.toNat).map (rawOf P)), ?_, rfl⟩
    show some <$> (((g.ops.take n).map (logEntry P)).filter (fromFilter (some f))).mapM _ = _
    rw [g.filter_fromFilter, hmapM]
    rfl

theorem hasOperation_take (h : HoldsPrefix P s g n) {op : Header E × Option Body}
    (hop : op ∈ g.ops.take n) : s.hasOperation (op.1.hash P) = true := by
  rw [hasOperation, decide_eq_true_eq, ← AList.lookup_isSome, h.held op hop]
  rfl

theorem hasOperation_drop (h : HoldsPrefix P s g n) {op : Header E × Option Body}
    (hop : op ∈ g.ops.drop n) : s.hasOperation (op.1.hash P) = false :=
  (hasOperation_eq_false s).mpr (h.notHeld op hop)

/-- An operation held already is found, and nothing is written. -/
theorem ingest_held (h : HoldsPrefix P s g n) {op : Header E × Option Body}
    (hop : op ∈ g.ops.take n) (headerBytes : List UInt8) (logId : L) (pruneFlag : Bool) :
    ingestOperation P s op.1 op.2 headerBytes logId pruneFlag =
      (.ok (.complete ⟨op.1.hash P, op.1, op.2⟩), s) := by
  have hvalid := g.valid op (List.mem_of_mem_take hop)
  simp [ingestOperation, hvalid, h.hasOperation_take hop]

/-- The operation at `n` passes the log check and is stored. -/
theorem ingest_next (h : HoldsPrefix P s g n) (hn : n < g.ops.length) :
    ingestOperation P s g.ops[n].1 g.ops[n].2 (g.ops[n].1.toBytes P) g.logId false =
      (.ok (.complete ⟨g.ops[n].1.hash P, g.ops[n].1, g.ops[n].2⟩),
        (s.insertOperation (g.ops[n].1.hash P) g.ops[n].1 g.ops[n].2 (g.ops[n].1.toBytes P)
          g.logId).2) := by
  have hmem : g.ops[n] ∈ g.ops.drop n :=
    List.mem_drop_iff_getElem.mpr ⟨0, by omega, by simp⟩
  have hvalid := g.valid _ (List.getElem_mem hn)
  have hseq := g.seqNum n hn
  -- the log check passes: a first operation skips it, a later one follows the last held
  have hcheck : logCheck P s g.ops[n].1 g.ops[n].2 (g.ops[n].1.toBytes P) g.logId false = none := by
    by_cases hn0 : n = 0
    · have hzero : g.ops[n].1.seqNum = 0 := by
        rw [← UInt64.toNat_inj, hseq, hn0, UInt64.toNat_zero]
      simp [logCheck, hzero]
    · have hlast : (g.ops.take n).getLast? = some g.ops[n - 1] := by
        rw [List.getLast?_take, if_neg hn0, List.getElem?_eq_getElem (by omega), Option.some_or]
      have hback := g.backlink (n - 1) (by omega)
      simp only [Nat.sub_add_cancel (Nat.one_le_iff_ne_zero.mpr hn0)] at hback
      have hauthor := g.author _ (List.getElem_mem hn)
      simp only [logCheck, checkBacklink, hauthor, h.latestOperation, hlast, hback]
      simp
  simp [ingestOperation, hvalid, h.hasOperation_drop hmem, hcheck]

/-- An operation past `n` does not follow the last one held, or finds the log empty: the
log check answers `Retry`, and nothing is written. -/
theorem ingest_ahead (h : HoldsPrefix P s g n) {k : Nat} (hk : k < g.ops.length) (hnk : n < k) :
    ∃ behind, ingestOperation P s g.ops[k].1 g.ops[k].2 (g.ops[k].1.toBytes P) g.logId false =
      (.ok (.retry g.ops[k].1 g.ops[k].2 (g.ops[k].1.toBytes P) behind), s) := by
  have hmem : g.ops[k] ∈ g.ops.drop n :=
    List.mem_drop_iff_getElem.mpr ⟨k - n, by omega, by simp only [Nat.add_sub_cancel' hnk.le]⟩
  have hvalid := g.valid _ (List.getElem_mem hk)
  have hseq := g.seqNum k hk
  have hauthor := g.author _ (List.getElem_mem hk)
  have hpos : 0 < g.ops[k].1.seqNum := by
    rw [UInt64.lt_iff_toNat_lt, hseq, UInt64.toNat_zero]
    omega
  have hcheck : ∃ behind, checkBacklink P s g.ops[k].1 g.ops[k].2 (g.ops[k].1.toBytes P) g.logId =
      some (.ok (.retry g.ops[k].1 g.ops[k].2 (g.ops[k].1.toBytes P) behind)) := by
    simp only [checkBacklink, hauthor, h.latestOperation]
    cases hlast : (g.ops.take n).getLast? with
    | none => exact ⟨_, rfl⟩
    | some latest =>
      -- the last operation held is `n - 1`, whose successor is not `k`
      have hl := g.getLast?_take h.le hlast
      have hpk : latest.1.publicKey = g.ops[k].1.publicKey := by
        rw [g.author latest (List.mem_of_mem_take (List.mem_of_getLast? hlast)), hauthor]
      have hne : latest.1.seqNum + 1 ≠ g.ops[k].1.seqNum := by
        intro heq
        have hnat := congrArg UInt64.toNat heq
        have hbound := g.ops[k].1.seqNum.toNat_lt
        rw [UInt64.toNat_add, UInt64.toNat_one, hseq] at hnat
        rw [hseq] at hbound
        rw [Nat.mod_eq_of_lt (by omega)] at hnat
        omega
      simp only [validateBacklink, hpk, ne_eq, not_true_eq_false, if_false, hne, not_false_eq_true,
        if_true]
      exact ⟨_, rfl⟩
  obtain ⟨behind, hc⟩ := hcheck
  refine ⟨behind, ?_⟩
  simp [ingestOperation, hvalid, h.hasOperation_drop hmem, logCheck, hpos, hc]

/-- Storing the operation at `n` makes the store hold `n + 1`. -/
theorem insertOperation_next (h : HoldsPrefix P s g n) (hn : n < g.ops.length) :
    HoldsPrefix P (s.insertOperation (g.ops[n].1.hash P) g.ops[n].1 g.ops[n].2
      (g.ops[n].1.toBytes P) g.logId).2 g (n + 1) := by
  have hauthor := g.author _ (List.getElem_mem hn)
  have htake : g.ops.take (n + 1) = g.ops.take n ++ [g.ops[n]] := by
    rw [List.take_add_one, List.getElem?_eq_getElem hn, Option.toList_some]
  -- the new entry is none of the log's: their sequence numbers are all below `n`
  have hfresh : logMeta g.ops[n].1 (g.ops[n].1.hash P) ∉ s.logOrEmpty g.key := by
    rw [h.log]
    intro hmem
    obtain ⟨op, hop, heq⟩ := List.mem_map.mp hmem
    have hseq := congrArg LogMeta.seqNum heq
    simp only [logEntry, logMeta_seqNum] at hseq
    have hlt := g.seqNum_lt_of_mem_take hop
    rw [hseq, g.seqNum n hn] at hlt
    omega
  have hkey : (g.ops[n].1.publicKey, g.logId) = g.key := by rw [hauthor]; rfl
  refine ⟨hn, ?_, fun op hop => ?_, fun op hop => ?_⟩
  · apply SortedSet.ext
    intro m
    rw [← hkey, mem_logOrEmpty_insertOperation, hkey, h.log, ChainedLog.mem_prefixSet,
      ChainedLog.mem_prefixSet, htake, List.map_append, List.mem_append]
    simp only [true_and, List.map_cons, List.map_nil, List.mem_singleton, logEntry]
    exact Or.comm
  · rw [insertOperation_operations, hkey]
    rw [htake, List.mem_append, List.mem_singleton] at hop
    rcases hop with hop | rfl
    · -- one held before: its hash is not the new one's
      have hne := g.hash_ne (List.mem_of_mem_take hop) (List.getElem_mem hn)
        (g.ne_getElem_of_mem_take hn hop)
      rw [if_neg (fun hc => hne hc.2), h.held op hop]
    · rw [if_pos ⟨hfresh, rfl⟩]
      rfl
  · have hne := g.hash_ne (List.mem_of_mem_drop hop) (List.getElem_mem hn)
      (g.ne_getElem_of_mem_drop hn hop)
    rw [insertOperation_operations, if_neg (fun hc => hne hc.2)]
    rw [← List.drop_drop] at hop
    exact h.notHeld op (List.mem_of_mem_drop hop)

/-- Storing an operation of another log, with a hash none of this log's operations has,
leaves what the store holds of this log. -/
theorem insertOperation_other (h : HoldsPrefix P s g n) {hash : Hash} {header : Header E}
    {body : Option Body} {headerBytes : List UInt8} {logId : L}
    (hkey : g.key ≠ (header.publicKey, logId)) (hhash : ∀ op ∈ g.ops, op.1.hash P ≠ hash) :
    HoldsPrefix P (s.insertOperation hash header body headerBytes logId).2 g n := by
  refine ⟨h.le, ?_, fun op hop => ?_, fun op hop => ?_⟩
  · rw [← h.log]
    simp only [logOrEmpty, insertOperation_logs, if_neg hkey]
  · rw [insertOperation_operations,
      if_neg (fun hc => hhash op (List.mem_of_mem_take hop) hc.2), h.held op hop]
  · rw [insertOperation_operations,
      if_neg (fun hc => hhash op (List.mem_of_mem_drop hop) hc.2), h.notHeld op hop]

/-- The empty store holds none of any log. -/
theorem new_store (g : ChainedLog P L E) : HoldsPrefix P MemoryStore.new g 0 :=
  ⟨Nat.zero_le _, rfl, by simp, fun _ _ => AList.lookup_empty _⟩

end HoldsPrefix

/-! ## A family of logs -/

/-- Logs with distinct keys, of which no two share an operation's hash. -/
structure Separate (logs : List (ChainedLog P L E)) : Prop where
  keys : ∀ g ∈ logs, ∀ g' ∈ logs, g.key = g'.key → g = g'
  hashes : ∀ g ∈ logs, ∀ g' ∈ logs, g.key ≠ g'.key →
    ∀ op ∈ g.ops, ∀ op' ∈ g'.ops, op.1.hash P ≠ op'.1.hash P

omit [DecidableEq L] in
/-- One log is a family on its own. -/
theorem Separate.singleton (g : ChainedLog P L E) : Separate P [g] :=
  ⟨by simp, by simp⟩

/-- The store holds, of each log, as many operations as `count` says for its key. -/
def HoldsAll (s : MemoryStore L E) (logs : List (ChainedLog P L E))
    (count : PublicKey × L → Nat) : Prop :=
  ∀ g ∈ logs, HoldsPrefix P s g (count g.key)

namespace HoldsAll

variable {P} {logs : List (ChainedLog P L E)} {s : MemoryStore L E}
  {count : PublicKey × L → Nat}

/-- Counts that agree on the family's keys say the same of a store. -/
theorem congr {count' : PublicKey × L → Nat} (h : HoldsAll P s logs count)
    (heq : ∀ g ∈ logs, count g.key = count' g.key) : HoldsAll P s logs count' :=
  fun g hg => heq g hg ▸ h g hg

theorem new_store : HoldsAll P MemoryStore.new logs (fun _ => 0) :=
  fun g _ => HoldsPrefix.new_store g

/-- Ingesting an operation of one of the logs at or below its length returns `Complete`
and raises the length to past it. -/
theorem ingest (hsep : Separate P logs) (h : HoldsAll P s logs count) {g : ChainedLog P L E}
    (hg : g ∈ logs) {k : Nat} (hk : k < g.ops.length) (hkc : k ≤ count g.key) :
    (ingestOperation P s g.ops[k].1 g.ops[k].2 (g.ops[k].1.toBytes P) g.logId false).1 =
        .ok (.complete ⟨g.ops[k].1.hash P, g.ops[k].1, g.ops[k].2⟩) ∧
      HoldsAll P (ingestOperation P s g.ops[k].1 g.ops[k].2 (g.ops[k].1.toBytes P) g.logId false).2
        logs (Function.update count g.key (max (count g.key) (k + 1))) := by
  have hg' := h g hg
  rcases Nat.lt_or_ge k (count g.key) with hlt | hge
  · -- held already: nothing changes
    have hop : g.ops[k] ∈ g.ops.take (count g.key) :=
      List.mem_take_iff_getElem.mpr ⟨k, by omega, rfl⟩
    rw [hg'.ingest_held hop]
    refine ⟨rfl, ?_⟩
    rw [show max (count g.key) (k + 1) = count g.key by omega, Function.update_eq_self]
    exact h
  · -- the next one: stored, and every other log is left as it was
    have hkc' : k = count g.key := by omega
    have hnext := hg'.ingest_next (hkc' ▸ hk)
    simp only [← hkc'] at hnext
    rw [hnext]
    refine ⟨rfl, fun g' hg'' => ?_⟩
    by_cases hkey : g'.key = g.key
    · obtain rfl := hsep.keys g' hg'' g hg hkey
      rw [Function.update_self, show max (count g'.key) (k + 1) = k + 1 by omega]
      have hins := (h g' hg'').insertOperation_next (hkc' ▸ hk)
      simp only [← hkc'] at hins
      exact hins
    · rw [Function.update_of_ne hkey]
      have hauthor := g.author _ (List.getElem_mem hk)
      refine (h g' hg'').insertOperation_other (by rw [hauthor]; exact hkey) ?_
      exact fun op hop => hsep.hashes g' hg'' g hg hkey op hop _ (List.getElem_mem hk)

/-- Ingesting the operations of one log from `f` to `m`, in order, from a store that holds
at least `f` of them: each returns `Complete`, and the store then holds `m` of that log,
or more if it held more. The induction is on the operations left, `m - f`. -/
theorem ingestRun_stretch (hsep : Separate P logs) {g : ChainedLog P L E} (hg : g ∈ logs)
    {m : Nat} (hm : m ≤ g.ops.length) :
    ∀ (f : Nat) (s : MemoryStore L E) (count : PublicKey × L → Nat),
      HoldsAll P s logs count → f ≤ count g.key →
        (∀ x ∈ (ingestRun P (fun _ => false) s (((g.ops.take m).drop f).map g.call)).1,
          ∃ op, x = .ok (.complete op)) ∧
        HoldsAll P (ingestRun P (fun _ => false) s (((g.ops.take m).drop f).map g.call)).2 logs
          (Function.update count g.key (max (count g.key) m)) := by
  intro f
  induction h : m - f generalizing f with
  | zero =>
    intro s count hs hf
    have hnil : (g.ops.take m).drop f = [] := List.drop_eq_nil_of_le (by simp; omega)
    rw [hnil]
    refine ⟨by simp [ingestRun], ?_⟩
    rw [show max (count g.key) m = count g.key by omega, Function.update_eq_self]
    exact hs
  | succ d ih =>
    intro s count hs hf
    have hf' : f < (g.ops.take m).length := by simp; omega
    rw [List.drop_eq_getElem_cons hf', List.map_cons, List.getElem_take]
    obtain ⟨hfirst, hafter⟩ := hs.ingest hsep hg (show f < g.ops.length by omega) hf
    obtain ⟨hrest, hend⟩ := ih (f + 1) (by omega) _ _ hafter
      (by rw [Function.update_self]; omega)
    refine ⟨fun x hx => ?_, ?_⟩
    · simp only [ingestRun, ChainedLog.call, List.mem_cons] at hx
      rcases hx with rfl | hx
      · exact ⟨_, hfirst⟩
      · exact hrest x hx
    · simp only [ingestRun, ChainedLog.call]
      rw [Function.update_self, Function.update_idem,
        show max (max (count g.key) (f + 1)) m = max (count g.key) m by omega] at hend
      exact hend

end HoldsAll

end P2panda
