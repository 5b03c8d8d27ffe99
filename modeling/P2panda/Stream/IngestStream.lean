import Mathlib.Algebra.Order.BigOperators.Group.List
import Mathlib.Data.List.Perm.Basic
import P2panda.Stream.IngestPrefix

/- The `Ingest` stream (`p2panda-stream/src/stream/ingest.rs`): operations from an input
   stream are ingested into a `MemoryStore`, and those that arrive before their
   predecessor are put back into an out-of-order buffer, a FIFO `mpsc` channel, with an
   attempt counter. An attempt whose counter exceeds `ooo_buffer_size` fails with
   `MaxAttemptsReached`.

   `poll_next` is modelled loop iteration by loop iteration (`loopStep`): step 3 pulls an
   attempt (`pullNext`), from the buffer first when it holds `ooo_buffer_size` items and
   from the input otherwise; step 4 ingests it (`ingestFuture`); steps 1 and 2 return its
   result, or push it back into the buffer and go round again (`afterIngest`). The ingest
   future resolves when it is first polled, as every method of a `MemoryStore` does, so
   no future is left between two polls. The input is the sequence of its answers to
   polls: an item, or `Pending`; after the last it has ended, and `Fuse` answers `None`
   from then on. The buffer is the channel's queue: `size_hint().0` is its length, and a
   poll of the empty channel answers `Pending`, as `Ingest` holds its sender. The sender
   is taken to accept an item while fewer than `ooo_buffer_size` are queued. A consumer
   polls the stream until it ends (`drive`), and polls again after a `Pending`.

   Results:
   1. `ingest_zero_buffer_pending`: with `ooo_buffer_size` 0 the buffer counts as full
      from the start, so step 3 polls the empty channel: every poll answers `Pending` and
      leaves the stream as it was, and the stream never ends, whatever the input, even
      an empty one.
   2. `ingest_outOfOrder`: with a buffer of at least one item, any arrival order of at most
      `ooo_buffer_size` operations of chained logs is ingested whole: each operation is
      yielded once as `Ok`, and then the stream ends. -/
namespace P2panda

open MemoryStore

variable {L E : Type} [DecidableEq L]

/-- `IngestAttempt`: a header with its body and bytes, and the attempts made with it. -/
structure IngestAttempt (E : Type) where
  header : Header E
  body : Option Body
  headerBytes : List UInt8
  counter : Nat

/-- `Poll`. -/
inductive Poll (α : Type) where
  | ready (value : α)
  | pending

/-- `Extension<L>` and `Extension<PruneFlag>` of the headers' extensions. -/
structure IngestExtensions (L E : Type) where
  logId : Header E → Option L
  pruneFlag : Header E → Option PruneFlag

/-- The `Ingest` stream between two polls. -/
structure IngestStream (L E : Type) [DecidableEq L] where
  /-- The answers the input stream gives to the next polls: an item, or `Pending`. -/
  stream : List (Option (Header E × Option Body × List UInt8))
  store : MemoryStore L E
  oooBufferSize : Nat
  /-- The queue of the out-of-order channel, its front first. -/
  oooBuffer : List (IngestAttempt E)

/-- `Ingest::new`: an empty buffer. -/
def IngestStream.new (stream : List (Option (Header E × Option Body × List UInt8)))
    (store : MemoryStore L E) (oooBufferSize : Nat) : IngestStream L E :=
  ⟨stream, store, oooBufferSize, []⟩

/-- What step 3 comes back with. -/
inductive Pulled (L E : Type) [DecidableEq L] where
  /-- `poll_next` answers `Pending`. -/
  | pending (s : IngestStream L E)
  /-- Both the input and the buffer have ended. -/
  | ended (s : IngestStream L E)
  | attempt (a : IngestAttempt E) (s : IngestStream L E)

/-- Step 3: the buffer when it is full, else the input; the buffer when the input is
pending (unless parked after a retry) or has ended. -/
def pullNext (parkBuffer : Bool) (s : IngestStream L E) : Pulled L E :=
  if s.oooBuffer.length = s.oooBufferSize then
    -- `ready!` on the channel: the empty channel is pending
    match s.oooBuffer with
    | [] => .pending s
    | a :: rest => .attempt a { s with oooBuffer := rest }
  else
    match s.stream with
    | some (header, body, headerBytes) :: rest =>
      .attempt ⟨header, body, headerBytes, 1⟩ { s with stream := rest }
    | none :: rest =>
      if parkBuffer then .pending { s with stream := rest }
      else
        match s.oooBuffer with
        | [] => .pending { s with stream := rest }
        | a :: buf => .attempt a { s with stream := rest, oooBuffer := buf }
    | [] =>
      match s.oooBuffer with
      | [] => .ended s
      | a :: buf => .attempt a { s with oooBuffer := buf }

/-- The input's next item, while the buffer is not full. -/
theorem pullNext_stream {parkBuffer : Bool} {s : IngestStream L E}
    {item : Header E × Option Body × List UInt8}
    {rest : List (Option (Header E × Option Body × List UInt8))}
    (hfull : s.oooBuffer.length ≠ s.oooBufferSize) (hstream : s.stream = some item :: rest) :
    pullNext parkBuffer s = .attempt ⟨item.1, item.2.1, item.2.2, 1⟩ { s with stream := rest } := by
  simp only [pullNext, hfull, if_false, hstream]

/-- Once the input has ended, the buffer's front. -/
theorem pullNext_buffer {parkBuffer : Bool} {s : IngestStream L E} {a : IngestAttempt E}
    {rest : List (IngestAttempt E)} (hstream : s.stream = []) (hbuffer : s.oooBuffer = a :: rest) :
    pullNext parkBuffer s = .attempt a { s with oooBuffer := rest } := by
  unfold pullNext
  split <;> simp only [hstream, hbuffer]

/-- Once the input and a buffer with room have ended, the stream ends. -/
theorem pullNext_ended {parkBuffer : Bool} {s : IngestStream L E} (hstream : s.stream = [])
    (hbuffer : s.oooBuffer = []) (hsize : 0 < s.oooBufferSize) : pullNext parkBuffer s = .ended s := by
  have hfull : s.oooBuffer.length ≠ s.oooBufferSize := by
    rw [hbuffer, List.length_nil]
    omega
  rw [pullNext, if_neg hfull]
  simp only [hstream, hbuffer]

section Ingest

variable (P : Primitives) [Extensions E] (ext : IngestExtensions L E)

/-- Step 4, the ingest future: the log id and prune flag of the header, then
`ingest_operation`, its result paired with the attempt's counter. -/
def ingestFuture (store : MemoryStore L E) (a : IngestAttempt E) :
    Except IngestError (IngestResult E × Nat) × MemoryStore L E :=
  match ext.logId a.header with
  | none => (.error (.missingHeaderExtension "log_id"), store)
  | some logId =>
    match ext.pruneFlag a.header with
    | none => (.error (.missingHeaderExtension "prune_flag"), store)
    | some pruneFlag =>
      let (result, store) :=
        ingestOperation P store a.header a.body a.headerBytes logId pruneFlag.isSet
      (result.map fun r => (r, a.counter), store)

/-- What one turn of the loop does: `poll_next` returns, or it goes round again. -/
inductive LoopStep (L E : Type) [DecidableEq L] where
  | done (poll : Poll (Option (Except IngestError (Operation E)))) (s : IngestStream L E)
  | next (s : IngestStream L E)

/-- Steps 1 and 2: the result of an ingest. An operation that arrived too early goes back
into the buffer with its counter raised, unless its counter is past the buffer's size. -/
def afterIngest (s : IngestStream L E) : Except IngestError (IngestResult E × Nat) → LoopStep L E
  | .ok (.retry header body headerBytes numMissing, counter) =>
    if counter > s.oooBufferSize then
      .done (.ready (some (.error (.maxAttemptsReached numMissing)))) s
    -- `poll_ready` of the sender
    else if s.oooBuffer.length < s.oooBufferSize then
      .next { s with oooBuffer := s.oooBuffer ++ [⟨header, body, headerBytes, counter + 1⟩] }
    else .done .pending s
  | .ok (.complete operation, _) => .done (.ready (some (.ok operation))) s
  | .error err => .done (.ready (some (.error err))) s

/-- One turn of the loop of `poll_next`. -/
def loopStep (parkBuffer : Bool) (s : IngestStream L E) : LoopStep L E :=
  match pullNext parkBuffer s with
  | .pending s => .done .pending s
  | .ended s => .done (.ready none) s
  | .attempt a s =>
    let (result, store) := ingestFuture P ext s.store a
    afterIngest { s with store } result

/-- `poll_next`, with at most `fuel` turns of its loop; after a retry the buffer is parked. -/
def pollNext : Nat → Bool → IngestStream L E →
    Option (Poll (Option (Except IngestError (Operation E))) × IngestStream L E)
  | 0, _, _ => none
  | fuel + 1, parkBuffer, s =>
    match loopStep P ext parkBuffer s with
    | .done poll s => some (poll, s)
    | .next s => pollNext fuel true s

/-- A consumer that polls the stream until it ends, and polls again after a `Pending`:
the items it receives, if the stream ends within `fuel` polls. -/
def drive : Nat → IngestStream L E → Option (List (Except IngestError (Operation E)))
  | 0, _ => none
  | fuel + 1, s =>
    match pollNext P ext fuel false s with
    | none => none
    | some (.pending, s) => drive fuel s
    | some (.ready none, _) => some []
    | some (.ready (some item), s) => (drive fuel s).map (item :: ·)

/-! ## What one turn does -/

theorem loopStep_attempt {parkBuffer : Bool} {s s' : IngestStream L E} {a : IngestAttempt E}
    (h : pullNext parkBuffer s = .attempt a s') :
    loopStep P ext parkBuffer s =
      afterIngest { s' with store := (ingestFuture P ext s'.store a).2 }
        (ingestFuture P ext s'.store a).1 := by
  simp only [loopStep, h]

omit [Extensions E] in
/-- An early operation within its attempts goes back into a buffer with room. -/
theorem afterIngest_retry {s : IngestStream L E} {counter : Nat}
    (hcounter : counter ≤ s.oooBufferSize) (hroom : s.oooBuffer.length < s.oooBufferSize)
    (header : Header E) (body : Option Body) (headerBytes : List UInt8) (numMissing : UInt64) :
    afterIngest s (.ok (.retry header body headerBytes numMissing, counter)) =
      .next { s with oooBuffer := s.oooBuffer ++ [⟨header, body, headerBytes, counter + 1⟩] } := by
  simp only [afterIngest, gt_iff_lt, Nat.not_lt.mpr hcounter, if_false, hroom, if_true]

/-- More turns change nothing once `poll_next` has returned. -/
theorem pollNext_add {fuel : Nat} {parkBuffer : Bool} {s : IngestStream L E}
    {x : Poll (Option (Except IngestError (Operation E))) × IngestStream L E}
    (h : pollNext P ext fuel parkBuffer s = some x) (d : Nat) :
    pollNext P ext (fuel + d) parkBuffer s = some x := by
  induction fuel generalizing parkBuffer s with
  | zero => cases h
  | succ fuel ih =>
    rw [Nat.add_right_comm, pollNext]
    rw [pollNext] at h
    cases hstep : loopStep P ext parkBuffer s with
    | done poll s' =>
      rw [hstep] at h
      exact h
    | next s' =>
      rw [hstep] at h
      exact ih h

/-- More polls change nothing once the stream has ended. -/
theorem drive_add {fuel : Nat} {s : IngestStream L E} {out : List (Except IngestError (Operation E))}
    (h : drive P ext fuel s = some out) (d : Nat) : drive P ext (fuel + d) s = some out := by
  induction fuel generalizing s out with
  | zero => cases h
  | succ fuel ih =>
    rw [Nat.add_right_comm, drive]
    rw [drive] at h
    cases hpoll : pollNext P ext fuel false s with
    | none =>
      rw [hpoll] at h
      cases h
    | some x =>
      rw [pollNext_add P ext hpoll d]
      rw [hpoll] at h
      obtain ⟨poll, s'⟩ := x
      cases poll with
      | pending => exact ih h
      | ready v =>
        cases v with
        | none => exact h
        | some item =>
          simp only at h ⊢
          cases hrest : drive P ext fuel s' with
          | none =>
            rw [hrest] at h
            cases h
          | some rest =>
            rw [hrest] at h
            rw [ih hrest]
            exact h

/-! ## A buffer of size zero -/

/-- With `ooo_buffer_size` 0 the empty buffer is full: step 3 waits on the empty channel,
whatever the input. -/
theorem loopStep_zero_buffer (parkBuffer : Bool)
    (stream : List (Option (Header E × Option Body × List UInt8))) (store : MemoryStore L E) :
    loopStep P ext parkBuffer (IngestStream.new stream store 0) =
      .done .pending (IngestStream.new stream store 0) := by
  simp [loopStep, pullNext, IngestStream.new]

theorem ingest_zero_buffer_pending (stream : List (Option (Header E × Option Body × List UInt8)))
    (store : MemoryStore L E) :
    (∀ fuel parkBuffer, pollNext P ext (fuel + 1) parkBuffer (IngestStream.new stream store 0) =
      some (.pending, IngestStream.new stream store 0)) ∧
    ∀ fuel, drive P ext fuel (IngestStream.new stream store 0) = none := by
  have hpoll : ∀ fuel parkBuffer, pollNext P ext (fuel + 1) parkBuffer
      (IngestStream.new stream store 0) = some (.pending, IngestStream.new stream store 0) := by
    intro fuel parkBuffer
    rw [pollNext, loopStep_zero_buffer]
  refine ⟨hpoll, fun fuel => ?_⟩
  -- every poll is pending, so the consumer polls until its fuel runs out
  induction fuel with
  | zero => rfl
  | succ fuel ih =>
    cases fuel with
    | zero => rfl
    | succ fuel =>
      rw [drive, hpoll]
      exact ih

end Ingest

/-! ## Out-of-order operations of chained logs

The operations of a family of `ChainedLog`s arrive in any order, each with its log id and
no prune flag. The proof follows each operation by the log it belongs to (`LogRef`). A
store holding `count` operations of each log misses the rest (`missingRefs`), and the
operations still in the input and in the buffer are exactly those (`Pending`). An attempt
in the buffer has a counter at most two above its log's count, and two above only when the
log's next operation is pulled before it (`CountersBounded`). So the attempt at the front,
when the input has ended, is at most one above: if it is still early, its counter is at
most its sequence number, below `ooo_buffer_size`, and it goes back into the buffer. -/

/-- An operation with the log it belongs to. -/
abbrev LogRef (P : Primitives) (L E : Type) [Extensions E] :=
  ChainedLog P L E × (Header E × Option Body)

section Family

variable (P : Primitives) [Extensions E]

/-- An operation as the input stream hands it over: header, body and the header's bytes. -/
def itemOf (op : Header E × Option Body) : Header E × Option Body × List UInt8 :=
  (op.1, op.2, op.1.toBytes P)

/-- What the stream yields for an operation it ingested. -/
def completedOf (op : Header E × Option Body) : Except IngestError (Operation E) :=
  .ok ⟨op.1.hash P, op.1, op.2⟩

/-- The attempt of an operation with a counter. -/
def attemptOf (x : LogRef P L E × Nat) : IngestAttempt E :=
  ⟨x.1.2.1, x.1.2.2, x.1.2.1.toBytes P, x.2⟩

/-- The operations of a family of logs. -/
def familyRefs (logs : List (ChainedLog P L E)) : List (LogRef P L E) :=
  logs.flatMap fun g => g.ops.map (g, ·)

/-- The operations of a family of logs that a store holding `count` of each lacks. -/
def missingRefs (logs : List (ChainedLog P L E)) (count : PublicKey × L → Nat) :
    List (LogRef P L E) :=
  logs.flatMap fun g => (g.ops.drop (count g.key)).map (g, ·)

variable {P}

omit [DecidableEq L] in
theorem mem_missingRefs {logs : List (ChainedLog P L E)} {count : PublicKey × L → Nat}
    {r : LogRef P L E} :
    r ∈ missingRefs P logs count ↔ r.1 ∈ logs ∧ r.2 ∈ r.1.ops.drop (count r.1.key) := by
  simp only [missingRefs, List.mem_flatMap, List.mem_map]
  constructor
  · rintro ⟨g, hg, op, hop, rfl⟩
    exact ⟨hg, hop⟩
  · intro h
    exact ⟨r.1, h.1, r.2, h.2, rfl⟩

omit [DecidableEq L] in
theorem missingRefs_zero (logs : List (ChainedLog P L E)) :
    missingRefs P logs (fun _ => 0) = familyRefs P logs := by
  simp [missingRefs, familyRefs]

/-- When the next operation of a log is stored, it is the one operation no longer missing. -/
theorem missingRefs_next {logs : List (ChainedLog P L E)} (hsep : Separate P logs)
    (hnodup : logs.Nodup) {count : PublicKey × L → Nat} {r : LogRef P L E}
    (hr : r ∈ missingRefs P logs count) (hnext : r.2.1.seqNum.toNat = count r.1.key) :
    (missingRefs P logs count).Perm
      (r :: missingRefs P logs (Function.update count r.1.key (count r.1.key + 1))) := by
  obtain ⟨hg, hop⟩ := mem_missingRefs.mp hr
  obtain ⟨k, hk, hget, hseq⟩ := r.1.exists_getElem_seqNum (List.mem_of_mem_drop hop)
  refine List.flatMap_perm_cons hnodup hg ?_ fun g' hg' hne => ?_
  · -- `r` is the first operation its log misses
    have hkc : count r.1.key = k := by omega
    rw [Function.update_self, hkc, List.drop_eq_getElem_cons hk, List.map_cons, hget]
  · -- another log has another key, and keeps its count
    have hkey : g'.key ≠ r.1.key := fun h => hne (hsep.keys g' hg' r.1 hg h)
    rw [Function.update_of_ne hkey]

omit [DecidableEq L] in
/-- An operation ahead of its log leaves the log's next operation missing. -/
theorem exists_next_missing {logs : List (ChainedLog P L E)} {count : PublicKey × L → Nat}
    {r : LogRef P L E} (hr : r ∈ missingRefs P logs count)
    (hahead : count r.1.key < r.2.1.seqNum.toNat) :
    ∃ y ∈ missingRefs P logs count, y.1.key = r.1.key ∧ y.2.1.seqNum.toNat = count r.1.key := by
  obtain ⟨hg, hop⟩ := mem_missingRefs.mp hr
  obtain ⟨k, hk, -, hseq⟩ := r.1.exists_getElem_seqNum (List.mem_of_mem_drop hop)
  have hlt : count r.1.key < r.1.ops.length := by omega
  refine ⟨(r.1, r.1.ops[count r.1.key]), mem_missingRefs.mpr ⟨hg, ?_⟩, rfl, r.1.seqNum _ hlt⟩
  exact List.mem_drop_iff_getElem.mpr ⟨0, by dsimp only; omega, by simp⟩

end Family

/-! ## One attempt -/

section Attempts

variable {P : Primitives} [Extensions E] {ext : IngestExtensions L E}

/-- With both extensions present, the future is `ingest_operation`, with the counter. -/
theorem ingestFuture_eq {store : MemoryStore L E} {a : IngestAttempt E} {logId : L}
    {pruneFlag : PruneFlag} (hlog : ext.logId a.header = some logId)
    (hprune : ext.pruneFlag a.header = some pruneFlag) :
    ingestFuture P ext store a =
      ((ingestOperation P store a.header a.body a.headerBytes logId pruneFlag.isSet).1.map
          (·, a.counter),
        (ingestOperation P store a.header a.body a.headerBytes logId pruneFlag.isSet).2) := by
  simp only [ingestFuture, hlog, hprune]

variable {logs : List (ChainedLog P L E)}
  (hext : ∀ g ∈ logs, ∀ op ∈ g.ops,
    ext.logId op.1 = some g.logId ∧ ext.pruneFlag op.1 = some ⟨false⟩)

include hext in
/-- The next operation of its log is stored and yielded. -/
theorem ingestFuture_next (hsep : Separate P logs) {store : MemoryStore L E}
    {count : PublicKey × L → Nat} (hs : HoldsAll P store logs count) {r : LogRef P L E}
    (hr : r ∈ missingRefs P logs count) (hnext : r.2.1.seqNum.toNat = count r.1.key)
    (counter : Nat) :
    (ingestFuture P ext store (attemptOf P (r, counter))).1 =
        .ok (.complete ⟨r.2.1.hash P, r.2.1, r.2.2⟩, counter) ∧
      HoldsAll P (ingestFuture P ext store (attemptOf P (r, counter))).2 logs
        (Function.update count r.1.key (count r.1.key + 1)) := by
  obtain ⟨hg, hop⟩ := mem_missingRefs.mp hr
  obtain ⟨k, hk, hget, hseq⟩ := r.1.exists_getElem_seqNum (List.mem_of_mem_drop hop)
  obtain ⟨hlog, hprune⟩ := hext r.1 hg r.2 (List.mem_of_mem_drop hop)
  have hkc : k = count r.1.key := by omega
  obtain ⟨hres, hholds⟩ := hs.ingest hsep hg hk hkc.le
  rw [hget, show max (count r.1.key) (k + 1) = count r.1.key + 1 by omega] at hholds
  rw [hget] at hres
  rw [ingestFuture_eq hlog hprune]
  exact ⟨by simp only [attemptOf, hres]; rfl, hholds⟩

include hext in
/-- An operation ahead of its log's next one is put back, and the store is left as it was. -/
theorem ingestFuture_ahead {store : MemoryStore L E} {count : PublicKey × L → Nat}
    (hs : HoldsAll P store logs count) {r : LogRef P L E} (hr : r ∈ missingRefs P logs count)
    (hahead : count r.1.key < r.2.1.seqNum.toNat) (counter : Nat) :
    ∃ behind, ingestFuture P ext store (attemptOf P (r, counter)) =
      (.ok (.retry r.2.1 r.2.2 (r.2.1.toBytes P) behind, counter), store) := by
  obtain ⟨hg, hop⟩ := mem_missingRefs.mp hr
  obtain ⟨k, hk, hget, hseq⟩ := r.1.exists_getElem_seqNum (List.mem_of_mem_drop hop)
  obtain ⟨hlog, hprune⟩ := hext r.1 hg r.2 (List.mem_of_mem_drop hop)
  obtain ⟨behind, hres⟩ := (hs r.1 hg).ingest_ahead hk (by omega)
  rw [hget] at hres
  refine ⟨behind, ?_⟩
  rw [ingestFuture_eq hlog hprune]
  simp only [attemptOf, hres]
  rfl

end Attempts

/-! ## The counters in the buffer -/

section Counters

variable {P : Primitives} [Extensions E]

/-- An attempt's counter is at most two above its log's count, and two above only when the
log's next operation is pulled before it: in the input, or earlier in the buffer. -/
def CountersBounded (count : PublicKey × L → Nat) (rin : List (LogRef P L E))
    (rbuf : List (LogRef P L E × Nat)) : Prop :=
  ∀ pre x post, rbuf = pre ++ x :: post →
    x.2 ≤ count x.1.1.key + 2 ∧
      (x.2 = count x.1.1.key + 2 →
        ∃ y ∈ rin ++ pre.map Prod.fst, y.1.key = x.1.1.key ∧ y.2.1.seqNum.toNat = count x.1.1.key)

omit [DecidableEq L] in
/-- A log's next operation that is not `r` is still there once `r` is taken out. -/
theorem exists_next_of_ne {count : PublicKey × L → Nat} {r : LogRef P L E}
    {l : List (LogRef P L E)} {key : PublicKey × L}
    (h : ∃ y ∈ r :: l, y.1.key = key ∧ y.2.1.seqNum.toNat = count key)
    (hr : r.1.key = key → r.2.1.seqNum.toNat ≠ count key) :
    ∃ y ∈ l, y.1.key = key ∧ y.2.1.seqNum.toNat = count key := by
  obtain ⟨y, hy, hkey, hseq⟩ := h
  rcases List.mem_cons.mp hy with rfl | hy
  · exact absurd hseq (hr hkey)
  · exact ⟨y, hy, hkey, hseq⟩

omit [DecidableEq L] in
/-- The split of a buffer with an attempt pushed at its back. -/
theorem split_append_singleton {α : Type} {l pre post : List α} {x z : α}
    (h : l ++ [z] = pre ++ x :: post) :
    (pre = l ∧ x = z ∧ post = []) ∨ ∃ post', post = post' ++ [z] ∧ l = pre ++ x :: post' := by
  rcases List.eq_nil_or_concat post with rfl | ⟨post', z', rfl⟩
  · obtain ⟨hl, hz⟩ := List.append_inj' h rfl
    exact .inl ⟨hl.symm, (List.singleton_inj.mp hz).symm, rfl⟩
  · rw [List.concat_eq_append, ← List.cons_append, ← List.append_assoc] at h
    obtain ⟨hl, hz⟩ := List.append_inj' h rfl
    rw [List.singleton_inj.mp hz]
    exact .inr ⟨post', List.concat_eq_append, hl⟩

omit [DecidableEq L] in
/-- The front attempt, with nothing before it, is at most one above its log's count. -/
theorem CountersBounded.front {count : PublicKey × L → Nat} {x : LogRef P L E × Nat}
    {rbuf : List (LogRef P L E × Nat)} (h : CountersBounded count [] (x :: rbuf)) :
    x.2 ≤ count x.1.1.key + 1 := by
  obtain ⟨hle, hnext⟩ := h [] x rbuf rfl
  by_contra hgt
  obtain ⟨y, hy, -⟩ := hnext (by omega)
  cases hy

/-- Storing the input's front: its log's count goes up, and every other attempt keeps what
it had before it. -/
theorem CountersBounded.input_next {count : PublicKey × L → Nat} {r : LogRef P L E}
    {rin : List (LogRef P L E)} {rbuf : List (LogRef P L E × Nat)}
    (h : CountersBounded count (r :: rin) rbuf) :
    CountersBounded (Function.update count r.1.key (count r.1.key + 1)) rin rbuf := by
  intro pre x post hsplit
  obtain ⟨hle, hnx⟩ := h pre x post hsplit
  by_cases hkey : x.1.1.key = r.1.key
  · rw [hkey, Function.update_self]
    rw [hkey] at hle
    exact ⟨by omega, fun heq => by omega⟩
  · rw [Function.update_of_ne hkey]
    exact ⟨hle, fun heq => exists_next_of_ne (hnx heq) fun hk => absurd hk.symm hkey⟩

omit [DecidableEq L] in
/-- Pushing the input's front, ahead of its log, to the back with counter 2. -/
theorem CountersBounded.input_ahead {count : PublicKey × L → Nat} {r : LogRef P L E}
    {rin : List (LogRef P L E)} {rbuf : List (LogRef P L E × Nat)}
    (h : CountersBounded count (r :: rin) rbuf) (hahead : count r.1.key < r.2.1.seqNum.toNat)
    (hnext : ∃ y ∈ rin ++ rbuf.map Prod.fst,
      y.1.key = r.1.key ∧ y.2.1.seqNum.toNat = count r.1.key) :
    CountersBounded count rin (rbuf ++ [(r, 2)]) := by
  intro pre x post hsplit
  rcases split_append_singleton hsplit with ⟨rfl, rfl, rfl⟩ | ⟨post', rfl, hold⟩
  · exact ⟨by omega, fun _ => hnext⟩
  · obtain ⟨hle, hnx⟩ := h pre x post' hold
    refine ⟨hle, fun heq => exists_next_of_ne (hnx heq) fun hk hseq => ?_⟩
    rw [hk] at hahead
    omega

/-- Storing the buffer's front, with the input ended. -/
theorem CountersBounded.buffer_next {count : PublicKey × L → Nat} {x₀ : LogRef P L E × Nat}
    {rbuf : List (LogRef P L E × Nat)} (h : CountersBounded count [] (x₀ :: rbuf)) :
    CountersBounded (Function.update count x₀.1.1.key (count x₀.1.1.key + 1)) [] rbuf := by
  intro pre x post hsplit
  obtain ⟨hle, hnx⟩ := h (x₀ :: pre) x post (by rw [hsplit, List.cons_append])
  by_cases hkey : x.1.1.key = x₀.1.1.key
  · rw [hkey, Function.update_self]
    rw [hkey] at hle
    exact ⟨by omega, fun heq => by omega⟩
  · rw [Function.update_of_ne hkey]
    exact ⟨hle, fun heq => exists_next_of_ne (hnx heq) fun hk => absurd hk.symm hkey⟩

omit [DecidableEq L] in
/-- Pushing the buffer's front, ahead of its log, to the back with its counter raised. -/
theorem CountersBounded.buffer_ahead {count : PublicKey × L → Nat} {x₀ : LogRef P L E × Nat}
    {rbuf : List (LogRef P L E × Nat)} (h : CountersBounded count [] (x₀ :: rbuf))
    (hahead : count x₀.1.1.key < x₀.1.2.1.seqNum.toNat)
    (hnext : ∃ y ∈ rbuf.map Prod.fst,
      y.1.key = x₀.1.1.key ∧ y.2.1.seqNum.toNat = count x₀.1.1.key) :
    CountersBounded count [] (rbuf ++ [(x₀.1, x₀.2 + 1)]) := by
  intro pre x post hsplit
  rcases split_append_singleton hsplit with ⟨rfl, rfl, rfl⟩ | ⟨post', rfl, hold⟩
  · have hfront := h.front
    exact ⟨by dsimp only; omega, fun _ => hnext⟩
  · obtain ⟨hle, hnx⟩ := h (x₀ :: pre) x post' (by rw [hold, List.cons_append])
    refine ⟨hle, fun heq => exists_next_of_ne (hnx heq) fun hk hseq => ?_⟩
    rw [hk] at hahead
    omega

end Counters

/-! ## The invariant of a run -/

section Pending

variable {P : Primitives} [Extensions E] (logs : List (ChainedLog P L E)) (b : Nat)

/-- The stream while the operations of `logs` are ingested: the store holds `count` of
each log, the input and the buffer hold the missing operations once each, and the
buffer's counters are bounded. -/
structure Pending (s : IngestStream L E) (count : PublicKey × L → Nat)
    (rin : List (LogRef P L E)) (rbuf : List (LogRef P L E × Nat)) : Prop where
  size_eq : s.oooBufferSize = b
  stream_eq : s.stream = rin.map fun r => some (itemOf P r.2)
  buffer_eq : s.oooBuffer = rbuf.map (attemptOf P)
  holds : HoldsAll P s.store logs count
  missing : (rin ++ rbuf.map Prod.fst).Perm (missingRefs P logs count)
  length_le : rin.length + rbuf.length ≤ b
  counters : CountersBounded count rin rbuf

/-- What is left to do: `b + 2` for an operation in the input, `b + 2` less its counter for
an attempt in the buffer. -/
def weight (rin : List (LogRef P L E)) (rbuf : List (LogRef P L E × Nat)) : Nat :=
  rin.length * (b + 2) + (rbuf.map fun x => b + 2 - x.2).sum

variable {logs b}

omit [DecidableEq L] in
theorem weight_input_ahead (r : LogRef P L E) (rin : List (LogRef P L E))
    (rbuf : List (LogRef P L E × Nat)) :
    weight b rin (rbuf ++ [(r, 2)]) < weight b (r :: rin) rbuf := by
  simp only [weight, List.length_cons, List.map_append, List.map_cons, List.map_nil,
    List.sum_append, List.sum_cons, List.sum_nil]
  rw [Nat.succ_mul]
  omega

omit [DecidableEq L] in
theorem weight_buffer_ahead (x : LogRef P L E × Nat) (rbuf : List (LogRef P L E × Nat))
    (hx : x.2 ≤ b) : weight b [] (rbuf ++ [(x.1, x.2 + 1)]) < weight b [] (x :: rbuf) := by
  simp only [weight, List.length_nil, Nat.zero_mul, List.map_append, List.map_cons, List.map_nil,
    List.sum_append, List.sum_cons, List.sum_nil]
  omega

end Pending

/-! ## One turn from the invariant -/

section Steps

variable {P : Primitives} [Extensions E] {ext : IngestExtensions L E}
  {logs : List (ChainedLog P L E)} {b : Nat}
  (hext : ∀ g ∈ logs, ∀ op ∈ g.ops,
    ext.logId op.1 = some g.logId ∧ ext.pruneFlag op.1 = some ⟨false⟩)
  (hsep : Separate P logs) (hnodup : logs.Nodup) (hlen : ∀ g ∈ logs, g.ops.length ≤ b)

include hext hsep hnodup in
/-- A turn on the input's front: the next operation of its log is yielded, one ahead goes
to the back of the buffer with counter 2. -/
theorem Pending.loopStep_input {s : IngestStream L E} {count : PublicKey × L → Nat}
    {r : LogRef P L E} {rin : List (LogRef P L E)} {rbuf : List (LogRef P L E × Nat)}
    (hP : Pending logs b s count (r :: rin) rbuf) (parkBuffer : Bool) :
    (∃ s', loopStep P ext parkBuffer s = .done (.ready (some (completedOf P r.2))) s' ∧
      Pending logs b s' (Function.update count r.1.key (count r.1.key + 1)) rin rbuf) ∨
    (∃ s', loopStep P ext parkBuffer s = .next s' ∧
      Pending logs b s' count rin (rbuf ++ [(r, 2)])) := by
  have hr : r ∈ missingRefs P logs count := hP.missing.subset List.mem_cons_self
  obtain ⟨hg, hop⟩ := mem_missingRefs.mp hr
  have hle := r.1.le_seqNum_of_mem_drop hop
  have hlen' := hP.length_le
  simp only [List.length_cons] at hlen'
  have hroom : s.oooBuffer.length < s.oooBufferSize := by
    rw [hP.buffer_eq, hP.size_eq, List.length_map]
    omega
  have hpull : pullNext parkBuffer s = .attempt (attemptOf P (r, 1))
      { s with stream := rin.map fun r => some (itemOf P r.2) } :=
    pullNext_stream (Nat.ne_of_lt hroom) (by rw [hP.stream_eq, List.map_cons])
  rw [loopStep_attempt P ext hpull]
  rcases Nat.eq_or_lt_of_le hle with hnext | hahead
  · -- the next operation of its log: stored and yielded
    obtain ⟨hres, hholds⟩ := ingestFuture_next hext hsep hP.holds hr hnext.symm 1
    refine .inl ⟨_, by simp only [hres]; rfl, ?_⟩
    exact {
      size_eq := hP.size_eq
      stream_eq := rfl
      buffer_eq := hP.buffer_eq
      holds := hholds
      missing := (List.perm_cons r).mp
        (hP.missing.trans (missingRefs_next hsep hnodup hr hnext.symm))
      length_le := by omega
      counters := hP.counters.input_next }
  · -- ahead of its log: back into the buffer, and the store as it was
    obtain ⟨behind, hres⟩ := ingestFuture_ahead hext hP.holds hr hahead 1
    have hnext : ∃ y ∈ rin ++ rbuf.map Prod.fst,
        y.1.key = r.1.key ∧ y.2.1.seqNum.toNat = count r.1.key := by
      obtain ⟨y, hy, hkey, hseq⟩ := exists_next_missing hr hahead
      exact exists_next_of_ne ⟨y, hP.missing.symm.subset hy, hkey, hseq⟩ fun _ => by omega
    refine .inr ⟨_, by
      simp only [hres]
      apply afterIngest_retry
      · exact Nat.one_le_of_lt hroom
      · exact hroom, ?_⟩
    exact {
      size_eq := hP.size_eq
      stream_eq := rfl
      buffer_eq := by rw [hP.buffer_eq, List.map_append]; rfl
      holds := hP.holds
      missing := by
        refine List.Perm.trans ?_ hP.missing
        rw [List.map_append, List.map_singleton, ← List.append_assoc, List.cons_append]
        exact List.perm_append_comm
      length_le := by simp only [List.length_append, List.length_singleton]; omega
      counters := hP.counters.input_ahead hahead hnext }

include hext hsep hnodup hlen in
/-- A turn on the buffer's front once the input has ended: the next operation of its log is
yielded; one ahead of its log has a counter below its sequence number, so below `b`, and
goes to the back with its counter raised. -/
theorem Pending.loopStep_buffer {s : IngestStream L E} {count : PublicKey × L → Nat}
    {r : LogRef P L E} {c : Nat} {rbuf : List (LogRef P L E × Nat)}
    (hP : Pending logs b s count [] ((r, c) :: rbuf)) (parkBuffer : Bool) :
    (∃ s', loopStep P ext parkBuffer s = .done (.ready (some (completedOf P r.2))) s' ∧
      Pending logs b s' (Function.update count r.1.key (count r.1.key + 1)) [] rbuf) ∨
    (∃ s', loopStep P ext parkBuffer s = .next s' ∧
      Pending logs b s' count [] (rbuf ++ [(r, c + 1)]) ∧ c ≤ b) := by
  have hr : r ∈ missingRefs P logs count := hP.missing.subset List.mem_cons_self
  obtain ⟨hg, hop⟩ := mem_missingRefs.mp hr
  have hle := r.1.le_seqNum_of_mem_drop hop
  have hlen' := hP.length_le
  simp only [List.length_nil, List.length_cons, Nat.zero_add] at hlen'
  have hpull : pullNext parkBuffer s = .attempt (attemptOf P (r, c))
      { s with oooBuffer := rbuf.map (attemptOf P) } :=
    pullNext_buffer (by rw [hP.stream_eq, List.map_nil]) (by rw [hP.buffer_eq, List.map_cons])
  rw [loopStep_attempt P ext hpull]
  rcases Nat.eq_or_lt_of_le hle with hnext | hahead
  · -- the next operation of its log: stored and yielded
    obtain ⟨hres, hholds⟩ := ingestFuture_next hext hsep hP.holds hr hnext.symm c
    refine .inl ⟨_, by simp only [hres]; rfl, ?_⟩
    exact {
      size_eq := hP.size_eq
      stream_eq := hP.stream_eq
      buffer_eq := rfl
      holds := hholds
      missing := (List.perm_cons r).mp
        (hP.missing.trans (missingRefs_next hsep hnodup hr hnext.symm))
      length_le := by simp only [List.length_nil, Nat.zero_add]; omega
      counters := hP.counters.buffer_next }
  · -- ahead of its log: its counter is at most its sequence number, below `b`
    have hfront := hP.counters.front
    obtain ⟨k, hk, -, hseq⟩ := r.1.exists_getElem_seqNum (List.mem_of_mem_drop hop)
    have hcb : c < b := by
      have := hlen r.1 hg
      dsimp only at hfront
      omega
    obtain ⟨behind, hres⟩ := ingestFuture_ahead hext hP.holds hr hahead c
    have hnext : ∃ y ∈ rbuf.map Prod.fst,
        y.1.key = r.1.key ∧ y.2.1.seqNum.toNat = count r.1.key := by
      obtain ⟨y, hy, hkey, hseq'⟩ := exists_next_missing hr hahead
      exact exists_next_of_ne ⟨y, hP.missing.symm.subset hy, hkey, hseq'⟩ fun _ => by
        dsimp only
        omega
    refine .inr ⟨_, by
      simp only [hres]
      apply afterIngest_retry
      · rw [hP.size_eq]
        exact hcb.le
      · rw [List.length_map, hP.size_eq]
        omega, ?_, hcb.le⟩
    exact {
      size_eq := hP.size_eq
      stream_eq := hP.stream_eq
      buffer_eq := by rw [List.map_append]; rfl
      holds := hP.holds
      missing := by
        refine List.Perm.trans ?_ hP.missing
        rw [List.nil_append, List.nil_append, List.map_append, List.map_singleton, List.map_cons]
        exact List.perm_append_comm
      length_le := by simp only [List.length_nil, List.length_append, List.length_singleton]; omega
      counters := hP.counters.buffer_ahead hahead hnext }

/-- With the input and the buffer empty, the stream ends. -/
theorem Pending.loopStep_ended {s : IngestStream L E} {count : PublicKey × L → Nat}
    (hP : Pending logs b s count [] []) (hb : 0 < b) (parkBuffer : Bool) :
    loopStep P ext parkBuffer s = .done (.ready none) s := by
  have hend : pullNext parkBuffer s = .ended s :=
    pullNext_ended (by rw [hP.stream_eq, List.map_nil]) (by rw [hP.buffer_eq, List.map_nil])
      (by rw [hP.size_eq]; exact hb)
  simp only [loopStep, hend]

include hext hsep hnodup hlen in
/-- From the invariant with operations left, `poll_next` yields one of them as `Ok`, and the
invariant holds after it. The induction is on the weight, which each turn that goes
round again lowers. -/
theorem Pending.exists_pollNext (w : Nat) :
    ∀ {s : IngestStream L E} {count : PublicKey × L → Nat} {rin : List (LogRef P L E)}
      {rbuf : List (LogRef P L E × Nat)}, weight b rin rbuf < w →
      Pending logs b s count rin rbuf → rin ++ rbuf.map Prod.fst ≠ [] → ∀ parkBuffer,
      ∃ fuel r s' count' rin' rbuf', pollNext P ext fuel parkBuffer s =
          some (.ready (some (completedOf P r.2)), s') ∧
        Pending logs b s' count' rin' rbuf' ∧
        (rin ++ rbuf.map Prod.fst).Perm (r :: (rin' ++ rbuf'.map Prod.fst)) := by
  induction w with
  | zero => intro _ _ _ _ hw; omega
  | succ w ih =>
    intro s count rin rbuf hw hP hne parkBuffer
    -- a turn that goes round again keeps the operations left and lowers the weight
    have hround : ∀ {s' : IngestStream L E} {rin' : List (LogRef P L E)}
        {rbuf' : List (LogRef P L E × Nat)}, loopStep P ext parkBuffer s = .next s' →
        Pending logs b s' count rin' rbuf' → weight b rin' rbuf' < weight b rin rbuf →
        ∃ fuel r s'' count' rin'' rbuf'', pollNext P ext fuel parkBuffer s =
            some (.ready (some (completedOf P r.2)), s'') ∧
          Pending logs b s'' count' rin'' rbuf'' ∧
          (rin ++ rbuf.map Prod.fst).Perm (r :: (rin'' ++ rbuf''.map Prod.fst)) := by
      intro s' rin' rbuf' hstep hP' hlt
      have hsame : (rin' ++ rbuf'.map Prod.fst).Perm (rin ++ rbuf.map Prod.fst) :=
        hP'.missing.trans hP.missing.symm
      have hne' : rin' ++ rbuf'.map Prod.fst ≠ [] := fun h =>
        hne (List.eq_nil_of_length_eq_zero (by rw [← hsame.length_eq, h, List.length_nil]))
      obtain ⟨fuel, r, s'', count', rin'', rbuf'', hpoll, hP'', hperm⟩ :=
        ih (by omega) hP' hne' true
      exact ⟨fuel + 1, r, s'', count', rin'', rbuf'', by rw [pollNext, hstep]; exact hpoll, hP'',
        hsame.symm.trans hperm⟩
    cases rin with
    | cons r rin =>
      rcases hP.loopStep_input hext hsep hnodup parkBuffer with ⟨s', hstep, hP'⟩ | ⟨s', hstep, hP'⟩
      · exact ⟨1, r, s', _, rin, rbuf, by rw [pollNext, hstep], hP', by rw [List.cons_append]⟩
      · exact hround hstep hP' (weight_input_ahead r rin rbuf)
    | nil =>
      cases rbuf with
      | nil => exact absurd rfl hne
      | cons x rbuf =>
        obtain ⟨r, c⟩ := x
        rcases hP.loopStep_buffer hext hsep hnodup hlen parkBuffer with
          ⟨s', hstep, hP'⟩ | ⟨s', hstep, hP', hcb⟩
        · exact ⟨1, r, s', _, [], rbuf, by rw [pollNext, hstep], hP', by simp⟩
        · exact hround hstep hP' (weight_buffer_ahead (r, c) rbuf hcb)

include hext hsep hnodup hlen in
/-- From the invariant, the stream yields each operation left once as `Ok`, and then ends.
The induction is on the number of operations left. -/
theorem Pending.exists_drive (hb : 0 < b) (n : Nat) :
    ∀ {s : IngestStream L E} {count : PublicKey × L → Nat} {rin : List (LogRef P L E)}
      {rbuf : List (LogRef P L E × Nat)}, (rin ++ rbuf.map Prod.fst).length = n →
      Pending logs b s count rin rbuf →
      ∃ fuel out, drive P ext fuel s = some out ∧
        out.Perm ((rin ++ rbuf.map Prod.fst).map (completedOf P ∘ Prod.snd)) := by
  induction n with
  | zero =>
    intro s count rin rbuf hn hP
    have hnil := List.eq_nil_of_length_eq_zero hn
    obtain ⟨rfl, hbuf⟩ := List.append_eq_nil_iff.mp hnil
    obtain rfl := List.map_eq_nil_iff.mp hbuf
    refine ⟨2, [], ?_, by simp⟩
    simp only [drive, pollNext, hP.loopStep_ended hb]
  | succ n ih =>
    intro s count rin rbuf hn hP
    have hne : rin ++ rbuf.map Prod.fst ≠ [] := List.ne_nil_of_length_eq_add_one hn
    obtain ⟨fuel₁, r, s', count', rin', rbuf', hpoll, hP', hperm⟩ :=
      hP.exists_pollNext hext hsep hnodup hlen _ (Nat.lt_succ_self _) hne false
    have hn' : (rin' ++ rbuf'.map Prod.fst).length = n := by
      have := hperm.length_eq
      rw [hn, List.length_cons] at this
      omega
    obtain ⟨fuel₂, out, hdrive, hout⟩ := ih hn' hP'
    refine ⟨fuel₁ + fuel₂ + 1, completedOf P r.2 :: out, ?_, ?_⟩
    · rw [drive, pollNext_add P ext hpoll fuel₂]
      simp only [Nat.add_comm fuel₁ fuel₂, drive_add P ext hdrive fuel₁, Option.map_some]
    · refine (hout.cons _).trans ?_
      have := hperm.map (completedOf P ∘ Prod.snd)
      rw [List.map_cons] at this
      exact this.symm

end Steps

/-! ## A whole run -/

section Runs

variable {P : Primitives} [Extensions E] {logs : List (ChainedLog P L E)} {b : Nat}

/-- A new stream over the operations of a family of logs, in any order, and an empty store. -/
theorem Pending.start {rin : List (LogRef P L E)} (hrin : rin.Perm (familyRefs P logs))
    (hlen : rin.length ≤ b) :
    Pending logs b (IngestStream.new (rin.map fun r => some (itemOf P r.2)) MemoryStore.new b)
      (fun _ => 0) rin [] where
  size_eq := rfl
  stream_eq := rfl
  buffer_eq := rfl
  holds := HoldsAll.new_store
  missing := by rw [List.map_nil, List.append_nil, missingRefs_zero]; exact hrin
  length_le := by rw [List.length_nil, Nat.add_zero]; exact hlen
  counters := fun pre x post h => absurd h.symm (by simp)

omit [DecidableEq L] in
/-- What the operations of a family of logs give, followed by the log each belongs to. -/
theorem map_familyRefs {β : Type} (f : Header E × Option Body → β) :
    (familyRefs P logs).map (f ∘ Prod.snd) = logs.flatMap fun g => g.ops.map f := by
  simp only [familyRefs, List.map_flatMap, List.map_map]
  rfl

/-- With a buffer of at least one item, the operations of a family of chained logs, in any
order and at most `ooo_buffer_size` of them, are all ingested: the stream yields each once
as `Ok`, and then ends. -/
theorem ingest_outOfOrder (P : Primitives) (ext : IngestExtensions L E)
    {logs : List (ChainedLog P L E)}
    (hext : ∀ g ∈ logs, ∀ op ∈ g.ops,
      ext.logId op.1 = some g.logId ∧ ext.pruneFlag op.1 = some ⟨false⟩)
    (hsep : Separate P logs) (hnodup : logs.Nodup) {b : Nat} (hb : 0 < b)
    {items : List (Header E × Option Body × List UInt8)}
    (hitems : items.Perm (logs.flatMap fun g => g.ops.map (itemOf P)))
    (hlen : items.length ≤ b) :
    ∃ fuel out, drive P ext fuel (IngestStream.new (items.map some) MemoryStore.new b) =
        some out ∧ out.Perm (logs.flatMap fun g => g.ops.map (completedOf P)) := by
  -- the input, with each operation followed by its log
  obtain ⟨rin, hitems_eq, hrin⟩ : ∃ rin : List (LogRef P L E),
      items = rin.map (itemOf P ∘ Prod.snd) ∧ rin.Perm (familyRefs P logs) := by
    have hcomp : Relation.Comp (fun l l' => l = List.map (itemOf P ∘ Prod.snd) l') List.Perm
        items (familyRefs P logs) := by
      rw [List.eq_map_comp_perm]
      dsimp only
      rw [map_familyRefs]
      exact hitems
    exact hcomp
  have hlen_rin : rin.length ≤ b := by
    rw [hitems_eq, List.length_map] at hlen
    exact hlen
  -- no log is longer than the whole input
  have hlogs : ∀ g ∈ logs, g.ops.length ≤ b := by
    intro g hg
    calc g.ops.length = (g.ops.map (itemOf P)).length := (List.length_map _).symm
      _ ≤ (logs.flatMap fun g => g.ops.map (itemOf P)).length := by
          rw [List.length_flatMap]
          exact List.le_sum_of_mem (List.mem_map_of_mem hg)
      _ = items.length := hitems.length_eq.symm
      _ ≤ b := hlen
  obtain ⟨fuel, out, hdrive, hout⟩ :=
    (Pending.start hrin hlen_rin).exists_drive hext hsep hnodup hlogs hb _ rfl
  refine ⟨fuel, out, ?_, ?_⟩
  · rw [hitems_eq, List.map_map]
    exact hdrive
  · rw [List.map_nil, List.append_nil] at hout
    rw [← map_familyRefs]
    exact hout.trans (hrin.map _)

end Runs

/-- A log of two operations, the second linked to the first. -/
def twoOperationLog : ChainedLog cborPrimitives Nat Unit where
  publicKey := (sampleHeader 0 0 none none : Header Unit).publicKey
  logId := 0
  ops := [(sampleHeader 0 0 none none, none),
    (sampleHeader 1 1 (some ((sampleHeader 0 0 none none : Header Unit).hash cborPrimitives))
      none, none)]
  seqNum := by decide +kernel
  author := by decide +kernel
  valid := by decide +kernel
  backlink := fun k hk => by
    -- the one link is from the first operation to the second
    have hk' : k + 1 < 2 := by simpa using hk
    obtain rfl : k = 0 := Nat.lt_one_iff.mp (Nat.lt_of_succ_lt_succ hk')
    decide +kernel +revert
  hashInj := by decide +kernel

/-- Extensions that file every operation under log `0`, without the prune flag. -/
def logZeroExtensions : IngestExtensions Nat Unit := ⟨fun _ => some 0, fun _ => some ⟨false⟩⟩

/-- The log delivered backwards, into a buffer of two. -/
theorem ingest_outOfOrder_reversed :
    ∃ fuel out, drive cborPrimitives logZeroExtensions fuel
        (IngestStream.new ((twoOperationLog.ops.map (itemOf cborPrimitives)).reverse.map some)
          MemoryStore.new 2) = some out ∧
      out.Perm ([twoOperationLog].flatMap fun g => g.ops.map (completedOf cborPrimitives)) :=
  have hitems : (twoOperationLog.ops.map (itemOf cborPrimitives)).reverse.Perm
      ([twoOperationLog].flatMap fun g => g.ops.map (itemOf cborPrimitives)) := by
    rw [List.flatMap_singleton]
    exact List.reverse_perm _
  ingest_outOfOrder cborPrimitives logZeroExtensions
    (by simp [logZeroExtensions, twoOperationLog]) (Separate.singleton _ _)
    (List.nodup_singleton _) (by decide) hitems (by simp [twoOperationLog])

end P2panda
