import Mathlib.Data.List.Basic
import P2panda.Store.Memory
import P2panda.Stream.PartialOrderClosure

/- `ordering::partial::operations::PartialOrder` (`p2panda-stream/src/ordering/partial/
   operations.rs`): the partial order of operations by their `previous` links. It holds an
   operation store and the partial order of hashes (`Partial.PartialOrder Hash` over its
   `MemoryStore`). `process` hands the operation's hash to the inner order, with the hashes
   of its `previous` links as dependencies; `next` takes the next ready hash and looks the
   operation up in the store, failing with `MissingOperation` when it is not there. The
   hash has left the queue by then, so `next` returns the new state with its error too.

   The source assumes that every operation it processes is already in the store. A
   `MemoryStore` shares its state between its clones, so the store can change between
   calls: a run (`operationsRun`) is any list of `process` and `next` calls and of
   `insert_operation` and `delete_operation` calls through another handle of the store.
   `Held` is the source's assumption over such a run: each processed operation is stored,
   with its header, when it is processed, and no later call deletes it or stores another
   header under its hash.

   * `operationsRun_orderRun`: a run projects to the run of the order of hashes on its
     `process` and `next` calls, which pops the hashes of the results.
   * `Sourced`: every item waiting in the inner store and every entry of its log is one of
     the `process` calls so far. With the invariant of the inner order (`Safe`) it carries
     `operationsRun_linear`: under `Held`, no `next` fails, no operation comes out twice,
     each is a processed one, and each comes after the operations its `previous` links
     name.
   * `operationsRun_missing_lost`: with no assumption, a `MissingOperation` error is final:
     the hash it names never comes out of a later `next`, whatever is stored or processed
     after it. -/
namespace P2panda

namespace Partial

variable {K : Type} [DecidableEq K]

/-! ## Where the log and the waiting items come from -/

omit [DecidableEq K] in
/-- A key with an entry in the log has a first one. -/
theorem FirstReady.exists_of_mem {k : K} :
    ∀ {log : List (K × List K)} {deps : List K}, (k, deps) ∈ log →
      ∃ deps', FirstReady log k deps'
  | [], _, h => absurd h List.not_mem_nil
  | (k', deps') :: log, deps, h => by
    by_cases hk : k' = k
    · subst hk
      exact ⟨deps', [], log, rfl, fun e he => absurd he List.not_mem_nil⟩
    · have h : (k, deps) ∈ log := by
        rcases List.mem_cons.mp h with h | h
        · exact absurd (Prod.ext_iff.mp h).1.symm hk
        · exact h
      obtain ⟨deps'', l₁, l₂, heq, hfirst⟩ := exists_of_mem h
      refine ⟨deps'', (k', deps') :: l₁, l₂, by rw [heq]; rfl, fun e he => ?_⟩
      rcases List.mem_cons.mp he with rfl | he
      · exact hk
      · exact hfirst e he

omit [DecidableEq K] in
theorem FirstReady.mem {log : List (K × List K)} {k : K} {deps : List K}
    (h : FirstReady log k deps) : (k, deps) ∈ log := by
  obtain ⟨l₁, l₂, rfl, -⟩ := h
  exact List.mem_append_right _ List.mem_cons_self

omit [DecidableEq K] in
/-- In an order without duplicates, what precedes `k` lies before its one occurrence. -/
theorem Precedes.mem_of_nodup {order l₁ l₂ : List K} {d k : K} (h : Precedes order d k)
    (hnodup : order.Nodup) (heq : order = l₁ ++ k :: l₂) : d ∈ l₁ := by
  obtain ⟨m₁, m₂, hm, hd⟩ := h
  have hk : k ∉ l₁ ++ l₂ := (List.nodup_cons.mp (List.nodup_middle.mp (heq ▸ hnodup))).1
  have hsplit := (List.append_cons_inj_of_notMem (fun h => hk (List.mem_append_left _ h))
    (fun h => hk (List.mem_append_right _ h))).mp (heq.symm.trans hm)
  rw [hsplit.1]
  exact hd

/-- Every item waiting in the store and every entry of the log is one of the calls
`items`. -/
structure Sourced (items : List (K × List K)) (po : PartialOrder K) : Prop where
  pendingFrom : PendingFrom items po.store
  logFrom : ∀ e ∈ po.readyLog, e ∈ items

namespace Sourced

variable {items : List (K × List K)} {po : PartialOrder K}

theorem new (items : List (K × List K)) :
    Sourced items (PartialOrder.new MemoryStore.default : PartialOrder K) where
  pendingFrom := Filed.new.pendingFrom.mono fun _ h => absurd h List.not_mem_nil
  logFrom := fun _ h => absurd h List.not_mem_nil

theorem mono (h : Sourced items po) {items' : List (K × List K)}
    (hsub : ∀ it ∈ items, it ∈ items') : Sourced items' po :=
  ⟨h.pendingFrom.mono hsub, fun e he => hsub e (h.logFrom e he)⟩

theorem markReady (h : Sourced items po) {key : K} {dependencies : List K}
    (hcall : (key, dependencies) ∈ items) : Sourced items (po.markReady key dependencies) where
  pendingFrom := h.pendingFrom.markReady key
  logFrom := by
    intro e he
    rcases List.mem_append.mp he with he | he
    · exact h.logFrom e he
    · rw [List.mem_singleton.mp he]
      exact hcall

theorem removePending (h : Sourced items po) (key : K) :
    Sourced items { po with store := (po.store.removePending key).2 } :=
  ⟨h.pendingFrom.removePending key, h.logFrom⟩

theorem next (h : Sourced items po) : Sourced items po.next.2 := by
  -- `next` only pops the queue
  have hpending : po.next.2.store.pending = po.store.pending := by
    unfold PartialOrder.next MemoryStore.takeNextReady
    split <;> rfl
  refine ⟨fun x it hit => h.pendingFrom x it ?_, h.logFrom⟩
  simpa only [MemoryStore.waiting, MemoryStore.getNextPending, hpending] using hit

section Processing

variable (iterate : List (K × List K) → List (K × List K))

/-- `process_pending` visits waiting items only, so it logs calls only. The induction is on
the fuel; within a frame, on the items left to visit. -/
theorem processPending (hiter : ∀ l, ∀ x ∈ iterate l, x ∈ l) :
    ∀ (fuel : Nat) (po : PartialOrder K) (key : K) {po' : PartialOrder K}, Sourced items po →
      PartialOrder.processPending iterate fuel po key = some po' → Sourced items po'
  | 0, _, _, _, _, hrun => by cases hrun
  | fuel + 1, po, key, po', h, hrun => by
    unfold PartialOrder.processPending at hrun
    split at hrun
    · cases hrun
      exact h
    · next dependents hsome =>
      obtain ⟨po₁, hfold, hpo'⟩ := Option.bind_eq_some_iff.mp hrun
      cases hpo'
      -- the items of the frame wait for `key`, so they are calls
      have hitems : ∀ it ∈ iterate dependents, it ∈ items := fun it hit =>
        (h.pendingFrom key it (by simpa [MemoryStore.waiting, hsome] using hiter _ it hit)).1
      have h₁ : Sourced items po₁ := by
        refine (foldlM_option_suffix _ (fun b rest => Sourced items b ∧ ∀ it ∈ rest, it ∈ items)
          ?_ (iterate dependents) po po₁ ⟨h, hitems⟩ hfold).1
        rintro b item rest b' ⟨hb, hrest⟩ hb'
        refine ⟨?_, fun it hit => hrest it (List.mem_cons_of_mem _ hit)⟩
        split at hb'
        · exact processPending hiter fuel _ item.1
            (hb.markReady (hrest item List.mem_cons_self)) hb'
        · cases hb'
          exact hb
      exact h₁.removePending key

theorem process (hiter : ∀ l, ∀ x ∈ iterate l, x ∈ l) (fuel : Nat) {key : K}
    {dependencies : List K} {po' : PartialOrder K} (h : Sourced items po)
    (hcall : (key, dependencies) ∈ items)
    (hrun : PartialOrder.process iterate fuel po key dependencies = some po') :
    Sourced items po' := by
  unfold PartialOrder.process at hrun
  split at hrun
  · cases hrun
    exact ⟨h.pendingFrom.markPending hcall, h.logFrom⟩
  · exact Sourced.processPending iterate hiter fuel _ key (h.markReady hcall) hrun

end Processing

end Sourced

/-- `PartialOrderError`. -/
inductive PartialOrderError where
  | storeError (msg : String)
  deriving DecidableEq

namespace Operations

variable {L E : Type} [DecidableEq L]

/-- `OperationDependencyCheckerError`. The partial order's store and the operation store
are `MemoryStore`s, whose calls do not fail, so only `MissingOperation` arises. -/
inductive OperationDependencyCheckerError where
  | checkerError (err : PartialOrderError)
  | storeError (msg : String)
  | missingOperation (hash : Hash)
  deriving DecidableEq

/-- `PartialOrder<L, E, OS, POS>`, with a `MemoryStore` for each store. -/
structure PartialOrder (L E : Type) [DecidableEq L] where
  operationStore : P2panda.MemoryStore L E
  inner : Partial.PartialOrder Hash

namespace PartialOrder

/-- `PartialOrder::new`. -/
def new (operationStore : P2panda.MemoryStore L E) (partialOrderStore : MemoryStore Hash) :
    PartialOrder L E :=
  ⟨operationStore, .new partialOrderStore⟩

/-- `process`: the operation's hash, with the hashes of its `previous` links as its
dependencies. -/
def process (iterate : List (Hash × List Hash) → List (Hash × List Hash)) (fuel : Nat)
    (po : PartialOrder L E) (operation : Operation E) : Option (PartialOrder L E) :=
  (po.inner.process iterate fuel operation.hash operation.header.previous).map
    fun inner => { po with inner }

/-- `next`: the next ready hash, and the operation the store holds under it. -/
def next (po : PartialOrder L E) :
    Except OperationDependencyCheckerError (Option (Operation E)) × PartialOrder L E :=
  -- the hash leaves the queue whether the store holds it or not
  let po' := { po with inner := po.inner.next.2 }
  match po.inner.next.1 with
  | none => (.ok none, po')
  | some hash =>
    match po.operationStore.getOperation hash with
    | some (header, body) => (.ok (some ⟨hash, header, body⟩), po')
    | none => (.error (.missingOperation hash), po')

@[simp] theorem inner_next (po : PartialOrder L E) : po.next.2.inner = po.inner.next.2 := by
  unfold next
  split
  · rfl
  · split <;> rfl

@[simp] theorem operationStore_next (po : PartialOrder L E) :
    po.next.2.operationStore = po.operationStore := by
  unfold next
  split
  · rfl
  · split <;> rfl

end PartialOrder

/-- A result of `next`. -/
abbrev Result (E : Type) := Except OperationDependencyCheckerError (Option (Operation E))

/-- The hash a result of `next` took from the queue, if it took one. -/
def Result.hash? : Result E → Option Hash
  | .ok (some operation) => some operation.hash
  | .error (.missingOperation hash) => some hash
  | _ => none

/-- The operations among the results. -/
def returned (results : List (Result E)) : List (Operation E) :=
  results.filterMap fun r => match r with
    | .ok (some operation) => some operation
    | _ => none

/-- `next` reports the hash the inner order popped, with the operation or without. -/
theorem hash?_next (po : PartialOrder L E) : Result.hash? po.next.1 = po.inner.next.1 := by
  cases hnext : po.inner.next.1 with
  | none => simp [PartialOrder.next, hnext, Result.hash?]
  | some hash =>
    cases hget : po.operationStore.getOperation hash <;>
      simp [PartialOrder.next, hnext, hget, Result.hash?]

/-- A call of a run: one on the partial order, or one on the operation store through
another handle of it. -/
inductive Call (L E : Type) where
  | insertOperation (hash : Hash) (header : Header E) (body : Option Body)
      (headerBytes : List UInt8) (logId : L)
  | deleteOperation (hash : Hash)
  | process (operation : Operation E)
  | next

namespace Call

/-- What a call does to the operation store; the partial order never writes it. -/
def write (s : P2panda.MemoryStore L E) : Call L E → P2panda.MemoryStore L E
  | .insertOperation hash header body headerBytes logId =>
    (s.insertOperation hash header body headerBytes logId).2
  | .deleteOperation hash => (s.deleteOperation hash).2
  | .process _ | .next => s

/-- The operation a call processes. -/
def processed? : Call L E → Option (Operation E)
  | .process operation => some operation
  | _ => none

/-- The call on the order of hashes, if it is one. -/
def toOrderCall : Call L E → Option (OrderCall Hash)
  | .process operation => some (.process operation.hash operation.header.previous)
  | .next => some .next
  | _ => none

/-- The call leaves `operation`'s header under its hash: it neither deletes it nor stores
another header there. -/
def Keeps (operation : Operation E) : Call L E → Prop
  | .insertOperation hash header _ _ _ => hash = operation.hash → header = operation.header
  | .deleteOperation hash => hash ≠ operation.hash
  | .process _ | .next => True

/-- A call that keeps an operation keeps it in the store. -/
theorem getOperation_write {s : P2panda.MemoryStore L E} {operation : Operation E}
    {body : Option Body} :
    ∀ {c : Call L E}, c.Keeps operation →
      s.getOperation operation.hash = some (operation.header, body) →
        ∃ body', (c.write s).getOperation operation.hash = some (operation.header, body')
  | .insertOperation hash header body' headerBytes logId, hkeeps, hget => by
    simp only [write, MemoryStore.getOperation, MemoryStore.insertOperation_operations]
    split
    · next hnew =>
      rw [hkeeps hnew.2.symm]
      exact ⟨body', rfl⟩
    · exact ⟨body, hget⟩
  | .deleteOperation hash, hkeeps, hget => by
    simp only [write, MemoryStore.getOperation, MemoryStore.deleteOperation_operations,
      if_neg (Ne.symm hkeeps)]
    exact ⟨body, hget⟩
  | .process _, _, hget | .next, _, hget => ⟨body, hget⟩

end Call

/-- The operations the calls process. -/
def processedOf (calls : List (Call L E)) : List (Operation E) :=
  calls.filterMap Call.processed?

omit [DecidableEq L] in
theorem mem_processedOf {calls : List (Call L E)} {operation : Operation E} :
    operation ∈ processedOf calls ↔ .process operation ∈ calls := by
  simp only [processedOf, List.mem_filterMap]
  constructor
  · rintro ⟨c, hc, hop⟩
    cases c <;> simp only [Call.processed?, reduceCtorEq, Option.some.injEq] at hop
    exact hop ▸ hc
  · intro h
    exact ⟨_, h, rfl⟩

/-- The rule an operation's `process` call files: its hash, after its `previous` links. -/
def orderItem (operation : Operation E) : Hash × List Hash :=
  (operation.hash, operation.header.previous)

section Run

variable (iterate : List (Hash × List Hash) → List (Hash × List Hash)) (fuel : Nat)

/-- A run of calls, each `process` with `fuel`: the final state, and what each `next`
returned, in order. -/
def operationsRun : PartialOrder L E → List (Call L E) → Option (PartialOrder L E × List (Result E))
  | po, [] => some (po, [])
  | po, .process operation :: calls =>
    (po.process iterate fuel operation).bind fun po => operationsRun po calls
  | po, .next :: calls =>
    (operationsRun po.next.2 calls).map fun (last, out) => (last, po.next.1 :: out)
  | po, c@(.insertOperation ..) :: calls | po, c@(.deleteOperation _) :: calls =>
    operationsRun { po with operationStore := c.write po.operationStore } calls

/-- A run of the operation order is a run of the order of hashes, of its `process` and
`next` calls, which pops the hashes of the results. -/
theorem operationsRun_orderRun :
    ∀ (calls : List (Call L E)) (po : PartialOrder L E) {po' : PartialOrder L E}
      {results : List (Result E)}, operationsRun iterate fuel po calls = some (po', results) →
        orderRun iterate fuel po.inner (calls.filterMap Call.toOrderCall) =
          some (po'.inner, results.filterMap Result.hash?)
  | [], po, po', results, hrun => by
    cases Option.some.inj hrun
    rfl
  | .process operation :: calls, po, po', results, hrun => by
    obtain ⟨po₁, hpo₁, hrest⟩ := Option.bind_eq_some_iff.mp hrun
    obtain ⟨inner, hinner, rfl⟩ := Option.map_eq_some_iff.mp hpo₁
    simp only [List.filterMap_cons, Call.toOrderCall, orderRun, hinner, Option.bind_some]
    exact operationsRun_orderRun calls _ hrest
  | .next :: calls, po, po', results, hrun => by
    obtain ⟨⟨po₁, out₁⟩, hrest, heq⟩ := Option.map_eq_some_iff.mp hrun
    obtain ⟨rfl, rfl⟩ := Prod.mk.injEq _ _ _ _ ▸ heq
    have h := operationsRun_orderRun calls _ hrest
    rw [PartialOrder.inner_next] at h
    simp only [List.filterMap_cons, Call.toOrderCall, orderRun, h, Option.map_some,
      hash?_next]
    cases po.inner.next.1 <;> rfl
  | .insertOperation .. :: calls, po, po', results, hrun
  | .deleteOperation _ :: calls, po, po', results, hrun => by
    -- a write of the operation store leaves the inner order alone
    simp only [operationsRun] at hrun
    have h := operationsRun_orderRun calls _ hrun
    exact h

/-! ## Runs under the source's assumption -/

/-- The source's assumption over a run from `store`: each processed operation is in the
store with its header when it is processed, and no later call deletes it or stores another
header under its hash. -/
def Held (store : P2panda.MemoryStore L E) (calls : List (Call L E)) : Prop :=
  ∀ pre operation post, calls = pre ++ .process operation :: post →
    (∃ body, (pre.foldl Call.write store).getOperation operation.hash =
      some (operation.header, body)) ∧ ∀ c ∈ post, c.Keeps operation

/-- A `process` of an operation the store holds with its header, or a `next`. -/
def Call.readsStored [DecidableEq E] (s : P2panda.MemoryStore L E) : Call L E → Bool
  | .process operation => (s.getOperation operation.hash).map Prod.fst == some operation.header
  | .next => true
  | _ => false

/-- A run of `process` and `next` calls on a store that holds every processed operation is
`Held`. -/
theorem held_of_readsStored [DecidableEq E] {store : P2panda.MemoryStore L E}
    {calls : List (Call L E)} (h : calls.all (Call.readsStored store) = true) :
    Held store calls := by
  have hall : ∀ c ∈ calls, c.readsStored store = true := List.all_eq_true.mp h
  -- no call of the run writes the store
  have hfold : ∀ pre : List (Call L E), (∀ c ∈ pre, c.readsStored store = true) →
      pre.foldl Call.write store = store := by
    intro pre
    induction pre with
    | nil => exact fun _ => rfl
    | cons c pre ih =>
      intro hpre
      have hc : c.write store = store := by
        have := hpre c List.mem_cons_self
        cases c <;> simp_all [Call.readsStored, Call.write]
      rw [List.foldl_cons, hc]
      exact ih fun c' hc' => hpre c' (List.mem_cons_of_mem _ hc')
  intro pre operation post heq
  have hmem : ∀ c, c ∈ pre ∨ c ∈ post → c ∈ calls := by
    intro c hc
    rw [heq]
    rcases hc with hc | hc <;> simp [hc]
  refine ⟨?_, fun c hc => ?_⟩
  · have hop := hall (.process operation) (by rw [heq]; simp)
    rw [hfold pre fun c hc => hall c (hmem c (.inl hc))]
    simp only [Call.readsStored, beq_iff_eq, Option.map_eq_some_iff] at hop
    obtain ⟨⟨header, body⟩, hget, rfl⟩ := hop
    exact ⟨body, hget⟩
  · have := hall c (hmem c (.inr hc))
    cases c <;> simp_all [Call.readsStored, Call.Keeps]

/-- The invariant of a run under `Held`, after the calls that processed `processed`, with
`out` the hashes popped so far: the inner order is safe, its log and its waiting items are
the rules of processed operations, and the store holds every processed operation with its
header. -/
structure Good (processed : List (Operation E)) (po : PartialOrder L E) (out : List Hash) :
    Prop where
  safe : po.inner.Safe out
  sourced : Sourced (processed.map orderItem) po.inner
  stored : ∀ operation ∈ processed,
    ∃ body, po.operationStore.getOperation operation.hash = some (operation.header, body)

namespace Good

variable {processed : List (Operation E)} {po : PartialOrder L E} {out : List Hash}

theorem new (store : P2panda.MemoryStore L E) :
    Good [] (PartialOrder.new store .default) [] where
  safe := Partial.PartialOrder.safe_new
  sourced := Sourced.new _
  stored := fun _ h => absurd h List.not_mem_nil

/-- Two processed operations of one hash have one header: the store holds both. -/
theorem header_eq (h : Good processed po out) {op₁ op₂ : Operation E} (h₁ : op₁ ∈ processed)
    (h₂ : op₂ ∈ processed) (hhash : op₁.hash = op₂.hash) : op₁.header = op₂.header := by
  obtain ⟨b₁, hb₁⟩ := h.stored op₁ h₁
  obtain ⟨b₂, hb₂⟩ := h.stored op₂ h₂
  rw [hhash, hb₂] at hb₁
  exact (Prod.ext_iff.mp (Option.some.inj hb₁)).1.symm

/-- A ready hash was made ready by a processed operation, and the hashes of its `previous`
links come before it. -/
theorem ready_after (h : Good processed po out) {k : Hash} (hk : k ∈ po.inner.store.ready) :
    ∃ operation ∈ processed, operation.hash = k ∧
      ∀ d ∈ operation.header.previous, Precedes (out ++ po.inner.store.readyQueue) d k := by
  obtain ⟨deps, hlog⟩ := (h.safe.logged k).mp hk
  obtain ⟨deps', hfirst⟩ := FirstReady.exists_of_mem hlog
  obtain ⟨operation, hop, hitem⟩ := List.mem_map.mp (h.sourced.logFrom _ hfirst.mem)
  simp only [orderItem, Prod.mk.injEq] at hitem
  obtain ⟨rfl, rfl⟩ := hitem
  exact ⟨operation, hop, rfl, h.safe.before _ _ hfirst⟩

section Processing

variable (iterate : List (Hash × List Hash) → List (Hash × List Hash)) (fuel : Nat)

theorem process (hiter : ∀ l, ∀ x ∈ iterate l, x ∈ l) (h : Good processed po out)
    {operation : Operation E} {po' : PartialOrder L E}
    (hheld : ∃ body, po.operationStore.getOperation operation.hash =
      some (operation.header, body))
    (hrun : po.process iterate fuel operation = some po') :
    Good (processed ++ [operation]) po' out := by
  obtain ⟨inner, hinner, rfl⟩ := Option.map_eq_some_iff.mp hrun
  have hcall : orderItem operation ∈ (processed ++ [operation]).map orderItem := by simp
  refine ⟨h.safe.process iterate fuel hinner,
    (h.sourced.mono fun it hit => ?_).process iterate hiter fuel hcall hinner, fun op hop => ?_⟩
  · simp only [List.map_append, List.mem_append]
    exact Or.inl hit
  · rcases List.mem_append.mp hop with hop | hop
    · exact h.stored op hop
    · rw [List.mem_singleton.mp hop]
      exact hheld

end Processing

/-- Under the invariant, `next` does not fail, and what it returns is a processed operation
of the hash, with its header. -/
theorem next_ok (h : Good processed po out) :
    ∃ op?, po.next.1 = .ok op? ∧ ∀ operation ∈ op?, ∃ op' ∈ processed,
      op'.hash = operation.hash ∧ op'.header = operation.header := by
  cases hnext : po.inner.next.1 with
  | none => exact ⟨none, by simp [PartialOrder.next, hnext], fun _ h => absurd h (by simp)⟩
  | some k =>
    -- the popped hash was queued, so ready, so made ready by a processed operation
    have hqueue : k ∈ po.inner.store.readyQueue := by
      revert hnext
      unfold Partial.PartialOrder.next MemoryStore.takeNextReady
      split <;> simp_all
    obtain ⟨op', hop', rfl, -⟩ :=
      h.ready_after ((h.safe.mem_ready _).mpr (List.mem_append_right _ hqueue))
    obtain ⟨body, hbody⟩ := h.stored op' hop'
    refine ⟨some ⟨op'.hash, op'.header, body⟩, by simp [PartialOrder.next, hnext, hbody], ?_⟩
    intro operation hop
    cases Option.mem_some_iff.mp hop
    exact ⟨op', hop', rfl, rfl⟩

theorem next (h : Good processed po out) :
    Good processed po.next.2 (out ++ (Result.hash? po.next.1).toList) where
  safe := by
    rw [PartialOrder.inner_next, hash?_next]
    exact h.safe.next
  sourced := by
    rw [PartialOrder.inner_next]
    exact h.sourced.next
  stored := by
    rw [PartialOrder.operationStore_next]
    exact h.stored

/-- A write that keeps every processed operation keeps the invariant. -/
theorem write (h : Good processed po out) {c : Call L E}
    (hkeeps : ∀ operation ∈ processed, c.Keeps operation) :
    Good processed { po with operationStore := c.write po.operationStore } out where
  safe := h.safe
  sourced := h.sourced
  stored := fun operation hop => by
    obtain ⟨body, hbody⟩ := h.stored operation hop
    exact Call.getOperation_write (hkeeps operation hop) hbody

end Good

omit [DecidableEq L] in
@[simp] theorem processedOf_append (calls calls' : List (Call L E)) :
    processedOf (calls ++ calls') = processedOf calls ++ processedOf calls' :=
  List.filterMap_append

/-- A write of the store in a run that `Held` covers keeps the invariant: it keeps every
operation processed before it. -/
theorem Good.write_held {store : P2panda.MemoryStore L E} {total pre calls : List (Call L E)}
    {c : Call L E} {po : PartialOrder L E} {out : List Hash} (hheld : Held store total)
    (htotal : pre ++ c :: calls = total) (hstore : po.operationStore = pre.foldl Call.write store)
    (hgood : Good (processedOf pre) po out) (hc : c.processed? = none) :
    ({ po with operationStore := c.write po.operationStore } : PartialOrder L E).operationStore =
        (pre ++ [c]).foldl Call.write store ∧
      Good (processedOf (pre ++ [c])) { po with operationStore := c.write po.operationStore } out := by
  have hkeeps : ∀ operation ∈ processedOf pre, c.Keeps operation := by
    intro operation hop
    obtain ⟨p₁, p₂, rfl⟩ := List.append_of_mem (mem_processedOf.mp hop)
    exact (hheld p₁ operation (p₂ ++ c :: calls) (by rw [← htotal]; simp)).2 c (by simp)
  refine ⟨by simp [hstore], ?_⟩
  simpa [processedOf, hc] using hgood.write hkeeps

/-- The run lemma: from the invariant after the calls `pre` of a run that `Held` covers,
the rest of the run returns no error and only processed operations, and ends in the
invariant. The induction is on the calls left, with `pre` growing. -/
theorem Good.run (hiter : ∀ l, ∀ x ∈ iterate l, x ∈ l) (store : P2panda.MemoryStore L E)
    (total : List (Call L E)) (hheld : Held store total) :
    ∀ (calls pre : List (Call L E)) (po : PartialOrder L E) (out : List Hash)
      {po' : PartialOrder L E} {results : List (Result E)}, pre ++ calls = total →
      po.operationStore = pre.foldl Call.write store → Good (processedOf pre) po out →
      operationsRun iterate fuel po calls = some (po', results) →
        (∀ r ∈ results, ∃ op?, r = .ok op?) ∧
          (∀ operation ∈ returned results, ∃ op' ∈ processedOf total,
            op'.hash = operation.hash ∧ op'.header = operation.header) ∧
          Good (processedOf total) po' (out ++ results.filterMap Result.hash?)
  | [], pre, po, out, po', results, htotal, _, hgood, hrun => by
    cases Option.some.inj hrun
    rw [List.append_nil] at htotal
    subst htotal
    exact ⟨fun _ h => absurd h List.not_mem_nil, fun _ h => absurd h (by simp [returned]),
      by simpa using hgood⟩
  | .process operation :: calls, pre, po, out, po', results, htotal, hstore, hgood, hrun => by
    obtain ⟨po₁, hpo₁, hrest⟩ := Option.bind_eq_some_iff.mp hrun
    have hstored := (hheld pre operation calls htotal.symm).1
    rw [← hstore] at hstored
    have hgood₁ := hgood.process iterate fuel hiter hstored hpo₁
    have hstore₁ : po₁.operationStore = (pre ++ [Call.process operation]).foldl Call.write store := by
      obtain ⟨inner, -, rfl⟩ := Option.map_eq_some_iff.mp hpo₁
      simpa [Call.write] using hstore
    exact Good.run hiter store total hheld calls (pre ++ [Call.process operation]) po₁ out
      (by simpa using htotal) hstore₁ (by simpa [processedOf, Call.processed?, List.filterMap_cons] using hgood₁) hrest
  | .next :: calls, pre, po, out, po', results, htotal, hstore, hgood, hrun => by
    obtain ⟨⟨po₁, out₁⟩, hrest, heq⟩ := Option.map_eq_some_iff.mp hrun
    obtain ⟨rfl, rfl⟩ := Prod.mk.injEq _ _ _ _ ▸ heq
    obtain ⟨op?, hok, hfrom⟩ := hgood.next_ok
    obtain ⟨hok₁, hfrom₁, hgood₁⟩ := Good.run hiter store total hheld calls (pre ++ [.next])
      po.next.2 (out ++ (Result.hash? po.next.1).toList) (by simpa using htotal)
      (by simpa [Call.write] using hstore) (by simpa [processedOf, Call.processed?, List.filterMap_cons] using hgood.next)
      hrest
    refine ⟨fun r hr => ?_, fun operation hop => ?_, ?_⟩
    · rcases List.mem_cons.mp hr with rfl | hr
      · exact ⟨op?, hok⟩
      · exact hok₁ r hr
    · simp only [returned, List.filterMap_cons, hok] at hop
      cases op? with
      | none => exact hfrom₁ operation hop
      | some op =>
        rcases List.mem_cons.mp hop with rfl | hop
        · obtain ⟨op', hop', h⟩ := hfrom operation rfl
          exact ⟨op', by rw [← htotal]; simpa using Or.inl hop', h⟩
        · exact hfrom₁ operation hop
    · simp only [List.filterMap_cons, hok] at hgood₁ ⊢
      cases op? <;> simpa [Result.hash?] using hgood₁
  | .insertOperation hash header body headerBytes logId :: calls, pre, po, out, po', results,
      htotal, hstore, hgood, hrun => by
    obtain ⟨hstore', hgood'⟩ := hgood.write_held hheld htotal hstore rfl
    exact Good.run hiter store total hheld calls _ _ out (by simpa using htotal) hstore' hgood' hrun
  | .deleteOperation hash :: calls, pre, po, out, po', results, htotal, hstore, hgood, hrun => by
    obtain ⟨hstore', hgood'⟩ := hgood.write_held hheld htotal hstore rfl
    exact Good.run hiter store total hheld calls _ _ out (by simpa using htotal) hstore' hgood' hrun

omit [DecidableEq L] in
theorem filterMap_hash?_of_ok :
    ∀ {results : List (Result E)}, (∀ r ∈ results, ∃ op?, r = .ok op?) →
      results.filterMap Result.hash? = (returned results).map Operation.hash
  | [], _ => rfl
  | r :: results, h => by
    obtain ⟨op?, rfl⟩ := h r List.mem_cons_self
    have ih := filterMap_hash?_of_ok fun r' hr' => h r' (List.mem_cons_of_mem _ hr')
    -- both sides drop an empty result and keep a returned one, by computation
    cases op? with
    | none => exact ih
    | some operation => exact congrArg (operation.hash :: ·) ih

omit [DecidableEq L] in
theorem hash_mem_filterMap_hash? {results : List (Result E)} {operation : Operation E}
    (h : operation ∈ returned results) : operation.hash ∈ results.filterMap Result.hash? := by
  obtain ⟨r, hr, hop⟩ := List.mem_filterMap.mp h
  refine List.mem_filterMap.mpr ⟨r, hr, ?_⟩
  split at hop
  · cases hop
    rfl
  · cases hop

/-- Operation order safety: over every run from a new order whose processed operations the
store holds as the source assumes, visiting the items of a set in any order within it, no
`next` fails, no operation comes out twice, each is a processed one with its header, and
each comes after the operations its `previous` links name. -/
theorem operationsRun_linear (hiter : ∀ l, ∀ x ∈ iterate l, x ∈ l)
    (store : P2panda.MemoryStore L E) (calls : List (Call L E)) (hheld : Held store calls)
    {po : PartialOrder L E} {results : List (Result E)}
    (hrun : operationsRun iterate fuel (.new store .default) calls = some (po, results)) :
    (∀ r ∈ results, ∃ op?, r = .ok op?) ∧ ((returned results).map Operation.hash).Nodup ∧
      (∀ operation ∈ returned results, ∃ op', .process op' ∈ calls ∧
        op'.hash = operation.hash ∧ op'.header = operation.header) ∧
      ∀ l₁ operation l₂, returned results = l₁ ++ operation :: l₂ →
        ∀ d ∈ operation.header.previous, ∃ op' ∈ l₁, op'.hash = d := by
  obtain ⟨hok, hfrom, hgood⟩ := Good.run iterate fuel hiter store calls hheld calls [] _ []
    rfl rfl (Good.new store) hrun
  -- no result is an error, so the hashes popped are those of the operations returned
  rw [List.nil_append, filterMap_hash?_of_ok hok] at hgood
  refine ⟨hok, (List.nodup_append.mp hgood.safe.nodup).1, fun operation hop => ?_,
    fun l₁ operation l₂ hsplit d hd => ?_⟩
  · obtain ⟨op', hop', h⟩ := hfrom operation hop
    exact ⟨op', mem_processedOf.mp hop', h⟩
  · have hop : operation ∈ returned results := by
      rw [hsplit]
      simp
    have horder : (returned results).map Operation.hash ++ po.inner.store.readyQueue =
        l₁.map Operation.hash ++
          operation.hash :: (l₂.map Operation.hash ++ po.inner.store.readyQueue) := by
      rw [hsplit]
      simp
    -- the operation that made the hash ready has this operation's header
    obtain ⟨op₁, hop₁, hhash, hbefore⟩ := hgood.ready_after
      ((hgood.safe.mem_ready _).mpr (List.mem_append_left _ (List.mem_map_of_mem hop)))
    obtain ⟨op₂, hop₂, hhash₂, hheader₂⟩ := hfrom operation hop
    have hheader : op₁.header = operation.header :=
      (hgood.header_eq hop₁ hop₂ (hhash.trans hhash₂.symm)).trans hheader₂
    have hd₁ : d ∈ op₁.header.previous := by
      rw [hheader]
      exact hd
    obtain ⟨op', hop', rfl⟩ :=
      List.mem_map.mp ((hbefore d hd₁).mem_of_nodup hgood.safe.nodup horder)
    exact ⟨op', hop', rfl⟩

/-- A `MissingOperation` error is final: over every run from a new order, whatever the
store holds and whatever is written or processed after the error, no later `next` returns
an operation of the hash it named. -/
theorem operationsRun_missing_lost (store : P2panda.MemoryStore L E) (calls : List (Call L E))
    {po : PartialOrder L E} {results : List (Result E)}
    (hrun : operationsRun iterate fuel (.new store .default) calls = some (po, results))
    (r₁ r₂ : List (Result E)) (hash : Hash)
    (hres : results = r₁ ++ .error (.missingOperation hash) :: r₂) :
    ∀ operation ∈ returned r₂, operation.hash ≠ hash := by
  intro operation hop heq
  -- the inner order pops every hash once, the missing one included
  have hsafe := Safe.orderRun iterate fuel _ _ [] Partial.PartialOrder.safe_new
    (operationsRun_orderRun iterate fuel calls _ hrun)
  have hnodup := (List.nodup_append.mp hsafe.nodup).1
  simp only [List.nil_append, hres, List.filterMap_append, List.filterMap_cons,
    Result.hash?] at hnodup
  have hlost : hash ∉ r₁.filterMap Result.hash? ++ r₂.filterMap Result.hash? :=
    (List.nodup_cons.mp (List.nodup_middle.mp hnodup)).1
  exact hlost (List.mem_append_right _ (heq ▸ hash_mem_filterMap_hash? hop))

end Run

/-! ## The graph of the source's test -/

/-- The hash `[n; 32]`. -/
def sampleHash (n : UInt8) : Hash := ⟨List.replicate 32 n, List.length_replicate⟩

/-- An operation of the source's test graph, under the hash `[n; 32]`: timestamp `n`, the
given `previous` links, no body. -/
def testOperation (n : UInt8) (previous : List Hash) : Operation Unit :=
  ⟨sampleHash n,
    { version := 1, publicKey := ⟨List.replicate 32 7, List.length_replicate⟩, signature := none,
      payloadSize := 0, payloadHash := none, timestamp := n.toUInt64, seqNum := 0,
      backlink := none, previous, extensions := none }, none⟩

/-- The graph of the source's test `operations_with_previous`: `0`, then `1`, `2` and `3`
after it, then `4` after those three. -/
def testOperations : List (Operation Unit) :=
  [testOperation 0 [], testOperation 1 [sampleHash 0], testOperation 2 [sampleHash 0],
    testOperation 3 [sampleHash 0], testOperation 4 [sampleHash 1, sampleHash 2, sampleHash 3]]

/-- The test's store: each operation inserted in a log of its own. -/
def testStore : P2panda.MemoryStore Nat Unit :=
  testOperations.foldl (fun s op =>
    (s.insertOperation op.hash op.header op.body [] op.header.timestamp.toNat).2) .new

/-- The test's calls: the operations processed last to first, then five `next`s. -/
def testCalls : List (Call Nat Unit) :=
  testOperations.reverse.map .process ++ List.replicate 5 .next

theorem operationsRun_linear_test :
    ∃ po results, operationsRun id 5 (.new testStore .default) testCalls = some (po, results) ∧
      (returned results).map Operation.hash =
        [sampleHash 0, sampleHash 3, sampleHash 2, sampleHash 1, sampleHash 4] ∧
      ((returned results).map Operation.hash).Nodup := by
  have hmap : (operationsRun id 5 (.new testStore .default) testCalls).map
      (fun r => (returned r.2).map Operation.hash) =
        some [sampleHash 0, sampleHash 3, sampleHash 2, sampleHash 1, sampleHash 4] := by
    decide +kernel
  obtain ⟨⟨po, results⟩, hrun, hhashes⟩ := Option.map_eq_some_iff.mp hmap
  exact ⟨po, results, hrun, hhashes, (operationsRun_linear id 5 (fun _ _ h => h) testStore
    testCalls (held_of_readsStored (by decide +kernel)) hrun).2.1⟩

/-- A run whose first `next` finds its operation missing; the operation is then stored and
processed again. -/
def lostCalls : List (Call Nat Unit) :=
  [.process (testOperation 0 []), .next,
    .insertOperation (sampleHash 0) (testOperation 0 []).header none [] 0,
    .process (testOperation 0 []), .next]

theorem operationsRun_missing_lost_stored_again :
    ∃ po, operationsRun id 1 (.new .new .default) lostCalls =
        some (po, [.error (.missingOperation (sampleHash 0)), .ok none]) ∧
      ∀ operation ∈ returned ([.ok none] : List (Result Unit)), operation.hash ≠ sampleHash 0 := by
  have hmap : (operationsRun id 1 (.new .new .default) lostCalls).map Prod.snd =
      some [.error (.missingOperation (sampleHash 0)), .ok none] := by
    decide +kernel
  obtain ⟨⟨po, results⟩, hrun, rfl⟩ := Option.map_eq_some_iff.mp hmap
  exact ⟨po, hrun, operationsRun_missing_lost id 1 .new lostCalls hrun [] [.ok none]
    (sampleHash 0) rfl⟩

end Operations

end Partial

end P2panda
