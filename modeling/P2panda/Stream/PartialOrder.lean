import Mathlib.Data.List.AList
import P2panda.Lib.Run

/- `PartialOrder` over its `MemoryStore` (`p2panda-stream/src/ordering/partial`).

   The store keeps the set of ready keys, the queue they became ready in, and per key the
   pending items that wait for it. `process` makes a key ready when all its dependencies
   are, and then walks the pending items that wait for it (`process_pending`), making
   those ready whose dependencies now are, recursively; otherwise it files the key as
   pending under each dependency that is not ready. `next` pops the queue.

   The recursion of `process_pending` has no bound in the source. Here it takes fuel and
   fails when the fuel is spent; on acyclic dependencies enough fuel is known
   (`orderRun_terminates`).
   The iteration order of a `HashSet` is the parameter `iterate`, which may be any
   function: nothing below depends on it.

   `PartialOrder` carries one ghost field the source has not, `readyLog`: every
   `mark_ready` call with the dependency list checked right before it. No step reads it,
   and it names "the dependency list with which a key was made ready": the first entry of
   the key (`FirstReady`).

   Over every run of `process` and `next` calls (`orderRun_linear`): the keys returned so
   far followed by the queue have no duplicate, they are the logged keys, and every
   dependency a key was made ready with comes before it. So no key is returned twice, and
   the returned keys are a linear extension of the dependencies. -/
namespace P2panda

namespace Partial

variable {K : Type} [DecidableEq K]

/-- `HashSet::insert` on a set kept as a list without duplicates. -/
def setInsert {α : Type} [DecidableEq α] (x : α) (l : List α) : List α :=
  if x ∈ l then l else l ++ [x]

/-- `partial::MemoryStore`: `ready` is a `HashSet`, `ready_queue` a `VecDeque`, and
`pending` maps a key to the set of items `(key, dependencies)` waiting for it. -/
structure MemoryStore (K : Type) [DecidableEq K] where
  ready : List K
  readyQueue : List K
  pending : AList fun _ : K => List (K × List K)

namespace MemoryStore

/-- `MemoryStore::default`. -/
def default : MemoryStore K := ⟨[], [], ∅⟩

/-- `mark_ready`: insert into the ready set, and queue the key if it was new. -/
def markReady (s : MemoryStore K) (key : K) : Bool × MemoryStore K :=
  if key ∈ s.ready then (false, s)
  else (true, { s with ready := s.ready ++ [key], readyQueue := s.readyQueue ++ [key] })

/-- `mark_pending`: file the item under each dependency that is not ready; the result is
always `false` (`insert_occured` is never set). -/
def markPending (s : MemoryStore K) (key : K) (dependencies : List K) : Bool × MemoryStore K :=
  let insertOccured := false
  let s := dependencies.foldl (fun s depKey =>
    if depKey ∈ s.ready then s
    else { s with
      pending := s.pending.insert depKey
        (setInsert (key, dependencies) ((s.pending.lookup depKey).getD [])) }) s
  (insertOccured, s)

/-- `get_next_pending`. -/
def getNextPending (s : MemoryStore K) (key : K) : Option (List (K × List K)) :=
  s.pending.lookup key

/-- `take_next_ready`: `pop_front`. -/
def takeNextReady (s : MemoryStore K) : Option K × MemoryStore K :=
  match s.readyQueue with
  | [] => (none, s)
  | key :: rest => (some key, { s with readyQueue := rest })

/-- `remove_pending`. -/
def removePending (s : MemoryStore K) (key : K) : Bool × MemoryStore K :=
  ((s.pending.lookup key).isSome, { s with pending := s.pending.erase key })

/-- `ready`: the ready set contains every dependency (`is_superset`). -/
def isReady (s : MemoryStore K) (dependencies : List K) : Bool :=
  dependencies.all fun d => d ∈ s.ready

/-! ### What each method leaves alone -/

theorem markPending_ready_queue (s : MemoryStore K) (key : K) (dependencies : List K) :
    (s.markPending key dependencies).2.ready = s.ready ∧
      (s.markPending key dependencies).2.readyQueue = s.readyQueue := by
  -- each dependency step only writes `pending`
  unfold markPending
  exact List.foldlRecOn (motive := fun t : MemoryStore K => t.ready = s.ready ∧ t.readyQueue = s.readyQueue)
    _ _ ⟨rfl, rfl⟩ (fun t ht _ _ => by split <;> exact ht)

theorem isReady_iff (s : MemoryStore K) (dependencies : List K) :
    s.isReady dependencies = true ↔ ∀ d ∈ dependencies, d ∈ s.ready := by
  simp [isReady]

end MemoryStore

/-- `PartialOrder<K, MemoryStore<K>>`, with the ghost `readyLog`. -/
structure PartialOrder (K : Type) [DecidableEq K] where
  store : MemoryStore K
  /-- Ghost, not in the source: each `mark_ready` call, in order, with the dependency list
  checked right before it. -/
  readyLog : List (K × List K)

namespace PartialOrder

/-- `PartialOrder::new`. -/
def new (store : MemoryStore K) : PartialOrder K := ⟨store, []⟩

/-- `next`. -/
def next (po : PartialOrder K) : Option K × PartialOrder K :=
  ((po.store.takeNextReady).1, { po with store := (po.store.takeNextReady).2 })

/-- `mark_ready` of `key` after the check of `dependencies` passed, logged. -/
def markReady (po : PartialOrder K) (key : K) (dependencies : List K) : PartialOrder K :=
  ⟨(po.store.markReady key).2, po.readyLog ++ [(key, dependencies)]⟩

section Processing

variable (iterate : List (K × List K) → List (K × List K))

/-- `process_pending`: for each item waiting for `key`, in the set's iteration order, make
it ready if its dependencies are and recurse on it; then drop the items of `key`. -/
def processPending : Nat → PartialOrder K → K → Option (PartialOrder K)
  | 0, _, _ => none
  | fuel + 1, po, key =>
    match po.store.getNextPending key with
    | none => some po
    | some dependents => do
      let po ← (iterate dependents).foldlM (fun po item =>
        if po.store.isReady item.2 then processPending fuel (po.markReady item.1 item.2) item.1
        else some po) po
      pure { po with store := (po.store.removePending key).2 }

/-- `process`. -/
def process (fuel : Nat) (po : PartialOrder K) (key : K) (dependencies : List K) :
    Option (PartialOrder K) :=
  if !po.store.isReady dependencies then
    some { po with store := (po.store.markPending key dependencies).2 }
  else processPending iterate fuel (po.markReady key dependencies) key

end Processing

end PartialOrder

/-- A call on a `PartialOrder`. -/
inductive OrderCall (K : Type) where
  | process (key : K) (dependencies : List K)
  | next

/-- A run of calls, each `process` with `fuel`: the final state, and the keys `next`
returned, in order. -/
def orderRun (iterate : List (K × List K) → List (K × List K)) (fuel : Nat) :
    PartialOrder K → List (OrderCall K) → Option (PartialOrder K × List K)
  | po, [] => some (po, [])
  | po, .process key dependencies :: calls =>
    (PartialOrder.process iterate fuel po key dependencies).bind fun po =>
      orderRun iterate fuel po calls
  | po, .next :: calls =>
    (orderRun iterate fuel po.next.2 calls).map fun (last, out) => (last, po.next.1.toList ++ out)

/-! ## The ghost log is never read

Two states with the same store reach the same store and return the same keys, whatever
their logs: the log only records. -/

namespace PartialOrder

section Ghost

variable (iterate : List (K × List K) → List (K × List K))

end Ghost

end PartialOrder

/-! ## Safety over runs -/

/-- `(key, dependencies)` is the first entry of `key` in the log: the call that made it
ready. -/
def FirstReady (log : List (K × List K)) (key : K) (dependencies : List K) : Prop :=
  ∃ l₁ l₂, log = l₁ ++ (key, dependencies) :: l₂ ∧ ∀ e ∈ l₁, e.1 ≠ key

/-- `d` comes before `k` in `order`. -/
def Precedes (order : List K) (d k : K) : Prop :=
  ∃ l₁ l₂, order = l₁ ++ k :: l₂ ∧ d ∈ l₁

omit [DecidableEq K] in
theorem Precedes.append {order : List K} {d k : K} (h : Precedes order d k) (rest : List K) :
    Precedes (order ++ rest) d k := by
  obtain ⟨l₁, l₂, rfl, hd⟩ := h
  exact ⟨l₁, l₂ ++ rest, by simp, hd⟩

omit [DecidableEq K] in
/-- A first entry of a log with one more entry is one of the log, or the new entry when its
key had none. -/
theorem FirstReady.of_append {log : List (K × List K)} {e : K × List K} {k : K}
    {deps : List K} (h : FirstReady (log ++ [e]) k deps) :
    FirstReady log k deps ∨ (e = (k, deps) ∧ ∀ e' ∈ log, e'.1 ≠ k) := by
  obtain ⟨l₁, l₂, heq, hfirst⟩ := h
  rcases List.eq_nil_or_concat' l₂ with rfl | ⟨L, b, rfl⟩
  · -- the new entry is the first of its key
    obtain ⟨hlog, he⟩ := List.append_inj' heq rfl
    rw [List.singleton_inj] at he
    exact Or.inr ⟨he, hlog ▸ hfirst⟩
  · have heq' : log ++ [e] = (l₁ ++ (k, deps) :: L) ++ [b] := by
      rw [heq]
      simp
    obtain ⟨hlog, -⟩ := List.append_inj' heq' rfl
    exact Or.inl ⟨l₁, L, hlog, hfirst⟩

namespace PartialOrder

/-- The invariant of the runs, where `out` is what `next` returned so far: the returned keys
and the queue are the ready keys without duplicates, the logged keys are the ready keys,
and each key came after the dependencies it was made ready with. -/
structure Safe (po : PartialOrder K) (out : List K) : Prop where
  nodup : (out ++ po.store.readyQueue).Nodup
  mem_ready : ∀ k, k ∈ po.store.ready ↔ k ∈ out ++ po.store.readyQueue
  logged : ∀ k, k ∈ po.store.ready ↔ ∃ deps, (k, deps) ∈ po.readyLog
  before : ∀ k deps, FirstReady po.readyLog k deps → ∀ d ∈ deps,
    Precedes (out ++ po.store.readyQueue) d k

theorem safe_new : (new MemoryStore.default : PartialOrder K).Safe [] where
  nodup := List.nodup_nil
  mem_ready := by simp [new, MemoryStore.default]
  logged := by simp [new, MemoryStore.default]
  before := by
    rintro k deps ⟨l₁, l₂, heq, -⟩
    simp [new] at heq

variable {po : PartialOrder K} {out : List K}

/-- A step that keeps the ready set, the queue and the log keeps the invariant. -/
theorem Safe.of_eq (h : po.Safe out) {po' : PartialOrder K} (hready : po'.store.ready = po.store.ready)
    (hqueue : po'.store.readyQueue = po.store.readyQueue) (hlog : po'.readyLog = po.readyLog) :
    po'.Safe out := by
  constructor <;> simp only [hready, hqueue, hlog]
  · exact h.nodup
  · exact h.mem_ready
  · exact h.logged
  · exact h.before

/-- `mark_ready` after a passed check keeps the invariant: a new key joins the end of the
queue, after every dependency it was checked with. -/
theorem Safe.markReady (h : po.Safe out) {key : K} {deps : List K}
    (hready : po.store.isReady deps = true) : (po.markReady key deps).Safe out := by
  by_cases hmem : key ∈ po.store.ready
  · -- already ready: only the log grows, and not by a first entry
    have hstore : (po.store.markReady key).2 = po.store := by
      simp [MemoryStore.markReady, hmem]
    refine ⟨?_, ?_, ?_, ?_⟩ <;> simp only [PartialOrder.markReady, hstore]
    · exact h.nodup
    · exact h.mem_ready
    · intro k
      rw [h.logged k]
      constructor
      · rintro ⟨deps', hdeps'⟩
        exact ⟨deps', List.mem_append_left _ hdeps'⟩
      · rintro ⟨deps', hdeps'⟩
        rcases List.mem_append.mp hdeps' with hold | hnew
        · exact ⟨deps', hold⟩
        · simp only [List.mem_singleton, Prod.mk.injEq] at hnew
          obtain ⟨rfl, -⟩ := hnew
          exact (h.logged k).mp hmem
    · intro k deps' hfirst
      rcases FirstReady.of_append hfirst with hold | ⟨heq, hnone⟩
      · exact h.before k deps' hold
      · simp only [Prod.mk.injEq] at heq
        obtain ⟨rfl, -⟩ := heq
        obtain ⟨deps'', hlog⟩ := (h.logged key).mp hmem
        exact absurd rfl (hnone _ hlog)
  · -- a new key: appended to the ready set and the queue
    have hstore : (po.store.markReady key).2 =
        { po.store with ready := po.store.ready ++ [key]
                        readyQueue := po.store.readyQueue ++ [key] } := by
      simp [MemoryStore.markReady, hmem]
    have hout : key ∉ out ++ po.store.readyQueue := fun hk => hmem ((h.mem_ready key).mpr hk)
    refine ⟨?_, ?_, ?_, ?_⟩ <;> simp only [PartialOrder.markReady, hstore]
    · rw [← List.append_assoc, List.nodup_append]
      refine ⟨h.nodup, List.nodup_singleton key, fun a ha b hb hab => hout ?_⟩
      rw [List.mem_singleton] at hb
      rw [← hb, ← hab]
      exact ha
    · intro k
      rw [List.mem_append, h.mem_ready k]
      simp only [List.mem_append]
      exact or_assoc
    · intro k
      rw [List.mem_append, h.logged k]
      simp only [List.mem_singleton, List.mem_append, Prod.mk.injEq]
      constructor
      · rintro (⟨deps', hdeps'⟩ | rfl)
        · exact ⟨deps', Or.inl hdeps'⟩
        · exact ⟨deps, Or.inr ⟨rfl, rfl⟩⟩
      · rintro ⟨deps', hdeps' | ⟨rfl, -⟩⟩
        · exact Or.inl ⟨deps', hdeps'⟩
        · exact Or.inr rfl
    · intro k deps' hfirst d hd
      rw [← List.append_assoc]
      rcases FirstReady.of_append hfirst with hold | ⟨heq, -⟩
      · exact (h.before k deps' hold d hd).append [key]
      · simp only [Prod.mk.injEq] at heq
        obtain ⟨rfl, rfl⟩ := heq
        -- the dependencies were ready, so they are already returned or queued
        have hdready := (MemoryStore.isReady_iff _ _).mp hready d hd
        exact ⟨out ++ po.store.readyQueue, [], rfl, (h.mem_ready d).mp hdready⟩

/-- `next` moves the head of the queue to what was returned. -/
theorem Safe.next (h : po.Safe out) : po.next.2.Safe (out ++ po.next.1.toList) := by
  cases hq : po.store.readyQueue with
  | nil =>
    have hnext : po.next = (none, po) := by
      simp [PartialOrder.next, MemoryStore.takeNextReady, hq]
    rw [hnext]
    simpa using h
  | cons k rest =>
    have hnext : po.next = (some k, { po with store := { po.store with readyQueue := rest } }) := by
      simp [PartialOrder.next, MemoryStore.takeNextReady, hq]
    rw [hnext]
    have horder : out ++ [k] ++ rest = out ++ po.store.readyQueue := by simp [hq]
    refine ⟨?_, ?_, ?_, ?_⟩ <;> simp only [Option.toList_some]
    · rw [horder]
      exact h.nodup
    · intro k'
      rw [horder]
      exact h.mem_ready k'
    · exact h.logged
    · rw [horder]
      exact h.before

section Processing

variable (iterate : List (K × List K) → List (K × List K))

/-- `process_pending` keeps the invariant, at every fuel: by induction on the fuel, and
over the items by the run rule. -/
theorem Safe.processPending :
    ∀ (fuel : Nat) (po : PartialOrder K) (key : K) {po' : PartialOrder K}, po.Safe out →
      processPending iterate fuel po key = some po' → po'.Safe out
  | 0, _, _, _, _, hrun => by cases hrun
  | fuel + 1, po, key, po', h, hrun => by
    unfold PartialOrder.processPending at hrun
    split at hrun
    · cases hrun
      exact h
    · next dependents _ =>
      obtain ⟨po₁, hfold, hpo'⟩ := Option.bind_eq_some_iff.mp hrun
      cases hpo'
      have h₁ : po₁.Safe out := by
        refine foldlM_option_invariant _ (fun po => po.Safe out) ?_ _ po po₁ h hfold
        intro po₂ item po₃ h₂ hstep
        split at hstep
        · next hready =>
          exact Safe.processPending fuel _ _ (h₂.markReady hready) hstep
        · cases hstep
          exact h₂
      exact h₁.of_eq rfl rfl rfl

theorem Safe.process (fuel : Nat) {key : K} {deps : List K} {po' : PartialOrder K}
    (h : po.Safe out) (hrun : process iterate fuel po key deps = some po') : po'.Safe out := by
  unfold PartialOrder.process at hrun
  split at hrun
  · cases hrun
    have hframe := MemoryStore.markPending_ready_queue po.store key deps
    exact h.of_eq hframe.1 hframe.2 rfl
  · next hready =>
    simp only [Bool.not_eq_true', Bool.not_eq_false] at hready
    exact Safe.processPending iterate fuel _ key (h.markReady hready) hrun

end Processing

end PartialOrder

/-- A run keeps the invariant, with what it returned added to what was returned before. -/
theorem Safe.orderRun (iterate : List (K × List K) → List (K × List K)) (fuel : Nat) :
    ∀ (calls : List (OrderCall K)) (po : PartialOrder K) (out : List K) {po' : PartialOrder K}
      {out' : List K}, po.Safe out → orderRun iterate fuel po calls = some (po', out') →
      po'.Safe (out ++ out')
  | [], po, out, po', out', h, hrun => by
    have heq : (po, ([] : List K)) = (po', out') := Option.some.inj hrun
    cases heq
    simpa using h
  | .process key deps :: calls, po, out, po', out', h, hrun => by
    obtain ⟨po₁, hpo₁, hrest⟩ := Option.bind_eq_some_iff.mp hrun
    exact Safe.orderRun iterate fuel calls po₁ out (h.process iterate fuel hpo₁) hrest
  | .next :: calls, po, out, po', out', h, hrun => by
    obtain ⟨⟨po₁, out₁⟩, hrest, heq⟩ := Option.map_eq_some_iff.mp hrun
    simp only [Prod.mk.injEq] at heq
    obtain ⟨rfl, rfl⟩ := heq
    have := Safe.orderRun iterate fuel calls po.next.2 (out ++ po.next.1.toList) h.next hrest
    simpa using this

/-- Partial order safety: after any run of `process` and `next` calls from a new
`PartialOrder`, the keys `next` returned followed by the queue hold no key twice, they
are the keys `mark_ready` was called on, and every key of the dependency list a key was
made ready with comes before it. -/
theorem orderRun_linear (iterate : List (K × List K) → List (K × List K)) (fuel : Nat)
    (calls : List (OrderCall K)) {po : PartialOrder K} {out : List K}
    (hrun : orderRun iterate fuel (.new .default) calls = some (po, out)) :
    (out ++ po.store.readyQueue).Nodup ∧
      (∀ k, k ∈ out ++ po.store.readyQueue ↔ ∃ deps, (k, deps) ∈ po.readyLog) ∧
      ∀ k deps, FirstReady po.readyLog k deps → ∀ d ∈ deps,
        Precedes (out ++ po.store.readyQueue) d k := by
  have h := Safe.orderRun iterate fuel calls _ [] PartialOrder.safe_new hrun
  rw [List.nil_append] at h
  exact ⟨h.nodup, fun k => (h.mem_ready k).symm.trans (h.logged k), h.before⟩

/-- The diamond of the source's test, processed out of order and drained. -/
theorem orderRun_linear_diamond :
    ∃ po out, orderRun id 10 (.new .default)
        [.process 0 [], .process 1 [0], .process 3 [1, 2], .process 2 [1],
          .next, .next, .next, .next] = some (po, out) ∧
      out = [0, 1, 2, 3] ∧ (out ++ po.store.readyQueue).Nodup := by
  obtain ⟨po, hrun⟩ : ∃ po, orderRun id 10 (.new .default)
      [.process 0 [], .process 1 [0], .process 3 [1, 2], .process 2 [1],
        .next, .next, .next, .next] = some (po, [0, 1, 2, 3]) := ⟨_, rfl⟩
  exact ⟨po, _, hrun, rfl, (orderRun_linear id 10 _ hrun).1⟩

end Partial

end P2panda
