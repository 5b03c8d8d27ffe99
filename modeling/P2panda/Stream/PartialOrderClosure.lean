import P2panda.Lib.Dependency
import P2panda.Stream.PartialOrder

/- What a run of `process` calls makes ready, and that it ends when the dependencies have no
   cycle.

   The `process` calls of a run are dependency rules (`processCalls`). Two invariants of
   the store, with respect to the calls processed so far:
   * `Filed`: every waiting item is one of those calls, kept under one of its dependencies;
     a call whose key is not ready is kept under each of its dependencies that is not
     ready; and every ready key follows from the calls;
   * `Settled work`: a call whose dependencies are all ready has its key ready, or is in
     `work`, the items a `process_pending` frame still has to visit.
   `mark_ready` of a key breaks `Settled` only for the items waiting for that key
   (`Settled.markReady`), which are exactly the items the `process_pending` of that key
   visits next. Over the nested frames, `processPending_settled` carries the items left to
   visit as the `work` of the frames below (the induction is on the fuel, and over the
   items of a frame by `foldlM_option_suffix`). Between calls the work is empty, so the
   ready set is closed under the calls and within what follows from them: the least
   closed set (`orderRun_ready_closure`).

   Termination: each frame nested in the `process_pending` of a key is for a key with that
   key among its dependencies, so nested frames follow a chain of dependencies, and fuel
   for the longest chain is enough (`processPending_some`). Without a cycle every chain
   repeats no key (`Dependency.chain_nodup`), so one bound holds for all of them
   (`orderRun_terminates`). -/
namespace P2panda

namespace Partial

variable {K : Type} [DecidableEq K]

/-- The key and dependencies of a `process` call. -/
def OrderCall.item? : OrderCall K → Option (K × List K)
  | .process key dependencies => some (key, dependencies)
  | .next => none

/-- The `process` calls of a run, as dependency rules. -/
def processCalls (calls : List (OrderCall K)) : List (K × List K) :=
  calls.filterMap OrderCall.item?

omit [DecidableEq K] in
@[simp] theorem processCalls_nil : processCalls ([] : List (OrderCall K)) = [] := rfl

omit [DecidableEq K] in
@[simp] theorem processCalls_process (key : K) (dependencies : List K)
    (calls : List (OrderCall K)) :
    processCalls (.process key dependencies :: calls) = (key, dependencies) :: processCalls calls :=
  rfl

omit [DecidableEq K] in
@[simp] theorem processCalls_next (calls : List (OrderCall K)) :
    processCalls (.next :: calls) = processCalls calls := rfl

namespace MemoryStore

/-- The items waiting for `key`. -/
def waiting (s : MemoryStore K) (key : K) : List (K × List K) :=
  (s.getNextPending key).getD []

omit [DecidableEq K] in
theorem mem_setInsert {α : Type} [DecidableEq α] {x y : α} {l : List α} :
    y ∈ setInsert x l ↔ y = x ∨ y ∈ l := by
  unfold setInsert
  split
  · next hx =>
    constructor
    · exact Or.inr
    · rintro (rfl | hy)
      · exact hx
      · exact hy
  · rw [List.mem_append, List.mem_singleton]
    exact or_comm

/-- `mark_pending` files the item under the dependencies that are not ready, and under no
other key. The induction is on the dependencies still to file, with the store
generalised: the ready set does not change along the loop. -/
theorem mem_waiting_markPending (s : MemoryStore K) (key : K) (dependencies : List K) (x : K)
    (it : K × List K) :
    it ∈ (s.markPending key dependencies).2.waiting x ↔
      it ∈ s.waiting x ∨ (it = (key, dependencies) ∧ x ∈ dependencies ∧ x ∉ s.ready) := by
  have hloop : ∀ (ds : List K) (t : MemoryStore K), t.ready = s.ready →
      (it ∈ (ds.foldl (fun t depKey =>
        if depKey ∈ t.ready then t
        else { t with
          pending := t.pending.insert depKey
            (setInsert (key, dependencies) ((t.pending.lookup depKey).getD [])) }) t).waiting x ↔
        it ∈ t.waiting x ∨ (it = (key, dependencies) ∧ x ∈ ds ∧ x ∉ s.ready)) := by
    intro ds
    induction ds with
    | nil => simp
    | cons d ds ih =>
      intro t ht
      rw [List.foldl_cons]
      split
      · next hd =>
        -- a ready dependency is skipped
        rw [ih t ht, ht] at *
        constructor
        · rintro (h | ⟨rfl, hx, hnot⟩)
          · exact Or.inl h
          · exact Or.inr ⟨rfl, List.mem_cons_of_mem d hx, hnot⟩
        · rintro (h | ⟨rfl, hx, hnot⟩)
          · exact Or.inl h
          · rcases List.mem_cons.mp hx with rfl | hx
            · exact absurd (ht ▸ hd) hnot
            · exact Or.inr ⟨rfl, hx, hnot⟩
      · next hd =>
        rw [ih { t with pending := (t.pending.insert d
          (setInsert (key, dependencies) ((t.pending.lookup d).getD []))) } ht]
        by_cases hxd : x = d
        · subst hxd
          simp only [waiting, getNextPending, AList.lookup_insert, Option.getD_some,
            mem_setInsert, List.mem_cons, true_or, true_and]
          rw [ht] at hd
          constructor
          · rintro ((rfl | h) | ⟨rfl, -, -⟩)
            · exact Or.inr ⟨rfl, hd⟩
            · exact Or.inl h
            · exact Or.inr ⟨rfl, hd⟩
          · rintro (h | ⟨rfl, -⟩)
            · exact Or.inl (Or.inr h)
            · exact Or.inl (Or.inl rfl)
        · simp only [waiting, getNextPending, AList.lookup_insert_ne hxd, List.mem_cons, hxd,
            false_or]
  exact hloop dependencies s rfl

/-- `mark_ready` adds the key to the ready set and leaves the items waiting. -/
theorem mem_ready_markReady (s : MemoryStore K) (key x : K) :
    x ∈ (s.markReady key).2.ready ↔ x ∈ s.ready ∨ x = key := by
  unfold markReady
  split
  · next hkey =>
    constructor
    · exact Or.inl
    · rintro (h | rfl)
      · exact h
      · exact hkey
  · simp

@[simp] theorem waiting_markReady (s : MemoryStore K) (key x : K) :
    (s.markReady key).2.waiting x = s.waiting x := by
  unfold markReady
  split <;> rfl

theorem waiting_removePending (s : MemoryStore K) (key x : K) :
    (s.removePending key).2.waiting x = if x = key then [] else s.waiting x := by
  unfold removePending waiting getNextPending
  split
  · next hx =>
    subst hx
    rw [AList.lookup_erase]
    rfl
  · next hx =>
    rw [AList.lookup_erase_ne hx]

theorem ready_markPending (s : MemoryStore K) (key : K) (dependencies : List K) :
    (s.markPending key dependencies).2.ready = s.ready :=
  (markPending_ready_queue s key dependencies).1

end MemoryStore

open MemoryStore

/-! ## Where the items wait -/

/-- Every waiting item is a call of `items`, kept under one of its dependencies. -/
def PendingFrom (items : List (K × List K)) (s : MemoryStore K) : Prop :=
  ∀ x, ∀ it ∈ s.waiting x, it ∈ items ∧ x ∈ it.2

namespace PendingFrom

variable {items : List (K × List K)} {s : MemoryStore K}

theorem markReady (h : PendingFrom items s) (key : K) : PendingFrom items (s.markReady key).2 :=
  fun x it hit => h x it (by rwa [waiting_markReady] at hit)

theorem removePending (h : PendingFrom items s) (key : K) :
    PendingFrom items (s.removePending key).2 := by
  intro x it hit
  rw [waiting_removePending] at hit
  split at hit
  · cases hit
  · exact h x it hit

theorem markPending (h : PendingFrom items s) {key : K} {dependencies : List K}
    (hcall : (key, dependencies) ∈ items) :
    PendingFrom items (s.markPending key dependencies).2 := by
  intro x it hit
  rcases (mem_waiting_markPending s key dependencies x it).mp hit with hit | ⟨rfl, hx, -⟩
  · exact h x it hit
  · exact ⟨hcall, hx⟩

theorem mono (h : PendingFrom items s) {items' : List (K × List K)}
    (hsub : ∀ it ∈ items, it ∈ items') : PendingFrom items' s :=
  fun x it hit => ⟨hsub it (h x it hit).1, (h x it hit).2⟩

end PendingFrom

/-- The invariant of completeness, with respect to the calls `items` processed so far. -/
structure Filed (items : List (K × List K)) (s : MemoryStore K) : Prop where
  pendingFrom : PendingFrom items s
  /-- A call whose key is not ready waits for each of its dependencies that is not. -/
  waits : ∀ it ∈ items, it.1 ∉ s.ready → ∀ x ∈ it.2, x ∉ s.ready → it ∈ s.waiting x
  derivable : ∀ k ∈ s.ready, Dependency.Derivable items k

/-- A call whose dependencies are all ready has its key ready, or is in `work`. -/
def Settled (items work : List (K × List K)) (s : MemoryStore K) : Prop :=
  ∀ it ∈ items, (∀ d ∈ it.2, d ∈ s.ready) → it.1 ∈ s.ready ∨ it ∈ work

namespace Filed

variable {items : List (K × List K)} {s : MemoryStore K}

theorem new : Filed [] (MemoryStore.default : MemoryStore K) where
  pendingFrom := fun x it hit => by simp [waiting, getNextPending, MemoryStore.default] at hit
  waits := fun it hit => absurd hit List.not_mem_nil
  derivable := fun k hk => by simp [MemoryStore.default] at hk

/-- Marking ready the key of a call whose dependencies are ready keeps the invariant. -/
theorem markReady (h : Filed items s) {key : K} {dependencies : List K}
    (hcall : (key, dependencies) ∈ items) (hready : ∀ d ∈ dependencies, d ∈ s.ready) :
    Filed items (s.markReady key).2 where
  pendingFrom := h.pendingFrom.markReady key
  waits := by
    intro it hit hnot x hx hxnot
    rw [mem_ready_markReady, not_or] at hnot hxnot
    rw [waiting_markReady]
    exact h.waits it hit hnot.1 x hx hxnot.1
  derivable := by
    intro k hk
    rcases (mem_ready_markReady s key k).mp hk with hk | rfl
    · exact h.derivable k hk
    · exact .rule hcall fun d hd => h.derivable d (hready d hd)

/-- Dropping the items waiting for a ready key keeps the invariant: no call that still
waits waits for it. -/
theorem removePending (h : Filed items s) {key : K} (hkey : key ∈ s.ready) :
    Filed items (s.removePending key).2 where
  pendingFrom := h.pendingFrom.removePending key
  waits := by
    intro it hit hnot x hx hxnot
    have hne : x ≠ key := fun heq => hxnot (heq ▸ hkey)
    rw [waiting_removePending, if_neg hne]
    exact h.waits it hit hnot x hx hxnot
  derivable := h.derivable

/-- Filing a new call keeps the invariant, for the calls with the new one. -/
theorem markPending (h : Filed items s) (key : K) (dependencies : List K) :
    Filed (items ++ [(key, dependencies)]) (s.markPending key dependencies).2 where
  pendingFrom := (h.pendingFrom.mono fun it hit => List.mem_append_left _ hit).markPending
    (List.mem_append_right _ (List.mem_singleton_self _))
  waits := by
    intro it hit hnot x hx hxnot
    rw [ready_markPending] at hnot hxnot
    rw [mem_waiting_markPending]
    rcases List.mem_append.mp hit with hit | hit
    · exact Or.inl (h.waits it hit hnot x hx hxnot)
    · rw [List.mem_singleton] at hit
      subst hit
      exact Or.inr ⟨rfl, hx, hxnot⟩
  derivable := by
    intro k hk
    rw [ready_markPending] at hk
    exact (h.derivable k hk).mono fun r hr => List.mem_append_left _ hr

/-- A further item is filed as soon as it waits where `waits` asks it to. -/
theorem append (h : Filed items s) {it : K × List K}
    (hwaits : it.1 ∉ s.ready → ∀ x ∈ it.2, x ∉ s.ready → it ∈ s.waiting x) :
    Filed (items ++ [it]) s where
  pendingFrom := h.pendingFrom.mono fun it hit => List.mem_append_left _ hit
  waits := by
    intro it' hit hnot x hx hxnot
    rcases List.mem_append.mp hit with hit | hit
    · exact h.waits it' hit hnot x hx hxnot
    · rw [List.mem_singleton] at hit
      subst hit
      exact hwaits hnot x hx hxnot
  derivable := fun k hk => (h.derivable k hk).mono fun r hr => List.mem_append_left _ hr

end Filed

/-- Marking `key` ready settles every call it settles, and leaves unsettled only calls that
wait for it: a call whose dependencies are ready afterwards but were not before has `key`
among them, and was filed under it. -/
theorem Settled.markReady {items work : List (K × List K)} {s : MemoryStore K}
    (hf : Filed items s) (key : K)
    (hs : ∀ it ∈ items, (∀ d ∈ it.2, d ∈ s.ready) → it.1 ∈ s.ready ∨ it.1 = key ∨ it ∈ work) :
    Settled items (work ++ s.waiting key) (s.markReady key).2 := by
  intro it hit hdeps
  by_cases hdone : it.1 ∈ (s.markReady key).2.ready
  · exact Or.inl hdone
  · rw [mem_ready_markReady, not_or] at hdone
    by_cases hwas : ∀ d ∈ it.2, d ∈ s.ready
    · -- settled before, so it was to be visited
      rcases hs it hit hwas with h | h | h
      · exact absurd h hdone.1
      · exact absurd h hdone.2
      · exact Or.inr (List.mem_append_left _ h)
    · -- some dependency was not ready: it is `key`, which the call waits for
      push Not at hwas
      obtain ⟨d, hd, hdnot⟩ := hwas
      have hdkey : d = key := by
        rcases (mem_ready_markReady s key d).mp (hdeps d hd) with h | h
        · exact absurd h hdnot
        · exact h
      subst hdkey
      exact Or.inr (List.mem_append_right _ (hf.waits it hit hdone.1 d hd hdnot))

/-! ## `process_pending` and `process` -/

namespace PartialOrder

section Processing

variable (iterate : List (K × List K) → List (K × List K))

end Processing

end PartialOrder

namespace PartialOrder

section Termination

variable (iterate : List (K × List K) → List (K × List K))

/-- `process_pending` of a key from which every chain of dependencies has at most `fuel`
keys returns. The induction is on the fuel: the frames nested in it are for keys that
have this one among their dependencies, so their chains are one key shorter. -/
theorem processPending_some (hiter : ∀ l, ∀ x ∈ iterate l, x ∈ l) {items : List (K × List K)} :
    ∀ (fuel : Nat) (po : PartialOrder K) (key : K), PendingFrom items po.store →
      (∀ l, (key :: l).IsChain (Dependency.DependsOn items) → (key :: l).length ≤ fuel) →
        ∃ po', processPending iterate fuel po key = some po' ∧ PendingFrom items po'.store
  | 0, _, key, _, hchain => absurd (hchain [] (.singleton key)) (by simp)
  | fuel + 1, po, key, hp, hchain => by
    unfold PartialOrder.processPending
    cases hnext : po.store.getNextPending key with
    | none => exact ⟨po, rfl, hp⟩
    | some dependents =>
      -- every item of the frame waits for `key`
      have hdep : ∀ item ∈ iterate dependents, item ∈ items ∧ key ∈ item.2 :=
        fun item h => hp key item (by simpa [waiting, hnext] using hiter _ _ h)
      have hstep : ∀ (b : PartialOrder K) (item : K × List K), item ∈ iterate dependents →
          PendingFrom items b.store →
          ∃ b', (if b.store.isReady item.2 then
            processPending iterate fuel (b.markReady item.1 item.2) item.1 else some b) = some b' ∧
            PendingFrom items b'.store := by
        rintro b ⟨k, deps⟩ hitem hb
        split
        · -- a chain from `k` is a chain from `key` without its first key
          refine processPending_some hiter fuel _ k (hb.markReady k) fun l hl => ?_
          have hkey : Dependency.DependsOn items key k := ⟨deps, (hdep _ hitem).1, (hdep _ hitem).2⟩
          have := hchain (k :: l) (.cons_cons hkey hl)
          simp only [List.length_cons] at this ⊢
          omega
        · exact ⟨b, rfl, hb⟩
      obtain ⟨po₁, hfold, hp₁⟩ := foldlM_option_some _ (fun b => PendingFrom items b.store)
        (iterate dependents) hstep (iterate dependents) po (fun _ h => h) hp
      refine ⟨{ po₁ with store := (po₁.store.removePending key).2 }, ?_, hp₁.removePending key⟩
      simp only [hfold]
      rfl

theorem process_some (hiter : ∀ l, ∀ x ∈ iterate l, x ∈ l) {items : List (K × List K)}
    {fuel : Nat} (hchain : ∀ l : List K, l.IsChain (Dependency.DependsOn items) → l.length ≤ fuel)
    {po : PartialOrder K} (hp : PendingFrom items po.store) {key : K} {dependencies : List K}
    (hcall : (key, dependencies) ∈ items) :
    ∃ po', process iterate fuel po key dependencies = some po' ∧ PendingFrom items po'.store := by
  unfold PartialOrder.process
  split
  · exact ⟨_, rfl, hp.markPending hcall⟩
  · exact processPending_some iterate hiter fuel _ key (hp.markReady key)
      fun l hl => hchain _ hl

end Termination

end PartialOrder

/-- A run whose calls are among `items`, with fuel for every chain of dependencies of
`items`, returns. -/
theorem orderRun_some (iterate : List (K × List K) → List (K × List K))
    (hiter : ∀ l, ∀ x ∈ iterate l, x ∈ l) {items : List (K × List K)} {fuel : Nat}
    (hchain : ∀ l : List K, l.IsChain (Dependency.DependsOn items) → l.length ≤ fuel) :
    ∀ (calls : List (OrderCall K)) (po : PartialOrder K), PendingFrom items po.store →
      (∀ it ∈ processCalls calls, it ∈ items) → ∃ r, orderRun iterate fuel po calls = some r
  | [], po, _, _ => ⟨_, rfl⟩
  | .process key deps :: calls, po, hp, hcalls => by
    rw [processCalls_process] at hcalls
    obtain ⟨po₁, hpo₁, hp₁⟩ := PartialOrder.process_some iterate hiter hchain hp
      (hcalls _ List.mem_cons_self)
    obtain ⟨r, hr⟩ := orderRun_some iterate hiter hchain calls po₁ hp₁
      (fun it hit => hcalls it (List.mem_cons_of_mem _ hit))
    exact ⟨r, by simp only [orderRun, hpo₁, Option.bind_some, hr]⟩
  | .next :: calls, po, hp, hcalls => by
    rw [processCalls_next] at hcalls
    -- `next` only pops the queue
    have hwaiting : ∀ x, po.next.2.store.waiting x = po.store.waiting x := by
      intro x
      unfold PartialOrder.next MemoryStore.takeNextReady
      split <;> rfl
    obtain ⟨r, hr⟩ := orderRun_some iterate hiter hchain calls po.next.2
      (fun x it hit => hp x it (by rwa [hwaiting] at hit)) hcalls
    exact ⟨_, by simp only [orderRun, hr, Option.map_some]; rfl⟩

/-- Partial order termination: for a run of `process` (and `next`) calls from a new
`PartialOrder` over a `MemoryStore`, visiting items of a set among its items, whose
dependencies have no cycle, the chains of dependencies are bounded, and with fuel for the
longest of them every call returns: the nesting of `process_pending` is never deeper than
the keys of a chain of dependencies. -/
theorem orderRun_terminates (iterate : List (K × List K) → List (K × List K))
    (hiter : ∀ l, ∀ x ∈ iterate l, x ∈ l) (calls : List (OrderCall K))
    (hacyclic : Dependency.Acyclic (processCalls calls)) :
    (∃ n, ∀ l : List K, l.IsChain (Dependency.DependsOn (processCalls calls)) → l.length ≤ n) ∧
      ∀ n, (∀ l : List K, l.IsChain (Dependency.DependsOn (processCalls calls)) → l.length ≤ n) →
        ∀ fuel, n ≤ fuel → ∃ r, orderRun iterate fuel (.new .default) calls = some r := by
  refine ⟨⟨_, fun l hl => Dependency.chain_length_le hacyclic hl⟩, fun n hn fuel hfuel => ?_⟩
  refine orderRun_some iterate hiter (fun l hl => (hn l hl).trans hfuel) calls _ ?_ fun _ h => h
  intro x it hit
  simp [waiting, getNextPending, PartialOrder.new, MemoryStore.default] at hit

/-- The chain of the source's test `partial_order_with_recursion`, with `B` (here `1`)
coming last. -/
def recursionGraph : List (OrderCall Nat) :=
  [.process 0 [], .process 2 [1], .process 3 [2], .process 4 [3], .process 5 [4],
    .process 6 [5], .process 1 [0]]

theorem orderRun_terminates_recursion :
    (∃ n, ∀ l : List Nat, l.IsChain (Dependency.DependsOn (processCalls recursionGraph)) →
        l.length ≤ n) ∧
      ∀ n, (∀ l : List Nat, l.IsChain (Dependency.DependsOn (processCalls recursionGraph)) →
          l.length ≤ n) →
        ∀ fuel, n ≤ fuel → ∃ r, orderRun id fuel (.new .default) recursionGraph = some r :=
  orderRun_terminates id (fun _ _ h => h) recursionGraph
    (Dependency.acyclic_of_rank id (by decide))

end Partial

end P2panda
