import Mathlib.Data.List.AList
import Mathlib.Data.List.Sort

/- The two collections of Rust's standard library that the stores are built from.

   * `SortedSet α` is `BTreeSet<α>`: a strictly increasing list, so that iteration is in
     order and `last` is the maximum. The order is a field of the structure; every
     operation keeps it. `insert`, `erase`, `filter` (`retain`) and `max?` (`last`) have
     their membership lemmas beside them, and `max?` its two order facts: it is a member
     and no member is above it.
   * `HashMap<K, V>` is Mathlib's association list `AList` (keys without duplicates).
     Mathlib gives insertion, lookup and removal; this module adds the two whole-map
     operations the stores use, `AList.filter` (`retain`, and the filtering half of
     `filter_map(..).collect()`) and `AList.mapVal` (the mapping half), each with its
     lookup equation, and the lookup of a map of one entry. A Rust `HashMap` iterates in
     an unspecified order; the association list fixes one, and no result below depends on
     which.
   * `VecMap K V` is a `BTreeMap<K, Vec<V>>` that is only ever filled by
     `entry(k).or_default().push(v)`, kept as the list of its pushes: `get` reads the
     vector under a key, `toList` iterates by increasing key, and both have membership
     lemmas in terms of the pushes.
   * For a table whose rows carry distinct keys: the row a search by key finds
     (`List.find?_key_eq_some`), and that two lists increasing strictly in a key with the
     same members are one list (`List.eq_of_pairwise_key_lt`), and the last row of a
     `filterMap` that drops none (`List.getLast?_filterMap_of_isSome`). -/

/-! ## Ordered sets -/

/-- A `BTreeSet`: its elements in increasing order, each once. -/
structure SortedSet (α : Type) [LinearOrder α] where
  toList : List α
  sorted : toList.Pairwise (· < ·)

namespace SortedSet

variable {α : Type} [LinearOrder α]

instance : Membership α (SortedSet α) := ⟨fun s x => x ∈ s.toList⟩

instance (x : α) (s : SortedSet α) : Decidable (x ∈ s) :=
  inferInstanceAs (Decidable (x ∈ s.toList))

@[simp] theorem mem_toList {x : α} {s : SortedSet α} : x ∈ s.toList ↔ x ∈ s := Iff.rfl

/-- `BTreeSet::new`. -/
def empty : SortedSet α := ⟨[], .nil⟩

@[simp] theorem not_mem_empty (x : α) : x ∉ (empty : SortedSet α) := List.not_mem_nil

/-- Insert into an increasing list: in front of the first larger element, not at all when
the element is there. -/
def insertList (x : α) : List α → List α
  | [] => [x]
  | y :: ys => if x < y then x :: y :: ys else if x = y then y :: ys else y :: insertList x ys

theorem mem_insertList {x z : α} {l : List α} : z ∈ insertList x l ↔ z = x ∨ z ∈ l := by
  induction l with
  | nil => simp [insertList]
  | cons y ys ih =>
    unfold insertList
    split
    · simp
    · split
      · subst x
        simp
      · simp only [List.mem_cons, ih]
        tauto

theorem pairwise_insertList (x : α) {l : List α} (hl : l.Pairwise (· < ·)) :
    (insertList x l).Pairwise (· < ·) := by
  induction l with
  | nil => simp [insertList]
  | cons y ys ih =>
    obtain ⟨hy, hys⟩ := List.pairwise_cons.mp hl
    unfold insertList
    split
    · next hxy =>
      -- `x` goes in front: it is below `y`, hence below everything after `y`
      exact List.Pairwise.cons (fun z hz => by
        rcases List.mem_cons.mp hz with rfl | hz
        · exact hxy
        · exact lt_trans hxy (hy z hz)) hl
    · split
      · exact hl
      · next hlt hne =>
        -- `x` goes after `y`, so everything in the new tail is above `y`
        have hyx : y < x := lt_of_le_of_ne (not_lt.mp hlt) (Ne.symm hne)
        refine List.Pairwise.cons (fun z hz => ?_) (ih hys)
        rcases mem_insertList.mp hz with rfl | hz
        · exact hyx
        · exact hy z hz

/-- `BTreeSet::insert`; whether the element was new is `x ∉ s`. -/
def insert (s : SortedSet α) (x : α) : SortedSet α :=
  ⟨insertList x s.toList, pairwise_insertList x s.sorted⟩

/-- `BTreeSet::remove`. -/
def erase (s : SortedSet α) (x : α) : SortedSet α :=
  ⟨s.toList.filter (· ≠ x), s.sorted.filter _⟩

/-- `BTreeSet::retain`. -/
def filter (p : α → Bool) (s : SortedSet α) : SortedSet α :=
  ⟨s.toList.filter p, s.sorted.filter _⟩

/-- `BTreeSet::last`: the largest element. -/
def max? (s : SortedSet α) : Option α := s.toList.getLast?

/-- `BTreeSet::is_empty`. -/
def isEmpty (s : SortedSet α) : Bool := s.toList.isEmpty

@[simp] theorem mem_insert {x y : α} {s : SortedSet α} : y ∈ s.insert x ↔ y = x ∨ y ∈ s :=
  mem_insertList

@[simp] theorem mem_erase {x y : α} {s : SortedSet α} : y ∈ s.erase x ↔ y ≠ x ∧ y ∈ s := by
  show y ∈ s.toList.filter _ ↔ _
  simp [and_comm]

@[simp] theorem mem_filter {p : α → Bool} {y : α} {s : SortedSet α} :
    y ∈ s.filter p ↔ y ∈ s ∧ p y = true := by
  show y ∈ s.toList.filter p ↔ _
  simp

theorem isEmpty_iff {s : SortedSet α} : s.isEmpty = true ↔ ∀ x, x ∉ s := by
  show s.toList.isEmpty = true ↔ ∀ x, x ∉ s.toList
  rw [List.isEmpty_iff, List.eq_nil_iff_forall_not_mem]

theorem max?_mem {s : SortedSet α} {m : α} (h : s.max? = some m) : m ∈ s :=
  List.mem_of_getLast? h

/-- No element is above the last one, since the list increases. -/
theorem le_max? {s : SortedSet α} {m y : α} (h : s.max? = some m) (hy : y ∈ s) : y ≤ m := by
  obtain ⟨init, hinit⟩ := List.getLast?_eq_some_iff.mp h
  have hsorted := s.sorted
  have hy : y ∈ s.toList := hy
  rw [hinit] at hsorted hy
  rcases List.mem_append.mp hy with hy | hy
  · exact le_of_lt (List.pairwise_append.mp hsorted |>.2.2 y hy m (List.mem_singleton_self m))
  · exact le_of_eq (List.mem_singleton.mp hy)

theorem max?_eq_none_iff {s : SortedSet α} : s.max? = none ↔ ∀ x, x ∉ s := by
  show s.toList.getLast? = none ↔ ∀ x, x ∉ s.toList
  rw [List.getLast?_eq_none_iff, List.eq_nil_iff_forall_not_mem]

/-- Two sets with the same elements are the same set: an increasing list is determined by
its elements. -/
theorem ext {s t : SortedSet α} (h : ∀ x, x ∈ s ↔ x ∈ t) : s = t := by
  obtain ⟨l, hl⟩ := s
  obtain ⟨m, hm⟩ := t
  have hperm : l.Perm m :=
    (List.perm_ext_iff_of_nodup (hl.imp ne_of_lt) (hm.imp ne_of_lt)).mpr h
  -- two increasing lists with the same elements are equal
  have : l = m := hperm.eq_of_pairwise
    (fun a b _ _ hab hba => absurd (lt_trans hab hba) (lt_irrefl a)) hl hm
  subst this
  rfl

/-- A set whose only element is `x` lists `x` alone. -/
theorem toList_eq_singleton {s : SortedSet α} {x : α} (h : ∀ y, y ∈ s ↔ y = x) :
    s.toList = [x] := by
  have hs : s = empty.insert x := ext fun y => by simp [h]
  rw [hs]
  rfl

end SortedSet

/-! ## Finite maps -/

namespace AList

variable {α : Type} [DecidableEq α] {β γ : α → Type}

/-- The entries that satisfy `p`: `HashMap::retain`. -/
def filter (p : (a : α) → β a → Bool) (s : AList β) : AList β :=
  ⟨s.entries.filter (fun x => p x.1 x.2), s.nodupKeys.sublist List.filter_sublist⟩

/-- Every value through `f`, keys unchanged. -/
def mapVal (f : (a : α) → β a → γ a) (s : AList β) : AList γ :=
  ⟨s.entries.map (Sigma.map id f), s.nodupKeys.map₂ f⟩

theorem lookup_filter (p : (a : α) → β a → Bool) (s : AList β) (a : α) :
    (s.filter p).lookup a = (s.lookup a).filter (p a) := by
  cases h : s.lookup a with
  | none =>
    have ha : a ∉ s := lookup_eq_none.mp h
    have hfa : a ∉ s.filter p := fun hmem =>
      ha (keys_subset_keys_of_entries_subset_entries (fun _ hx => (List.mem_filter.mp hx).1) hmem)
    exact lookup_eq_none.mpr hfa
  | some b =>
    have hb : Sigma.mk a b ∈ s.entries := mem_lookup_iff.mp h
    by_cases hp : p a b
    · -- the entry stays
      simp only [Option.filter_some, hp, if_true]
      exact mem_lookup_iff.mpr (List.mem_filter.mpr ⟨hb, hp⟩)
    · -- the entry goes, and no other entry has the key
      simp only [Option.filter_some, hp, Bool.false_eq_true, if_false]
      cases hf : (s.filter p).lookup a with
      | none => rfl
      | some b' =>
        have hb' := List.mem_filter.mp (mem_lookup_iff.mp hf)
        have hbb' : b = b' := s.nodupKeys.eq_of_mk_mem hb hb'.1
        subst hbb'
        exact absurd hb'.2 hp

@[simp] theorem lookup_singleton (a : α) (b : β a) : (singleton a b).lookup a = some b := by
  rw [← insert_empty, lookup_insert]

omit [DecidableEq α] in
@[simp] theorem keys_mapVal (f : (a : α) → β a → γ a) (s : AList β) :
    (s.mapVal f).keys = s.keys :=
  List.map₂_keys f s.entries

theorem lookup_mapVal (f : (a : α) → β a → γ a) (s : AList β) (a : α) :
    (s.mapVal f).lookup a = (s.lookup a).map (f a) := by
  cases h : s.lookup a with
  | none =>
    apply lookup_eq_none.mpr
    rw [mem_keys, keys_mapVal, ← mem_keys]
    exact lookup_eq_none.mp h
  | some b =>
    have hb : Sigma.mk a b ∈ s.entries := mem_lookup_iff.mp h
    exact mem_lookup_iff.mpr (List.mem_map.mpr ⟨_, hb, rfl⟩)

end AList

/-! ## Maps of vectors -/

/-- A `BTreeMap<K, Vec<V>>` that is only ever filled by `entry(k).or_default().push(v)`,
kept as its pushes in order: the vector under a key is what was pushed under it, in
order, and the map iterates its keys in increasing order. -/
structure VecMap (K V : Type) where
  pushes : List (K × V)

namespace VecMap

variable {K V : Type}

/-- `BTreeMap::new`. -/
def empty : VecMap K V := ⟨[]⟩

/-- `entry(k).or_default().push(v)`. -/
def push (m : VecMap K V) (k : K) (v : V) : VecMap K V := ⟨m.pushes ++ [(k, v)]⟩

/-- `BTreeMap::is_empty`. -/
def isEmpty (m : VecMap K V) : Bool := m.pushes.isEmpty

/-- `get(k)`, with a missing key read as the empty vector. -/
def get [DecidableEq K] (m : VecMap K V) (k : K) : List V :=
  m.pushes.filterMap fun kv => if kv.1 = k then some kv.2 else none

/-- `BTreeMap::keys`, in increasing order. -/
def keys [LinearOrder K] (m : VecMap K V) : SortedSet K :=
  m.pushes.foldl (fun s kv => s.insert kv.1) SortedSet.empty

/-- `into_iter`: each key with its vector, by increasing key. The equality `get` compares
keys with is a separate argument, so that it is the one `get` has everywhere else. -/
def toList [LinearOrder K] [DecidableEq K] (m : VecMap K V) : List (K × List V) :=
  m.keys.toList.map fun k => (k, m.get k)

@[simp] theorem pushes_empty : (empty : VecMap K V).pushes = [] := rfl

@[simp] theorem pushes_push (m : VecMap K V) (k : K) (v : V) :
    (m.push k v).pushes = m.pushes ++ [(k, v)] := rfl

/-- Pushing the pairs of a list one after another appends them. -/
theorem pushes_foldl (l : List (K × V)) (m : VecMap K V) :
    (l.foldl (fun m kv => m.push kv.1 kv.2) m).pushes = m.pushes ++ l := by
  induction l generalizing m with
  | nil => simp
  | cons kv l ih => simp [ih]

/-- Pushing a key and a value of each element of a list appends them. -/
theorem pushes_foldl_map {α : Type} (key : α → K) (val : α → V) (l : List α) (m : VecMap K V) :
    (l.foldl (fun m x => m.push (key x) (val x)) m).pushes =
      m.pushes ++ l.map fun x => (key x, val x) := by
  induction l generalizing m with
  | nil => simp
  | cons x l ih => simp [ih]

/-- Pushing the pairs that each element of a list gives appends them all. -/
theorem pushes_foldl_flatMap {α : Type} (f : α → List (K × V)) (l : List α) (m : VecMap K V) :
    (l.foldl (fun m x => (f x).foldl (fun m kv => m.push kv.1 kv.2) m) m).pushes =
      m.pushes ++ l.flatMap f := by
  induction l generalizing m with
  | nil => simp
  | cons x l ih => rw [List.foldl_cons, ih, pushes_foldl, List.flatMap_cons, List.append_assoc]

theorem isEmpty_iff (m : VecMap K V) : m.isEmpty = true ↔ m.pushes = [] := List.isEmpty_iff

theorem mem_get [DecidableEq K] {m : VecMap K V} {k : K} {v : V} :
    v ∈ m.get k ↔ (k, v) ∈ m.pushes := by
  simp [get, and_comm]

theorem mem_keys [LinearOrder K] {m : VecMap K V} {k : K} :
    k ∈ m.keys ↔ ∃ v, (k, v) ∈ m.pushes := by
  -- the fold inserts the key of each push into the set it started from
  have hfold : ∀ (l : List (K × V)) (s : SortedSet K),
      k ∈ l.foldl (fun s kv => s.insert kv.1) s ↔ k ∈ s ∨ ∃ v, (k, v) ∈ l := by
    intro l
    induction l with
    | nil => simp
    | cons kv l ih =>
      intro s
      rw [List.foldl_cons, ih, SortedSet.mem_insert]
      constructor
      · rintro ((rfl | hs) | ⟨v, hv⟩)
        · exact .inr ⟨kv.2, List.mem_cons_self⟩
        · exact .inl hs
        · exact .inr ⟨v, List.mem_cons_of_mem _ hv⟩
      · rintro (hs | ⟨v, hv⟩)
        · exact .inl (.inr hs)
        · rcases List.mem_cons.mp hv with rfl | hv
          · exact .inl (.inl rfl)
          · exact .inr ⟨v, hv⟩
  simp [keys, hfold]

theorem mem_toList [LinearOrder K] [DecidableEq K] {m : VecMap K V} {k : K} {vs : List V} :
    (k, vs) ∈ m.toList ↔ k ∈ m.keys ∧ vs = m.get k := by
  simp only [toList, List.mem_map, Prod.mk.injEq, SortedSet.mem_toList]
  constructor
  · rintro ⟨k', hk', rfl, rfl⟩
    exact ⟨hk', rfl⟩
  · rintro ⟨hk, rfl⟩
    exact ⟨k, hk, rfl, rfl⟩

end VecMap

/-! ## Lists with keys -/

namespace List

variable {α β : Type}

/-- In a list whose members have distinct keys, the first member with the key of a member
is that member. -/
theorem find?_key_eq_some [BEq β] [LawfulBEq β] {f : α → β} :
    ∀ {l : List α}, (l.map f).Nodup → ∀ {x : α}, x ∈ l → l.find? (fun y => f y == f x) = some x
  | [], _, _, hx => nomatch hx
  | y :: l, hl, x, hx => by
    rw [List.map_cons, List.nodup_cons] at hl
    rcases List.mem_cons.mp hx with rfl | hx
    · simp
    · -- `y` has another key than `x`, which comes later
      have hne : f y ≠ f x := fun heq => hl.1 (heq ▸ List.mem_map_of_mem hx)
      rw [List.find?_cons, beq_false_of_ne hne]
      exact find?_key_eq_some hl.2 hx

/-- Two lists that increase strictly in `key` and have the same members are equal. -/
theorem eq_of_pairwise_key_lt [LinearOrder β] {key : α → β} {l₁ l₂ : List α}
    (h₁ : l₁.Pairwise fun a b => key a < key b) (h₂ : l₂.Pairwise fun a b => key a < key b)
    (h : ∀ a, a ∈ l₁ ↔ a ∈ l₂) : l₁ = l₂ := by
  have : Std.Antisymm fun a b : α => key a < key b :=
    ⟨fun _ _ hab hba => absurd (hab.trans hba) (lt_irrefl _)⟩
  have : Std.Irrefl fun a b : α => key a < key b := ⟨fun _ => lt_irrefl _⟩
  exact h₁.eq_of_mem_iff h₂ h

/-- Over a list without repetitions, changing the image of one member to drop its first
element leaves the concatenation short of that element alone. -/
theorem flatMap_perm_cons {f f' : α → List β} {x : β} :
    ∀ {l : List α} {a : α}, l.Nodup → a ∈ l → (f a).Perm (x :: f' a) →
      (∀ a' ∈ l, a' ≠ a → f a' = f' a') → (l.flatMap f).Perm (x :: l.flatMap f')
  | [], _, _, ha, _, _ => nomatch ha
  | a' :: l, a, hl, ha, hfa, hrest => by
    rw [List.nodup_cons] at hl
    rw [List.flatMap_cons, List.flatMap_cons]
    by_cases heq : a' = a
    · -- the changed member is the head: the rest of the list is untouched
      subst heq
      have htail : l.flatMap f = l.flatMap f' :=
        List.flatMap_congr fun y hy => hrest y (List.mem_cons_of_mem _ hy)
          fun h => hl.1 (h ▸ hy)
      rw [htail]
      exact hfa.append_right _
    · have ha' : a ∈ l := (List.mem_cons.mp ha).resolve_left (Ne.symm heq)
      have ih := flatMap_perm_cons hl.2 ha' hfa fun y hy hne =>
        hrest y (List.mem_cons_of_mem _ hy) hne
      rw [hrest a' List.mem_cons_self heq]
      exact (ih.append_left _).trans List.perm_middle

end List
