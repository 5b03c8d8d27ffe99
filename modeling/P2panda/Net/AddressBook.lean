import Mathlib.Data.List.AList
import P2panda.Lib.Reservoir
import P2panda.Discovery.Mdns
import P2panda.Net.TopicStreams

/- The address book of the engine (`p2panda-net/src/engine/address_book.rs`): per peer, the
   topic ids it is interested in and the addresses it is known under, each a `HashMap` of
   `HashSet`s. A map is an association list and a set a list without duplicates, with
   `List.insert` for a set's `insert`; a `HashMap` iterates in no specified order, and no
   result below depends on the one the association list fixes. `random_set` samples the
   peers interested in a topic with `choose_multiple` (`Reservoir.chooseMultiple`, its
   random draws an input).

   A run is any list of `add_peer` and `add_topic_id` calls: the engine makes them when it
   adds a peer or a gossip neighbour comes up, the topic discovery when a peer announces its
   topics. Each call is described by what it does to the interests (`interested_apply`)
   and to the known addresses (`mem_knownPeers_apply`), and by induction over the calls,
   from a new book:
   * `addressBookRun_knownPeers`: `known_peers` lists every address an `add_peer` added,
     once, and nothing else;
   * `addressBookRun_randomSet`: the peers interested in a topic are those an
     `add_topic_id` gave it, and for the network id also those `add_peer` added;
     `random_set` returns `min sample_len k` of them, `k` their number, none twice. -/
namespace P2panda.Net

/-- `RelayUrl`, by the URL's text. -/
structure RelayUrl where
  url : String
  deriving DecidableEq

/-- `NodeAddress`. -/
structure NodeAddress where
  publicKey : PublicKey
  directAddresses : List Discovery.SocketAddr
  relayUrl : Option RelayUrl
  deriving DecidableEq

/-- `AddressBook` with its `AddressBookInner`. -/
structure AddressBook where
  networkId : Bytes32
  knownPeerTopicIds : AList fun _ : PublicKey => List Bytes32
  knownPeerAddresses : AList fun _ : PublicKey => List NodeAddress

namespace AddressBook

/-- `AddressBook::new`. -/
def new (networkId : Bytes32) : AddressBook := ⟨networkId, ∅, ∅⟩

/-- `add_topic_id`: `entry(..).and_modify(insert).or_insert({topic_id})`. -/
def addTopicId (ab : AddressBook) (publicKey : PublicKey) (topicId : Bytes32) : AddressBook :=
  { ab with
    knownPeerTopicIds :=
      match ab.knownPeerTopicIds.lookup publicKey with
      | some knownTopics => ab.knownPeerTopicIds.insert publicKey (knownTopics.insert topicId)
      | none => ab.knownPeerTopicIds.insert publicKey [topicId] }

/-- `add_peer`: every peer is in the network-wide overlay's topic, and its address goes into
its set (`entry(..).or_default().insert(..)`). -/
def addPeer (ab : AddressBook) (nodeAddr : NodeAddress) : AddressBook :=
  let ab := ab.addTopicId nodeAddr.publicKey ab.networkId
  { ab with
    knownPeerAddresses :=
      ab.knownPeerAddresses.insert nodeAddr.publicKey
        (((ab.knownPeerAddresses.lookup nodeAddr.publicKey).getD []).insert nodeAddr) }

/-- `known_peers`: `values().flatten()`. -/
def knownPeers (ab : AddressBook) : List NodeAddress :=
  ab.knownPeerAddresses.entries.flatMap Sigma.snd

/-- The peers whose topics contain the topic, in the map's order (`random_set`'s
`nodes_interested_in_topic`). -/
def nodesInterestedInTopic (ab : AddressBook) (topicId : Bytes32) : List PublicKey :=
  ab.knownPeerTopicIds.entries.foldl
    (fun acc e => if topicId ∈ e.2 then acc ++ [e.1] else acc) []

/-- `random_set`, with `draws` the random numbers `choose_multiple` draws. -/
def randomSet (ab : AddressBook) (draws : Nat → Nat) (topicId : Bytes32) (sampleLen : Nat) :
    List PublicKey :=
  Reservoir.chooseMultiple draws (ab.nodesInterestedInTopic topicId) sampleLen

/-! ## The interests -/

/-- The peer is interested in the topic. -/
def Interested (ab : AddressBook) (publicKey : PublicKey) (topicId : Bytes32) : Prop :=
  ∃ topics, ab.knownPeerTopicIds.lookup publicKey = some topics ∧ topicId ∈ topics

/-- The fold keeps the entries whose set holds the topic, in order. -/
theorem nodesInterestedInTopic_eq (ab : AddressBook) (topicId : Bytes32) :
    ab.nodesInterestedInTopic topicId =
      (ab.knownPeerTopicIds.entries.filter fun e => decide (topicId ∈ e.2)).map Sigma.fst := by
  -- from any accumulator, the fold appends what it keeps
  have hfold : ∀ (l : List (Sigma fun _ : PublicKey => List Bytes32)) (acc : List PublicKey),
      l.foldl (fun acc e => if topicId ∈ e.2 then acc ++ [e.1] else acc) acc =
        acc ++ (l.filter fun e => decide (topicId ∈ e.2)).map Sigma.fst := by
    intro l
    induction l with
    | nil => simp
    | cons e l ih =>
      intro acc
      by_cases he : topicId ∈ e.2 <;> simp [he, ih]
  rw [nodesInterestedInTopic, hfold, List.nil_append]

theorem mem_nodesInterestedInTopic {ab : AddressBook} {topicId : Bytes32} {p : PublicKey} :
    p ∈ ab.nodesInterestedInTopic topicId ↔ ab.Interested p topicId := by
  rw [nodesInterestedInTopic_eq, Interested]
  simp only [List.mem_map, List.mem_filter, decide_eq_true_eq]
  constructor
  · rintro ⟨⟨k, topics⟩, ⟨hmem, ht⟩, rfl⟩
    exact ⟨topics, AList.mem_lookup_iff.mpr hmem, ht⟩
  · rintro ⟨topics, hlookup, ht⟩
    exact ⟨⟨p, topics⟩, ⟨AList.mem_lookup_iff.mp hlookup, ht⟩, rfl⟩

theorem nodup_nodesInterestedInTopic (ab : AddressBook) (topicId : Bytes32) :
    (ab.nodesInterestedInTopic topicId).Nodup := by
  rw [nodesInterestedInTopic_eq]
  exact (List.filter_sublist.map Sigma.fst).nodup ab.knownPeerTopicIds.keys_nodup

theorem lookup_addTopicId (ab : AddressBook) (q : PublicKey) (t : Bytes32) (p : PublicKey) :
    (ab.addTopicId q t).knownPeerTopicIds.lookup p =
      if p = q then some (((ab.knownPeerTopicIds.lookup q).getD []).insert t)
      else ab.knownPeerTopicIds.lookup p := by
  unfold addTopicId
  by_cases hp : p = q
  · subst hp
    split <;> simp_all [AList.lookup_insert]
  · split <;> simp [hp, AList.lookup_insert_ne hp]

theorem interested_addTopicId {ab : AddressBook} {q p : PublicKey} {t t' : Bytes32} :
    (ab.addTopicId q t').Interested p t ↔ ab.Interested p t ∨ (q = p ∧ t' = t) := by
  simp only [Interested, lookup_addTopicId]
  by_cases hp : p = q
  · subst hp
    cases hlookup : ab.knownPeerTopicIds.lookup p <;>
      simp [List.mem_insert_iff, or_comm, eq_comm]
  · simp [hp, Ne.symm hp]

@[simp] theorem networkId_addTopicId (ab : AddressBook) (q : PublicKey) (t : Bytes32) :
    (ab.addTopicId q t).networkId = ab.networkId := rfl

@[simp] theorem networkId_addPeer (ab : AddressBook) (nodeAddr : NodeAddress) :
    (ab.addPeer nodeAddr).networkId = ab.networkId := rfl

theorem interested_addPeer {ab : AddressBook} {nodeAddr : NodeAddress} {p : PublicKey}
    {t : Bytes32} : (ab.addPeer nodeAddr).Interested p t ↔
      ab.Interested p t ∨ (nodeAddr.publicKey = p ∧ ab.networkId = t) :=
  interested_addTopicId

/-! ## The addresses -/

/-- Every address is filed under its own public key, in a set without duplicates. -/
def AddressesFiled (ab : AddressBook) : Prop :=
  ∀ k addrs, ab.knownPeerAddresses.lookup k = some addrs →
    addrs.Nodup ∧ ∀ a ∈ addrs, a.publicKey = k

theorem addressesFiled_new (networkId : Bytes32) : (new networkId).AddressesFiled := by
  intro k addrs h
  simp [new] at h

theorem lookup_addPeer (ab : AddressBook) (nodeAddr : NodeAddress) (k : PublicKey) :
    (ab.addPeer nodeAddr).knownPeerAddresses.lookup k =
      if k = nodeAddr.publicKey then
        some (((ab.knownPeerAddresses.lookup nodeAddr.publicKey).getD []).insert nodeAddr)
      else ab.knownPeerAddresses.lookup k := by
  by_cases hk : k = nodeAddr.publicKey
  · subst hk
    simp [addPeer, addTopicId, AList.lookup_insert]
  · simp [addPeer, addTopicId, hk, AList.lookup_insert_ne hk]

theorem AddressesFiled.addPeer {ab : AddressBook} (h : ab.AddressesFiled)
    (nodeAddr : NodeAddress) : (ab.addPeer nodeAddr).AddressesFiled := by
  intro k addrs hk
  rw [lookup_addPeer] at hk
  split at hk
  · next heq =>
    cases hk
    -- the set of the peer's key, with the new address
    have hold : ∀ a ∈ (ab.knownPeerAddresses.lookup nodeAddr.publicKey).getD [],
        a.publicKey = nodeAddr.publicKey := by
      cases hl : ab.knownPeerAddresses.lookup nodeAddr.publicKey with
      | none => simp
      | some addrs => exact (h _ addrs hl).2
    refine ⟨?_, fun a ha => ?_⟩
    · apply List.Nodup.insert
      cases hl : ab.knownPeerAddresses.lookup nodeAddr.publicKey with
      | none => exact List.nodup_nil
      | some addrs => exact (h _ addrs hl).1
    · rcases List.mem_insert_iff.mp ha with rfl | ha
      · exact heq.symm
      · exact heq ▸ hold a ha
  · exact h k addrs hk

theorem AddressesFiled.addTopicId {ab : AddressBook} (h : ab.AddressesFiled) (q : PublicKey)
    (t : Bytes32) : (ab.addTopicId q t).AddressesFiled :=
  h

theorem AddressesFiled.mem_knownPeers {ab : AddressBook} (h : ab.AddressesFiled)
    {x : NodeAddress} :
    x ∈ ab.knownPeers ↔ ∃ addrs, ab.knownPeerAddresses.lookup x.publicKey = some addrs ∧ x ∈ addrs := by
  simp only [knownPeers, List.mem_flatMap]
  constructor
  · rintro ⟨⟨k, addrs⟩, hmem, hx⟩
    have hlookup := AList.mem_lookup_iff.mpr hmem
    obtain rfl := (h k addrs hlookup).2 x hx
    exact ⟨addrs, hlookup, hx⟩
  · rintro ⟨addrs, hlookup, hx⟩
    exact ⟨⟨x.publicKey, addrs⟩, AList.mem_lookup_iff.mp hlookup, hx⟩

/-- Each set is without duplicates, and two keys' sets are disjoint, since each holds the
addresses of its key only. -/
theorem AddressesFiled.knownPeers_nodup {ab : AddressBook} (h : ab.AddressesFiled) :
    ab.knownPeers.Nodup := by
  refine List.nodup_flatMap.mpr ⟨fun e he => (h e.1 e.2 (AList.mem_lookup_iff.mpr he)).1, ?_⟩
  refine (List.nodupKeys_iff_pairwise.mp ab.knownPeerAddresses.nodupKeys).imp_of_mem ?_
  intro e₁ e₂ he₁ he₂ hne
  refine List.disjoint_left.mpr fun a ha₁ ha₂ => hne ?_
  rw [← (h e₁.1 e₁.2 (AList.mem_lookup_iff.mpr he₁)).2 a ha₁,
    ← (h e₂.1 e₂.2 (AList.mem_lookup_iff.mpr he₂)).2 a ha₂]

theorem AddressesFiled.mem_knownPeers_addPeer {ab : AddressBook} (h : ab.AddressesFiled)
    {nodeAddr x : NodeAddress} :
    x ∈ (ab.addPeer nodeAddr).knownPeers ↔ x ∈ ab.knownPeers ∨ x = nodeAddr := by
  rw [(h.addPeer nodeAddr).mem_knownPeers, h.mem_knownPeers, lookup_addPeer]
  by_cases hk : x.publicKey = nodeAddr.publicKey
  · rw [if_pos hk, hk]
    cases ab.knownPeerAddresses.lookup nodeAddr.publicKey <;>
      simp [List.mem_insert_iff, or_comm]
  · have hx : x ≠ nodeAddr := fun hx => hk (hx ▸ rfl)
    simp [hk, hx]

end AddressBook

/-! ## Runs -/

/-- A call on the address book. -/
inductive AddressBookCall where
  | addPeer (nodeAddr : NodeAddress)
  | addTopicId (publicKey : PublicKey) (topicId : Bytes32)
  deriving DecidableEq

namespace AddressBookCall

def apply (ab : AddressBook) : AddressBookCall → AddressBook
  | .addPeer nodeAddr => ab.addPeer nodeAddr
  | .addTopicId publicKey topicId => ab.addTopicId publicKey topicId

/-- The call gives the peer an interest in the topic, in the network of `networkId`. -/
def Gives (networkId : Bytes32) (p : PublicKey) (t : Bytes32) : AddressBookCall → Prop
  | .addPeer nodeAddr => nodeAddr.publicKey = p ∧ networkId = t
  | .addTopicId q t' => q = p ∧ t' = t

@[simp] theorem networkId_apply (ab : AddressBook) (c : AddressBookCall) :
    (c.apply ab).networkId = ab.networkId := by
  cases c <;> rfl

theorem interested_apply {ab : AddressBook} {p : PublicKey} {t : Bytes32} :
    ∀ {c : AddressBookCall}, (c.apply ab).Interested p t ↔
      ab.Interested p t ∨ c.Gives ab.networkId p t
  | .addPeer _ => AddressBook.interested_addPeer
  | .addTopicId _ _ => AddressBook.interested_addTopicId

theorem mem_knownPeers_apply {ab : AddressBook} (h : ab.AddressesFiled) {x : NodeAddress} :
    ∀ {c : AddressBookCall}, x ∈ (c.apply ab).knownPeers ↔ x ∈ ab.knownPeers ∨ c = .addPeer x
  | .addPeer nodeAddr => by
    rw [apply, h.mem_knownPeers_addPeer]
    simp [eq_comm]
  | .addTopicId q t => by simp [apply, AddressBook.knownPeers, AddressBook.addTopicId]

end AddressBookCall

open AddressBookCall in
/-- A run of calls. -/
def addressBookRun (ab : AddressBook) (calls : List AddressBookCall) : AddressBook :=
  calls.foldl AddressBookCall.apply ab

namespace AddressBook

theorem AddressesFiled.apply {ab : AddressBook} (h : ab.AddressesFiled) :
    ∀ c : AddressBookCall, (c.apply ab).AddressesFiled
  | .addPeer nodeAddr => h.addPeer nodeAddr
  | .addTopicId q t => h.addTopicId q t

/-- Over a run, each call adds what it gives and takes nothing away. The induction is on the
calls, with the book generalised. -/
theorem run_facts :
    ∀ (calls : List AddressBookCall) (ab : AddressBook), ab.AddressesFiled →
      (addressBookRun ab calls).networkId = ab.networkId ∧
      (addressBookRun ab calls).AddressesFiled ∧
      (∀ p t, (addressBookRun ab calls).Interested p t ↔
        ab.Interested p t ∨ ∃ c ∈ calls, c.Gives ab.networkId p t) ∧
      ∀ x, x ∈ (addressBookRun ab calls).knownPeers ↔ x ∈ ab.knownPeers ∨ .addPeer x ∈ calls
  | [], ab, h => ⟨rfl, h, fun p t => by simp [addressBookRun], fun x => by simp [addressBookRun]⟩
  | c :: calls, ab, h => by
    obtain ⟨hnet, hfiled, hint, hknown⟩ := run_facts calls (c.apply ab) (h.apply c)
    have hrun : addressBookRun ab (c :: calls) = addressBookRun (c.apply ab) calls := rfl
    rw [AddressBookCall.networkId_apply] at hnet hint
    refine ⟨hrun ▸ hnet, hrun ▸ hfiled, fun p t => ?_, fun x => ?_⟩
    · rw [hrun, hint, AddressBookCall.interested_apply]
      simp only [List.mem_cons, exists_eq_or_imp]
      tauto
    · rw [hrun, hknown, AddressBookCall.mem_knownPeers_apply h]
      simp only [List.mem_cons]
      tauto

theorem interested_new (networkId : Bytes32) (p : PublicKey) (t : Bytes32) :
    ¬(new networkId).Interested p t := by
  rintro ⟨topics, h, -⟩
  simp [new] at h

end AddressBook

open AddressBook

/-- Over every run of `add_peer` and `add_topic_id` calls from a new address book,
`known_peers` lists every address an `add_peer` added, once, and nothing else. -/
theorem addressBookRun_knownPeers (networkId : Bytes32) (calls : List AddressBookCall) :
    (addressBookRun (new networkId) calls).knownPeers.Nodup ∧
      ∀ x, x ∈ (addressBookRun (new networkId) calls).knownPeers ↔ .addPeer x ∈ calls := by
  obtain ⟨-, hfiled, -, hknown⟩ := run_facts calls _ (addressesFiled_new networkId)
  refine ⟨hfiled.knownPeers_nodup, fun x => ?_⟩
  rw [hknown]
  simp [knownPeers, new]

/-- Over every run from a new address book, and whatever `random_set` draws: the peers
interested in a topic, without duplicates, are those an `add_topic_id` call gave it, and
for the network id also those `add_peer` added; `random_set` returns `min sample_len k` of
them, `k` their number, none twice. -/
theorem addressBookRun_randomSet (networkId : Bytes32) (calls : List AddressBookCall)
    (draws : Nat → Nat) (topicId : Bytes32) (sampleLen : Nat) :
    ((addressBookRun (new networkId) calls).nodesInterestedInTopic topicId).Nodup ∧
      (∀ p, p ∈ (addressBookRun (new networkId) calls).nodesInterestedInTopic topicId ↔
        ∃ c ∈ calls, c.Gives networkId p topicId) ∧
      ((addressBookRun (new networkId) calls).randomSet draws topicId sampleLen).Nodup ∧
      ((addressBookRun (new networkId) calls).randomSet draws topicId sampleLen).length =
        min sampleLen ((addressBookRun (new networkId) calls).nodesInterestedInTopic topicId).length ∧
      ∀ p ∈ (addressBookRun (new networkId) calls).randomSet draws topicId sampleLen,
        p ∈ (addressBookRun (new networkId) calls).nodesInterestedInTopic topicId := by
  obtain ⟨-, -, hint, -⟩ := run_facts calls _ (addressesFiled_new networkId)
  have hnodup := nodup_nodesInterestedInTopic (addressBookRun (new networkId) calls) topicId
  refine ⟨hnodup, fun p => ?_, Reservoir.nodup_chooseMultiple draws sampleLen hnodup,
    Reservoir.length_chooseMultiple draws sampleLen _,
    fun p hp => Reservoir.mem_of_mem_chooseMultiple draws sampleLen hp⟩
  rw [mem_nodesInterestedInTopic, hint]
  simp only [interested_new, false_or]
  rfl

end P2panda.Net
