import P2panda.Lib.Base32
import P2panda.Lib.Collections
import P2panda.Lib.Run
import P2panda.Core.HeaderCodec
import Mathlib.Data.List.Dedup

/- The mDNS messages of local discovery (`p2panda-discovery/src/mdns/dns.rs`), on
   hickory-proto's `Message` as a value: the bytes of a DNS packet are not modelled.

   `make_response` announces a node under a service name: one SRV answer per port of its
   direct addresses, named `<node id>.<service>`, whose target `<node id>-<port>.local.`
   carries one A or AAAA record per address of that port. The node id is written in
   z-base-32. `parse_response` reverses this: from each SRV answer the node id of the
   answer's name and the port of its target, from each address record the node and the
   port its name is the target of, and from the first answer's name the service.

   Names are hickory's `Name`: labels of at most 63 bytes, at most 255 bytes on the wire,
   and a flag for a fully qualified name. `Name::from_str` is modelled on the ASCII text
   this module writes: the labels between the dots, letters made lower case (as IDNA
   maps them), digits, `-` and `_`. Two names compare as hickory's `Eq` and `Ord` do:
   ASCII case aside, and a fully qualified name apart from one that is not.

   A failed `expect` is modelled as an error carrying its message. A `NodeAddr`'s direct
   addresses are a list without repetitions: `BTreeSet`'s order is not modelled, and no
   result depends on it but the order of the records in a message.

   A service name is valid when it is fully qualified and leaves room for a node id's label
   (`Name.ValidService`); every name `LocalDiscovery::subscribe` makes is
   (`subscribeServiceName_valid`). A node id is a public key that `PublicKey::from_bytes`
   reads back from its bytes, as every `NodeId` is.

   Results:
   1. `parseMessage_makeQuery`: a query reads back as the query for its service.
   2. `parseResponse_makeResponse`: the response announcing a node reads back as that
      node and exactly its direct addresses (flow information and scope id aside), under
      the service announced, however many addresses share a port; `parse_message` reads
      it the same way (`parseMessage_makeResponse`).
   3. `parseResponse_announcement`: the reading back, for every response of the shape
      `make_response` writes, whose targets differ by port. -/
namespace P2panda.Discovery

/-! ## Names -/

/-- The length of a name on the wire: each label after its length byte, then the root. -/
def wireLength (labels : List (List UInt8)) : Nat := (labels.map fun l => l.length + 1).sum + 1

@[simp] theorem wireLength_cons (l : List UInt8) (labels : List (List UInt8)) :
    wireLength (l :: labels) = l.length + 1 + wireLength labels := by
  simp only [wireLength, List.map_cons, List.sum_cons]
  omega

theorem wireLength_tail_le (labels : List (List UInt8)) :
    wireLength labels.tail ≤ wireLength labels := by
  cases labels with
  | nil => exact le_rfl
  | cons l labels => rw [List.tail_cons, wireLength_cons]; omega

/-- `hickory_proto::rr::Name`: its labels, the leftmost first, and whether it is fully
qualified. -/
structure Name where
  labels : List (List UInt8)
  isFqdn : Bool
  label_le : ∀ l ∈ labels, l.length ≤ 63
  wire_le : wireLength labels ≤ 255
  deriving DecidableEq

/-- ASCII lower case. -/
def asciiLower (b : UInt8) : UInt8 := if 65 ≤ b ∧ b ≤ 90 then b + 32 else b

/-- What names compare by in hickory's `Eq` and `Ord`. -/
def Name.key (n : Name) : Bool × List (List UInt8) := (n.isFqdn, n.labels.map (List.map asciiLower))

/-- A character of a label as its byte, in lower case. -/
def labelByte (c : Char) : UInt8 := c.toLower.toNat.toUInt8

/-- A label of ASCII text, as `Label::from_utf8` makes it: letters in lower case, digits,
`-` and `_`. -/
def labelOfText (text : List Char) : Option (List UInt8) :=
  if text ≠ [] ∧ text.all (fun c => c.isAlphanum || c == '-' || c == '_') then
    some (text.map labelByte)
  else none

/-- `Name::from_str`: the labels between the dots; a final dot makes the name fully
qualified. -/
def Name.fromStr (text : List Char) : Option Name :=
  let pieces := text.splitOn '.'
  let isFqdn := pieces.getLast? == some []
  match (if isFqdn then pieces.dropLast else pieces).mapM labelOfText with
  | none => none
  | some labels =>
    if h : (∀ l ∈ labels, l.length ≤ 63) ∧ wireLength labels ≤ 255 then
      some ⟨labels, isFqdn, h.1, h.2⟩
    else none

/-- `Name::append_domain`: the labels of `domain` after those of `n`, fully qualified. -/
def Name.appendDomain (n domain : Name) : Option Name :=
  if h : wireLength (n.labels ++ domain.labels) ≤ 255 then
    some ⟨n.labels ++ domain.labels, true,
      fun l hl => (List.mem_append.mp hl).elim (n.label_le l) (domain.label_le l), h⟩
  else none

/-- `Name::base_name`: the name without its first label. -/
def Name.baseName (n : Name) : Name :=
  ⟨n.labels.tail, n.isFqdn, fun l hl => n.label_le l (List.mem_of_mem_tail hl),
    (wireLength_tail_le n.labels).trans n.wire_le⟩

/-- The bytes of `local`. -/
def localLabel : List UInt8 := [108, 111, 99, 97, 108]

/-- `Name::from_str("local.").unwrap()` (`localName_eq`). -/
def localName : Name := ⟨[localLabel], true, by decide, by decide⟩

theorem Name.ext' {m n : Name} (hl : m.labels = n.labels) (hf : m.isFqdn = n.isFqdn) :
    m = n := by
  cases m
  cases n
  cases hl
  cases hf
  rfl

/-- A service name a node can be announced under: fully qualified, with room for the
52 bytes of a node id as one more label. -/
def Name.ValidService (s : Name) : Prop := s.isFqdn = true ∧ wireLength s.labels + 53 ≤ 255

instance (s : Name) : Decidable s.ValidService :=
  inferInstanceAs (Decidable (_ ∧ _))

/-! ## Addresses -/

structure Ipv4Addr where
  bits : UInt32
  deriving DecidableEq, Repr

structure Ipv6Addr where
  bits : BitVec 128
  deriving DecidableEq, Repr

/-- `std::net::IpAddr`. -/
inductive IpAddr where
  | v4 (addr : Ipv4Addr)
  | v6 (addr : Ipv6Addr)
  deriving DecidableEq, Repr

/-- `std::net::SocketAddr`: an IPv6 socket address also carries flow information and a
scope id. -/
inductive SocketAddr where
  | v4 (ip : Ipv4Addr) (port : UInt16)
  | v6 (ip : Ipv6Addr) (port : UInt16) (flowinfo scopeId : UInt32)
  deriving DecidableEq, Repr

def SocketAddr.ip : SocketAddr → IpAddr
  | .v4 ip _ => .v4 ip
  | .v6 ip _ _ _ => .v6 ip

def SocketAddr.port : SocketAddr → UInt16
  | .v4 _ port => port
  | .v6 _ port _ _ => port

/-- `SocketAddr::new`: an IPv6 address gets no flow information and scope id 0. -/
def SocketAddr.new : IpAddr → UInt16 → SocketAddr
  | .v4 ip, port => .v4 ip port
  | .v6 ip, port => .v6 ip port 0 0

/-- `Ord for PublicKey` (iroh's `NodeId`): its bytes, lexicographically. -/
instance : LinearOrder PublicKey := LinearOrder.lift' PublicKey.bytes PublicKey.bytes_injective

/-- iroh's `NodeAddr`, by what this module reads and writes of it: the node id and the
set of direct addresses. -/
structure NodeAddr where
  nodeId : PublicKey
  directAddresses : List SocketAddr
  nodup : directAddresses.Nodup
  deriving DecidableEq

/-! ## Messages -/

inductive DNSClass where
  | IN
  | other (code : UInt16)
  deriving DecidableEq, Repr

inductive RecordType where
  | PTR
  | other (code : UInt16)
  deriving DecidableEq, Repr

/-- `RData`, by the kinds of data this module writes or reads. -/
inductive RData where
  | A (addr : Ipv4Addr)
  | AAAA (addr : Ipv6Addr)
  | SRV (priority weight port : UInt16) (target : Name)
  | other
  deriving DecidableEq

structure Record where
  name : Name
  ttl : UInt32
  dnsClass : DNSClass
  data : RData
  deriving DecidableEq

/-- `Record::from_rdata`: of class `IN`. -/
def Record.fromRdata (name : Name) (ttl : UInt32) (data : RData) : Record := ⟨name, ttl, .IN, data⟩

structure Query where
  name : Name
  queryType : RecordType
  queryClass : DNSClass
  deriving DecidableEq

inductive MessageType where
  | query
  | response
  deriving DecidableEq, Repr

/-- `hickory_proto::op::Message`, by the sections this module writes or reads. -/
structure Message where
  messageType : MessageType
  authoritative : Bool
  queries : List Query
  answers : List Record
  additionals : List Record
  deriving DecidableEq

/-- `Message::new`. -/
def Message.new : Message := ⟨.query, false, [], [], []⟩

/-- `MulticastDNSMessage`. -/
inductive MulticastDNSMessage where
  | query (serviceName : Name)
  | response (serviceName : Name) (nodeAddrs : List NodeAddr)
  deriving DecidableEq

/-! ## Writing messages -/

/-- `make_query`. -/
def makeQuery (serviceName : Name) : Message :=
  { Message.new with messageType := .query, queries := [⟨serviceName, .PTR, .IN⟩] }

/-- `base32::encode(Alphabet::Z, bytes)`, as text. -/
def base32Text (bytes : List UInt8) : List Char :=
  (Base32.encode Base32.zAlphabet bytes).map fun b => Char.ofNat b.toNat

/-- `base32::encode(Alphabet::Z, node_id.as_bytes())`. -/
def nodeIdText (nodeId : PublicKey) : List Char := base32Text nodeId.bytes

/-- `format!("_{}._udp.local.", base32::encode(Alphabet::Z, &network_id))`
(`LocalDiscovery::subscribe`). -/
def serviceNameText (networkId : List UInt8) : List Char :=
  '_' :: base32Text networkId ++ "._udp.local.".toList

/-- The service name `LocalDiscovery::subscribe` announces and queries under. -/
def subscribeServiceName (networkId : List UInt8) : Except String Name :=
  match Name.fromStr (serviceNameText networkId) with
  | some serviceName => .ok serviceName
  | none => .error "correctly formatted DNS name"

/-- `format!("{}-{}.local.", node_id_str, port)`. -/
def targetText (nodeIdStr : List Char) (port : UInt16) : List Char :=
  nodeIdStr ++ '-' :: Nat.toDigits 10 port.toNat ++ ".local.".toList

/-- The additional record of one address of a target: A for IPv4, AAAA for IPv6. -/
def addressRecord (target : Name) : IpAddr → Record
  | .v4 addr => Record.fromRdata target 0 (.A addr)
  | .v6 addr => Record.fromRdata target 0 (.AAAA addr)

/-- The records of one port of `srv_map`: the SRV answer naming the port's target, and an
address record of the target for each address. -/
def portRecords (nodeIdStr : List Char) (mySrvName : Name) (port : UInt16) (addrs : List IpAddr) :
    Except String (Record × List Record) :=
  match Name.fromStr (targetText nodeIdStr port) with
  | none => .error "node was checked already"
  | some target =>
    .ok (Record.fromRdata mySrvName 0 (.SRV 0 0 port target),
      addrs.map (addressRecord target))

/-- `srv_map`: the addresses of the direct addresses, grouped by port. -/
def srvMap (nodeAddr : NodeAddr) : VecMap UInt16 IpAddr :=
  nodeAddr.directAddresses.foldl (fun m addr => m.push addr.port addr.ip) VecMap.empty

/-- `make_response`. -/
def makeResponse (serviceName : Name) (nodeAddr : NodeAddr) : Except String Message :=
  let nodeIdStr := nodeIdText nodeAddr.nodeId
  match Name.fromStr nodeIdStr with
  | none => .error "node id was checked already"
  | some label =>
    match label.appendDomain serviceName with
    | none => .error "was checked already"
    | some mySrvName =>
      match (srvMap nodeAddr).toList.mapM (fun g => portRecords nodeIdStr mySrvName g.1 g.2) with
      | .error e => .error e
      | .ok groups =>
        .ok { Message.new with
          messageType := .response, authoritative := true,
          answers := groups.map (·.1), additionals := groups.flatMap (·.2) }

/-! ## Reading messages -/

/-- `parse_query`: the first query of class `IN` and type `PTR`. -/
def parseQuery (message : Message) : Option MulticastDNSMessage :=
  (message.queries.find? fun q => q.queryClass == .IN && q.queryType == .PTR).map
    fun q => .query q.name

section Parse

variable (P : Primitives)

/-- The node id of the first label of `name`: z-base-32 text of 32 bytes of a public key.
`from_utf8_lossy` refuses what is not UTF-8 and `base32::decode` what is not ASCII; both
are bytes outside the alphabet, which `decode` refuses too. -/
def nodeIdOfName (name : Name) : Option PublicKey :=
  match name.labels with
  | [] => none
  | label :: _ =>
    match Base32.decode Base32.zAlphabet label with
    | none => none
    | some decoded =>
      if decoded.length = 32 then
        match P.keyFromBytes decoded with
        | .ok nodeId => some nodeId
        | .error _ => none
      else none

/-- One turn of the loop over the answers: the service from the first answer, and the
target of an SRV answer with the port and node id it names. -/
def answerStep (acc : VecMap (Bool × List (List UInt8)) (UInt16 × PublicKey) × Option Name)
    (answer : Record) : VecMap (Bool × List (List UInt8)) (UInt16 × PublicKey) × Option Name :=
  let (peerPorts, serviceName) := acc
  if answer.dnsClass ≠ .IN then acc
  else
    -- the service name is set before the node id and the data are checked
    let serviceName := match serviceName with
      | some name => some name
      | none => some answer.name.baseName
    match nodeIdOfName P answer.name with
    | none => (peerPorts, serviceName)
    | some nodeId =>
      match answer.data with
      | .SRV _ _ port target => (peerPorts.push target.key (port, nodeId), serviceName)
      | _ => (peerPorts, serviceName)

/-- The address of an A or AAAA record. -/
def ipOf : RData → Option IpAddr
  | .A addr => some (.v4 addr)
  | .AAAA addr => some (.v6 addr)
  | _ => none

/-- What one additional record adds to `peer_addrs`: its address with each port and
node its name is the target of. -/
def additionalPushes (peerPorts : VecMap (Bool × List (List UInt8)) (UInt16 × PublicKey))
    (additional : Record) : List (PublicKey × (IpAddr × UInt16)) :=
  if additional.dnsClass ≠ .IN then []
  else if additional.name.baseName.key ≠ localName.key then []
  else
    match ipOf additional.data with
    | none => []
    | some ip => (peerPorts.get additional.name.key).map fun (port, peerId) => (peerId, (ip, port))

/-- The node a response announces, with its addresses and ports: sorted and deduplicated,
then collected into a `BTreeSet` of socket addresses. -/
def NodeAddr.ofAddrs (peerId : PublicKey) (addrs : List (IpAddr × UInt16)) : NodeAddr :=
  ⟨peerId, (addrs.dedup.map fun (ip, port) => SocketAddr.new ip port).dedup, List.nodup_dedup _⟩

/-- `peer_addrs` after the loop over the additional records. -/
def collectPeerAddrs (peerPorts : VecMap (Bool × List (List UInt8)) (UInt16 × PublicKey))
    (additionals : List Record) : VecMap PublicKey (IpAddr × UInt16) :=
  additionals.foldl (fun m additional => (additionalPushes peerPorts additional).foldl
    (fun m kv => m.push kv.1 kv.2) m) VecMap.empty

/-- `parse_response`. -/
def parseResponse (message : Message) : Option MulticastDNSMessage :=
  let (peerPorts, serviceName) := message.answers.foldl (answerStep P) (VecMap.empty, none)
  let peerAddrs := collectPeerAddrs peerPorts message.additionals
  if peerAddrs.isEmpty then none
  else
    let ret := peerAddrs.toList.map fun (peerId, addrs) => NodeAddr.ofAddrs peerId addrs
    match serviceName with
    | some serviceName => some (.response serviceName ret)
    | none => none

/-- `parse_message`, from the decoded message: a query first, then a response. -/
def parseMessage (message : Message) : Option MulticastDNSMessage :=
  match parseQuery message with
  | some query => some query
  | none => parseResponse P message

end Parse

/-! ## The names `make_response` writes -/

section Texts

/-- What the text of a node id is made of: the characters of the alphabet's bytes, none a
dot, each a letter or a digit, and each read back as its byte. -/
theorem zAlphabet_char : ∀ b ∈ Base32.zAlphabet,
    Char.ofNat b.toNat ≠ '.' ∧ (Char.ofNat b.toNat).isAlphanum = true ∧
      labelByte (Char.ofNat b.toNat) = b := by
  decide +kernel

/-- A property of every decimal digit, checked digit by digit. -/
theorem digit_forall {P : Char → Prop} (h : ∀ n < 10, P (Char.ofNat (48 + n))) (c : Char)
    (hc : c.isDigit = true) : P c := by
  have hb : 48 ≤ c.toNat ∧ c.toNat ≤ 57 := by
    simp only [Char.isDigit, Bool.and_eq_true, decide_eq_true_eq] at hc
    exact ⟨hc.1, hc.2⟩
  have := h (c.toNat - 48) (by omega)
  rwa [Nat.add_sub_cancel' hb.1, Char.ofNat_toNat] at this

/-- A digit is no dot, is alphanumeric, and its byte is no capital and gives it back. -/
theorem digit_char (c : Char) (hc : c.isDigit = true) :
    c ≠ '.' ∧ c.isAlphanum = true ∧ asciiLower (labelByte c) = labelByte c ∧
      Char.ofNat (labelByte c).toNat = c :=
  digit_forall (P := fun c => c ≠ '.' ∧ c.isAlphanum = true ∧
      asciiLower (labelByte c) = labelByte c ∧ Char.ofNat (labelByte c).toNat = c)
    (by decide) c hc

theorem length_nodeIdText (k : PublicKey) : (nodeIdText k).length = 52 := by
  rw [nodeIdText, base32Text, List.length_map, Base32.length_encode, k.length_eq]

theorem base32Text_char {bytes : List UInt8} {c : Char} (hc : c ∈ base32Text bytes) :
    c ≠ '.' ∧ c.isAlphanum = true := by
  obtain ⟨b, hb, rfl⟩ := List.mem_map.mp hc
  have := zAlphabet_char b (Base32.mem_encode Base32.zAlphabet Base32.zAlphabet_length hb)
  exact ⟨this.1, this.2.1⟩

/-- The label of z-base-32 text is the encoding it was written from. -/
theorem map_labelByte_base32Text (bytes : List UInt8) :
    (base32Text bytes).map labelByte = Base32.encode Base32.zAlphabet bytes := by
  rw [base32Text, List.map_map]
  refine (List.map_congr_left fun b hb => ?_).trans (List.map_id _)
  exact (zAlphabet_char b (Base32.mem_encode Base32.zAlphabet Base32.zAlphabet_length hb)).2.2

theorem map_labelByte_nodeIdText (k : PublicKey) :
    (nodeIdText k).map labelByte = Base32.encode Base32.zAlphabet k.bytes :=
  map_labelByte_base32Text k.bytes

theorem digits_char {n : Nat} {c : Char} (hc : c ∈ Nat.toDigits 10 n) :
    c ≠ '.' ∧ c.isAlphanum = true ∧ asciiLower (labelByte c) = labelByte c ∧
      Char.ofNat (labelByte c).toNat = c :=
  digit_char c (Nat.isDigit_of_mem_toDigits (by decide) (by decide) hc)

theorem length_portDigits (port : UInt16) : (Nat.toDigits 10 port.toNat).length ≤ 5 :=
  (Nat.length_toDigits_le_iff (by decide) (by decide)).mpr
    (lt_of_lt_of_le port.toNat_lt (by decide))

/-- The label of a port's digits gives the port back, capitals aside. -/
theorem port_eq_of_digits {p q : UInt16}
    (h : ((Nat.toDigits 10 p.toNat).map labelByte).map asciiLower =
      ((Nat.toDigits 10 q.toNat).map labelByte).map asciiLower) : p = q := by
  -- on digits, `asciiLower` changes nothing and `Char.ofNat` undoes `labelByte`
  have hback : ∀ n : Nat, (((Nat.toDigits 10 n).map labelByte).map asciiLower).map
      (fun b => Char.ofNat b.toNat) = Nat.toDigits 10 n := by
    intro n
    rw [List.map_map, List.map_map]
    refine (List.map_congr_left fun c hc => ?_).trans (List.map_id _)
    have hd := digits_char hc
    simp only [Function.comp_apply, hd.2.2.1, hd.2.2.2, id]
  have hdigits : Nat.toDigits 10 p.toNat = Nat.toDigits 10 q.toNat := by
    rw [← hback p.toNat, h, hback]
  have hnat : p.toNat = q.toNat := by
    rw [← Nat.ofDigitChars_ten_toDigits (n := p.toNat), hdigits, Nat.ofDigitChars_ten_toDigits]
  exact UInt16.toNat_inj.mp hnat

theorem labelOfText_eq {text : List Char} (hne : text ≠ [])
    (hc : ∀ c ∈ text, c.isAlphanum = true ∨ c = '-' ∨ c = '_') :
    labelOfText text = some (text.map labelByte) := by
  have hall : text.all (fun c => c.isAlphanum || c == '-' || c == '_') = true := by
    refine List.all_eq_true.mpr fun c hmem => ?_
    rcases hc c hmem with h | rfl | rfl
    · simp [h]
    · rfl
    · rfl
  simp only [labelOfText, ne_eq, hne, not_false_eq_true, hall, and_self, if_true]

theorem fromStr_nodeIdText (k : PublicKey) :
    ∃ label : Name, Name.fromStr (nodeIdText k) = some label ∧
      label.labels = [Base32.encode Base32.zAlphabet k.bytes] ∧ label.isFqdn = false := by
  have hne : nodeIdText k ≠ [] := by
    intro h
    have := length_nodeIdText k
    rw [h] at this
    cases this
  have hsplit : (nodeIdText k).splitOn '.' = [nodeIdText k] :=
    List.splitOn_eq_singleton fun h => (base32Text_char h).1 rfl
  have hlabel : labelOfText (nodeIdText k) = some (Base32.encode Base32.zAlphabet k.bytes) := by
    rw [labelOfText_eq hne fun c hc => .inl (base32Text_char hc).2, map_labelByte_nodeIdText]
  have hlen : (Base32.encode Base32.zAlphabet k.bytes).length = 52 := by
    rw [← map_labelByte_nodeIdText, List.length_map, length_nodeIdText]
  have hok : (∀ l ∈ [Base32.encode Base32.zAlphabet k.bytes], l.length ≤ 63) ∧
      wireLength [Base32.encode Base32.zAlphabet k.bytes] ≤ 255 := by
    simp [wireLength, hlen]
  have hfqdn : (some (nodeIdText k) == some []) = false := by simp [hne]
  have hmap : [nodeIdText k].mapM labelOfText = some [Base32.encode Base32.zAlphabet k.bytes] :=
    Base32.mapM_eq_some_map (g := fun _ => Base32.encode Base32.zAlphabet k.bytes)
      fun t ht => by rw [List.mem_singleton.mp ht, hlabel]
  simp only [Name.fromStr, hsplit, List.getLast?_singleton, hfqdn, Bool.false_eq_true, if_false,
    hmap, dif_pos hok]
  exact ⟨_, rfl, rfl, rfl⟩

/-- Labels, each followed by a dot, parse as the fully qualified name of their bytes. -/
theorem fromStr_fqdn {pieces : List (List Char)} {labels : List (List UInt8)}
    (hdot : ∀ l ∈ pieces, '.' ∉ l) (hmap : pieces.mapM labelOfText = some labels)
    (hok : (∀ l ∈ labels, l.length ≤ 63) ∧ wireLength labels ≤ 255) :
    ∃ n : Name, Name.fromStr (['.'].intercalate (pieces ++ [[]])) = some n ∧
      n.labels = labels ∧ n.isFqdn = true := by
  have hsplit : (['.'].intercalate (pieces ++ [[]])).splitOn '.' = pieces ++ [[]] := by
    refine List.splitOn_intercalate '.' (fun l hl => ?_) (by simp)
    rcases List.mem_append.mp hl with hl | hl
    · exact hdot l hl
    · rw [List.mem_singleton.mp hl]
      exact List.not_mem_nil
  simp only [Name.fromStr, hsplit, List.getLast?_append, List.getLast?_singleton, Option.some_or,
    beq_self_eq_true, if_true, List.dropLast_concat, hmap, dif_pos hok]
  exact ⟨_, rfl, rfl, rfl⟩

theorem fromStr_targetText (k : PublicKey) (port : UInt16) :
    ∃ target : Name, Name.fromStr (targetText (nodeIdText k) port) = some target ∧
      target.labels = [Base32.encode Base32.zAlphabet k.bytes ++
        45 :: (Nat.toDigits 10 port.toNat).map labelByte, localLabel] ∧
      target.isFqdn = true := by
  -- the text is the label of the node id and the port, then `local`, each before a dot
  have htext : targetText (nodeIdText k) port =
      ['.'].intercalate ([nodeIdText k ++ '-' :: Nat.toDigits 10 port.toNat, "local".toList] ++
        [[]]) := by
    simp [targetText, List.intercalate_cons_cons]
  have hchar : ∀ c ∈ nodeIdText k ++ '-' :: Nat.toDigits 10 port.toNat,
      c ≠ '.' ∧ (c.isAlphanum = true ∨ c = '-' ∨ c = '_') := by
    intro c hc
    rcases List.mem_append.mp hc with hc | hc
    · exact ⟨(base32Text_char hc).1, .inl (base32Text_char hc).2⟩
    · rcases List.mem_cons.mp hc with rfl | hc
      · exact ⟨by decide, .inr (.inl rfl)⟩
      · exact ⟨(digits_char hc).1, .inl (digits_char hc).2.1⟩
  have hdot : ∀ l ∈ [nodeIdText k ++ '-' :: Nat.toDigits 10 port.toNat, "local".toList],
      '.' ∉ l := by
    intro l hl
    rcases List.mem_cons.mp hl with rfl | hl
    · exact fun h => (hchar '.' h).1 rfl
    · rw [List.mem_singleton.mp hl]
      decide
  have hlabel : labelOfText (nodeIdText k ++ '-' :: Nat.toDigits 10 port.toNat) =
      some (Base32.encode Base32.zAlphabet k.bytes ++
        45 :: (Nat.toDigits 10 port.toNat).map labelByte) := by
    rw [labelOfText_eq (by simp) fun c hc => (hchar c hc).2, List.map_append,
      map_labelByte_nodeIdText, List.map_cons]
    rfl
  have hmap : [nodeIdText k ++ '-' :: Nat.toDigits 10 port.toNat, "local".toList].mapM
      labelOfText = some [Base32.encode Base32.zAlphabet k.bytes ++
        45 :: (Nat.toDigits 10 port.toNat).map labelByte, localLabel] := by
    simp only [List.mapM_cons, List.mapM_nil, hlabel]
    rfl
  have hlen : (Base32.encode Base32.zAlphabet k.bytes).length = 52 := by
    rw [← map_labelByte_nodeIdText, List.length_map, length_nodeIdText]
  have hdigits := length_portDigits port
  have hwire : wireLength [Base32.encode Base32.zAlphabet k.bytes ++
      45 :: (Nat.toDigits 10 port.toNat).map labelByte, localLabel] =
        (Nat.toDigits 10 port.toNat).length + 61 := by
    simp only [wireLength, List.map_cons, List.map_nil, List.sum_cons, List.sum_nil,
      List.length_append, List.length_cons, List.length_map, hlen, localLabel, List.length_nil]
    omega
  have hok : (∀ l ∈ [Base32.encode Base32.zAlphabet k.bytes ++
        45 :: (Nat.toDigits 10 port.toNat).map labelByte, localLabel], l.length ≤ 63) ∧
      wireLength [Base32.encode Base32.zAlphabet k.bytes ++
        45 :: (Nat.toDigits 10 port.toNat).map labelByte, localLabel] ≤ 255 := by
    refine ⟨fun l hl => ?_, by omega⟩
    simp only [List.mem_cons, List.not_mem_nil, or_false] at hl
    rcases hl with rfl | rfl
    · simp only [List.length_append, List.length_cons, List.length_map, hlen]
      omega
    · decide
  rw [htext]
  exact fromStr_fqdn hdot hmap hok

/-- The labels of a network's service name take 66 bytes on the wire: `_` and the network
id's 52 characters, `_udp` and `local`. -/
theorem wireLength_serviceLabels {networkId : List UInt8} (hid : networkId.length = 32) :
    wireLength [95 :: Base32.encode Base32.zAlphabet networkId, [95, 117, 100, 112],
      localLabel] = 66 := by
  have hlen : (Base32.encode Base32.zAlphabet networkId).length = 52 := by
    rw [Base32.length_encode, hid]
  simp only [wireLength, List.map_cons, List.map_nil, List.sum_cons, List.sum_nil,
    List.length_cons, hlen, localLabel, List.length_nil]
  omega

/-- The name `LocalDiscovery::subscribe` makes of a network id: the labels `_` and the id in
z-base-32, `_udp` and `local`, fully qualified. -/
theorem subscribeServiceName_eq (networkId : List UInt8) (hid : networkId.length = 32) :
    ∃ serviceName, subscribeServiceName networkId = .ok serviceName ∧
      serviceName.labels = [95 :: Base32.encode Base32.zAlphabet networkId, [95, 117, 100, 112],
        localLabel] ∧ serviceName.isFqdn = true := by
  have htext : serviceNameText networkId =
      ['.'].intercalate (['_' :: base32Text networkId, "_udp".toList, "local".toList] ++ [[]]) := by
    simp [serviceNameText, List.intercalate_cons_cons]
  have hdot : ∀ l ∈ ['_' :: base32Text networkId, "_udp".toList, "local".toList], '.' ∉ l := by
    intro l hl
    simp only [List.mem_cons, List.not_mem_nil, or_false] at hl
    rcases hl with rfl | rfl | rfl
    · rintro (_ | ⟨_, h⟩)
      exact (base32Text_char h).1 rfl
    · decide
    · decide
  have hlabel : labelOfText ('_' :: base32Text networkId) =
      some (95 :: Base32.encode Base32.zAlphabet networkId) := by
    rw [labelOfText_eq (by simp) fun c hc => ?_, List.map_cons, map_labelByte_base32Text]
    · rfl
    · rcases List.mem_cons.mp hc with rfl | hc
      · exact .inr (.inr rfl)
      · exact .inl (base32Text_char hc).2
  have hmap : ['_' :: base32Text networkId, "_udp".toList, "local".toList].mapM labelOfText =
      some [95 :: Base32.encode Base32.zAlphabet networkId, [95, 117, 100, 112], localLabel] := by
    simp only [List.mapM_cons, List.mapM_nil, hlabel]
    rfl
  have hlen : (Base32.encode Base32.zAlphabet networkId).length = 52 := by
    rw [Base32.length_encode, hid]
  have hok : (∀ l ∈ [95 :: Base32.encode Base32.zAlphabet networkId, [95, 117, 100, 112],
        localLabel], l.length ≤ 63) ∧
      wireLength [95 :: Base32.encode Base32.zAlphabet networkId, [95, 117, 100, 112],
        localLabel] ≤ 255 := by
    refine ⟨fun l hl => ?_, by rw [wireLength_serviceLabels hid]; omega⟩
    simp only [List.mem_cons, List.not_mem_nil, or_false] at hl
    rcases hl with rfl | rfl | rfl
    · rw [List.length_cons, hlen]
      omega
    · decide
    · decide
  obtain ⟨serviceName, hname, hlabels, hfqdn⟩ := fromStr_fqdn hdot hmap hok
  exact ⟨serviceName, by rw [subscribeServiceName, htext, hname], hlabels, hfqdn⟩

/-- The service name of every network is valid: its 66 bytes leave room for a node id's
label. -/
theorem subscribeServiceName_valid (networkId : List UInt8) (hid : networkId.length = 32) :
    ∃ serviceName, subscribeServiceName networkId = .ok serviceName ∧
      serviceName.ValidService := by
  obtain ⟨serviceName, hname, hlabels, hfqdn⟩ := subscribeServiceName_eq networkId hid
  refine ⟨serviceName, hname, hfqdn, ?_⟩
  rw [hlabels, wireLength_serviceLabels hid]
  omega

/-- The alphabet has no capitals. -/
theorem zAlphabet_asciiLower : ∀ b ∈ Base32.zAlphabet, asciiLower b = b := by
  decide +kernel

/-- Two network ids whose service names compare equal are one id: the names differ in the
id's z-base-32 text, which has no capitals and decodes back. -/
theorem subscribeServiceName_key_injective {networkId networkId' : List UInt8} {s s' : Name}
    (hid : networkId.length = 32) (hid' : networkId'.length = 32)
    (hs : subscribeServiceName networkId = .ok s) (hs' : subscribeServiceName networkId' = .ok s')
    (hkey : s.key = s'.key) : networkId = networkId' := by
  obtain ⟨t, ht, hlabels, -⟩ := subscribeServiceName_eq networkId hid
  obtain ⟨t', ht', hlabels', -⟩ := subscribeServiceName_eq networkId' hid'
  rw [hs, Except.ok.injEq] at ht
  rw [hs', Except.ok.injEq] at ht'
  subst ht ht'
  have hlower : ∀ bytes : List UInt8,
      (Base32.encode Base32.zAlphabet bytes).map asciiLower = Base32.encode Base32.zAlphabet bytes :=
    fun bytes => (List.map_congr_left fun b hb =>
      zAlphabet_asciiLower b (Base32.mem_encode Base32.zAlphabet Base32.zAlphabet_length hb)).trans
      (List.map_id _)
  have henc : Base32.encode Base32.zAlphabet networkId = Base32.encode Base32.zAlphabet networkId' := by
    simp only [Name.key, hlabels, hlabels', List.map_cons, Prod.mk.injEq, List.cons.injEq,
      hlower] at hkey
    exact hkey.2.1.2
  have hdecode := Base32.decode_encode Base32.zAlphabet Base32.zAlphabet_length Base32.zAlphabet_nodup
  exact Option.some.inj ((hdecode networkId).symm.trans (henc ▸ hdecode networkId'))

end Texts

/-! ## Reading a response back -/

section Readback

variable (P : Primitives)

@[simp] theorem baseName_labels (n : Name) : n.baseName.labels = n.labels.tail := rfl

@[simp] theorem baseName_isFqdn (n : Name) : n.baseName.isFqdn = n.isFqdn := rfl

theorem nodeIdOfName_eq {name : Name} {k : PublicKey} {rest : List (List UInt8)}
    (hname : name.labels = Base32.encode Base32.zAlphabet k.bytes :: rest)
    (hkey : P.keyFromBytes k.bytes = .ok k) : nodeIdOfName P name = some k := by
  simp only [nodeIdOfName, hname,
    Base32.decode_encode Base32.zAlphabet Base32.zAlphabet_length Base32.zAlphabet_nodup,
    k.length_eq, if_true, hkey]

/-- An SRV answer of `name` records its target with the port and the node id of `name`,
and the service is the one already found or else the base of `name`. -/
theorem answerStep_srv {name : Name} {k : PublicKey} (hk : nodeIdOfName P name = some k)
    (m : VecMap (Bool × List (List UInt8)) (UInt16 × PublicKey)) (serviceName : Option Name)
    (priority weight port : UInt16) (target : Name) :
    answerStep P (m, serviceName) (Record.fromRdata name 0 (.SRV priority weight port target)) =
      (m.push target.key (port, k), some (serviceName.getD name.baseName)) := by
  cases serviceName <;> simp [answerStep, Record.fromRdata, hk]

/-- Once the service is known, the SRV answers of `name` only record their targets. -/
theorem foldl_answerStep_srv {name : Name} {k : PublicKey} (hk : nodeIdOfName P name = some k)
    (target : UInt16 → Name) (ports : List UInt16) :
    ∀ (m : VecMap (Bool × List (List UInt8)) (UInt16 × PublicKey)) (x : Name),
      (ports.map fun p => Record.fromRdata name 0 (.SRV 0 0 p (target p))).foldl (answerStep P)
        (m, some x) = (⟨m.pushes ++ ports.map fun p => ((target p).key, (p, k))⟩, some x) := by
  induction ports with
  | nil => intro m x; simp
  | cons p ports ih =>
    intro m x
    rw [List.map_cons, List.foldl_cons, answerStep_srv P hk, Option.getD_some, ih]
    simp

/-- An address record of a name under `local.` adds its address with each port and node
recorded for the name. -/
theorem additionalPushes_addressRecord
    (m : VecMap (Bool × List (List UInt8)) (UInt16 × PublicKey)) {target : Name}
    (hbase : target.baseName = localName) (ip : IpAddr) :
    additionalPushes m (addressRecord target ip) =
      (m.get target.key).map fun pk => (pk.2, (ip, pk.1)) := by
  cases ip <;> simp [additionalPushes, addressRecord, Record.fromRdata, hbase, ipOf]

theorem collectPeerAddrs_pushes (m : VecMap (Bool × List (List UInt8)) (UInt16 × PublicKey))
    (additionals : List Record) :
    (collectPeerAddrs m additionals).pushes = additionals.flatMap (additionalPushes m) := by
  rw [collectPeerAddrs, VecMap.pushes_foldl_flatMap, VecMap.pushes_empty, List.nil_append]

section Announcement

/-! A response of the shape `make_response` writes: for each port of `srvs`, an SRV answer
of `srvName` whose target is `target port`, and an address record of that target for each
address of the port. Read back, it gives the service of `srvName`, the node of its first
label, and every address with its port. -/

variable {P : Primitives} {srvName s : Name} {k : PublicKey} {target : UInt16 → Name}
  (hk : nodeIdOfName P srvName = some k) (hbase : srvName.baseName = s)
  (hlocal : ∀ p, (target p).baseName = localName)
  (hinj : ∀ p q, (target p).key = (target q).key → p = q)
  (srvs : VecMap UInt16 IpAddr)

/-- The answers of the response. -/
def announcementAnswers (srvName : Name) (target : UInt16 → Name)
    (srvs : VecMap UInt16 IpAddr) : List Record :=
  srvs.keys.toList.map fun p => Record.fromRdata srvName 0 (.SRV 0 0 p (target p))

/-- The additional records of the response. -/
def announcementAdditionals (target : UInt16 → Name) (srvs : VecMap UInt16 IpAddr) :
    List Record :=
  srvs.keys.toList.flatMap fun p => (srvs.get p).map (addressRecord (target p))

include hinj in
/-- The nodes recorded for a target: the node, with the target's own port. -/
theorem mem_get_targets {p : UInt16} (hp : p ∈ srvs.keys.toList) (pk : UInt16 × PublicKey) :
    pk ∈ (⟨srvs.keys.toList.map fun q => ((target q).key, (q, k))⟩ :
      VecMap (Bool × List (List UInt8)) (UInt16 × PublicKey)).get (target p).key ↔ pk = (p, k) := by
  rw [VecMap.mem_get, List.mem_map]
  constructor
  · rintro ⟨q, -, hq⟩
    simp only [Prod.mk.injEq] at hq
    obtain ⟨hkey, rfl⟩ := hq
    rw [hinj q p hkey]
  · rintro rfl
    exact ⟨p, hp, rfl⟩

include hlocal hinj in
/-- `peer_addrs` holds the node with exactly the addresses and ports of `srvs`. -/
theorem mem_collectPeerAddrs (peerId : PublicKey) (ip : IpAddr) (port : UInt16) :
    (peerId, (ip, port)) ∈ (collectPeerAddrs
      ⟨srvs.keys.toList.map fun q => ((target q).key, (q, k))⟩
      (announcementAdditionals target srvs)).pushes ↔
      peerId = k ∧ (port, ip) ∈ srvs.pushes := by
  rw [collectPeerAddrs_pushes, List.mem_flatMap]
  constructor
  · rintro ⟨r, hr, hmem⟩
    obtain ⟨p, hp, hr⟩ := List.mem_flatMap.mp hr
    obtain ⟨ip', hip', rfl⟩ := List.mem_map.mp hr
    rw [additionalPushes_addressRecord _ (hlocal p)] at hmem
    obtain ⟨pk, hpk, heq⟩ := List.mem_map.mp hmem
    rw [mem_get_targets hinj srvs hp] at hpk
    subst hpk
    simp only [Prod.mk.injEq] at heq
    obtain ⟨rfl, rfl, rfl⟩ := heq
    exact ⟨rfl, VecMap.mem_get.mp hip'⟩
  · rintro ⟨rfl, hmem⟩
    have hp : port ∈ srvs.keys.toList := VecMap.mem_keys.mpr ⟨ip, hmem⟩
    refine ⟨addressRecord (target port) ip,
      List.mem_flatMap.mpr ⟨port, hp, List.mem_map.mpr ⟨ip, VecMap.mem_get.mpr hmem, rfl⟩⟩, ?_⟩
    rw [additionalPushes_addressRecord _ (hlocal port)]
    exact List.mem_map.mpr ⟨(port, peerId), (mem_get_targets hinj srvs hp _).mpr rfl, rfl⟩

include hk hbase hlocal hinj in
/-- The response reads back as one node: the node of `srvName`, with the addresses of
`srvs` at their ports, under the service `s`. -/
theorem parseResponse_announcement (hne : srvs.pushes ≠ []) :
    ∃ n : NodeAddr, parseResponse P { Message.new with
        messageType := .response, authoritative := true,
        answers := announcementAnswers srvName target srvs,
        additionals := announcementAdditionals target srvs } = some (.response s [n]) ∧
      n.nodeId = k ∧
      ∀ x, x ∈ n.directAddresses ↔ ∃ port ip, (port, ip) ∈ srvs.pushes ∧ x = SocketAddr.new ip port := by
  obtain ⟨⟨port₀, ip₀⟩, hmem₀⟩ := List.exists_mem_of_ne_nil _ hne
  -- the first answer finds the service, and every answer records its target
  have hports : srvs.keys.toList ≠ [] :=
    List.ne_nil_of_mem (SortedSet.mem_toList.mpr (VecMap.mem_keys.mpr ⟨ip₀, hmem₀⟩))
  obtain ⟨p₀, ps, hps⟩ := List.exists_cons_of_ne_nil hports
  have hanswers : (announcementAnswers srvName target srvs).foldl (answerStep P)
      (VecMap.empty, none) = (⟨srvs.keys.toList.map fun q => ((target q).key, (q, k))⟩, some s) := by
    rw [announcementAnswers, hps, List.map_cons, List.foldl_cons, answerStep_srv P hk,
      foldl_answerStep_srv P hk]
    simp [hbase]
  -- `peer_addrs` holds the one node, and is not empty
  have hpeer := mem_collectPeerAddrs hlocal hinj srvs (k := k)
  have hempty : (collectPeerAddrs ⟨srvs.keys.toList.map fun q => ((target q).key, (q, k))⟩
      (announcementAdditionals target srvs)).isEmpty = false := by
    rw [Bool.eq_false_iff, ne_eq, VecMap.isEmpty_iff]
    intro hnil
    have := (hpeer k ip₀ port₀).mpr ⟨rfl, hmem₀⟩
    rw [hnil] at this
    cases this
  have hkeys : (collectPeerAddrs ⟨srvs.keys.toList.map fun q => ((target q).key, (q, k))⟩
      (announcementAdditionals target srvs)).keys.toList = [k] := by
    refine SortedSet.toList_eq_singleton fun y => ?_
    rw [VecMap.mem_keys]
    constructor
    · rintro ⟨⟨ip, port⟩, hy⟩
      exact ((hpeer y ip port).mp hy).1
    · intro hy
      rw [hy]
      exact ⟨(ip₀, port₀), (hpeer k ip₀ port₀).mpr ⟨rfl, hmem₀⟩⟩
  refine ⟨NodeAddr.ofAddrs k ((collectPeerAddrs
    ⟨srvs.keys.toList.map fun q => ((target q).key, (q, k))⟩
    (announcementAdditionals target srvs)).get k), ?_, rfl, ?_⟩
  · simp only [parseResponse, hanswers, hempty, Bool.false_eq_true, if_false, VecMap.toList, hkeys,
      List.map_cons, List.map_nil]
  · intro x
    simp only [NodeAddr.ofAddrs, List.mem_dedup, List.mem_map, VecMap.mem_get, Prod.exists, hpeer,
      true_and]
    constructor
    · rintro ⟨ip, port, hmem, rfl⟩
      exact ⟨port, ip, hmem, rfl⟩
    · rintro ⟨port, ip, hmem, rfl⟩
      exact ⟨ip, port, hmem, rfl⟩

end Announcement

end Readback

/-! ## The round trip -/

section RoundTrip

theorem srvMap_pushes (a : NodeAddr) :
    (srvMap a).pushes = a.directAddresses.map fun y => (y.port, y.ip) := by
  rw [srvMap, VecMap.pushes_foldl_map SocketAddr.port SocketAddr.ip, VecMap.pushes_empty,
    List.nil_append]

/-- What `make_response` writes for a valid service: an announcement of the node's
`srv_map` under the node id's label and the service, with targets under `local.`. -/
theorem makeResponse_eq {s : Name} (hs : s.ValidService) (a : NodeAddr) :
    ∃ (srvName : Name) (target : UInt16 → Name),
      srvName.labels = Base32.encode Base32.zAlphabet a.nodeId.bytes :: s.labels ∧
      srvName.isFqdn = true ∧
      (∀ p, (target p).labels = [Base32.encode Base32.zAlphabet a.nodeId.bytes ++
        45 :: (Nat.toDigits 10 p.toNat).map labelByte, localLabel] ∧ (target p).isFqdn = true) ∧
      makeResponse s a = .ok { Message.new with
        messageType := .response, authoritative := true,
        answers := announcementAnswers srvName target (srvMap a),
        additionals := announcementAdditionals target (srvMap a) } := by
  obtain ⟨label, hlabel, hll, -⟩ := fromStr_nodeIdText a.nodeId
  -- the node id's label leaves room for the service within 255 bytes
  have hlen : (Base32.encode Base32.zAlphabet a.nodeId.bytes).length = 52 := by
    rw [← map_labelByte_nodeIdText, List.length_map, length_nodeIdText]
  have hwire : wireLength (label.labels ++ s.labels) ≤ 255 := by
    have := hs.2
    rw [hll, List.singleton_append, wireLength_cons, hlen]
    omega
  obtain ⟨srvName, hsrv, hsl⟩ : ∃ srvName, label.appendDomain s = some srvName ∧
      srvName.labels = Base32.encode Base32.zAlphabet a.nodeId.bytes :: s.labels :=
    ⟨_, dif_pos hwire, by simp [hll]⟩
  have hsf : srvName.isFqdn = true := by
    simp only [Name.appendDomain, dif_pos hwire, Option.some.injEq] at hsrv
    rw [← hsrv]
  choose target htarget hlabels hfqdn using fromStr_targetText a.nodeId
  -- every port's records are made, with the port's target
  have hgroups : (srvMap a).toList.mapM
      (fun g => portRecords (nodeIdText a.nodeId) srvName g.1 g.2) =
        .ok ((srvMap a).toList.map fun g => (Record.fromRdata srvName 0
          (.SRV 0 0 g.1 (target g.1)), g.2.map (addressRecord (target g.1)))) :=
    Except.mapM_eq_ok_map fun g _ => by simp only [portRecords, htarget]
  refine ⟨srvName, target, hsl, hsf, fun p => ⟨hlabels p, hfqdn p⟩, ?_⟩
  simp only [makeResponse, hlabel, hsrv, hgroups, announcementAnswers, announcementAdditionals]
  simp only [VecMap.toList, List.map_map, List.flatMap_map]
  rfl

/-- Two targets with the same key are the targets of one port: past the node id's label,
the port's digits differ. -/
theorem target_key_injective {k : PublicKey} {target : UInt16 → Name}
    (htarget : ∀ p, (target p).labels = [Base32.encode Base32.zAlphabet k.bytes ++
      45 :: (Nat.toDigits 10 p.toNat).map labelByte, localLabel])
    (p q : UInt16) (h : (target p).key = (target q).key) : p = q := by
  simp only [Name.key, htarget, List.map_cons, List.map_nil, List.map_append, Prod.mk.injEq,
    List.cons.injEq, List.append_cancel_left_eq] at h
  exact port_eq_of_digits h.2.1.2

theorem parseResponse_makeResponse (P : Primitives) {s : Name} (hs : s.ValidService) (a : NodeAddr)
    (hkey : P.keyFromBytes a.nodeId.bytes = .ok a.nodeId) (ha : a.directAddresses ≠ []) :
    ∃ msg n, makeResponse s a = .ok msg ∧ parseResponse P msg = some (.response s [n]) ∧
      n.nodeId = a.nodeId ∧
      ∀ x, x ∈ n.directAddresses ↔ ∃ y ∈ a.directAddresses, x = SocketAddr.new y.ip y.port := by
  obtain ⟨srvName, target, hsl, hsf, htarget, hmake⟩ := makeResponse_eq hs a
  have hk : nodeIdOfName P srvName = some a.nodeId := nodeIdOfName_eq P hsl hkey
  have hbase : srvName.baseName = s := Name.ext' (by simp [hsl]) (by simp [hsf, hs.1])
  have hlocal : ∀ p, (target p).baseName = localName := fun p =>
    Name.ext' (by simp [(htarget p).1]; rfl) (by simp [(htarget p).2]; rfl)
  have hne : (srvMap a).pushes ≠ [] := by
    rw [srvMap_pushes]
    simpa using ha
  obtain ⟨n, hparse, hid, hmem⟩ := parseResponse_announcement hk hbase hlocal
    (target_key_injective fun p => (htarget p).1) (srvMap a) hne
  refine ⟨_, n, hmake, hparse, hid, fun x => ?_⟩
  rw [hmem, srvMap_pushes]
  constructor
  · rintro ⟨port, ip, hpi, rfl⟩
    obtain ⟨y, hy, hyeq⟩ := List.mem_map.mp hpi
    simp only [Prod.mk.injEq] at hyeq
    exact ⟨y, hy, by rw [hyeq.1, hyeq.2]⟩
  · rintro ⟨y, hy, rfl⟩
    exact ⟨y.port, y.ip, List.mem_map.mpr ⟨y, hy, rfl⟩, rfl⟩

/-- A node with two addresses on one port, one of them IPv6 with a scope id, announced
under `local.`: it reads back with both addresses, the scope id set to 0. -/
theorem parseResponse_makeResponse_twoAddrs :
    localName.ValidService ∧
      ∃ msg n, makeResponse localName ⟨⟨List.replicate 32 7, by decide⟩,
          [.v4 ⟨0x7F000001⟩ 2022, .v6 ⟨1⟩ 2022 0 3], by decide⟩ = .ok msg ∧
        parseResponse cborPrimitives msg = some (.response localName [n]) ∧
        n.nodeId = ⟨List.replicate 32 7, by decide⟩ ∧
        ∀ x, x ∈ n.directAddresses ↔ x = .v4 ⟨0x7F000001⟩ 2022 ∨ x = .v6 ⟨1⟩ 2022 0 0 := by
  obtain ⟨msg, n, hmake, hparse, hid, hmem⟩ := parseResponse_makeResponse cborPrimitives
    (s := localName) (by decide) ⟨⟨List.replicate 32 7, by decide⟩,
      [.v4 ⟨0x7F000001⟩ 2022, .v6 ⟨1⟩ 2022 0 3], by decide⟩
    (cborPrimitives_keyFromBytes _) (by simp)
  refine ⟨by decide, msg, n, hmake, hparse, hid, fun x => ?_⟩
  rw [hmem]
  simp [SocketAddr.ip, SocketAddr.port, SocketAddr.new]

/-- A query reads back as the query for its service. -/
theorem parseMessage_makeQuery (P : Primitives) (s : Name) :
    parseMessage P (makeQuery s) = some (.query s) := by
  simp [parseMessage, parseQuery, makeQuery, Message.new]

/-- A response `make_response` writes has no queries: `parse_message` reads it as
`parse_response` does. -/
theorem parseMessage_makeResponse (P : Primitives) {s : Name} {a : NodeAddr} {msg : Message}
    (h : makeResponse s a = .ok msg) : parseMessage P msg = parseResponse P msg := by
  have hq : msg.queries = [] := by
    simp only [makeResponse] at h
    split at h
    · cases h
    · split at h
      · cases h
      · split at h
        · cases h
        · cases h
          rfl
  simp [parseMessage, parseQuery, hq]

/-- `n` is the node `a` as a response announces it: the same id, and the direct addresses
of `a` as socket addresses, flow information and scope id aside. -/
def NodeAddr.Announced (n a : NodeAddr) : Prop :=
  n.nodeId = a.nodeId ∧
    ∀ x, x ∈ n.directAddresses ↔ ∃ y ∈ a.directAddresses, x = SocketAddr.new y.ip y.port

/-- What `parse_message` reads of any response `make_response` writes for a valid service:
nothing for a node without direct addresses, else that node, under the service. -/
theorem parseMessage_of_makeResponse (P : Primitives) {s : Name} (hs : s.ValidService)
    {a : NodeAddr} {msg : Message} (hkey : P.keyFromBytes a.nodeId.bytes = .ok a.nodeId)
    (hmsg : makeResponse s a = .ok msg) :
    (a.directAddresses = [] ∧ parseMessage P msg = none) ∨
      ∃ n, parseMessage P msg = some (.response s [n]) ∧ n.Announced a := by
  rw [parseMessage_makeResponse P hmsg]
  obtain ⟨srvName, target, hsl, hsf, htarget, hmake⟩ := makeResponse_eq hs a
  rw [hmake, Except.ok.injEq] at hmsg
  subst hmsg
  by_cases ha : a.directAddresses = []
  · -- no port: no answer and no additional record, so no peer
    refine .inl ⟨ha, ?_⟩
    have hnil : (srvMap a).pushes = [] := by rw [srvMap_pushes, ha, List.map_nil]
    simp [parseResponse, announcementAnswers, announcementAdditionals, VecMap.keys, hnil,
      collectPeerAddrs, VecMap.isEmpty, SortedSet.empty]
  · right
    have hk : nodeIdOfName P srvName = some a.nodeId := nodeIdOfName_eq P hsl hkey
    have hbase : srvName.baseName = s := Name.ext' (by simp [hsl]) (by simp [hsf, hs.1])
    have hlocal : ∀ p, (target p).baseName = localName := fun p =>
      Name.ext' (by simp [(htarget p).1]; rfl) (by simp [(htarget p).2]; rfl)
    have hne : (srvMap a).pushes ≠ [] := by
      rw [srvMap_pushes]
      simpa using ha
    obtain ⟨n, hparse, hid, hmem⟩ := parseResponse_announcement hk hbase hlocal
      (target_key_injective fun p => (htarget p).1) (srvMap a) hne
    refine ⟨n, hparse, hid, fun x => ?_⟩
    rw [hmem, srvMap_pushes]
    constructor
    · rintro ⟨port, ip, hpi, rfl⟩
      obtain ⟨y, hy, hyeq⟩ := List.mem_map.mp hpi
      simp only [Prod.mk.injEq] at hyeq
      exact ⟨y, hy, by rw [hyeq.1, hyeq.2]⟩
    · rintro ⟨y, hy, rfl⟩
      exact ⟨y.port, y.ip, List.mem_map.mpr ⟨y, hy, rfl⟩, rfl⟩

end RoundTrip

end P2panda.Discovery
