import P2panda.Sync.LogSync

/- A session between an initiator and an acceptor over a reliable, in-order duplex
   channel, with neither store changing during it.

   When both topic maps know the topic and the stores can be read, the session runs
   through the phases of `honestAt`: the acceptor answers the initiator's `Have`; the
   initiator reads the acceptor's data, `Done` and `Have`, answers with its own data and
   `Done`, and stops; the acceptor reads those and stops. Only one of the two can move at
   each point, so the interleavings are this one run (`honest_step`), every step lowers
   the phase's rank, and the only phase with no step is the last (`honest_stuck_iff`).
   Through `Duplex.reachable_of_abstraction` and its two companions this says what every
   interleaving does: it ends, and it ends with both calls returning `Ok` and each
   application told the topic and then handed the other side's data
   (`log_sync_agreement`). -/

namespace P2panda.Sync

open Duplex

variable {T L E : Type} [DecidableEq T] [DecidableEq L] [TopicQuery T]

/-- A session of the log-sync protocol, the initiator on the left. -/
abbrev SyncSession (T L : Type) :=
  Session Flags Flags (Message T L) (FromSync T) (Except SyncError Unit)

/-- Where an honest session is: before the acceptor has read the `Have`, while the
initiator reads the acceptor's answer, and while the acceptor reads the initiator's. -/
inductive Phase where
  | start
  | initiatorReads (i : Nat)
  | acceptorReads (j : Nat)
  deriving DecidableEq

/-- What an honest session needs: both topic maps know the topic and every read of the
two stores succeeds, with these results. -/
structure Honest (pI pA : LogSyncProtocol T L E) (t : T) (logsI logsA : Logs L)
    (hI hA : AuthorHeights L) (MA MI : List (Message T L)) : Prop where
  topicMapI : pI.topicMap t = some logsI
  topicMapA : pA.topicMap t = some logsA
  heightsI : localLogHeights pI.store pI.topicMap t = .ok hI
  heightsA : localLogHeights pA.store pA.topicMap t = .ok hA
  needA : messagesNeededByRemote pA.store logsA (heightsMap hI) = .ok MA
  needI : messagesNeededByRemote pI.store logsI (heightsMap hA) = .ok MI

section Phases

variable (t : T) (hI hA : AuthorHeights L) (MA MI : List (Message T L))

/-- What the acceptor sends in answer to the initiator's `Have`. -/
def acceptorStream : List (Message T L) := MA ++ [.done, .have t hA]

/-- What the initiator sends in answer to the acceptor's `Have`. -/
def initiatorStream : List (Message T L) := MI ++ [.done]

/-- The session at each phase. -/
def honestAt : Phase → SyncSession T L
  | .start =>
    ⟨.running ⟨false, false⟩, .running ⟨false, false⟩, [], [.have t hI],
      [.handshakeSuccess t], []⟩
  | .initiatorReads i =>
    ⟨.running ⟨decide (MA.length < i), false⟩, .running ⟨false, true⟩,
      (acceptorStream t hA MA).drop i, [],
      .handshakeSuccess t :: (MA.take i).flatMap Message.forwarded, [.handshakeSuccess t]⟩
  | .acceptorReads j =>
    ⟨.stopped (.ok ()), if j ≤ MI.length then .running ⟨false, true⟩ else .stopped (.ok ()),
      [], (initiatorStream MI).drop j,
      .handshakeSuccess t :: MA.flatMap Message.forwarded,
      .handshakeSuccess t :: (MI.take j).flatMap Message.forwarded⟩

/-- The phases an honest session goes through. -/
def Phase.Valid : Phase → Prop
  | .start => True
  | .initiatorReads i => i ≤ MA.length + 1
  | .acceptorReads j => j ≤ MI.length + 1

/-- The number of steps left. -/
def Phase.rank : Phase → Nat
  | .start => MA.length + MI.length + 5
  | .initiatorReads i => MA.length + 2 - i + MI.length + 2
  | .acceptorReads j => MI.length + 1 - j

omit [DecidableEq T] [DecidableEq L] [TopicQuery T] in
/-- At the last phase both calls have returned `Ok`, and each application has the topic
and the other side's data. -/
theorem honestAt_final :
    (honestAt t hI hA MA MI (.acceptorReads (MI.length + 1))).left = .stopped (.ok ()) ∧
      (honestAt t hI hA MA MI (.acceptorReads (MI.length + 1))).right = .stopped (.ok ()) ∧
      (honestAt t hI hA MA MI (.acceptorReads (MI.length + 1))).leftOut =
        .handshakeSuccess t :: MA.flatMap Message.forwarded ∧
      (honestAt t hI hA MA MI (.acceptorReads (MI.length + 1))).rightOut =
        .handshakeSuccess t :: MI.flatMap Message.forwarded := by
  simp [honestAt, List.take_of_length_le]

end Phases

omit [DecidableEq T] [DecidableEq L] [TopicQuery T] in
/-- The flow the data of an answer is forwarded in: the first `i + 1` messages forward
what the first `i` did and then the next one's. -/
theorem flatMap_take_succ (ms : List (Message T L)) {i : Nat} (hi : i < ms.length) :
    (ms.take (i + 1)).flatMap Message.forwarded =
      (ms.take i).flatMap Message.forwarded ++ ms[i].forwarded := by
  rw [List.take_add_one, List.getElem?_eq_getElem hi, Option.toList_some, List.flatMap_append,
    List.flatMap_singleton]

section Steps

variable {pI pA : LogSyncProtocol T L E} {t : T} {logsI logsA : Logs L} {hI hA : AuthorHeights L}
  {MA MI : List (Message T L)}

/-- The session starts at the first phase. -/
theorem honest_init (h : Honest pI pA t logsI logsA hI hA MA MI) :
    Session.init (pI.initiate t) pA.accept = honestAt t hI hA MA MI .start := by
  simp [Session.init, initiate_start pI h.heightsI, LogSyncProtocol.accept, honestAt]

/-- At the start only the acceptor can move: it reads the `Have` and answers it. -/
theorem honest_step_start (h : Honest pI pA t logsI logsA hI hA MA MI) {b : SyncSession T L}
    (hb : Session.Step (pI.initiate t) pA.accept (honestAt t hI hA MA MI .start) b) :
    b = honestAt t hI hA MA MI (.initiatorReads 0) := by
  rw [Session.step_right_iff _ _ rfl rfl rfl] at hb
  rw [hb]
  simp [Session.rightReacts, honestAt, LogSyncProtocol.accept,
    acceptTurn_have pA h.topicMapA h.needA h.heightsA, loopTurn, acceptorStream]

/-- The initiator reads one message of the acceptor's answer: data, then `Done`, then the
`Have` it answers and stops. -/
theorem honest_step_initiator (h : Honest pI pA t logsI logsA hI hA MA MI) {i : Nat}
    (hi : i ≤ MA.length + 1) {b : SyncSession T L}
    (hb : Session.Step (pI.initiate t) pA.accept (honestAt t hI hA MA MI (.initiatorReads i)) b) :
    b = honestAt t hI hA MA MI
      (if i ≤ MA.length then .initiatorReads (i + 1) else .acceptorReads 0) := by
  have hlen : i < (acceptorStream t hA MA).length := by simp [acceptorStream]; omega
  rw [Session.step_left_iff _ _ rfl (List.drop_eq_getElem_cons hlen) rfl] at hb
  rw [hb]
  simp only [LogSyncProtocol.initiate]
  -- which message is read: one of the data, `Done`, or the `Have`
  rcases Nat.lt_trichotomy i MA.length with hlt | rfl | hgt
  · have hdata := messagesNeededByRemote_isData h.needA MA[i] (List.getElem_mem hlt)
    have hmsg : (acceptorStream t hA MA)[i] = MA[i] := by
      simp [acceptorStream, List.getElem_append_left hlt]
    rw [hmsg, initiateTurn_of_isData pI t _ hdata, if_pos hlt.le]
    have hnot : ¬ MA.length < i := by omega
    have hnot' : ¬ MA.length < i + 1 := by omega
    simp [Session.leftReacts, honestAt, loopTurn, hnot, hnot', flatMap_take_succ MA hlt]
  · have hmsg : (acceptorStream t hA MA)[MA.length] = .done := by simp [acceptorStream]
    rw [hmsg, if_pos le_rfl]
    simp [Session.leftReacts, honestAt, loopTurn, initiateTurn, List.take_of_length_le]
  · have hi' : i = MA.length + 1 := by omega
    subst hi'
    have hmsg : (acceptorStream t hA MA)[MA.length + 1] = .have t hA := by simp [acceptorStream]
    rw [hmsg, if_neg (by omega),
      initiateTurn_have pI (by simp) h.topicMapI h.needI]
    simp [Session.leftReacts, honestAt, loopTurn, acceptorStream, initiatorStream,
      List.take_of_length_le]

/-- The acceptor reads one message of the initiator's answer: data, then `Done`, and
stops. -/
theorem honest_step_acceptor (h : Honest pI pA t logsI logsA hI hA MA MI) {j : Nat}
    (hj : j ≤ MI.length) {b : SyncSession T L}
    (hb : Session.Step (pI.initiate t) pA.accept (honestAt t hI hA MA MI (.acceptorReads j)) b) :
    b = honestAt t hI hA MA MI (.acceptorReads (j + 1)) := by
  have hlen : j < (initiatorStream MI).length := by simp [initiatorStream]; omega
  have hright : (honestAt t hI hA MA MI (.acceptorReads j)).right = .running ⟨false, true⟩ := by
    simp [honestAt, hj]
  rw [Session.step_right_iff _ _ hright (List.drop_eq_getElem_cons hlen) rfl] at hb
  rw [hb]
  simp only [LogSyncProtocol.accept]
  rcases Nat.lt_or_ge j MI.length with hlt | hge
  · have hdata := messagesNeededByRemote_isData h.needI MI[j] (List.getElem_mem hlt)
    have hmsg : (initiatorStream MI)[j] = MI[j] := by
      simp [initiatorStream, List.getElem_append_left hlt]
    rw [hmsg, acceptTurn_of_isData pA _ hdata]
    simp [Session.rightReacts, honestAt, loopTurn, Nat.succ_le_of_lt hlt,
      flatMap_take_succ MI hlt]
  · have hj' : j = MI.length := by omega
    subst hj'
    have hmsg : (initiatorStream MI)[MI.length] = .done := by simp [initiatorStream]
    rw [hmsg]
    simp [Session.rightReacts, honestAt, loopTurn, acceptTurn, initiatorStream,
      List.take_of_length_le]

/-- Every step from a phase of an honest session is to a phase of lower rank. -/
theorem honest_step (h : Honest pI pA t logsI logsA hI hA MA MI) :
    ∀ x b, x.Valid MA MI →
      Session.Step (pI.initiate t) pA.accept (honestAt t hI hA MA MI x) b →
        ∃ y, y.Valid MA MI ∧ b = honestAt t hI hA MA MI y ∧ y.rank MA MI < x.rank MA MI
  | .start, b, _, hb =>
    ⟨.initiatorReads 0, by simp [Phase.Valid], honest_step_start h hb,
      by simp [Phase.rank]; omega⟩
  | .initiatorReads i, b, hi, hb => by
    have hnext := honest_step_initiator h hi hb
    by_cases hle : i ≤ MA.length
    · -- a message of the answer before the `Have`: the initiator reads on
      rw [if_pos hle] at hnext
      exact ⟨_, by simp only [Phase.Valid]; omega, hnext, by simp only [Phase.rank]; omega⟩
    · -- the `Have`: the acceptor's turn
      rw [if_neg hle] at hnext
      exact ⟨_, by simp [Phase.Valid], hnext, by simp only [Phase.rank]; omega⟩
  | .acceptorReads j, b, hj, hb => by
    by_cases hle : j ≤ MI.length
    · exact ⟨_, by simp [Phase.Valid]; omega, honest_step_acceptor h hle hb,
        by simp [Phase.rank]; omega⟩
    · -- past the last message both have stopped
      have hj' : j = MI.length + 1 := by simp [Phase.Valid] at hj; omega
      subst hj'
      have hfinal := honestAt_final t hI hA MA MI
      exact absurd hb (Session.stuck_of_stopped _ _ hfinal.1 hfinal.2.1 b)

/-- The last phase is the only one with no step. -/
theorem honest_stuck_iff {x : Phase} (hx : x.Valid MA MI) :
    Session.Stuck (pI.initiate t) pA.accept (honestAt t hI hA MA MI x) ↔
      x = .acceptorReads (MI.length + 1) := by
  constructor
  · intro hstuck
    -- every other phase has its step: the message in flight is read
    match x, hx with
    | .start, _ =>
      exact absurd (Session.step_right_iff (pI.initiate t) pA.accept rfl rfl rfl).mpr
        (fun h' => hstuck _ (h' rfl))
    | .initiatorReads i, hi =>
      have hlen : i < (acceptorStream t hA MA).length := by
        simp [acceptorStream]; simp [Phase.Valid] at hi; omega
      exact absurd ((Session.step_left_iff (pI.initiate t) pA.accept rfl
        (List.drop_eq_getElem_cons hlen) rfl).mpr rfl) (hstuck _)
    | .acceptorReads j, hj =>
      by_cases hle : j ≤ MI.length
      · have hlen : j < (initiatorStream MI).length := by simp [initiatorStream]; omega
        have hright : (honestAt t hI hA MA MI (.acceptorReads j)).right =
            .running ⟨false, true⟩ := by simp [honestAt, hle]
        exact absurd ((Session.step_right_iff (pI.initiate t) pA.accept
          hright (List.drop_eq_getElem_cons hlen) rfl).mpr rfl) (hstuck _)
      · simp [Phase.Valid] at hj
        congr
        omega
  · rintro rfl
    have hfinal := honestAt_final t hI hA MA MI
    exact Session.stuck_of_stopped _ _ hfinal.1 hfinal.2.1

/-! ## Every interleaving -/

/-- Every session reachable from the start is at a phase. -/
theorem honest_reachable (h : Honest pI pA t logsI logsA hI hA MA MI) {d : SyncSession T L}
    (hd : Session.Reachable (pI.initiate t) pA.accept d) :
    ∃ x, x.Valid MA MI ∧ d = honestAt t hI hA MA MI x := by
  rw [Session.Reachable, honest_init h] at hd
  refine reachable_of_abstraction _ _ _ (fun x b hx hb => ?_) trivial hd
  obtain ⟨y, hy, hb, -⟩ := honest_step h x b hx hb
  exact ⟨y, hy, hb⟩

/-- No interleaving runs forever. -/
theorem honest_terminates (h : Honest pI pA t logsI logsA hI hA MA MI) :
    ¬ ∃ f : Nat → SyncSession T L, f 0 = Session.init (pI.initiate t) pA.accept ∧
      ∀ n, Session.Step (pI.initiate t) pA.accept (f n) (f (n + 1)) := by
  rw [honest_init h]
  exact no_infinite_run_of_abstraction _ _ _ (Phase.rank MA MI) (honest_step h) trivial

/-- Some interleaving ends. -/
theorem honest_ends (h : Honest pI pA t logsI logsA hI hA MA MI) :
    ∃ d, Session.Reachable (pI.initiate t) pA.accept d ∧
      Session.Stuck (pI.initiate t) pA.accept d := by
  obtain ⟨y, -, hreach, hstuck⟩ := exists_stuck_of_abstraction _ _ _ (Phase.rank MA MI)
    (honest_step h) _ .start rfl trivial
  exact ⟨_, by rw [Session.Reachable, honest_init h]; exact hreach, hstuck⟩

/-- Every interleaving that ends, ends at the last phase. -/
theorem honest_end (h : Honest pI pA t logsI logsA hI hA MA MI) {d : SyncSession T L}
    (hd : Session.Reachable (pI.initiate t) pA.accept d)
    (hstuck : Session.Stuck (pI.initiate t) pA.accept d) :
    d = honestAt t hI hA MA MI (.acceptorReads (MI.length + 1)) := by
  obtain ⟨x, hx, rfl⟩ := honest_reachable h hd
  rw [(honest_stuck_iff hx).mp hstuck]

end Steps

/-- Session agreement: between two peers whose topic maps both know `t` and whose store
reads succeed, every interleaving of the two sides ends, some does, and every one that
ends has both calls returning `Ok`, the initiator's application told `t` and then handed
the data the acceptor computed for the initiator's heights, and the acceptor's
application told `t` and handed the data the initiator computed for the acceptor's. -/
theorem log_sync_agreement (pI pA : LogSyncProtocol T L E) (t : T) {logsI logsA : Logs L}
    {hI hA : AuthorHeights L} {MA MI : List (Message T L)}
    (htopicI : pI.topicMap t = some logsI) (htopicA : pA.topicMap t = some logsA)
    (hheightsI : localLogHeights pI.store pI.topicMap t = .ok hI)
    (hheightsA : localLogHeights pA.store pA.topicMap t = .ok hA)
    (hneedA : messagesNeededByRemote pA.store logsA (heightsMap hI) = .ok MA)
    (hneedI : messagesNeededByRemote pI.store logsI (heightsMap hA) = .ok MI) :
    (¬ ∃ f : Nat → SyncSession T L, f 0 = Session.init (pI.initiate t) pA.accept ∧
        ∀ n, Session.Step (pI.initiate t) pA.accept (f n) (f (n + 1))) ∧
      (∃ d, Session.Reachable (pI.initiate t) pA.accept d ∧
        Session.Stuck (pI.initiate t) pA.accept d) ∧
      ∀ d, Session.Reachable (pI.initiate t) pA.accept d →
        Session.Stuck (pI.initiate t) pA.accept d →
          d.left = .stopped (.ok ()) ∧ d.right = .stopped (.ok ()) ∧
          d.leftOut = .handshakeSuccess t :: MA.flatMap Message.forwarded ∧
          d.rightOut = .handshakeSuccess t :: MI.flatMap Message.forwarded := by
  have h : Honest pI pA t logsI logsA hI hA MA MI :=
    ⟨htopicI, htopicA, hheightsI, hheightsA, hneedA, hneedI⟩
  refine ⟨honest_terminates h, honest_ends h, fun d hd hstuck => ?_⟩
  rw [honest_end h hd hstuck]
  exact honestAt_final t hI hA MA MI


/-- Topic queries that are numbers, shown in decimal. -/
instance : TopicQuery Nat := ⟨Nat.repr⟩

/-- A peer that serves topic `0` with the log `0` of the sample author. -/
def samplePeer (store : MemoryStore Nat Unit) : LogSyncProtocol Nat Nat Unit :=
  ⟨fun _ => some [((sampleHeader 0 0 none none : Header Unit).publicKey, [0])], store.logStore⟩

/-- The first operation of that log. -/
def sampleGenesis : Header Unit := sampleHeader 0 0 none none

/-- An initiator with an empty store and an acceptor holding the first operation of the
log: the initiator's application gets the topic and the operation, the acceptor's only
the topic. -/
theorem log_sync_agreement_one_operation :
    let pI := samplePeer .new
    let pA := samplePeer (MemoryStore.new.insertOperation (sampleGenesis.hash cborPrimitives)
      sampleGenesis none (sampleGenesis.toBytes cborPrimitives) 0).2
    (¬ ∃ f : Nat → SyncSession Nat Nat, f 0 = Session.init (pI.initiate 0) pA.accept ∧
        ∀ n, Session.Step (pI.initiate 0) pA.accept (f n) (f (n + 1))) ∧
      (∃ d, Session.Reachable (pI.initiate 0) pA.accept d ∧
        Session.Stuck (pI.initiate 0) pA.accept d) ∧
      ∀ d, Session.Reachable (pI.initiate 0) pA.accept d →
        Session.Stuck (pI.initiate 0) pA.accept d →
          d.left = .stopped (.ok ()) ∧ d.right = .stopped (.ok ()) ∧
          d.leftOut = .handshakeSuccess 0 ::
            [(Message.data (sampleGenesis.toBytes cborPrimitives) none : Message Nat Nat)].flatMap
              Message.forwarded ∧
          d.rightOut = .handshakeSuccess 0 :: ([] : List (Message Nat Nat)).flatMap Message.forwarded :=
  log_sync_agreement _ _ 0 rfl rfl
    (show _ = Except.ok [(sampleGenesis.publicKey, [])] by decide +kernel)
    (show _ = Except.ok [(sampleGenesis.publicKey, [(0, 0)])] by decide +kernel)
    (by decide +kernel) (by decide +kernel)

end P2panda.Sync
