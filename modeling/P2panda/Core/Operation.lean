import P2panda.Core.HeaderCodec

/- Operations and their validation (`p2panda-core/src/operation.rs`, `prune.rs`).

   An operation is a header, the hash of that header (its id) and an optional body.
   `validateHeader`, `validateOperation` and `validateBacklink` are the three checks of the
   source, in its order and with its errors; `validatePrunableBacklink` is the variant for
   logs that allow pruning.

   Each check has one spec lemma that says exactly when it passes:
   * `validateHeader_ok_iff`: the signature verifies, the version is 1, and the header is
     well-formed in the sense of the decoder (`Header.WellFormed`), so a header that
     validates also survives an encoding round trip;
   * `validateOperation_ok_iff`: the header validates and a given body has the claimed
     hash and size;
   * `validateBacklink_ok_iff`: same author, next sequence number, backlink the hash of the
     past header. -/
namespace P2panda

open Cbor

variable {E : Type}

/-- `Body`: the payload bytes. -/
structure Body where
  bytes : List UInt8
  deriving DecidableEq

/-- `Body::hash`. -/
def Body.hash (P : Primitives) (body : Body) : Hash := P.blake3 body.bytes

/-- `Body::size`: the length as `u64`. -/
def Body.size (body : Body) : UInt64 := UInt64.ofNat body.bytes.length

/-- `Operation<E>`. -/
structure Operation (E : Type) where
  hash : Hash
  header : Header E
  body : Option Body
  deriving DecidableEq

/-- `OperationError`. -/
inductive OperationError where
  | unsupportedVersion (given supported : UInt64)
  | missingSignature
  | signatureMismatch
  | seqNumMismatch
  | inconsistentPayloadInfo
  | missingPayloadHash
  | payloadMismatch
  | tooManyAuthors
  | seqNumNonIncremental (expected given : UInt64)
  | backlinkMissing
  | backlinkMismatch
  deriving DecidableEq, Repr

/-- The `Display` of `OperationError`. -/
def OperationError.toString : OperationError → String
  | .unsupportedVersion given supported =>
    "operation version " ++ Nat.repr given.toNat ++ " is not supported, needs to be <= " ++
      Nat.repr supported.toNat
  | .missingSignature => "operation needs to be signed"
  | .signatureMismatch => "signature does not match claimed public key"
  | .seqNumMismatch => "sequence number can't be 0 when backlink is given"
  | .inconsistentPayloadInfo => "payload hash and -size need to be defined together"
  | .missingPayloadHash => "needs payload hash in header when body is given"
  | .payloadMismatch => "payload hash and size do not match given body"
  | .tooManyAuthors => "logs can not contain operations of different authors"
  | .seqNumNonIncremental expected given =>
    "expected sequence number " ++ Nat.repr expected.toNat ++ " but found " ++
      Nat.repr given.toNat
  | .backlinkMissing => "expected backlink but none was given"
  | .backlinkMismatch => "given backlink did not match previous operation"

section Validation

variable (P : Primitives) [Extensions E]

/-- `validate_header`. -/
def validateHeader (header : Header E) : Except OperationError Unit :=
  if !header.verify P then .error .signatureMismatch
  else if header.version ≠ 1 then .error (.unsupportedVersion header.version 1)
  else if (header.payloadHash.isSome ∧ header.payloadSize = 0) ∨
      (header.payloadHash.isNone ∧ header.payloadSize > 0) then
    .error .inconsistentPayloadInfo
  else if header.backlink.isSome ∧ header.seqNum = 0 then .error .seqNumMismatch
  else if header.backlink.isNone ∧ header.seqNum > 0 then .error .backlinkMissing
  else .ok ()

/-- The payload hash `validate_operation` takes from the header: none for size `0`,
otherwise the header's, which must be there. -/
def claimedPayloadHash (header : Header E) : Except OperationError (Option Hash) :=
  if header.payloadSize = 0 then .ok none
  else match header.payloadHash with
    | some hash => .ok (some hash)
    | none => .error .missingPayloadHash

/-- `validate_operation`. -/
def validateOperation (operation : Operation E) : Except OperationError Unit := do
  validateHeader P operation.header
  let claimed ← claimedPayloadHash operation.header
  match operation.body with
  | some body =>
    if claimed ≠ some (body.hash P) ∨ operation.header.payloadSize ≠ body.size then
      throw .payloadMismatch
    else pure ()
  | none => pure ()

/-- `validate_backlink`. -/
def validateBacklink (pastHeader header : Header E) : Except OperationError Unit :=
  if pastHeader.publicKey ≠ header.publicKey then .error .tooManyAuthors
  else if pastHeader.seqNum + 1 ≠ header.seqNum then
    .error (.seqNumNonIncremental (pastHeader.seqNum + 1) header.seqNum)
  else match header.backlink with
    | some backlink => if pastHeader.hash P ≠ backlink then .error .backlinkMismatch else .ok ()
    | none => .error .backlinkMissing

/-- `validate_prunable_backlink`: the backlink check only without a prune flag and past the
first operation. -/
def validatePrunableBacklink (pastHeader : Option (Header E)) (header : Header E)
    (pruneFlag : Bool) : Except OperationError Unit :=
  if !pruneFlag ∧ header.seqNum > 0 then
    match pastHeader with
    | some pastHeader => validateBacklink P pastHeader header
    | none => .error .backlinkMissing
  else .ok ()

end Validation

/-- `PruneFlag`, here as the whole extensions type: serde writes it transparently, as the
CBOR bool it wraps. -/
structure PruneFlag where
  isSet : Bool
  deriving DecidableEq

instance : Extensions PruneFlag where
  serialize flag := .bool flag.isSet
  deserialize
    | .bool b => .ok ⟨b⟩
    | _ => .error (.invalidType "bool")

/-- `Extension<PruneFlag>::extract(..).is_set()`, a header without extensions counting as
not set. -/
def PruneFlag.ofHeader (header : Header PruneFlag) : Bool :=
  (header.extensions.map PruneFlag.isSet).getD false

section Validation

variable (P : Primitives) [Extensions E]

/-! ## Spec lemmas -/

theorem verify_signature {header : Header E} (h : header.verify P = true) :
    header.signature.isSome := by
  unfold Header.verify at h
  split at h
  · next hs => rw [hs]; rfl
  · cases h

/-- A header validates exactly when its signature verifies, its version is 1 and it is
well-formed. -/
theorem validateHeader_ok_iff (header : Header E) :
    validateHeader P header = .ok () ↔
      header.verify P = true ∧ header.version = 1 ∧ header.WellFormed := by
  have hpos : ∀ n : UInt64, 0 < n ↔ n ≠ 0 := fun n => by
    rw [UInt64.lt_iff_toNat_lt, Ne, ← UInt64.toNat_inj]
    simp only [UInt64.toNat_zero]
    omega
  -- the payload and the backlink checks fail exactly when a half of `WellFormed` does
  have hpayload : ((header.payloadHash.isSome ∧ header.payloadSize = 0) ∨
      (header.payloadHash.isNone ∧ header.payloadSize > 0)) ↔
      ¬ (header.payloadHash.isSome ↔ header.payloadSize ≠ 0) := by
    cases header.payloadHash <;> simp [hpos]
  have hlink : ((header.backlink.isSome ∧ header.seqNum = 0) ∨
      (header.backlink.isNone ∧ header.seqNum > 0)) ↔
      ¬ (header.backlink.isSome ↔ header.seqNum ≠ 0) := by
    cases header.backlink <;> simp [hpos]
  unfold validateHeader Header.WellFormed
  split_ifs with hsig hver hpay hseq hmiss
  · -- the signature
    simp_all
  · -- the version
    simp_all
  · simp only [false_iff]
    exact fun ⟨_, _, hp, _⟩ => hpayload.mp hpay hp
  · simp only [false_iff]
    exact fun ⟨_, _, _, hb⟩ => hlink.mp (.inl hseq) hb
  · simp only [false_iff]
    exact fun ⟨_, _, _, hb⟩ => hlink.mp (.inr hmiss) hb
  · -- every check passed
    simp only [true_iff]
    exact ⟨by simpa using hsig, by simpa using hver, not_not.mp (mt hpayload.mpr hpay),
      not_not.mp (mt hlink.mpr (not_or.mpr ⟨hseq, hmiss⟩))⟩

omit [Extensions E] in
theorem claimedPayloadHash_ok {header : Header E} {claimed : Option Hash}
    (h : claimedPayloadHash header = .ok claimed) (hwf : header.WellFormed) :
    claimed = header.payloadHash := by
  unfold claimedPayloadHash at h
  split at h
  · next hps =>
    cases h
    cases hph : header.payloadHash with
    | none => rfl
    | some ph => exact absurd (hwf.1.mp (by rw [hph]; rfl)) (not_not.mpr hps)
  · split at h
    · next hash hph => cases h; exact hph.symm
    · cases h

/-- An operation validates exactly when its header does and a given body matches the
payload hash and size the header claims. -/
theorem validateOperation_ok_iff (operation : Operation E) :
    validateOperation P operation = .ok () ↔
      validateHeader P operation.header = .ok () ∧
        ∀ body, operation.body = some body →
          operation.header.payloadHash = some (body.hash P) ∧
            operation.header.payloadSize = body.size := by
  constructor
  · intro h
    unfold validateOperation at h
    cases hh : validateHeader P operation.header with
    | error e => rw [hh] at h; cases h
    | ok u =>
      rw [hh] at h
      have hwf := ((validateHeader_ok_iff P _).mp hh).2.2
      refine ⟨rfl, fun body hbody => ?_⟩
      simp only [Except.ok_bind] at h
      cases hc : claimedPayloadHash operation.header with
      | error e => rw [hc] at h; cases h
      | ok claimed =>
        rw [hc, hbody] at h
        have hclaimed := claimedPayloadHash_ok hc hwf
        simp only [Except.ok_bind] at h
        split at h
        · cases h
        · next hmatch =>
          simp only [not_or, not_not] at hmatch
          exact ⟨hclaimed ▸ hmatch.1, hmatch.2⟩
  · rintro ⟨hh, hbody⟩
    have hwf := ((validateHeader_ok_iff P _).mp hh).2.2
    unfold validateOperation
    rw [hh]
    simp only [Except.ok_bind]
    cases hc : claimedPayloadHash operation.header with
    | error e =>
      -- a nonzero size comes with a payload hash in a well-formed header
      unfold claimedPayloadHash at hc
      split at hc
      · cases hc
      · next hps =>
        cases hph : operation.header.payloadHash with
        | none => exact absurd (hwf.1.mpr hps) (by rw [hph]; simp)
        | some ph => rw [hph] at hc; cases hc
    | ok claimed =>
      have hclaimed := claimedPayloadHash_ok hc hwf
      simp only [Except.ok_bind]
      cases hb : operation.body with
      | none => rfl
      | some body =>
        obtain ⟨hph, hsize⟩ := hbody body hb
        simp [hclaimed, hph, hsize]

/-- The backlink check passes exactly for the next operation of the same author that
points at the past header. -/
theorem validateBacklink_ok_iff (pastHeader header : Header E) :
    validateBacklink P pastHeader header = .ok () ↔
      pastHeader.publicKey = header.publicKey ∧ pastHeader.seqNum + 1 = header.seqNum ∧
        header.backlink = some (pastHeader.hash P) := by
  unfold validateBacklink
  by_cases hpk : pastHeader.publicKey = header.publicKey <;>
    by_cases hsn : pastHeader.seqNum + 1 = header.seqNum <;>
    cases hbl : header.backlink <;> simp [hpk, hsn, eq_comm]

end Validation

end P2panda
