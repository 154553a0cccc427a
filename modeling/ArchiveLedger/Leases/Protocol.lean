import ArchiveLedger.Foundation.Transition
import ArchiveLedger.Journal.Writing
import ArchiveLedger.Sync.Protocol

/-!
# Coordination leases

`acquire_archive_lease` and `release_archive_lease` of `v2_store.rs`, step by step.  The leases of an
archive are commits on one ref of the remote: each is signed by its holder and names the one before it.
Any number of processes read the ref, read the one clock and push with `--force-with-lease`, in any order; a
process may stop anywhere, and then its lease stays on the ref until it expires.
-/

namespace ArchiveLedger.Leases

open Outcome Sync Transition

/-- A commit on the lease ref, with the signed lease that is its message and its time in seconds. -/
structure LeaseCommit where
  parents : List String
  signed : SignedCoordinationLease
  seconds : Nat
deriving DecidableEq, Repr

structure V2CoordinationLease where
  version : Nat
  remote : String
  scopeKind : String
  scopeId : String
  tokenId : String
  holderClientId : String
  baseFrontierHash : String
  notBeforeUtcMs : Nat
  notAfterUtcMs : Nat
  leaseCommit : String
  leaseProof : SignedCoordinationLease
deriving DecidableEq, Repr

/-- Git's names of commits, and of each process the remote it uses, its client and what it signs with. -/
structure LeaseRuntime (π : Type) extends StoreRuntime where
  commitName : LeaseCommit → String
  leaseValue : SignedCoordinationLease → Json
  remote : π → String
  activeOriginId : π → String
  sign : π → Bytes → Bytes

variable {π : Type} (L : LeaseRuntime π)

/-! ### Signed leases -/

def encodeNoPad (bytes : Bytes) : String := String.ofList (Base64.encode standardNoPad bytes)

def signCoordinationLease (p : π) (body : CoordinationLeaseBody) : StoreResult SignedCoordinationLease := do
  validateCoordinationLeaseBody body
  .ok ⟨body, encodeNoPad (L.sign p (L.writeLeaseBody body))⟩

def verifySignedCoordinationLease (signed : SignedCoordinationLease) (verified : VerifiedV2Archive) :
    StoreResult Unit := do
  validateCoordinationLeaseBody signed.body
  require (signed.body.archiveId = verified.genesis.body.archiveId ∧ signed.body.genesisHash = verified.genesisHash)
    (.invalid "coordination lease belongs to another Archive")
  let client ← okOr (verified.clients signed.body.holderClientId) (.invalid "lease holder is not enrolled")
  require (L.validKey client.publicKey) (.invalid "enrolled client public key is invalid")
  verifySignature L.toStoreRuntime client.publicKey (L.writeLeaseBody signed.body) signed.signature
    (.invalid "lease signature is not base64") (.invalid "lease signature has the wrong length")
    (.invalid "coordination lease signature is invalid")

/-- The commit of a name. -/
def lookup (commits : List LeaseCommit) (name : String) : Option LeaseCommit :=
  commits.find? fun c => L.commitName c = name

def readSignedLeaseCommit (commits : List LeaseCommit) (commit : String) (verified : VerifiedV2Archive)
    (scopeKind scopeId : String) : StoreResult SignedCoordinationLease := do
  let c ← okOr (lookup L commits commit) (.io "read coordination lease commit" "")
  verifySignedCoordinationLease L c.signed verified
  require (c.signed.body.scopeKind = scopeKind ∧ c.signed.body.scopeId = scopeId)
    (.invalid "coordination lease commit uses the wrong scope")
  require (c.parents = c.signed.body.previousLeaseCommit.toList)
    (.invalid "coordination lease Git ancestry does not match its signed chain")
  .ok c.signed

/-- A lease that still excludes others. -/
def inForce (body : CoordinationLeaseBody) (now : Nat) : Bool :=
  (body.state = "acquired" || body.state = "renewed") && now ≤ body.notAfterUtcMs

def heldBy (body : CoordinationLeaseBody) : V2StoreError :=
  .invalid ("coordination scope is held by client " ++ body.holderClientId ++ " until " ++ toString body.notAfterUtcMs)

/-! ### Processes -/

/-- What a process knows when it begins to acquire, and how many attempts it has left. -/
structure Attempt where
  verified : VerifiedV2Archive
  durationMs : Nat
  attempts : Nat

inductive Phase where
  | idle
  | querying (a : Attempt)
  | offering (a : Attempt) (previous : Option String)
  | pushing (a : Attempt) (previous : Option String) (lease : V2CoordinationLease)
  | holding (lease : V2CoordinationLease)
  | confirming (verified : VerifiedV2Archive) (lease : V2CoordinationLease)
  | ending (verified : VerifiedV2Archive) (lease : V2CoordinationLease)
  | unlocking (lease : V2CoordinationLease) (commit : String)
  | failed (error : V2StoreError)

/-- `continue` in the loop of attempts. -/
def Attempt.retry (a : Attempt) : Phase :=
  match a.attempts with
  | 0 => .failed (.invalid "coordination lease changed repeatedly; retry the operation")
  | attempts + 1 => .querying { a with attempts }

/-- What a caller was handed and has not given back. -/
def Phase.lease? : Phase → Option V2CoordinationLease
  | .holding lease | .confirming _ lease | .ending _ lease | .unlocking lease _ => some lease
  | _ => none

def beginAcquire (p : π) (durationMs : Nat) (verified : StoreResult VerifiedV2Archive) (synchronized : Bool) :
    StoreResult Attempt := do
  require (durationMs ≠ 0) (.invalid "coordination lease duration must be positive")
  let verified ← verified
  let client ← okOr (verified.clients (L.activeOriginId p)) (.invalid "active client is not enrolled")
  require (client.isRevoked = false ∧ "coordination" ∈ client.capabilities)
    (.invalid "active client is not authorized for coordination")
  require synchronized (.invalid "synchronize the Archive before acquiring a coordination lease")
  .ok ⟨verified, durationMs, 3⟩

/-- The signed body of a lease that begins now. -/
def offeredBody (p : π) (a : Attempt) (previous : Option String) (tokenId : String) (now : Nat) :
    CoordinationLeaseBody where
  leaseV := coordinationLeaseVersion
  archiveId := a.verified.genesis.body.archiveId
  genesisHash := a.verified.genesisHash
  scopeKind := "archive"
  scopeId := a.verified.genesis.body.archiveId
  tokenId := tokenId
  holderClientId := L.activeOriginId p
  baseFrontierHash := a.verified.acceptedFrontierHash
  state := "acquired"
  notBeforeUtcMs := now
  notAfterUtcMs := now + a.durationMs
  previousLeaseCommit := previous

/-- What the ref had is no lease in force. -/
def checkPrevious (commits : List LeaseCommit) (a : Attempt) (now : Nat) : Option String → StoreResult Unit
  | none => .ok ()
  | some commit => do
      let signed ← readSignedLeaseCommit L commits commit a.verified "archive" a.verified.genesis.body.archiveId
      require (inForce signed.body now = false) (heldBy signed.body)

/-- The commit a process would push. -/
def offerLease (p : π) (commits : List LeaseCommit) (a : Attempt) (previous : Option String) (tokenId : String)
    (now : Nat) : StoreResult LeaseCommit := do
  checkPrevious L commits a now previous
  require (now + a.durationMs ≤ u64Max) (.invalid "lease time overflow")
  let signed ← signCoordinationLease L p (offeredBody L p a previous tokenId now)
  .ok ⟨previous.toList, signed, now / 1000⟩

/-- What the caller of a successful push is handed. -/
def handedOut (p : π) (c : LeaseCommit) : V2CoordinationLease where
  version := 2
  remote := L.remote p
  scopeKind := c.signed.body.scopeKind
  scopeId := c.signed.body.scopeId
  tokenId := c.signed.body.tokenId
  holderClientId := c.signed.body.holderClientId
  baseFrontierHash := c.signed.body.baseFrontierHash
  notBeforeUtcMs := c.signed.body.notBeforeUtcMs
  notAfterUtcMs := c.signed.body.notAfterUtcMs
  leaseCommit := L.commitName c
  leaseProof := c.signed

/-- What a batch says of the lease it is made under. -/
def leaseContext (lease : V2CoordinationLease) : Json :=
  .obj [("scope_kind", .str lease.scopeKind), ("scope_id", .str lease.scopeId), ("token_id", .str lease.tokenId),
    ("holder_client_id", .str lease.holderClientId), ("base_frontier_hash", .str lease.baseFrontierHash),
    ("not_before_utc_ms", .ofNat lease.notBeforeUtcMs), ("not_after_utc_ms", .ofNat lease.notAfterUtcMs),
    ("lease_commit", .str lease.leaseCommit), ("remote", .str lease.remote),
    ("lease_proof", L.leaseValue lease.leaseProof)]

def beginRelease (p : π) (lease : V2CoordinationLease) (verified : StoreResult VerifiedV2Archive) :
    StoreResult VerifiedV2Archive := do
  let verified ← verified
  require (lease.scopeKind = "archive" ∧ lease.scopeId = verified.genesis.body.archiveId ∧
      lease.holderClientId = L.activeOriginId p)
    (.invalid "coordination lease does not belong to this active client and Archive")
  .ok verified

def releasedBody (verified : VerifiedV2Archive) (lease : V2CoordinationLease) (now : Nat) : CoordinationLeaseBody where
  leaseV := coordinationLeaseVersion
  archiveId := verified.genesis.body.archiveId
  genesisHash := verified.genesisHash
  scopeKind := lease.scopeKind
  scopeId := lease.scopeId
  tokenId := lease.tokenId
  holderClientId := lease.holderClientId
  baseFrontierHash := lease.baseFrontierHash
  state := "released"
  notBeforeUtcMs := lease.notBeforeUtcMs
  notAfterUtcMs := now
  previousLeaseCommit := some lease.leaseCommit

def endLease (p : π) (commits : List LeaseCommit) (verified : VerifiedV2Archive) (lease : V2CoordinationLease)
    (now : Nat) : StoreResult LeaseCommit := do
  let prior ← readSignedLeaseCommit L commits lease.leaseCommit verified lease.scopeKind lease.scopeId
  require (prior.body.tokenId = lease.tokenId ∧ prior.body.holderClientId = lease.holderClientId ∧
      (prior.body.state = "acquired" ∨ prior.body.state = "renewed"))
    (.invalid "coordination lease token does not match the remote")
  let signed ← signCoordinationLease L p (releasedBody verified lease now)
  .ok ⟨[lease.leaseCommit], signed, now / 1000⟩

/-! ### Steps -/

/-- The clock, the commits made so far, the ref of the remote and where each process stands. -/
structure State (π : Type) where
  now : Nat
  commits : List LeaseCommit
  ref : Option String
  phase : π → Phase

/-- Before the first lease of an archive. -/
structure Started (s : State π) : Prop where
  commits : s.commits = []
  ref : s.ref = none
  idle : ∀ p, s.phase p = .idle

inductive Event (π : Type) where
  | tick (ms : Nat)
  | acquire (p : π) (durationMs : Nat) (verified : StoreResult VerifiedV2Archive) (synchronized : Bool)
  | query (p : π)
  | offer (p : π) (ulid : String)
  | push (p : π) (reply : PushReply)
  | release (p : π) (verified : StoreResult VerifiedV2Archive)
  | confirm (p : π)
  | finish (p : π)
  | unlock (p : π) (reply : PushReply)
  | stop (p : π)

variable [DecidableEq π]

def State.enter (s : State π) (p : π) (phase : Phase) : State π :=
  { s with phase := Function.update s.phase p phase }

/-- `push_ref_cas` where it reaches the remote: the ref has what was expected, or the commit already. -/
def reaches (s : State π) (expected : Option String) (commit : String) (reply : PushReply) : Prop :=
  reply ≠ .refused ∧ (s.ref = expected ∨ s.ref = some commit)

instance (s : State π) (expected : Option String) (commit : String) (reply : PushReply) :
    Decidable (reaches s expected commit reply) := by
  unfold reaches
  infer_instance

/-- One step of a process or of the clock.  There is none where the process does not stand at it. -/
def next (s : State π) : Event π → Option (State π)
  | .tick ms => some { s with now := s.now + ms }
  | .acquire p durationMs verified synchronized =>
      match s.phase p with
      | .idle | .failed _ =>
          match beginAcquire L p durationMs verified synchronized with
          | .ok a => some (s.enter p (.querying a))
          | .error e => some (s.enter p (.failed e))
      | _ => none
  | .query p =>
      match s.phase p with
      | .querying a => some (s.enter p (.offering a s.ref))
      | _ => none
  | .offer p ulid =>
      match s.phase p with
      | .offering a previous =>
          -- a token is a new one each time
          if s.commits.any fun c => c.signed.body.tokenId = "lease_" ++ ulid then none
          else match offerLease L p s.commits a previous ("lease_" ++ ulid) s.now with
          | .ok c => some ({ s with commits := s.commits ++ [c] }.enter p (.pushing a previous (handedOut L p c)))
          | .error e => some (s.enter p (.failed e))
      | _ => none
  | .push p reply =>
      match s.phase p with
      | .pushing a previous lease =>
          if reaches s previous lease.leaseCommit reply then
            some ({ s with ref := some lease.leaseCommit }.enter p
              (if reply = PushReply.answered then .holding lease else a.retry))
          else some (s.enter p a.retry)
      | _ => none
  | .release p verified =>
      match s.phase p with
      | .holding lease =>
          match beginRelease L p lease verified with
          | .ok verified => some (s.enter p (.confirming verified lease))
          | .error e => some (s.enter p (.failed e))
      | _ => none
  | .confirm p =>
      match s.phase p with
      | .confirming verified lease =>
          if s.ref = some lease.leaseCommit then some (s.enter p (.ending verified lease))
          else some (s.enter p (.failed (.invalid "coordination lease is no longer current")))
      | _ => none
  | .finish p =>
      match s.phase p with
      | .ending verified lease =>
          match endLease L p s.commits verified lease s.now with
          | .ok c => some ({ s with commits := s.commits ++ [c] }.enter p (.unlocking lease (L.commitName c)))
          | .error e => some (s.enter p (.failed e))
      | _ => none
  | .unlock p reply =>
      match s.phase p with
      | .unlocking lease commit =>
          if reaches s (some lease.leaseCommit) commit reply then
            some ({ s with ref := some commit }.enter p
              (if reply = PushReply.answered then .idle
              else .failed (.invalid "coordination lease changed before it could be released")))
          else some (s.enter p (.failed (.invalid "coordination lease changed before it could be released")))
      | _ => none
  | .stop p => some (s.enter p .idle)

/-- The steps of a run. -/
def Steps (s : State π) (e : Event π) (t : State π) : Prop := next L s e = some t

end ArchiveLedger.Leases
