import ArchiveLedger.Foundation.CommitGraph
import ArchiveLedger.Sync.Trees

/-!
# Synchronization with a remote

`sync_remote` of `v2_store.rs` and the appends beside it, step by step.  Any number of processes
work on any number of replicas of one archive and on one remote ref; each step reads or writes the
shared state once (`next`), and the steps of all processes interleave freely.  Commits stand for
their trees, and a commit is named by its place in the order of their making.  Git's refs are the
state: the head of each replica, what it fetched and what it recorded as synchronized, and the remote.

The remote moves by `push_new_archive_ref`, which does not force, and by `push_archive_ref_cas`.  An
answer of a push may be lost on its way, and a process whose Git command fails, or that is killed, stops.
-/

namespace ArchiveLedger.Sync

open CommitGraph Outcome Transition

/-! ### Processes -/

structure V2SyncResult where
  localCommitBefore : Nat
  remoteCommitBefore : Option Nat
  acceptedCommit : Nat
  acceptedFrontierHash : String
  origins : Nat
  records : Nat
  fetched : Bool
  pushed : Bool
  merged : Bool
deriving DecidableEq, Repr

def syncResult (localBefore : Nat) (remoteBefore : Option Nat) (accepted : Nat) (verified : VerifiedV2Archive)
    (fetched pushed merged : Bool) : V2SyncResult where
  localCommitBefore := localBefore
  remoteCommitBefore := remoteBefore
  acceptedCommit := accepted
  acceptedFrontierHash := verified.acceptedFrontierHash
  origins := verified.acceptedFrontier.origins.length
  records := verified.recordCount
  fetched := fetched
  pushed := pushed
  merged := merged

/-- What a sync holds from its start on, and how many attempts it has left. -/
structure Attempt where
  localBefore : Nat
  localVerified : VerifiedV2Archive
  attempts : Nat

/-- Where a process stands.  A pushed or forwarded union has the hash of its verified frontier. -/
inductive Phase where
  | idle
  | appending (commit : Nat)
  | verified (commit : Nat) (archive : VerifiedV2Archive)
  | querying (a : Attempt)
  | creating (a : Attempt)
  | fetching (a : Attempt) (remote : Nat)
  | comparing (a : Attempt) (remote : Nat)
  | pushing (a : Attempt) (remote commit : Nat) (union : Option String)
  | forwarding (a : Attempt) (remote target : Nat) (union : Option String)
  | confirming (a : Attempt) (remote target : Nat) (union : Option String)
  | done (result : V2SyncResult)
  | failed (error : V2StoreError)

/-- A process that may begin anew. -/
def Phase.resting : Phase → Bool
  | .idle | .done _ | .failed _ => true
  | _ => false

def changedRepeatedly : V2StoreError := .invalid "synchronization remote changed repeatedly; retry the sync"

def differsFromUnion : V2StoreError := .invalid "local synchronization result differs from verified union"

/-- `continue` in the loop of attempts. -/
def Attempt.retry (a : Attempt) : Phase :=
  match a.attempts with
  | 0 => .failed changedRepeatedly
  | attempts + 1 => .querying { a with attempts }

/-- How a push ends for its client. -/
inductive PushReply where
  | answered
  | lost
  | refused
deriving DecidableEq, Repr

/-! ### The shared state -/

structure State (κ π : Type) where
  commits : List (Commit EventTree)
  remote : Option Nat
  head : κ → Nat
  fetched : κ → Option Nat
  synced : κ → Option Nat
  phase : π → Phase

/-- The first commit of an archive, before any of its replicas did anything. -/
structure Started {κ π : Type} (s : State κ π) : Prop where
  root : ∃ tree, s.commits = [⟨[], tree⟩]
  remote : s.remote = none
  head : ∀ k, s.head k = 0
  fetched : ∀ k, s.fetched k = none
  synced : ∀ k, s.synced k = none
  idle : ∀ p, s.phase p = .idle

variable {κ π : Type} [DecidableEq κ] [DecidableEq π]

def State.enter (s : State κ π) (p : π) (phase : Phase) : State κ π :=
  { s with phase := Function.update s.phase p phase }

def State.tree? (s : State κ π) (commit : Nat) : Option EventTree := (s.commits[commit]?).map Commit.content

/-- `git commit-tree`: one made again in the same second has the name of the first. -/
def commitTree (commits : List (Commit EventTree)) (c : Commit EventTree) (again : Bool) :
    List (Commit EventTree) × Nat :=
  match if again then commits.findIdx? fun d => d.parents = c.parents ∧ d.content = c.content else none with
  | some made => (commits, made)
  | none => (commits ++ [c], commits.length)

variable (R : StoreRuntime)

/-- A sync after its fetch, to the push or the fast-forward it decides on.  `permits` is the outcome of
`validate_protected_publication`. -/
def compareFetched (commits : List (Commit EventTree)) (a : Attempt) (remote fetched : Nat)
    (permits : StoreResult Unit) (again : Bool) : StoreResult (List (Commit EventTree) × Phase) :=
  if fetched ≠ remote then .ok (commits, a.retry)
  else if fetched = a.localBefore then
    .ok (commits, .done (syncResult a.localBefore (some remote) a.localBefore a.localVerified true false false))
  else do
    let remoteTree ← okOr ((commits[fetched]?).map Commit.content) (.io "create worktree" "")
    let (remoteVerified, _) ← visitVerified R remoteTree
    validateSameArchive R a.localVerified remoteVerified
    if isAncestor commits a.localBefore fetched then .ok (commits, .forwarding a remote fetched none)
    else do
      permits
      if isAncestor commits fetched a.localBefore then .ok (commits, .pushing a remote a.localBefore none)
      else do
        let localTree ← okOr ((commits[a.localBefore]?).map Commit.content) (.io "create worktree" "")
        let tree ← uniteTrees R a.localVerified remoteVerified localTree remoteTree
        let (unionVerified, _) ← visitVerified R tree
        let made := commitTree commits ⟨[a.localBefore, remote], tree⟩ again
        .ok (made.1, .pushing a remote made.2 (some unionVerified.acceptedFrontierHash))

inductive Event (π : Type) where
  | beginAppend (p : π)
  | commitAppend (p : π) (a : AppendedSegment)
  | verifyLocal (p : π)
  | readHead (p : π)
  | query (p : π)
  | create (p : π) (reply : PushReply)
  | fetch (p : π)
  | compare (p : π) (permits : StoreResult Unit) (again : Bool)
  | push (p : π) (reply : PushReply)
  | forward (p : π)
  | confirm (p : π)
  | record (p : π)
  | stop (p : π)

variable (owner : π → κ)

/-- One step of a process.  There is none where the process does not stand at it. -/
def next (s : State κ π) : Event π → Option (State κ π)
  | .beginAppend p =>
      if (s.phase p).resting then some (s.enter p (.appending (s.head (owner p)))) else none
  | .commitAppend p a =>
      match s.phase p with
      | .appending commit => do
          let verified ← s.tree? commit
          let tree ← s.tree? (s.head (owner p))
          let out ← (appendSegment R verified tree a).toOption
          some { s.enter p .idle with
            commits := s.commits ++ [⟨[s.head (owner p)], out⟩]
            head := Function.update s.head (owner p) s.commits.length }
      | _ => none
  | .verifyLocal p =>
      if (s.phase p).resting then (s.tree? (s.head (owner p))).map fun tree =>
        match visitVerified R tree with
        | .ok (archive, _) => s.enter p (.verified (s.head (owner p)) archive)
        | .error e => s.enter p (.failed e)
      else none
  | .readHead p =>
      match s.phase p with
      | .verified _ archive => some (s.enter p (.querying ⟨s.head (owner p), archive, 3⟩))
      | _ => none
  | .query p =>
      match s.phase p with
      | .querying a =>
          match s.remote with
          | none => some (s.enter p (.creating a))
          | some remote => some (s.enter p (.fetching a remote))
      | _ => none
  | .create p reply =>
      match s.phase p with
      | .creating a =>
          -- without force a ref only moves ahead
          if reply ≠ .refused ∧ s.remote.all fun remote => isAncestor s.commits remote a.localBefore then
            some ({ s with remote := some a.localBefore }.enter p
              (if reply = PushReply.answered then
                .done (syncResult a.localBefore none a.localBefore a.localVerified false true false)
              else a.retry))
          else some (s.enter p a.retry)
      | _ => none
  | .fetch p =>
      match s.phase p with
      | .fetching a remote =>
          s.remote.map fun now =>
            { s with fetched := Function.update s.fetched (owner p) (some now) }.enter p (.comparing a remote)
      | _ => none
  | .compare p permits again =>
      match s.phase p with
      | .comparing a remote =>
          (s.fetched (owner p)).map fun fetched =>
            match compareFetched R s.commits a remote fetched permits again with
            | .ok (commits, phase) => { s with commits }.enter p phase
            | .error e => s.enter p (.failed e)
      | _ => none
  | .push p reply =>
      match s.phase p with
      | .pushing a remote commit union =>
          -- what the remote has already is up to date
          if reply ≠ .refused ∧ (s.remote = some remote ∨ s.remote = some commit) then
            some ({ s with remote := some commit }.enter p
              (if reply = PushReply.answered then
                match union with
                | none => .done (syncResult a.localBefore (some remote) commit a.localVerified true true false)
                | some hash => .forwarding a remote commit (some hash)
              else a.retry))
          else some (s.enter p a.retry)
      | _ => none
  | .forward p =>
      match s.phase p with
      | .forwarding a remote target union =>
          if isAncestor s.commits target (s.head (owner p)) then some (s.enter p (.confirming a remote target union))
          else if isAncestor s.commits (s.head (owner p)) target then
            some ({ s with head := Function.update s.head (owner p) target }.enter p (.confirming a remote target union))
          else none
      | _ => none
  | .confirm p =>
      match s.phase p with
      | .confirming a remote target union =>
          (s.tree? (s.head (owner p))).map fun tree =>
            match visitVerified R tree with
            | .error e => s.enter p (.failed e)
            | .ok (archive, _) =>
                if union.all fun hash => archive.acceptedFrontierHash = hash then
                  s.enter p (.done (syncResult a.localBefore (some remote) target archive true union.isSome union.isSome))
                else s.enter p (.failed differsFromUnion)
      | _ => none
  | .record p =>
      match s.phase p with
      | .done result =>
          some { s with synced := Function.update s.synced (owner p) (some result.acceptedCommit) }
      | _ => none
  | .stop p => some (s.enter p .idle)

/-- A local read that no step of another process of the replica separates from what was verified
before it. -/
def undisturbed (s : State κ π) : Event π → Bool
  | .commitAppend p _ =>
      match s.phase p with
      | .appending commit => s.head (owner p) = commit
      | _ => true
  | .readHead p =>
      match s.phase p with
      | .verified commit _ => s.head (owner p) = commit
      | _ => true
  | _ => true

/-- The steps of a run. -/
def Steps (s : State κ π) (e : Event π) (t : State κ π) : Prop := next R owner s e = some t

def appendFree : Event π → Bool
  | .commitAppend _ _ => false
  | _ => true

/-- In this part of a run the client begins a sync and completes one. -/
def Completes (p : List (Event π × State κ π)) (k : κ) : Prop :=
  ∃ process before t during after result, owner process = k ∧ p = before ++ (.verifyLocal process, t) :: (during ++ after) ∧
    (final t during).phase process = .done result

/-! ### Protection -/

/-- The commits that `catalog_protection` counts: those of the head that are reachable neither from what
was recorded nor from what was fetched. -/
def unsyncedCommits (s : State κ π) (k : κ) : List Nat :=
  (List.range s.commits.length).filter fun i =>
    isAncestor s.commits i (s.head k) ∧
      ¬ (s.synced k).any (isAncestor s.commits i) ∧ ¬ (s.fetched k).any (isAncestor s.commits i)

end ArchiveLedger.Sync
