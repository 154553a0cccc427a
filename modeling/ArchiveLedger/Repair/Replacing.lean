import ArchiveLedger.Foundation.Volume
import ArchiveLedger.Foundation.Transition
import ArchiveLedger.Catalog.Snapshots

/-!
# Replacing one corrupt copy

`repair_one` for one target of a repair job, and what `execute_v2_repair` plans for it, as a
machine: `advance` is one step of the running program, after each of which it can stop
(`crash`).  A job that stopped is planned and run again, and the user may change the file at
the destination whenever `repair_one` is not running.
-/

namespace ArchiveLedger.Repair

open Volumes

/-- The paths of a target, and the temporary file of `copy_verified_no_replace`. -/
inductive Name
  | destination
  | staged
  | quarantine
  | temporary
  deriving DecidableEq

/-- A regular file; times are nanoseconds since the epoch. -/
structure StoredFile where
  bytes : Bytes
  modified : Int
  permissions : Nat
  deriving DecidableEq

abbrev Disk := Volume Name StoredFile

/-- A no-replace move is one call on Linux, and a link and an unlink elsewhere; outside Unix
no two paths are known to be the same file. -/
inductive Platform
  | linux
  | unix
  | other
  deriving DecidableEq

/-- A repair job with one target, and the checksum it is checked with. -/
structure RepairJob where
  blake3 : Bytes → String
  platform : Platform
  includeChanged : Bool
  blake3Hex : String
  observedSize : Option Int
  observedMtime : Option Int

/-- What the plan notes of a file: its size and its modification time. -/
def StoredFile.state (f : StoredFile) : Nat × Int := (f.bytes.length, f.modified)

/-- The dates and permissions that a replacement gets. -/
def StoredFile.attributes (f : StoredFile) : Int × Nat := (f.modified, f.permissions)

inductive SafeCopyError
  | destinationExists (path : Name)
  | sourceChanged
  | destinationMismatch (path : Name)
  | io (operation : String) (path : Name)
  deriving DecidableEq

inductive RepairError
  | input (message : String)
  | copy (error : SafeCopyError)
  | io (path : Name)
  deriving DecidableEq

/-- `verify_existing_file`. -/
def verifyExistingFile (j : RepairJob) (disk : Disk) (path : Name) : Except SafeCopyError Nat :=
  match disk.read path with
  | none => .error (.io "inspect existing destination" path)
  | some f =>
      if j.blake3 f.bytes = j.blake3Hex then .ok f.bytes.length
      else .error (.destinationMismatch path)

/-- The checks of `place_file_no_replace`. -/
def checkPlace (disk : Disk) (source target : Name) : Except SafeCopyError Unit :=
  if disk.entry source = none then .error (.io "inspect prepared file" source)
  else if disk.entry target ≠ none then .error (.destinationExists target)
  else .ok ()

/-- `same_file`, of the destination and the file in quarantine. -/
def sameFile (j : RepairJob) (disk : Disk) : Bool :=
  j.platform ≠ .other && disk.entry .destination = disk.entry .quarantine

/-! ### Planning -/

/-- `i64::try_from`. -/
def i64 (n : Int) : Option Int := if n < 2 ^ 63 then some n else none

/-- The modification time in milliseconds, of a file not older than the epoch. -/
def StoredFile.mtime (f : StoredFile) : Option Int :=
  if 0 ≤ f.modified then i64 (f.modified / 1000000) else none

/-- Why a target is left out of the plan. -/
inductive ItemStatus
  | failed
  | skippedChanged
  | noSource
  deriving DecidableEq

def resuming (disk : Disk) : Bool :=
  (disk.entry .quarantine).isSome || (disk.entry .staged).isSome

/-- The plan of `execute_v2_repair` for the target: the state that the file must still
have, which a resumed plan does not look at. -/
def planTarget (j : RepairJob) (disk : Disk) (source : Option Bytes) :
    Except ItemStatus (Option (Nat × Int)) :=
  if resuming disk then .ok none
  else
    match disk.read .destination with
    | none => .error .failed
    | some current =>
        let edited := i64 current.bytes.length ≠ j.observedSize || current.mtime ≠ j.observedMtime
        if edited && !j.includeChanged then .error .skippedChanged
        else if source.isNone then .error .noSource
        else .ok (some current.state)

/-! ### Running -/

/-- Where the program stands. -/
inductive Process
  /-- Not running; the result of the last run, if it came to one. -/
  | stopped (result : Option (Except RepairError Nat))
  | planned (planned : Option (Nat × Int)) (source : Option Bytes)
  /-- The verified bytes are in the temporary file. -/
  | copied (planned : Option (Nat × Int)) (original : Int × Nat)
  /-- The temporary file is linked at the staged path, too. -/
  | copyLinked (planned : Option (Nat × Int)) (original : Int × Nat)
  /-- The staged file has yet to get its dates. -/
  | undated (planned : Option (Nat × Int)) (original : Int × Nat)
  /-- The staged file has yet to get its permissions. -/
  | dated (planned : Option (Nat × Int)) (original : Int × Nat)
  | ready (planned : Option (Nat × Int))
  /-- The file is linked at both the destination and the quarantine path. -/
  | setAside
  | replacing
  /-- The staged file is linked at the destination, too. -/
  | placing
  | checking

/-- The disk and the program, and three facts that the program does not keep: what the
plan of the job saw, whether the file at the destination is one that the job has put there
and the user has not changed, and whether it was good when the run began. -/
structure State where
  disk : Disk
  process : Process
  planSaw : Option (Nat × Int)
  placed : Bool
  goodBefore : Bool

/-- `repair_one` returns, and its temporary file goes with it. -/
def State.stop (s : State) (result : Option (Except RepairError Nat)) : State :=
  { s with disk := s.disk.unlink .temporary, process := .stopped result }

def State.fail (s : State) (e : RepairError) : State := s.stop (some (.error e))

/-- `place_file_no_replace`, or its first half. -/
def State.place (j : RepairJob) (s : State) (source target : Name) (linked done : Process) :
    State :=
  match checkPlace s.disk source target with
  | .error e => s.fail (.copy e)
  | .ok () =>
      match j.platform with
      | .linux => { s with disk := s.disk.rename source target, process := done }
      | .unix => { s with disk := s.disk.link source target, process := linked }
      | .other => { s with disk := s.disk.link source target, process := linked }

/-- The end of a move in two steps. -/
def State.unlinked (s : State) (source : Name) (done : Process) : State :=
  { s with disk := s.disk.unlink source, process := done }

/-- `copy_verified_no_replace`, up to the move of its temporary file; `created` are the dates
and permissions that a new file gets. -/
def State.copy (j : RepairJob) (s : State) (planned : Option (Nat × Int)) (original : StoredFile)
    (source : Bytes) (created : Int × Nat) : State :=
  if s.disk.entry .staged ≠ none then s.fail (.copy (.destinationExists .staged))
  else if j.blake3 source ≠ j.blake3Hex then s.fail (.copy .sourceChanged)
  else
    { s with
      disk := s.disk.create .temporary ⟨source, created.1, created.2⟩
      process := .copied planned original.attributes }

/-- How `repair_one` begins: a fresh run looks at the destination and copies, and a resumed
one looks at what is staged. -/
def State.begin (j : RepairJob) (s : State) (planned : Option (Nat × Int)) (source : Option Bytes)
    (created : Int × Nat) : State :=
  let s := { s with goodBefore := (verifyExistingFile j s.disk .destination).isOk }
  if resuming s.disk then
    if (s.disk.entry .staged).isSome then
      match verifyExistingFile j s.disk .staged with
      | .error e => s.fail (.copy e)
      | .ok _ => { s with process := .ready planned }
    else { s with process := .ready planned }
  else
    match verifyExistingFile j s.disk .destination with
    | .ok bytes => s.stop (some (.ok bytes))
    | .error _ =>
        match source, s.disk.read .destination with
        | none, _ => s.fail (.input "no connected verified copy to repair from")
        | some _, none => s.fail (.io .destination)
        | some source, some original => s.copy j planned original source created

/-- `set_modified` and `set_permissions`. -/
def State.setStaged (s : State) (f : StoredFile → StoredFile) (process : Process) : State :=
  match s.disk.read .staged with
  | none => s.fail (.io .staged)
  | some g => { s with disk := s.disk.write .staged (f g), process := process }

/-- The file goes to quarantine, if it is still what was planned. -/
def State.setAside (j : RepairJob) (s : State) (planned : Option (Nat × Int)) : State :=
  match planned, s.disk.read .destination with
  | some _, none => s.fail (.io .destination)
  | some state, some now =>
      if now.state ≠ state then
        { s with disk := s.disk.unlink .staged }.fail
          (.input "the file changed after the repair was planned; nothing was replaced")
      else s.place j .destination .quarantine .setAside .replacing
  | none, _ => s.place j .destination .quarantine .setAside .replacing

/-- What is done to the file that is in the way. -/
def State.clear (j : RepairJob) (s : State) (planned : Option (Nat × Int)) : State :=
  if s.disk.entry .quarantine = none then s.setAside j planned
  else if (s.disk.entry .staged).isSome && (s.disk.entry .destination).isSome &&
      sameFile j s.disk then
    { s with disk := s.disk.unlink .destination, process := .replacing }
  else { s with process := .replacing }

/-- The staged file goes to the destination, if that is free. -/
def State.replace (j : RepairJob) (s : State) : State :=
  if (s.disk.entry .staged).isSome && (s.disk.entry .destination).isNone then
    { s with placed := true }.place j .staged .destination .placing .checking
  else { s with process := .checking }

/-- The last check, and the return. -/
def State.check (j : RepairJob) (s : State) : State :=
  match verifyExistingFile j s.disk .destination with
  | .error e => s.fail (.copy e)
  | .ok bytes => s.stop (some (.ok bytes))

/-- One step of `repair_one`. -/
def State.advance (j : RepairJob) (s : State) (created : Int × Nat) : Option State :=
  match s.process with
  | .stopped _ => none
  | .planned planned source => some (s.begin j planned source created)
  | .copied planned original =>
      some (s.place j .temporary .staged (.copyLinked planned original) (.undated planned original))
  | .copyLinked planned original => some (s.unlinked .temporary (.undated planned original))
  | .undated planned original =>
      some (s.setStaged (fun f => { f with modified := original.1 }) (.dated planned original))
  | .dated planned original =>
      some (s.setStaged (fun f => { f with permissions := original.2 }) (.ready planned))
  | .ready planned => some (s.clear j planned)
  | .setAside => some (s.unlinked .destination .replacing)
  | .replacing => some (s.replace j)
  | .placing => some (s.unlinked .staged .checking)
  | .checking => some (s.check j)

/-! ### Runs -/

/-- What the user does to the destination: a change in place, another file, or none. -/
inductive Edit
  | write (file : StoredFile)
  | replace (file : StoredFile)
  | remove

def Edit.apply (disk : Disk) : Edit → Option Disk
  | .write f => if disk.entry .destination = none then none else some (disk.write .destination f)
  | .replace f => some (disk.create .destination f)
  | .remove => some (disk.unlink .destination)

inductive Action
  | edit (e : Edit)
  | plan (source : Option Bytes)
  | advance (created : Int × Nat)
  /-- The program stops, or fails at what it was about to do. -/
  | crash

/-- `repair_one` is between its first and its last step. -/
def Process.running : Process → Bool
  | .stopped _ => false
  | .planned _ _ => false
  | _ => true

def State.plan (j : RepairJob) (s : State) (source : Option Bytes) : State :=
  match planTarget j s.disk source with
  | .error _ => { s with process := .stopped none }
  | .ok none => { s with process := .planned none source }
  | .ok (some state) => { s with process := .planned (some state) source, planSaw := some state }

def State.next (j : RepairJob) (s : State) : Action → Option State
  | .edit e =>
      if s.process.running then none
      else (e.apply s.disk).map fun disk => { s with disk := disk, placed := false }
  | .plan source =>
      match s.process with
      | .stopped _ => some (s.plan j source)
      | _ => none
  | .advance created => s.advance j created
  | .crash =>
      match s.process with
      | .stopped _ => none
      | _ => some (s.stop none)

/-- One step of the job or of the user. -/
def Step (j : RepairJob) (s : State) (a : Action) (t : State) : Prop := s.next j a = some t

/-- The states that a list of steps leads to, up to the first that cannot be made. -/
def State.trace (j : RepairJob) : State → List Action → List (Action × State)
  | _, [] => []
  | s, a :: rest =>
      match s.next j a with
      | none => []
      | some t => (a, t) :: t.trace j rest

/-- Before the first run: no file is staged or in quarantine. -/
structure Initial (s : State) : Prop where
  staged : s.disk.entry .staged = none
  quarantine : s.disk.entry .quarantine = none
  temporary : s.disk.entry .temporary = none
  process : s.process = .stopped none
  placed : s.placed = false

end ArchiveLedger.Repair
