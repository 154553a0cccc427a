import ArchiveLedger.Journal.Batches
import ArchiveLedger.Policy.FileEvaluation

/-!
# Evaluations of Policies

`evaluate_policies` of `policy.rs`: the files are taken in order, each is counted under its
Policy (`evaluateAndStoreFile`), and what was counted is published as a rollup
(`finishEvaluation`).  `invalidEvaluationReason` says why a published one may not be used.
-/

namespace ArchiveLedger

open Transition Relational

/-- A row of `policy_status`. -/
structure PolicyFinding where
  fileRefId : String
  objectId : Option String
  status : PolicyStatus
  reasons : EvaluationReasons
  actions : List String
deriving DecidableEq, Repr

/-- The running evaluation of a Policy, with the findings stored for it. -/
structure PolicyContext where
  policyId : String
  policyVersion : Nat
  requirements : AcceptedRequirements
  filesExpected : Nat
  filesEvaluated : Nat
  filesSatisfied : Nat
  filesViolated : Nat
  filesUncertain : Nat
  filesSizeUnknown : Nat
  bytesKnownTotal : Nat
  bytesKnownAtRisk : Nat
  validUntil : Option Nat
  findings : List PolicyFinding
deriving DecidableEq

/-- A `BTreeMap` by Policy id. -/
def policyContextSchema : Schema String PolicyContext := .ofKey PolicyContext.policyId

/-- A row of the query over `policies`, with its requirements as parsed. -/
structure ConfiguredPolicy where
  policyId : String
  policyVersion : Nat
  requirements : AcceptedRequirements
  filesExpected : Nat

def ConfiguredPolicy.context (p : ConfiguredPolicy) : PolicyContext where
  policyId := p.policyId
  policyVersion := p.policyVersion
  requirements := p.requirements
  filesExpected := p.filesExpected
  filesEvaluated := 0
  filesSatisfied := 0
  filesViolated := 0
  filesUncertain := 0
  filesSizeUnknown := 0
  bytesKnownTotal := 0
  bytesKnownAtRisk := 0
  validUntil := none
  findings := []

namespace PolicyContext

/-- The counters that a File moves whatever its status. -/
def countSize (p : PolicyContext) (file : FileFact) : PolicyContext :=
  let p := { p with filesEvaluated := p.filesEvaluated + 1 }
  match file.sizeBytes with
  | some size => { p with bytesKnownTotal := saturatingAdd p.bytesKnownTotal size }
  | none => { p with filesSizeUnknown := p.filesSizeUnknown + 1 }

def countStatus (p : PolicyContext) (status : Option PolicyStatus) : PolicyContext :=
  match status with
  | none => { p with filesSatisfied := p.filesSatisfied + 1 }
  | some .violated => { p with filesViolated := p.filesViolated + 1 }
  | some .uncertain => { p with filesUncertain := p.filesUncertain + 1 }

def storeFinding (p : PolicyContext) (file : FileFact) (e : FileEvaluation) : PolicyContext :=
  match e.status with
  | none => p
  | some status =>
      let p := match file.sizeBytes with
        | some size => { p with bytesKnownAtRisk := saturatingAdd p.bytesKnownAtRisk size }
        | none => p
      { p with findings := p.findings ++ [⟨file.fileRefId, file.objectId, status, e.reasons, e.actions⟩] }

def count (p : PolicyContext) (file : FileFact) (e : FileEvaluation) : PolicyContext :=
  let p := p.countSize file
  let p := { p with validUntil := minimumTime p.validUntil e.validUntil }
  (p.countStatus e.status).storeFinding file e

/-- What a File leaves in each field. -/
theorem count_eq (p : PolicyContext) (file : FileFact) (e : FileEvaluation) : p.count file e =
    { p with
      filesEvaluated := p.filesEvaluated + 1
      filesSatisfied := p.filesSatisfied + if e.status = none then 1 else 0
      filesViolated := p.filesViolated + if e.status = some .violated then 1 else 0
      filesUncertain := p.filesUncertain + if e.status = some .uncertain then 1 else 0
      filesSizeUnknown := p.filesSizeUnknown + if file.sizeBytes = none then 1 else 0
      bytesKnownTotal := file.sizeBytes.elim p.bytesKnownTotal (saturatingAdd p.bytesKnownTotal)
      bytesKnownAtRisk := (e.status.bind fun _ => file.sizeBytes).elim p.bytesKnownAtRisk
        (saturatingAdd p.bytesKnownAtRisk)
      validUntil := minimumTime p.validUntil e.validUntil
      findings := p.findings ++ (e.status.map fun status =>
        (⟨file.fileRefId, file.objectId, status, e.reasons, e.actions⟩ : PolicyFinding)).toList } := by
  unfold count countSize countStatus storeFinding
  cases hsize : file.sizeBytes with
  | none => cases hstatus : e.status with
    | none => simp
    | some status => cases status <;> simp
  | some size => cases hstatus : e.status with
    | none => simp
    | some status => cases status <;> simp

theorem policyId_count (p : PolicyContext) (file : FileFact) (e : FileEvaluation) :
    (p.count file e).policyId = p.policyId := by
  rw [count_eq]

end PolicyContext

/-- What `load_projection_marker` returns: it has looked up the event with the applied number, whose
column is a signed one. -/
structure ProjectionMarker where
  appliedSeq : Nat
  policyInputEventSeq : Nat
  policyInputEventSeq_le : policyInputEventSeq ≤ appliedSeq
  appliedSeq_pos : 0 < appliedSeq
  appliedSeq_le : appliedSeq ≤ i64Max

namespace PolicyContext

def sqlI64 (value : Nat) (field : String) : PolicyResult Unit :=
  Outcome.require (value ≤ i64Max) (.invalidState (field ++ " is outside the SQLite range"))

/-- The numbers that the rows of `policy_status` and `policy_rollup` share. -/
def sqlEvaluated (marker : ProjectionMarker) (now : Nat) (p : PolicyContext) : PolicyResult Unit := do
  sqlI64 p.policyVersion "policy_version"
  sqlI64 marker.appliedSeq "evaluated_event_seq"
  sqlI64 marker.policyInputEventSeq "evaluated_policy_input_seq"
  sqlI64 now "evaluated_time_utc_ms"

/-- A File whose Policy is satisfied stores no finding. -/
def sqlFinding (marker : ProjectionMarker) (now : Nat) (p : PolicyContext) (status : Option PolicyStatus) :
    PolicyResult Unit :=
  match status with
  | none => .ok ()
  | some _ => p.sqlEvaluated marker now

theorem sqlI64_eq_ok {value : Nat} {field : String} {u : Unit} : sqlI64 value field = .ok u ↔ value ≤ i64Max :=
  Outcome.require_eq_ok

/-- The numbers of the marker always fit. -/
theorem sqlEvaluated_eq_ok {marker : ProjectionMarker} {now : Nat} {p : PolicyContext} {u : Unit} :
    p.sqlEvaluated marker now = .ok u ↔ p.policyVersion ≤ i64Max ∧ now ≤ i64Max := by
  have hinput : marker.policyInputEventSeq ≤ i64Max :=
    le_trans marker.policyInputEventSeq_le marker.appliedSeq_le
  simp only [sqlEvaluated, bind_eq_ok, sqlI64_eq_ok, exists_const, marker.appliedSeq_le, hinput, true_and]

end PolicyContext

open PolicyContext

/-- The row of `policy_evaluations` with which a Policy begins. -/
def startEvaluation (marker : ProjectionMarker) (now : Nat) : PolicyResult Unit := do
  sqlI64 marker.appliedSeq "evaluated_event_seq"
  sqlI64 marker.policyInputEventSeq "evaluated_policy_input_seq"
  sqlI64 now "started_time_utc_ms"

def evaluateAndStoreFile (topology : DomainTopology) (marker : ProjectionMarker) (now : Nat)
    (policies : Table policyContextSchema) (file : FileFact) : PolicyResult (Table policyContextSchema) := do
  let policy ← Outcome.okOr (policies.get? file.policyId)
    (.invalidState ("unknown policy context " ++ file.policyId))
  let e ← evaluateFile file policy.requirements.val topology now
  policy.sqlFinding marker now e.status
  .ok (policies.modify (fun p => p.policyId = file.policyId) (fun p => p.count file e)
    (fun p => stated (p.policyId_count file e)) fun _ _ h => stated h)

/-- A row of `policy_rollup`. -/
structure PolicyRollup where
  filesTotal : Nat
  filesSatisfied : Nat
  filesViolated : Nat
  filesUncertain : Nat
  filesSizeUnknown : Nat
  bytesKnownTotal : Nat
  bytesKnownAtRisk : Nat
deriving DecidableEq, Repr

def PolicyContext.rollup (p : PolicyContext) : PolicyRollup where
  filesTotal := p.filesEvaluated
  filesSatisfied := p.filesSatisfied
  filesViolated := p.filesViolated
  filesUncertain := p.filesUncertain
  filesSizeUnknown := p.filesSizeUnknown
  bytesKnownTotal := p.bytesKnownTotal
  bytesKnownAtRisk := p.bytesKnownAtRisk

def finishEvaluation (marker : ProjectionMarker) (now : Nat) (p : PolicyContext) : PolicyResult Unit := do
  Outcome.require (p.filesEvaluated = p.filesExpected)
    (.invalidState ("policy " ++ p.policyId ++ " expected " ++ p.filesExpected.repr ++
      " files but evaluated " ++ p.filesEvaluated.repr))
  p.sqlEvaluated marker now
  sqlI64 p.filesEvaluated "files_total"
  sqlI64 p.filesSatisfied "files_satisfied"
  sqlI64 p.filesViolated "files_violated"
  sqlI64 p.filesUncertain "files_uncertain"
  sqlI64 p.filesSizeUnknown "files_size_unknown"
  sqlI64 p.bytesKnownTotal "bytes_known_total"
  sqlI64 p.bytesKnownAtRisk "bytes_known_at_risk"
  match p.validUntil with
  | some validUntil => sqlI64 validUntil "valid_until_utc_ms"
  | none => .ok ()

/-- The evaluations that are published; an error publishes none. -/
def evaluatePolicies (marker : ProjectionMarker) (policies : Table policyContextSchema)
    (topology : DomainTopology) (files : List FileFact) (now : Nat) :
    PolicyResult (Table policyContextSchema) := do
  policies.rows.forM fun _ => startEvaluation marker now
  let policies ← files.foldlM (evaluateAndStoreFile topology marker now) policies
  policies.rows.forM (finishEvaluation marker now)
  .ok policies

def rulesVersion : Nat := 1

/-! ### Reviews -/

def PolicyStatus.text : PolicyStatus → String
  | .violated => "violated"
  | .uncertain => "uncertain"

/-- An active File with the rows that the query of `review_file_policy` joins: its Copies, its Policy
and the requirements as parsed. -/
structure ConfiguredFile where
  file : FileFact
  policyVersion : Nat
  requirements : AcceptedRequirements

structure FilePolicyReview where
  version : Nat
  appliedEventSeq : Nat
  fileRefId : String
  logicalPathDisplay : String
  policyId : String
  policyVersion : Nat
  status : String
  qualifyingCopies : List QualifyingCopyReview
  reasons : EvaluationReasons
  recommendedActions : List String
  validUntilUtcMs : Option Nat
deriving DecidableEq, Repr

/-- Without an active File under an active Policy there is nothing to review. -/
def reviewFilePolicy (marker : ProjectionMarker) (topology : DomainTopology) (now : Nat) :
    Option ConfiguredFile → PolicyResult (Option FilePolicyReview)
  | none => .ok none
  | some c => do
    let e ← evaluateFile c.file c.requirements.val topology now
    .ok (some
      { version := rulesVersion
        appliedEventSeq := marker.appliedSeq
        fileRefId := c.file.fileRefId
        logicalPathDisplay := c.file.logicalPathDisplay
        policyId := c.file.policyId
        policyVersion := c.policyVersion
        status := (e.status.map PolicyStatus.text).getD "satisfied"
        qualifyingCopies := e.qualifyingCopies
        reasons := e.reasons
        recommendedActions := e.actions
        validUntilUtcMs := e.validUntil })

/-! ### Validity -/

/-- An evaluation joined with its Policy and its rollup. -/
structure ValidityRow where
  status : String
  filesExpected : Int
  filesEvaluated : Int
  evaluatedPolicyInputSeq : Int
  evaluationPolicyVersion : Int
  validUntilUtcMs : Option Int
  currentPolicyVersion : Int
  policyStatus : String
  policyEnabled : Int
  rulesVersion : Int
  rollupTotal : Option Int
  rollupSatisfied : Option Int
  rollupViolated : Option Int
  rollupUncertain : Option Int
  findingCount : Int
deriving DecidableEq, Repr

/-- What the tables hold of a published evaluation, beside the Policy as it is now. -/
def PolicyContext.validityRow (p : PolicyContext) (inputSeq : Nat) (current : PolicySnapshot) :
    ValidityRow where
  status := "complete"
  filesExpected := p.filesExpected
  filesEvaluated := p.filesEvaluated
  evaluatedPolicyInputSeq := inputSeq
  evaluationPolicyVersion := p.policyVersion
  validUntilUtcMs := p.validUntil.map Int.ofNat
  currentPolicyVersion := current.policyVersion
  policyStatus := current.status
  policyEnabled := if current.enabled then 1 else 0
  rulesVersion := ArchiveLedger.rulesVersion
  rollupTotal := some p.filesEvaluated
  rollupSatisfied := some p.filesSatisfied
  rollupViolated := some p.filesViolated
  rollupUncertain := some p.filesUncertain
  findingCount := p.findings.length

/-- `u64::try_from` of an `i64`. -/
def natOfI64 (value : Int) : Option Nat := if 0 ≤ value then some value.toNat else none

def rollupReason (row : ValidityRow) (expected : Nat) : Option String :=
  match row.rollupTotal.bind natOfI64, row.rollupSatisfied.bind natOfI64,
      row.rollupViolated.bind natOfI64, row.rollupUncertain.bind natOfI64 with
  | some total, some satisfied, some violated, some uncertain =>
      match (checkedAdd satisfied violated).bind (checkedAdd · uncertain) with
      | none => some "rollup_count_mismatch"
      | some classified =>
          if total ≠ expected ∨ classified ≠ total then some "rollup_count_mismatch"
          else if natOfI64 row.findingCount ≠ checkedAdd violated uncertain then
            some "finding_count_mismatch"
          else none
  | _, _, _, _ => some "rollup_missing_or_invalid"

def validUntilReason (row : ValidityRow) (now : Nat) : Option String :=
  match row.validUntilUtcMs with
  | none => none
  | some validUntil =>
      match natOfI64 validUntil with
      | none => some "invalid_valid_until"
      | some validUntil => if validUntil ≤ now then some "freshness_expired" else none

def invalidEvaluationReason (row : ValidityRow) (policyInputSeq now : Nat) : Option String :=
  if row.status ≠ "complete" then some "evaluation_incomplete"
  else match natOfI64 row.filesExpected, natOfI64 row.filesEvaluated with
  | some expected, some evaluated =>
      if expected ≠ evaluated then some "file_count_mismatch"
      else if natOfI64 row.evaluatedPolicyInputSeq ≠ some policyInputSeq then some "policy_input_advanced"
      else match natOfI64 row.evaluationPolicyVersion, natOfI64 row.currentPolicyVersion with
      | some evaluationVersion, some currentVersion =>
          if evaluationVersion ≠ currentVersion then some "policy_version_changed"
          else if row.policyStatus ≠ "active" ∨ row.policyEnabled ≠ 1 then some "policy_inactive"
          else match validUntilReason row now with
          | some reason => some reason
          | none =>
              if natOfI64 row.rulesVersion ≠ some rulesVersion then some "rules_version_changed"
              else rollupReason row expected
      | _, _ => some "invalid_policy_version"
  | _, _ => some "invalid_file_count"

end ArchiveLedger
