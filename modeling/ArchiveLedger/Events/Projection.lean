import ArchiveLedger.Catalog.Snapshots
import ArchiveLedger.Events.Reading

/-!
# The database of version 1

`projection.rs` keeps a database that mirrors the stream: `apply` reads batches from the cursor that the database holds, and
one transaction inserts the events of a batch, projects them into the other tables and moves the cursor behind them.  What
an event does to the other tables is a parameter here, with what a transaction remembers of its earlier events.
-/

namespace ArchiveLedger.Events

open Outcome Transition

/-! ### Events -/

/-- `event_catalog!`: the known types, with whether policies look at them. -/
def eventCatalog : List (String × Bool) :=
  [("archive_initialized", false), ("archive_updated", false), ("catalog_location_set", false),
    ("checkpoint_created", false), ("checkpoint_commit_observed", false), ("checkpoint_replication_observed", false),
    ("collection_registered", true), ("collection_updated", true), ("collection_retired", true),
    ("site_registered", true), ("site_updated", true), ("site_retired", true), ("device_registered", true),
    ("device_updated", true), ("device_moved", true), ("device_checked_in", true), ("device_retired", true),
    ("device_mount_observed", true), ("archive_root_registered", true), ("archive_root_updated", true),
    ("archive_root_retired", true), ("location_registered", true), ("location_updated", true),
    ("location_retired", true), ("metadata_destination_registered", false), ("metadata_destination_updated", false),
    ("metadata_destination_retired", false), ("risk_domain_registered", true), ("risk_domain_updated", true),
    ("risk_domain_retired", true), ("risk_assigned", true), ("risk_unassigned", true), ("policy_registered", true),
    ("policy_updated", true), ("policy_retired", true), ("external_identity_observed", true),
    ("external_identity_resolved", true), ("external_availability_observed", true), ("annex_remote_mapped", true),
    ("annex_remote_unmapped", true), ("object_observed", true), ("object_hash_added", true),
    ("file_ref_observed", true), ("file_ref_updated", true), ("file_ref_removed", true), ("path_observed", true),
    ("path_missing_candidate", false), ("copy_observed", true), ("copy_missing_candidate", false),
    ("scan_started", false), ("scan_completed", true), ("copy_verified", true), ("job_started", false),
    ("job_finished", false), ("annex_import_started", false), ("annex_import_completed", false)]

def policyRelevance (eventType : String) : Option Bool := (eventCatalog.find? fun entry => entry.1 = eventType).map Prod.snd

/-! ### Data -/

inductive ProjectionError where
  | eventStore (error : EventStoreError)
  | sqlite (message : String)
  | invalidCursor (message : String)
  | unsupportedEventType (eventType : String)
  | invalidPayload (eventType : String) (seq : Nat) (message : String)
  | invalidScan (message : String)
deriving DecidableEq, Repr

/-- The table `events`, the cursor and the other tables. -/
structure ProjectionDb (τ : Type) where
  events : List EventRecord
  cursor : EventCursor
  policyInputEventSeq : Nat
  tables : τ

/-- The other tables; `fresh` is what a transaction starts with. -/
structure Projector (τ γ : Type) where
  fresh : γ
  project : τ × γ → EventRecord → Except ProjectionError (τ × γ)

structure ApplyStats where
  transactions : Nat
  eventsApplied : Nat
  segmentsOpened : Nat
  linesRead : Nat
  caughtUp : Bool
deriving DecidableEq, Repr

section

variable {τ γ : Type} (P : Projector τ γ)

/-! ### One transaction -/

/-- `sql_integer`. -/
def sqlInteger (value : Nat) (field : String) (record : EventRecord) : Except ProjectionError Unit :=
  require (value ≤ i64Max)
    (.invalidPayload record.envelope.eventType record.envelope.seq (field ++ " exceeds SQLite's signed integer range"))

def insertEvent (rows : List EventRecord) (record : EventRecord) : Except ProjectionError (List EventRecord) := do
  require (∀ row ∈ rows, row.envelope.eventId ≠ record.envelope.eventId) (.sqlite "UNIQUE constraint failed: events.event_id")
  require (∀ row ∈ rows, ¬ (row.envelope.streamId = record.envelope.streamId ∧ row.envelope.seq = record.envelope.seq))
    (.sqlite "UNIQUE constraint failed: events.stream_id, events.seq")
  .ok (rows ++ [record])

/-- The variables of the loop of `apply_batch`. -/
structure ApplyState (τ γ : Type) where
  events : List EventRecord
  policyInputSeq : Nat
  tables : τ × γ

def applyEvent (s : ApplyState τ γ) (event : PositionedEvent) : Except ProjectionError (ApplyState τ γ) := do
  let record := event.record
  let relevance ← okOr (policyRelevance record.envelope.eventType) (.unsupportedEventType record.envelope.eventType)
  sqlInteger record.envelope.seq "seq" record
  sqlInteger record.envelope.timeUtcMs "time_utc_ms" record
  let events ← insertEvent s.events record
  let tables ← P.project s.tables record
  .ok ⟨events, if relevance then record.envelope.seq else s.policyInputSeq, tables⟩

def applyBatch (db : ProjectionDb τ) (events : List PositionedEvent) : Except ProjectionError (ProjectionDb τ) := do
  let s ← commitAll (applyEvent P) ⟨db.events, db.policyInputEventSeq, (db.tables, P.fresh)⟩ events
  .ok ⟨s.events, cursorAfter db.cursor events, s.policyInputSeq, s.tables.1⟩

/-- The hash of the mirrored event of a sequence. -/
def mirroredHash (rows : List EventRecord) (seq : Nat) : Option String :=
  (rows.find? fun row => row.envelope.streamId = streamId ∧ row.envelope.seq = seq).map EventRecord.eventHash

def validateStatus (db : ProjectionDb τ) : Except ProjectionError Unit := do
  require (db.policyInputEventSeq ≤ db.cursor.appliedSeq) (.invalidCursor "policy_input_event_seq exceeds applied_event_seq")
  if db.cursor.appliedSeq = 0 then
    require (db.cursor.appliedEventHash = none ∧ db.cursor.segmentFirstSeq = none ∧ db.cursor.nextOffset = 0)
      (.invalidCursor "empty projection cursor contains a hash or file position")
  else do
    require (db.cursor.segmentFirstSeq ≠ none ∧ db.cursor.nextOffset ≠ 0)
      (.invalidCursor "non-empty projection cursor lacks its file position")
    require (db.cursor.appliedSeq ≤ i64Max) (.invalidCursor "applied_event_seq exceeds SQLite's signed integer range")
    require (mirroredHash db.events db.cursor.appliedSeq = db.cursor.appliedEventHash)
      (.invalidCursor "applied hash does not match the mirrored tail event")

/-! ### Applying -/

variable (R : EventRuntime) (config : EventStoreConfig) (limits : Limits)

def ApplyStats.read (stats : ApplyStats) (read : EventReadStats) : ApplyStats :=
  { stats with
    segmentsOpened := stats.segmentsOpened + read.segmentsOpened
    linesRead := stats.linesRead + read.linesRead }

/-- One turn of the loop of `apply_internal`: the database after it, and whether the loop is at its end. -/
def applyOnce (dir : EventDir) (db : ProjectionDb τ) (stats : ApplyStats) :
    ProjectionDb τ × Except ProjectionError (ApplyStats × Bool) :=
  match readBatch R config dir db.cursor limits with
  | .error e => (db, .error (.eventStore e))
  | .ok batch =>
      let stats := stats.read batch.stats
      if batch.events.isEmpty then (db, .ok ({ stats with caughtUp := true }, true))
      else
        match applyBatch P db batch.events with
        | .error e => (db, .error e)
        | .ok db' =>
            let stats :=
              { stats with
                transactions := stats.transactions + 1
                eventsApplied := stats.eventsApplied + batch.events.length
                caughtUp := stats.caughtUp || batch.eof }
            (db', do
              validateStatus db'
              .ok (stats, batch.eof))

/-- The loop; there is no result when the turns do not suffice. -/
def applyLoop (dir : EventDir) (maxTransactions : Option Nat) :
    Nat → ProjectionDb τ → ApplyStats → ProjectionDb τ × Option (Except ProjectionError ApplyStats)
  | 0, db, _ => (db, none)
  | turns + 1, db, stats =>
      match applyOnce P R config limits dir db stats with
      | (db, .error e) => (db, some (.error e))
      | (db, .ok (stats, true)) => (db, some (.ok stats))
      | (db, .ok (stats, false)) =>
          if maxTransactions.any fun limit => limit ≤ stats.transactions then (db, some (.ok stats))
          else applyLoop dir maxTransactions turns db stats

def applyInternal (dir : EventDir) (maxTransactions : Option Nat) (turns : Nat) (db : ProjectionDb τ) :
    ProjectionDb τ × Option (Except ProjectionError ApplyStats) :=
  match validateStatus db with
  | .error e => (db, some (.error e))
  | .ok _ => applyLoop P R config limits dir maxTransactions turns db ⟨0, 0, 0, 0, false⟩

end

end ArchiveLedger.Events
