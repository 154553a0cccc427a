import ArchiveLedger.Events.Batches
import ArchiveLedger.Events.Projection

/-!
# Writers and databases

A directory, what its writers have acknowledged, and databases.  A writer is one step here, since writers exclude each
other by a lock: it appends a batch or a checkpoint, and it may be stopped after any of its writes.  A turn of a
database is a step as well, and it reads the directory as the last writer left it.
-/

namespace ArchiveLedger.Events

open CrashLogic

structure State (ρ τ : Type) where
  dir : EventDir
  acknowledged : List EventRecord
  db : ρ → ProjectionDb τ

/-- An empty directory and empty databases. -/
def State.start {ρ τ : Type} (tables : τ) : State ρ τ := ⟨⟨[], []⟩, [], fun _ => ⟨[], .empty, 0, tables⟩⟩

/-- A writer with the number of writes after which it is stopped, if it is, or a turn of a database. -/
inductive Event (ρ : Type) where
  | append (requests : List (EventRequest × Stamp)) (pending : EventResult Bool) (stop : Option Nat)
  | checkpoint (checkpointId : String) (stamp : Stamp) (pending : EventResult Bool) (stop : Option Nat)
  | apply (r : ρ) (limits : Limits)

/-- What a writer leaves, and what it acknowledges. -/
def written (p : Writes (List EventRecord)) (dir : EventDir) : Option Nat → EventDir × List EventRecord
  | some n => (Prog.last dir ((p.run dir).1.take n), [])
  | none => (Prog.last dir (p.run dir).1, ((p.run dir).2.toOption).getD [])

section

variable {ρ τ γ : Type} [DecidableEq ρ] (R : EventRuntime) (config : EventStoreConfig) (P : Projector τ γ)

def next (s : State ρ τ) : Event ρ → State ρ τ
  | .append requests pending stop =>
      let left := written (appendBatch R config requests pending) s.dir stop
      { s with dir := left.1, acknowledged := s.acknowledged ++ left.2 }
  | .checkpoint checkpointId stamp pending stop =>
      let left := written (createCheckpoint R config checkpointId stamp pending) s.dir stop
      { s with dir := left.1, acknowledged := s.acknowledged ++ left.2 }
  | .apply r limits =>
      { s with db := Function.update s.db r (applyOnce P R config limits s.dir (s.db r) ⟨0, 0, 0, 0, false⟩).1 }

omit [DecidableEq ρ] in
/-- What the surroundings do for a step: ULIDs are ULIDs, serde reads what it wrote, and names and files are not at
their limits. -/
def Served (s : State ρ τ) : Event ρ → Prop
  | .append requests _ _ => Stamped R requests ∧
      (∀ p ∈ preparedIn R config s.dir fun _ => requests, WritesBack R p.envelope) ∧
      1 + (storedLines s.dir).length + 1 + requests.length ≤ canonicalNames
  | .checkpoint checkpointId stamp _ _ => isPrefixedLowercaseUlid R ("evt_" ++ stamp.ulid) "evt_" = true ∧
      (∀ p ∈ preparedIn R config s.dir (checkpointRequests checkpointId stamp), WritesBack R p.envelope) ∧
      1 + (storedLines s.dir).length + 1 + 1 ≤ canonicalNames
  | .apply _ limits => (limits.events ≠ 0 ∧ limits.bytes ≠ 0) ∧ ∀ segment ∈ s.dir.segments, segment.2.length ≤ u64Max

@[simp] theorem next_append (s : State ρ τ) (requests : List (EventRequest × Stamp)) (pending : EventResult Bool)
    (stop : Option Nat) : next R config P s (.append requests pending stop) =
      { s with
        dir := (written (appendBatch R config requests pending) s.dir stop).1
        acknowledged := s.acknowledged ++ (written (appendBatch R config requests pending) s.dir stop).2 } := rfl

@[simp] theorem next_checkpoint (s : State ρ τ) (checkpointId : String) (stamp : Stamp) (pending : EventResult Bool)
    (stop : Option Nat) : next R config P s (.checkpoint checkpointId stamp pending stop) =
      { s with
        dir := (written (createCheckpoint R config checkpointId stamp pending) s.dir stop).1
        acknowledged := s.acknowledged ++ (written (createCheckpoint R config checkpointId stamp pending) s.dir stop).2 } := rfl

/-- The steps of a run. -/
def Steps (s : State ρ τ) (e : Event ρ) (t : State ρ τ) : Prop := next R config P s e = t ∧ Served R config s e

end

end ArchiveLedger.Events

namespace ArchiveLedger.Sample

open Outcome Transition

/-! ### Three writers and two databases

Lines are numbered documents, as in the small archives.  The first writer appends an event.  The second appends another
one, closes the segment behind it and is stopped after the first byte of a third.  The last writer cuts that byte off and
appends an event of its own.  One database reads a single event before that, another one reads everything at the end.
-/

/-- The names of the events are the other tables. -/
def namesProjector : Events.Projector (List String) Unit where
  fresh := ()
  project tables record := .ok (tables.1 ++ [record.envelope.eventType], ())

def servable (s : Events.State Bool (List String)) : Events.Event Bool → Bool
  | .append requests _ _ =>
      (requests.all fun request => Events.isPrefixedLowercaseUlid eventsRuntime ("evt_" ++ request.2.ulid) "evt_") &&
        ((Events.preparedIn eventsRuntime streamConfig s.dir fun _ => requests).all fun p => p.envelope ∈ streamEnvelopes) &&
        decide (1 + (Events.storedLines s.dir).length + 1 + requests.length ≤ Events.canonicalNames)
  | .checkpoint _ _ _ _ => false
  | .apply _ limits =>
      decide ((limits.events ≠ 0 ∧ limits.bytes ≠ 0) ∧ ∀ segment ∈ s.dir.segments, segment.2.length ≤ u64Max)

theorem served_of_servable {s : Events.State Bool (List String)} {e : Events.Event Bool} (h : servable s e = true) :
    Events.Served eventsRuntime streamConfig s e := by
  cases e with
  | append requests pending stop =>
    obtain ⟨h, hroom⟩ := Bool.and_eq_true_iff.mp h
    obtain ⟨hstamps, hback⟩ := Bool.and_eq_true_iff.mp h
    refine ⟨fun request hrequest => List.all_eq_true.mp hstamps request hrequest, fun p hp => ?_, of_decide_eq_true hroom⟩
    exact writesBack_of_mem (of_decide_eq_true (List.all_eq_true.mp hback p hp))
  | checkpoint checkpointId stamp pending stop => cases h
  | apply r limits =>
    have hall : (limits.events ≠ 0 ∧ limits.bytes ≠ 0) ∧ ∀ segment ∈ s.dir.segments, segment.2.length ≤ u64Max :=
      of_decide_eq_true h
    exact hall

def streamNext (s : Events.State Bool (List String)) (e : Events.Event Bool) : Option (Events.State Bool (List String)) :=
  if servable s e then some (Events.next eventsRuntime streamConfig namesProjector s e) else none

def streamSteps : Events.State Bool (List String) → Events.Event Bool → Events.State Bool (List String) → Prop :=
  Events.Steps eventsRuntime streamConfig namesProjector

theorem steps_of_streamNext {s t : Events.State Bool (List String)} {e : Events.Event Bool} (h : streamNext s e = some t) :
    streamSteps s e t := by
  unfold streamNext at h
  split at h
  · rename_i hservable
    exact ⟨Option.some.inj h, served_of_servable hservable⟩
  · cases h

def streamStart : Events.State Bool (List String) := Events.State.start []

def lastRequests : List (Events.EventRequest × Events.Stamp) := [(streamRequest "device_registered", streamStamp 3)]

def streamEvents : List (Events.Event Bool) :=
  [.append [(streamRequest "archive_initialized", streamStamp 0)] (.ok false) none,
    .append [(streamRequest "site_registered", streamStamp 1), (streamRequest "site_updated", streamStamp 2)] (.ok false) (some 6),
    .apply true ⟨1, 1000⟩, .append lastRequests (.ok false) none, .apply false ⟨10, 1000⟩]

theorem path_streamNext {run : List (Events.Event Bool × Events.State Bool (List String))}
    (h : Transition.trace streamNext streamStart streamEvents = some run) : Path streamSteps streamStart run :=
  (Transition.path_trace h).mono fun _ _ _ => steps_of_streamNext

def hashesOf (records : List Events.EventRecord) : List String := records.map Events.EventRecord.eventHash

theorem whole_of_segments {dir : Events.EventDir} (h : dir.segments = [(1, firstLines), (3, document 4 3 ++ [10])]) :
    ∀ segment ∈ dir.segments, (Lines.cut 10 segment.2).2 = [] := by
  rw [h]
  decide

/-- What the writers and the databases leave. -/
theorem stream_run : ∃ run, Transition.trace streamNext streamStart streamEvents = some run ∧
    hashesOf (final streamStart run).acknowledged = [lineId 0, lineId 3] ∧
    hashesOf ((final streamStart run).db true).events = [lineId 0] ∧
    hashesOf ((final streamStart run).db false).events = [lineId 0, lineId 1, lineId 3] ∧
    (final streamStart (run.take 3)).dir.segments = [(1, firstLines), (3, [4])] ∧
    servable (final streamStart (run.take 3)) (.append lastRequests (.ok false) none) = true ∧
    (final streamStart run).dir.segments = [(1, firstLines), (3, document 4 3 ++ [10])] ∧
    servable (final streamStart run) (.apply true ⟨10, 1000⟩) = true := by
  have h : (Transition.trace streamNext streamStart streamEvents).any (fun run => decide
      (hashesOf (final streamStart run).acknowledged = [lineId 0, lineId 3] ∧
        hashesOf ((final streamStart run).db true).events = [lineId 0] ∧
        hashesOf ((final streamStart run).db false).events = [lineId 0, lineId 1, lineId 3] ∧
        (final streamStart (run.take 3)).dir.segments = [(1, firstLines), (3, [4])] ∧
        servable (final streamStart (run.take 3)) (.append lastRequests (.ok false) none) = true ∧
        (final streamStart run).dir.segments = [(1, firstLines), (3, document 4 3 ++ [10])] ∧
        servable (final streamStart run) (.apply true ⟨10, 1000⟩) = true)) = true := by
    decide +kernel
  obtain ⟨run, htrace, hfacts⟩ := (Option.any_eq_true _ _).mp h
  exact ⟨run, htrace, of_decide_eq_true hfacts⟩

end ArchiveLedger.Sample
