import ArchiveLedger.Repair.Replacing

/-!
# Where the files of a repair are

`Shaped` says which paths can be links to one file, whatever stopped the program and however
the user changed the destination.  From it no step of the program loses a file
(`step_keeps`).
-/

namespace ArchiveLedger.Repair

open Volumes Transition

variable {j : RepairJob} {s t : State}

/-! ### What a step can do -/

/-- A file with the expected bytes can be read at the path. -/
def Good (j : RepairJob) (disk : Disk) (path : Name) : Prop :=
  ∃ f, disk.read path = some f ∧ j.blake3 f.bytes = j.blake3Hex

theorem verify_isOk {disk : Disk} {n : Name} :
    (verifyExistingFile j disk n).isOk = true ↔ Good j disk n := by
  unfold verifyExistingFile Good
  cases disk.read n with
  | none => simp [Except.isOk, Except.toBool]
  | some f =>
    by_cases h : j.blake3 f.bytes = j.blake3Hex <;> simp [h, Except.isOk, Except.toBool]

theorem verify_eq_ok {disk : Disk} {n : Name} {bytes : Nat}
    (h : verifyExistingFile j disk n = .ok bytes) : Good j disk n :=
  verify_isOk.mp (by rw [h]; rfl)

theorem resuming_iff {disk : Disk} :
    resuming disk = true ↔ disk.entry .quarantine ≠ none ∨ disk.entry .staged ≠ none := by
  simp [resuming, Option.isSome_iff_ne_none]

/-- A move from a path that is a link to one that is free, at once or half of it. -/
inductive Placed (s : State) (src dst : Name) (linked done : Process) : State → Prop
  | rename : Placed s src dst linked done { s with disk := s.disk.rename src dst, process := done }
  | link : Placed s src dst linked done { s with disk := s.disk.link src dst, process := linked }

theorem place_cases (j : RepairJob) (s : State) (src dst : Name) (linked done : Process) :
    (∃ e, s.place j src dst linked done = s.fail e ∧
      ¬ (s.disk.entry src ≠ none ∧ s.disk.entry dst = none)) ∨
    (s.disk.entry src ≠ none ∧ s.disk.entry dst = none ∧
      Placed s src dst linked done (s.place j src dst linked done)) := by
  unfold State.place checkPlace
  by_cases hsrc : s.disk.entry src = none
  · rw [if_pos hsrc]
    exact Or.inl ⟨_, rfl, fun h => h.1 hsrc⟩
  by_cases hdst : s.disk.entry dst = none
  · rw [if_neg hsrc, if_neg (not_not.mpr hdst)]
    refine Or.inr ⟨hsrc, hdst, ?_⟩
    cases j.platform with
    | linux => exact .rename
    | unix => exact .link
    | other => exact .link
  · rw [if_neg hsrc, if_pos hdst]
    exact Or.inl ⟨_, rfl, fun h => hdst h.2⟩

/-- What one step of the running program can do. -/
inductive Advances (j : RepairJob) (s : State) : State → Prop
  | fail (good : Bool) (e : RepairError) : Advances j s ({ s with goodBefore := good }.fail e)
  | unstage (e : RepairError) : Advances j s ({ s with disk := s.disk.unlink .staged }.fail e)
  | already {want : Option (Nat × Int)} {source : Option Bytes} (bytes : Nat)
      (process : s.process = .planned want source) (good : Good j s.disk .destination) :
      Advances j s ({ s with goodBefore := true }.stop (some (.ok bytes)))
  | resume {want : Option (Nat × Int)} {source : Option Bytes}
      (process : s.process = .planned want source) (resuming : resuming s.disk = true)
      (staged : s.disk.entry .staged ≠ none → Good j s.disk .staged) (good : Bool)
      (before : good = true ↔ Good j s.disk .destination) :
      Advances j s { s with goodBefore := good, process := .ready want }
  | copy {want : Option (Nat × Int)} {source : Option Bytes} {original : StoredFile}
      (process : s.process = .planned want source) (fresh : resuming s.disk = false)
      (read : s.disk.read .destination = some original) (file : StoredFile)
      (verified : j.blake3 file.bytes = j.blake3Hex) (bad : ¬ Good j s.disk .destination) :
      Advances j s
        { s with
          goodBefore := false
          disk := s.disk.create .temporary file
          process := .copied want original.attributes }
  | stage {want : Option (Nat × Int)} {original : Int × Nat} {t : State}
      (process : s.process = .copied want original)
      (source : s.disk.entry .temporary ≠ none) (free : s.disk.entry .staged = none)
      (placed : Placed s .temporary .staged (.copyLinked want original) (.undated want original) t) :
      Advances j s t
  | staged {want : Option (Nat × Int)} {original : Int × Nat}
      (process : s.process = .copyLinked want original) :
      Advances j s (s.unlinked .temporary (.undated want original))
  | date {want : Option (Nat × Int)} {original : Int × Nat} {f : StoredFile}
      (process : s.process = .undated want original) (read : s.disk.read .staged = some f) :
      Advances j s { s with
        disk := s.disk.write .staged { f with modified := original.1 }
        process := .dated want original }
  | permit {want : Option (Nat × Int)} {original : Int × Nat} {f : StoredFile}
      (process : s.process = .dated want original) (read : s.disk.read .staged = some f) :
      Advances j s { s with
        disk := s.disk.write .staged { f with permissions := original.2 }
        process := .ready want }
  | setAside {want : Option (Nat × Int)} {f : StoredFile} {t : State}
      (process : s.process = .ready want) (read : s.disk.read .destination = some f)
      (free : s.disk.entry .quarantine = none) (planned : ∀ state, want = some state → f.state = state)
      (placed : Placed s .destination .quarantine .setAside .replacing t) : Advances j s t
  | drop {want : Option (Nat × Int)} {f : StoredFile} (process : s.process = .ready want)
      (staged : s.disk.entry .staged ≠ none) (read : s.disk.read .destination = some f)
      (same : sameFile j s.disk = true) :
      Advances j s (s.unlinked .destination .replacing)
  | cleared {want : Option (Nat × Int)} (process : s.process = .ready want)
      (taken : s.disk.entry .quarantine ≠ none) :
      Advances j s { s with process := .replacing }
  | aside (process : s.process = .setAside) : Advances j s (s.unlinked .destination .replacing)
  | replace {t : State} (process : s.process = .replacing) (staged : s.disk.entry .staged ≠ none)
      (free : s.disk.entry .destination = none)
      (placed : Placed { s with placed := true } .staged .destination .placing .checking t) :
      Advances j s t
  | replaced (process : s.process = .replacing) : Advances j s { s with process := .checking }
  | placed (process : s.process = .placing) : Advances j s (s.unlinked .staged .checking)
  | return (bytes : Nat) (process : s.process = .checking) (good : Good j s.disk .destination) :
      Advances j s (s.stop (some (.ok bytes)))

theorem begin_cases {want : Option (Nat × Int)} {source : Option Bytes}
    (process : s.process = .planned want source) (created : Int × Nat) :
    Advances j s (s.begin j want source created) := by
  unfold State.begin
  by_cases hr : resuming s.disk = true
  · dsimp only
    rw [if_pos hr]
    split
    · split
      · exact .fail _ _
      · rename_i bytes hok
        exact .resume process hr (fun _ => verify_eq_ok hok) _ verify_isOk
    · rename_i hnone
      exact .resume process hr (fun h => absurd (Option.isSome_iff_ne_none.mpr h) hnone) _ verify_isOk
  · dsimp only
    rw [if_neg hr]
    split
    · rename_i bytes hok
      rw [show (verifyExistingFile j s.disk .destination).isOk = true by rw [hok]; rfl]
      exact .already bytes process (verify_eq_ok hok)
    · rename_i e hbad
      have hfalse : (verifyExistingFile j s.disk .destination).isOk = false := by rw [hbad]; rfl
      split
      · exact .fail _ _
      · exact .fail _ _
      · rename_i bytes original hread
        unfold State.copy
        split
        · exact .fail _ _
        split
        · exact .fail _ _
        · rename_i hverified
          rw [hfalse]
          refine .copy process (Bool.eq_false_iff.mpr hr) hread ⟨bytes, created.1, created.2⟩
            (not_not.mp hverified) fun hgood => ?_
          rw [← verify_isOk, hfalse] at hgood
          cases hgood

theorem setAside_cases {want : Option (Nat × Int)} (process : s.process = .ready want)
    (free : s.disk.entry .quarantine = none) : Advances j s (s.setAside j want) := by
  have hplace : ∀ f, s.disk.read .destination = some f → (∀ state, want = some state → f.state = state) →
      Advances j s (s.place j .destination .quarantine .setAside .replacing) := by
    intro f hread hplanned
    rcases place_cases j s .destination .quarantine .setAside .replacing with
      ⟨e, he, -⟩ | ⟨-, -, hplaced⟩
    · rw [he]
      exact .fail s.goodBefore e
    · exact .setAside process hread free hplanned hplaced
  unfold State.setAside
  split
  · exact .fail s.goodBefore _
  · rename_i state now hread
    split
    · exact .unstage _
    · rename_i hsame
      apply hplace now hread
      intro state' h
      cases h
      exact not_not.mp hsame
  · cases hread : s.disk.read .destination with
    | none =>
      rcases place_cases j s .destination .quarantine .setAside .replacing with
        ⟨e, he, -⟩ | ⟨hsome, -, -⟩
      · rw [he]
        exact .fail s.goodBefore e
      · exact absurd (Volume.read_eq_none.mp hread) hsome
    | some f => exact hplace f hread nofun

theorem clear_cases {want : Option (Nat × Int)} (process : s.process = .ready want) :
    Advances j s (s.clear j want) := by
  unfold State.clear
  split
  · rename_i hfree
    exact setAside_cases process hfree
  · rename_i htaken
    split
    · rename_i h
      rw [Bool.and_eq_true, Bool.and_eq_true] at h
      obtain ⟨⟨hstaged, hdestination⟩, hsame⟩ := h
      obtain ⟨i, hi⟩ := Option.isSome_iff_exists.mp hdestination
      exact .drop process (Option.isSome_iff_ne_none.mp hstaged)
        (Volume.read_eq_some.mpr ⟨i, hi, rfl⟩) hsame
    · exact .cleared process htaken

theorem replace_cases (process : s.process = .replacing) : Advances j s (s.replace j) := by
  unfold State.replace
  split
  · rename_i h
    rw [Bool.and_eq_true] at h
    have hstaged := Option.isSome_iff_ne_none.mp h.1
    have hfree := Option.isNone_iff_eq_none.mp h.2
    rcases place_cases j { s with placed := true } .staged .destination .placing .checking with
      ⟨e, -, hno⟩ | ⟨-, -, hplaced⟩
    · exact absurd ⟨hstaged, hfree⟩ hno
    · exact .replace process hstaged hfree hplaced
  · exact .replaced process

theorem setStaged_cases {f : StoredFile → StoredFile} {p : Process} {P : State → Prop}
    (hfail : ∀ e, P (s.fail e))
    (hset : ∀ g, s.disk.read .staged = some g →
      P { s with disk := s.disk.write .staged (f g), process := p }) : P (s.setStaged f p) := by
  unfold State.setStaged
  split
  · exact hfail _
  · rename_i g hread
    exact hset g hread

/-- A step of the program does one of these things. -/
theorem advance_cases {created : Int × Nat} (h : s.advance j created = some t) :
    Advances j s t := by
  unfold State.advance at h
  split at h
  · cases h
  · rename_i want source hp
    cases h
    exact begin_cases hp created
  · rename_i want original hp
    cases h
    rcases place_cases j s .temporary .staged (.copyLinked want original) (.undated want original)
      with ⟨e, he, -⟩ | ⟨hsource, hfree, hplaced⟩
    · rw [he]
      exact .fail s.goodBefore e
    · exact .stage hp hsource hfree hplaced
  · rename_i want original hp
    cases h
    exact .staged hp
  · rename_i want original hp
    cases h
    exact setStaged_cases (fun e => .fail s.goodBefore e) fun g hread => .date hp hread
  · rename_i want original hp
    cases h
    exact setStaged_cases (fun e => .fail s.goodBefore e) fun g hread => .permit hp hread
  · rename_i want hp
    cases h
    exact clear_cases hp
  · rename_i hp
    cases h
    exact .aside hp
  · rename_i hp
    cases h
    exact replace_cases hp
  · rename_i hp
    cases h
    exact .placed hp
  · rename_i hp
    cases h
    unfold State.check
    split
    · exact .fail s.goodBefore _
    · rename_i bytes hok
      exact .return bytes hp (verify_eq_ok hok)

/-! ### Which paths can be one file -/

/-- What the paths are links to, for a program that stands where it stands. -/
def Process.Shaped (disk : Disk) : Process → Prop
  | .stopped _ => disk.entry .temporary = none
  | .planned want _ => disk.entry .temporary = none ∧ (want = none ↔ resuming disk = true)
  | .copied _ _ => disk.entry .quarantine = none ∧
      ∀ i, disk.entry .temporary = some i → disk.entry .destination ≠ some i
  | .copyLinked _ _ => disk.entry .quarantine = none ∧ disk.entry .staged ≠ none
  | .undated _ _ | .dated _ _ => disk.entry .temporary = none ∧ disk.entry .quarantine = none ∧
      disk.entry .staged ≠ none
  | .ready _ => disk.entry .temporary = none ∧ resuming disk = true
  | .setAside => disk.entry .temporary = none ∧ disk.entry .quarantine = disk.entry .destination ∧
      disk.entry .quarantine ≠ none
  | .replacing | .placing | .checking =>
      disk.entry .temporary = none ∧ disk.entry .quarantine ≠ none

/-- The staged file is neither the one in quarantine nor, before there is one, the one at the
destination. -/
structure Shaped (s : State) : Prop where
  apart : ∀ i, s.disk.entry .staged = some i → s.disk.entry .quarantine ≠ some i ∧
    (s.disk.entry .quarantine = none → s.disk.entry .destination ≠ some i)
  process : s.process.Shaped s.disk

theorem Initial.shaped (h : Initial s) : Shaped s := by
  constructor
  · intro i hi
    rw [h.staged] at hi
    cases hi
  · rw [h.process]
    exact h.temporary

theorem Shaped.stop (h : Shaped s) (result : Option (Except RepairError Nat)) :
    Shaped (s.stop result) := by
  obtain ⟨hapart, -⟩ := h
  constructor
  · intro i hi
    simp only [State.stop, Volume.entry_unlink] at hi ⊢
    grind
  · simp [State.stop, Process.Shaped]

/-- The user changes nothing but the destination. -/
theorem Edit.entry {disk disk' : Disk} {e : Edit} (he : e.apply disk = some disk') {n : Name}
    (hn : n ≠ .destination) : disk'.entry n = disk.entry n := by
  cases e with
  | write f =>
    simp only [Edit.apply] at he
    split at he
    · cases he
    · cases he
      exact Volume.entry_write ..
  | replace f =>
    cases he
    rw [Volume.entry_create, if_neg hn]
  | remove =>
    cases he
    rw [Volume.entry_unlink, if_neg hn]

theorem Edit.destination {disk disk' : Disk} {e : Edit} (he : e.apply disk = some disk') {i : Nat}
    (hi : i < disk.next) (h : disk.entry .destination ≠ some i) :
    disk'.entry .destination ≠ some i := by
  cases e with
  | write f =>
    simp only [Edit.apply] at he
    split at he
    · cases he
    · cases he
      rwa [Volume.entry_write]
  | replace f =>
    cases he
    rw [Volume.entry_create, if_pos rfl]
    intro e
    cases e
    exact Nat.lt_irrefl _ hi
  | remove =>
    cases he
    rw [Volume.entry_unlink, if_pos rfl]
    nofun

theorem Shaped.edit {e : Edit} {disk : Disk} (h : Shaped s) (hidle : s.process.running = false)
    (he : e.apply s.disk = some disk) :
    Shaped { s with disk := disk, placed := false } := by
  have hstaged := Edit.entry he (n := .staged) (by decide)
  have hquarantine := Edit.entry he (n := .quarantine) (by decide)
  have htemporary := Edit.entry he (n := .temporary) (by decide)
  constructor
  · intro i hi
    rw [hstaged] at hi
    obtain ⟨hq, hd⟩ := h.apart i hi
    rw [hquarantine]
    exact ⟨hq, fun hnone => Edit.destination he (s.disk.entry_lt _ _ hi) (hd hnone)⟩
  · have hprocess := h.process
    cases hp : s.process with
    | stopped result =>
      rw [hp] at hprocess
      exact htemporary.trans hprocess
    | planned want source =>
      rw [hp] at hprocess
      refine ⟨htemporary.trans hprocess.1, ?_⟩
      rw [resuming, hstaged, hquarantine]
      exact hprocess.2
    | _ =>
      rw [hp] at hidle
      cases hidle

/-! ### Every step -/

theorem planTarget_ok {disk : Disk} {source : Option Bytes} {want : Option (Nat × Int)}
    (h : planTarget j disk source = .ok want) :
    (resuming disk = true ∧ want = none) ∨
    (resuming disk = false ∧ ∃ f, disk.read .destination = some f ∧ want = some f.state) := by
  unfold planTarget at h
  split at h
  · rename_i hr
    cases h
    exact Or.inl ⟨hr, rfl⟩
  · rename_i hr
    split at h
    · cases h
    · rename_i f hread
      dsimp only at h
      split at h
      · cases h
      split at h
      · cases h
      · cases h
        exact Or.inr ⟨Bool.eq_false_iff.mpr hr, f, hread, rfl⟩

/-- A target is left out, or its run is a resumed one, or its plan is what the run checks. -/
theorem plan_cases (j : RepairJob) (s : State) (source : Option Bytes) :
    s.plan j source = { s with process := .stopped none } ∨
    (resuming s.disk = true ∧ s.plan j source = { s with process := .planned none source }) ∨
    (resuming s.disk = false ∧ ∃ f, s.disk.read .destination = some f ∧ s.plan j source =
      { s with process := .planned (some f.state) source, planSaw := some f.state }) := by
  unfold State.plan
  cases hplan : planTarget j s.disk source with
  | error e => exact Or.inl rfl
  | ok want =>
    rcases planTarget_ok hplan with ⟨hr, rfl⟩ | ⟨hr, f, hread, rfl⟩
    · exact Or.inr (Or.inl ⟨hr, rfl⟩)
    · exact Or.inr (Or.inr ⟨hr, f, hread, rfl⟩)

theorem Shaped.temporary (h : Shaped s) (hidle : s.process.running = false) :
    s.disk.entry .temporary = none := by
  have hprocess := h.process
  cases hp : s.process with
  | stopped result =>
    rw [hp] at hprocess
    exact hprocess
  | planned want source =>
    rw [hp] at hprocess
    exact hprocess.1
  | _ =>
    rw [hp] at hidle
    cases hidle

theorem Shaped.plan (h : Shaped s) (hidle : s.process.running = false) (source : Option Bytes) :
    Shaped (s.plan j source) := by
  have htemporary := h.temporary hidle
  rcases plan_cases j s source with he | ⟨hr, he⟩ | ⟨hr, f, -, he⟩
  · rw [he]
    exact ⟨h.apart, htemporary⟩
  · rw [he]
    exact ⟨h.apart, htemporary, by simp [hr]⟩
  · rw [he]
    exact ⟨h.apart, htemporary, by simp [hr]⟩

theorem Shaped.advance (h : Shaped s) (hstep : Advances j s t) : Shaped t := by
  have hprocess := h.process
  have hapart := h.apart
  cases hstep with
  | fail good e => exact Shaped.stop (s := { s with goodBefore := good }) ⟨hapart, hprocess⟩ _
  | unstage e =>
    constructor
    · intro i hi
      simp [State.fail, State.stop] at hi
    · simp [State.fail, State.stop, Process.Shaped]
  | already bytes hp hgood =>
    exact Shaped.stop (s := { s with goodBefore := true }) ⟨hapart, hprocess⟩ _
  | resume hp hr hstaged good hbefore =>
    rw [hp] at hprocess
    exact ⟨hapart, hprocess.1, hr⟩
  | copy hp hfresh hread file hverified hbad =>
    have hnone := mt resuming_iff.mpr (Bool.eq_false_iff.mp hfresh)
    rw [not_or, not_not, not_not] at hnone
    have hnext := s.disk.entry_ne_next
    constructor
    · intro i hi
      simp [hnone.2] at hi
    · simp [Process.Shaped, hnone.1]
      grind
  | stage hp hsource hfree hplaced =>
    rw [hp] at hprocess
    obtain ⟨hquarantine, htemporary⟩ := hprocess
    cases hplaced with
    | rename =>
      constructor
      · intro i hi
        simp at hi
        simp [hquarantine, htemporary i hi]
      · simp [Process.Shaped, hquarantine, hsource]
    | link =>
      constructor
      · intro i hi
        simp at hi
        simp [hquarantine, htemporary i hi]
      · simp [Process.Shaped, hquarantine, hsource]
  | staged hp =>
    rw [hp] at hprocess
    constructor
    · simpa [State.unlinked] using hapart
    · simpa [State.unlinked, Process.Shaped] using hprocess
  | date hp hread =>
    rw [hp] at hprocess
    constructor
    · simpa using hapart
    · simpa [Process.Shaped] using hprocess
  | permit hp hread =>
    rw [hp] at hprocess
    constructor
    · simpa using hapart
    · simp only [Process.Shaped, resuming_iff, Volume.entry_write]
      exact ⟨hprocess.1, Or.inr hprocess.2.2⟩
  | setAside hp hread hfree hplanned hplaced =>
    rw [hp] at hprocess
    obtain ⟨k, hk, -⟩ := Volume.read_eq_some.mp hread
    have hstaged : ∀ i, s.disk.entry .staged = some i → k ≠ i := by
      intro i hi he
      exact (hapart i hi).2 hfree (by rw [hk, he])
    cases hplaced with
    | rename =>
      constructor
      · intro i hi
        simp at hi
        simp [hk, hstaged i hi]
      · simp [Process.Shaped, hprocess.1, hk]
    | link =>
      constructor
      · intro i hi
        simp at hi
        simp [hk, hstaged i hi]
      · simp [Process.Shaped, hprocess.1, hk]
  | drop hp hstaged hread hsame =>
    rw [hp] at hprocess
    obtain ⟨k, hk, -⟩ := Volume.read_eq_some.mp hread
    have hquarantine : s.disk.entry .quarantine = some k := by
      simp only [sameFile, Bool.and_eq_true, decide_eq_true_eq] at hsame
      rw [← hsame.2, hk]
    constructor
    · intro i hi
      simp [State.unlinked] at hi
      simpa [State.unlinked, hquarantine] using (hapart i hi).1
    · simp [State.unlinked, Process.Shaped, hprocess.1, hquarantine]
  | cleared hp htaken =>
    rw [hp] at hprocess
    exact ⟨hapart, hprocess.1, htaken⟩
  | aside hp =>
    rw [hp] at hprocess
    constructor
    · intro i hi
      simp [State.unlinked] at hi
      have := (hapart i hi).1
      simp [State.unlinked, this]
    · simpa [State.unlinked, Process.Shaped] using ⟨hprocess.1, hprocess.2.2⟩
  | replace hp hstaged hfree hplaced =>
    rw [hp] at hprocess
    cases hplaced with
    | rename =>
      constructor
      · intro i hi
        simp at hi
      · simpa [Process.Shaped] using hprocess
    | link =>
      constructor
      · intro i hi
        simp at hi
        simp [hprocess.2, (hapart i hi).1]
      · simpa [Process.Shaped] using hprocess
  | replaced hp =>
    rw [hp] at hprocess
    exact ⟨hapart, hprocess⟩
  | placed hp =>
    rw [hp] at hprocess
    constructor
    · intro i hi
      simp [State.unlinked] at hi
    · simpa [State.unlinked, Process.Shaped] using hprocess
  | «return» bytes hp hgood => exact h.stop _

/-! ### Nothing is lost -/

/-- The paths where a file of the user stays: where it was, or in quarantine. -/
def Kept (path : Name) : Prop := path = .destination ∨ path = .quarantine

theorem keeps_stop {f : StoredFile} (hf : s.disk.Holds Kept f)
    (result : Option (Except RepairError Nat)) : (s.stop result).disk.Holds Kept f :=
  hf.unlink (by rintro (h | h) <;> cases h)

theorem keeps_placed {src dst : Name} {linked done : Process} {f : StoredFile}
    (hf : s.disk.Holds Kept f) (hdst : Kept dst) (hne : dst ≠ src) (hfree : s.disk.entry dst = none)
    (h : Placed s src dst linked done t) : t.disk.Holds Kept f := by
  cases h with
  | rename => exact hf.rename hdst hne hfree
  | link => exact hf.link hfree

/-- Before there is a file in quarantine the staged one is a file of its own. -/
theorem Shaped.staged_ne (h : Shaped s) (hfree : s.disk.entry .quarantine = none)
    (hstaged : s.disk.entry .staged ≠ none) (n : Name) (hn : Kept n) :
    s.disk.entry n ≠ s.disk.entry .staged := by
  obtain ⟨i, hi⟩ := Option.ne_none_iff_exists'.mp hstaged
  rw [hi]
  rcases hn with rfl | rfl
  · exact (h.apart i hi).2 hfree
  · exact (h.apart i hi).1

/-- A step of the program keeps every file that is at the destination or in quarantine. -/
theorem Shaped.keeps (h : Shaped s) (hstep : Advances j s t) {f : StoredFile}
    (hf : s.disk.Holds Kept f) : t.disk.Holds Kept f := by
  have hprocess := h.process
  have hstagedFree : ¬ Kept .staged := by rintro (h | h) <;> cases h
  have htemporaryFree : ¬ Kept .temporary := by rintro (h | h) <;> cases h
  have hwrite := h.staged_ne
  cases hstep with
  | fail good e => exact keeps_stop (s := { s with goodBefore := good }) hf _
  | unstage e =>
    exact keeps_stop (s := { s with disk := s.disk.unlink .staged })
      (hf.unlink fun h => absurd h hstagedFree) _
  | already bytes hp hgood => exact keeps_stop (s := { s with goodBefore := true }) hf _
  | resume hp hr hstaged good hbefore => exact hf
  | copy hp hfresh hread file hverified hbad => exact hf.create htemporaryFree
  | stage hp hsource hfree hplaced =>
    cases hplaced with
    | rename => exact (hf.link hfree).unlink fun h => absurd h htemporaryFree
    | link => exact hf.link hfree
  | staged hp => exact hf.unlink fun h => absurd h htemporaryFree
  | date hp hread =>
    rw [hp] at hprocess
    exact hf.write (hwrite hprocess.2.1 hprocess.2.2)
  | permit hp hread =>
    rw [hp] at hprocess
    exact hf.write (hwrite hprocess.2.1 hprocess.2.2)
  | setAside hp hread hfree hplanned hplaced =>
    exact keeps_placed hf (Or.inr rfl) (by decide) hfree hplaced
  | drop hp hstaged hread hsame =>
    simp only [sameFile, Bool.and_eq_true, decide_eq_true_eq] at hsame
    exact hf.unlink fun _ => ⟨.quarantine, Or.inr rfl, by decide, hsame.2.symm⟩
  | cleared hp htaken => exact hf
  | aside hp =>
    rw [hp] at hprocess
    exact hf.unlink fun _ => ⟨.quarantine, Or.inr rfl, by decide, hprocess.2.1⟩
  | replace hp hstaged hfree hplaced =>
    exact keeps_placed (s := { s with placed := true }) hf (Or.inl rfl) (by decide) hfree hplaced
  | replaced hp => exact hf
  | placed hp => exact hf.unlink fun h => absurd h hstagedFree
  | «return» bytes hp hgood => exact keeps_stop hf _

/-! ### Steps of the job -/

/-- What a step of the job or of the user is. -/
theorem step_cases {a : Action} (h : Step j s a t) :
    (∃ e disk, a = .edit e ∧ s.process.running = false ∧ e.apply s.disk = some disk ∧
      t = { s with disk := disk, placed := false }) ∨
    (∃ source, a = .plan source ∧ s.process.running = false ∧ t = s.plan j source) ∨
    (∃ created, a = .advance created ∧ Advances j s t) ∨
    (a = .crash ∧ t = s.stop none) := by
  unfold Step at h
  cases a with
  | edit e =>
    simp only [State.next] at h
    split at h
    · cases h
    · rename_i hidle
      obtain ⟨disk, hdisk, rfl⟩ := Option.map_eq_some_iff.mp h
      exact Or.inl ⟨e, disk, rfl, Bool.eq_false_iff.mpr hidle, hdisk, rfl⟩
  | plan source =>
    simp only [State.next] at h
    split at h
    · rename_i result hp
      cases h
      exact Or.inr (Or.inl ⟨source, rfl, by rw [hp]; rfl, rfl⟩)
    · cases h
  | advance created => exact Or.inr (Or.inr (Or.inl ⟨created, rfl, advance_cases h⟩))
  | crash =>
    simp only [State.next] at h
    split at h
    · cases h
    · cases h
      exact Or.inr (Or.inr (Or.inr ⟨rfl, rfl⟩))

theorem path_trace (j : RepairJob) (s : State) (actions : List Action) :
    Path (Step j) s (s.trace j actions) := by
  induction actions generalizing s with
  | nil => trivial
  | cons a rest ih =>
    rw [State.trace]
    split
    · trivial
    · rename_i t ht
      exact ⟨ht, ih t⟩

theorem Shaped.step {a : Action} (h : Shaped s) (hstep : Step j s a t) : Shaped t := by
  rcases step_cases hstep with ⟨e, disk, -, hidle, he, rfl⟩ | ⟨source, -, hidle, rfl⟩ |
    ⟨created, -, hadvance⟩ | ⟨-, rfl⟩
  · exact h.edit hidle he
  · exact h.plan hidle source
  · exact h.advance hadvance
  · exact h.stop none

/-- A step that is not the user's keeps the files of the user. -/
def NothingLost (s : State) (a : Action) (t : State) : Prop :=
  (∀ e, a ≠ .edit e) → ∀ f, s.disk.Holds Kept f → t.disk.Holds Kept f

theorem Shaped.nothingLost {a : Action} (h : Shaped s) (hstep : Step j s a t) :
    NothingLost s a t := by
  intro hprogram f hf
  rcases step_cases hstep with ⟨e, disk, he, -⟩ | ⟨source, -, -, rfl⟩ | ⟨created, -, hadvance⟩ |
    ⟨-, rfl⟩
  · exact absurd he (hprogram e)
  · rcases plan_cases j s source with he | ⟨-, he⟩ | ⟨-, f, -, he⟩ <;> rw [he] <;> exact hf
  · exact h.keeps hadvance hf
  · exact keeps_stop hf none

end ArchiveLedger.Repair
