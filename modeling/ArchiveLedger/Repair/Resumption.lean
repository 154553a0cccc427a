import ArchiveLedger.Repair.Links

/-!
# Repairs that are resumed

A resumed run knows the step it goes on from by the paths that exist, and compares the staged
file with nothing: not its dates and permissions, and not the file it replaces with what the
plan of the job saw.  `repair_of_undisturbed` says what holds in every run of which each
resumption finds these as they should be.
-/

namespace ArchiveLedger.Repair

open Volumes Transition

variable {j : RepairJob} {s t : State}

/-- The file that a run replaces: the one at the destination while it is not in quarantine
alone, and then the one in quarantine, unless there is another at the destination. -/
def toReplace (j : RepairJob) (disk : Disk) : Option StoredFile :=
  if disk.entry .quarantine = none ∨ sameFile j disk = true then disk.read .destination
  else if disk.entry .destination = none then disk.read .quarantine
  else none

/-- The staged file that a run finds has the dates and the permissions of the file it
replaces, and that file is still what the plan of the job saw. -/
def Undisturbed (j : RepairJob) (s : State) : Prop :=
  ∀ g, s.disk.read .staged = some g → j.blake3 g.bytes = j.blake3Hex →
    ∀ f, toReplace j s.disk = some f → g.attributes = f.attributes ∧
      (s.disk.entry .destination ≠ none → s.planSaw = some f.state)

/-- What is asked of a step: a run of `repair_one` begins undisturbed. -/
def BeginsUndisturbed (j : RepairJob) (s : State) (a : Action) : Prop :=
  ∀ created want source, a = .advance created → s.process = .planned want source → Undisturbed j s

/-- Only a file that is what the plan saw gets into quarantine or goes from the destination. -/
def AsPlanned (s : State) (a : Action) (t : State) : Prop :=
  (∀ e, a ≠ .edit e) →
    (s.disk.entry .quarantine = none ∧ t.disk.entry .quarantine ≠ none ∨
      s.disk.entry .destination ≠ none ∧ t.disk.entry .destination = none) →
    ∃ f, s.disk.read .destination = some f ∧ s.planSaw = some f.state

/-- When `repair_one` returns, the destination is good; what the job has put there has the
dates and permissions of the file in quarantine, and else it was good before. -/
def ReturnsRepaired (j : RepairJob) (_ : State) (a : Action) (t : State) : Prop :=
  ∀ created bytes, a = .advance created → t.process = .stopped (some (.ok bytes)) →
    ∃ f, t.disk.read .destination = some f ∧ j.blake3 f.bytes = j.blake3Hex ∧
      (t.placed = true → ∃ r, t.disk.read .quarantine = some r ∧ f.attributes = r.attributes) ∧
      (t.placed = false → t.goodBefore = true)

/-! ### What a run that began undisturbed knows -/

/-- The run will still compare the file with its plan, and its replacement gets the
attributes of the file. -/
def Fresh (j : RepairJob) (s : State) (want : Option (Nat × Int)) (original : Int × Nat) : Prop :=
  ∃ state f, want = some state ∧ s.planSaw = some state ∧ s.disk.read .destination = some f ∧
    original = f.attributes ∧ ¬ Good j s.disk .destination

/-- The destination is not good by chance. -/
def Accounted (j : RepairJob) (s : State) : Prop :=
  Good j s.disk .destination → s.placed = true ∨ s.goodBefore = true

def Process.Faithful (j : RepairJob) (s : State) : Process → Prop
  | .stopped _ => True
  | .planned want _ => ∀ state, want = some state → s.planSaw = some state
  | .copied want original | .copyLinked want original | .undated want original =>
      Fresh j s want original
  | .dated want original => Fresh j s want original ∧
      ∀ g, s.disk.read .staged = some g → g.modified = original.1
  | .ready want => Accounted j s ∧ ∀ g, s.disk.read .staged = some g → ∀ f,
      toReplace j s.disk = some f → g.attributes = f.attributes ∧
        (s.disk.entry .destination ≠ none → s.planSaw = some f.state ∨
          ∃ state, want = some state ∧ s.planSaw = some state ∧ s.disk.entry .quarantine = none)
  | .setAside => Accounted j s ∧ ∃ f, s.disk.read .destination = some f ∧
      s.planSaw = some f.state ∧ ∀ g, s.disk.read .staged = some g → g.attributes = f.attributes
  | .replacing => Accounted j s ∧ (s.disk.entry .destination = none →
      ∀ g r, s.disk.read .staged = some g → s.disk.read .quarantine = some r →
        g.attributes = r.attributes)
  | .placing | .checking => Accounted j s

/-- What the job has put at the destination has the attributes of the file in quarantine. -/
def Replaced (s : State) : Prop :=
  s.placed = true → s.disk.entry .destination ≠ s.disk.entry .quarantine ∧
    ∃ f r, s.disk.read .destination = some f ∧ s.disk.read .quarantine = some r ∧
      f.attributes = r.attributes

structure Faithful (j : RepairJob) (s : State) : Prop where
  replaced : Replaced s
  process : s.process.Faithful j s

theorem Initial.faithful (h : Initial s) : Faithful j s := by
  refine ⟨fun hplaced => ?_, ?_⟩
  · rw [h.placed] at hplaced
    cases hplaced
  · rw [h.process]
    trivial

theorem Replaced.of_disk {disk : Disk} {p : Process} {planSaw : Option (Nat × Int)} {good : Bool}
    (h : Replaced s) (hentry : ∀ n, Kept n → disk.entry n = s.disk.entry n)
    (hread : ∀ n, Kept n → disk.read n = s.disk.read n) :
    Replaced ⟨disk, p, planSaw, s.placed, good⟩ := by
  intro hplaced
  have hd := hentry .destination (Or.inl rfl)
  have hq := hentry .quarantine (Or.inr rfl)
  have hrd := hread .destination (Or.inl rfl)
  have hrq := hread .quarantine (Or.inr rfl)
  dsimp only
  rw [hd, hq, hrd, hrq]
  exact h hplaced

/-- A job that has put a file at the destination has another in quarantine. -/
theorem Replaced.quarantine (h : Replaced s) (hplaced : s.placed = true) :
    s.disk.entry .quarantine ≠ none := by
  obtain ⟨-, f, r, -, hr, -⟩ := h hplaced
  intro hnone
  rw [Volume.read_eq_none.mpr hnone] at hr
  cases hr

/-- Until there is a file in quarantine the job has put nothing at the destination. -/
theorem Replaced.not_placed (h : Replaced s) (hfree : s.disk.entry .quarantine = none) :
    s.placed = false := by
  cases hplaced : s.placed with
  | false => rfl
  | true => exact absurd hfree (h.quarantine hplaced)

theorem Replaced.stop (h : Replaced s) (result : Option (Except RepairError Nat)) :
    Faithful j (s.stop result) := by
  refine ⟨h.of_disk ?_ ?_, trivial⟩
  · rintro n (rfl | rfl) <;> simp
  · rintro n (rfl | rfl) <;> simp

theorem Faithful.edit {disk : Disk} (h : Faithful j s)
    (hidle : s.process.running = false) : Faithful j { s with disk := disk, placed := false } := by
  refine ⟨nofun, ?_⟩
  have hprocess := h.process
  cases hp : s.process with
  | stopped result => trivial
  | planned want source =>
    rw [hp] at hprocess
    exact hprocess
  | _ =>
    rw [hp] at hidle
    cases hidle

theorem Faithful.plan (h : Faithful j s) (source : Option Bytes) : Faithful j (s.plan j source) := by
  rcases plan_cases j s source with he | ⟨-, he⟩ | ⟨-, f, -, he⟩
  · rw [he]
    exact ⟨h.replaced, trivial⟩
  · rw [he]
    exact ⟨h.replaced, nofun⟩
  · rw [he]
    refine ⟨h.replaced, ?_⟩
    intro state hstate
    cases hstate
    rfl

theorem Fresh.of_read {disk : Disk} {p : Process} {want : Option (Nat × Int)} {original : Int × Nat}
    (h : Fresh j s want original) (hread : disk.read .destination = s.disk.read .destination) :
    Fresh j ⟨disk, p, s.planSaw, s.placed, s.goodBefore⟩ want original := by
  unfold Fresh Good at h ⊢
  dsimp only
  rw [hread]
  exact h

/-- What is written to the staged file before there is one in quarantine changes no other. -/
theorem Shaped.write_staged (h : Shaped s) (hfree : s.disk.entry .quarantine = none)
    (hstaged : s.disk.entry .staged ≠ none) (n : Name) (hn : Kept n) (f : StoredFile) :
    (s.disk.write .staged f).read n = s.disk.read n :=
  Volume.read_write_of_ne f (h.staged_ne hfree hstaged n hn)

/-- A file that a run takes from the destination is what the plan saw. -/
theorem Faithful.saw (h : Faithful j s) {want : Option (Nat × Int)} {f : StoredFile}
    (hp : s.process = .ready want) (hread : s.disk.read .destination = some f)
    (hwant : s.disk.entry .quarantine = none → ∀ state, want = some state → f.state = state)
    (hreplace : toReplace j s.disk = some f) (hstaged : s.disk.entry .staged ≠ none) :
    s.planSaw = some f.state := by
  have hprocess := h.process
  rw [hp] at hprocess
  obtain ⟨g, hg⟩ := Option.ne_none_iff_exists'.mp (mt Volume.read_eq_none.mp hstaged)
  have hentry : s.disk.entry .destination ≠ none := fun hn => by
    rw [Volume.read_eq_none.mpr hn] at hread
    cases hread
  rcases (hprocess.2 g hg f hreplace).2 hentry with hsaw | ⟨state, hstate, hsaw, hfree⟩
  · exact hsaw
  · rw [hsaw, hwant hfree state hstate]

theorem toReplace_of_free {disk : Disk} (h : disk.entry .quarantine = none) :
    toReplace j disk = disk.read .destination := if_pos (Or.inl h)

theorem toReplace_of_same {disk : Disk} (h : sameFile j disk = true) :
    toReplace j disk = disk.read .destination := if_pos (Or.inr h)

theorem entry_of_same {disk : Disk} (h : sameFile j disk = true) :
    disk.entry .destination = disk.entry .quarantine := by
  simp only [sameFile, Bool.and_eq_true, decide_eq_true_eq] at h
  exact h.2

/-- What a run knows after one more step. -/
theorem Faithful.advance (hs : Shaped s) (h : Faithful j s)
    (hbegin : ∀ want source, s.process = .planned want source → Undisturbed j s)
    (hstep : Advances j s t) : Faithful j t := by
  have hshape := hs.process
  have hprocess := h.process
  have hreplaced := h.replaced
  cases hstep with
  | fail good e => exact Replaced.stop (s := { s with goodBefore := good }) hreplaced _
  | unstage e =>
    refine Replaced.stop (s := { s with disk := s.disk.unlink .staged }) (hreplaced.of_disk ?_ ?_) _
    · rintro n (rfl | rfl) <;> simp
    · rintro n (rfl | rfl) <;> simp
  | already bytes hp hgood => exact Replaced.stop (s := { s with goodBefore := true }) hreplaced _
  | resume hp hr hstaged good hbefore =>
    refine ⟨hreplaced, fun hgood => Or.inr (hbefore.mpr hgood), ?_⟩
    intro g hg f hf
    have hentry : s.disk.entry .staged ≠ none := fun hn => by
      rw [Volume.read_eq_none.mpr hn] at hg
      cases hg
    obtain ⟨g', hg', hverified⟩ := hstaged hentry
    rw [hg] at hg'
    cases hg'
    obtain ⟨hattributes, hplan⟩ := hbegin _ _ hp g hg hverified f hf
    exact ⟨hattributes, fun hd => Or.inl (hplan hd)⟩
  | @copy want source original hp hfresh hread file hverified hbad =>
    rw [hp] at hshape hprocess
    refine ⟨hreplaced.of_disk ?_ ?_, ?_⟩
    · rintro n (rfl | rfl) <;> simp
    · rintro n (rfl | rfl) <;> simp
    · have hwant : want ≠ none := fun hn => by
        rw [hshape.2.mp hn] at hfresh
        cases hfresh
      obtain ⟨state, hstate⟩ := Option.ne_none_iff_exists'.mp hwant
      exact Fresh.of_read (s := { s with goodBefore := false })
        ⟨state, original, hstate, hprocess state hstate, hread, rfl, hbad⟩ (by simp)
  | stage hp hsource hfree hplaced =>
    rw [hp] at hprocess
    cases hplaced with
    | rename =>
      refine ⟨hreplaced.of_disk ?_ ?_, hprocess.of_read (by simp)⟩
      · rintro n (rfl | rfl) <;> simp
      · rintro n (rfl | rfl) <;> simp
    | link =>
      refine ⟨hreplaced.of_disk ?_ ?_, hprocess.of_read (by simp)⟩
      · rintro n (rfl | rfl) <;> simp
      · rintro n (rfl | rfl) <;> simp
  | staged hp =>
    rw [hp] at hprocess
    refine ⟨hreplaced.of_disk ?_ ?_, hprocess.of_read (by simp)⟩
    · rintro n (rfl | rfl) <;> simp
    · rintro n (rfl | rfl) <;> simp
  | date hp hread =>
    rw [hp] at hshape hprocess
    have hkept := hs.write_staged hshape.2.1 hshape.2.2
    refine ⟨hreplaced.of_disk (fun n _ => by simp) fun n hn => hkept n hn _, ?_, ?_⟩
    · exact hprocess.of_read (hkept _ (Or.inl rfl) _)
    · intro g hg
      rw [Volume.read_write_of_eq _ rfl hread] at hg
      cases hg
      rfl
  | permit hp hread =>
    rw [hp] at hshape hprocess
    obtain ⟨⟨state, f, hwant, hsaw, hf, horiginal, hbad⟩, hmodified⟩ := hprocess
    have hkept := hs.write_staged hshape.2.1 hshape.2.2
    have hdestination := fun f => hkept .destination (Or.inl rfl) f
    refine ⟨hreplaced.of_disk (fun n _ => by simp) fun n hn => hkept n hn _, ?_, ?_⟩
    · intro hgood
      refine absurd ?_ hbad
      unfold Good at hgood ⊢
      rwa [hdestination] at hgood
    · intro g hg f' hf'
      rw [Volume.read_write_of_eq _ rfl hread] at hg
      cases hg
      rw [toReplace_of_free (by simpa using hshape.2.1), hdestination, hf] at hf'
      cases hf'
      refine ⟨?_, fun _ => Or.inr ⟨state, hwant, hsaw, by simpa using hshape.2.1⟩⟩
      have := hmodified _ hread
      rw [horiginal] at this ⊢
      simp [StoredFile.attributes] at this ⊢
      exact this
  | @setAside want f t hp hread hfree hplanned hplaced =>
    rw [hp] at hshape hprocess
    obtain ⟨haccounted, hready⟩ := hprocess
    have hnot := hreplaced.not_placed hfree
    have hreplace : toReplace j s.disk = some f := (toReplace_of_free hfree).trans hread
    have hstaged := (resuming_iff.mp hshape.2).resolve_left (not_not.mpr hfree)
    have hsaw := h.saw hp hread (fun _ => hplanned) hreplace hstaged
    cases hplaced with
    | rename =>
      refine ⟨fun hp => ?_, fun hgood => ?_, fun _ g r hg hr => ?_⟩
      · rw [hnot] at hp
        cases hp
      · obtain ⟨f', hf', -⟩ := hgood
        simp at hf'
      · simp at hg hr
        rw [hread] at hr
        cases hr
        exact (hready g hg f hreplace).1
    | link =>
      refine ⟨fun hp => ?_, fun hgood => ?_, f, by simpa using hread, hsaw, fun g hg => ?_⟩
      · rw [hnot] at hp
        cases hp
      · obtain ⟨f', hf', hverified⟩ := hgood
        exact haccounted ⟨f', by simpa using hf', hverified⟩
      · simp at hg
        exact (hready g hg f hreplace).1
  | @drop want f hp hstaged hread hsame =>
    rw [hp] at hprocess
    obtain ⟨haccounted, hready⟩ := hprocess
    have hentry := entry_of_same hsame
    refine ⟨fun hplaced => absurd hentry (hreplaced hplaced).1, fun hgood => ?_, fun _ g r hg hr => ?_⟩
    · obtain ⟨f', hf', -⟩ := hgood
      simp [State.unlinked] at hf'
    · simp [State.unlinked] at hg hr
      rw [Volume.read, ← hentry] at hr
      rw [Volume.read, hr] at hread
      cases hread
      exact (hready g hg f ((toReplace_of_same hsame).trans hr)).1
  | cleared hp htaken =>
    rw [hp] at hprocess
    obtain ⟨haccounted, hready⟩ := hprocess
    refine ⟨hreplaced, haccounted, fun hfree g r hg hr => (hready g hg r ?_).1⟩
    have hother : ¬ (s.disk.entry .quarantine = none ∨ sameFile j s.disk = true) := by
      rintro (hnone | hsame)
      · exact htaken hnone
      · exact htaken ((entry_of_same hsame).symm.trans hfree)
    rw [toReplace, if_neg hother, if_pos hfree]
    exact hr
  | aside hp =>
    rw [hp] at hshape hprocess
    obtain ⟨-, hentry, -⟩ := hshape
    obtain ⟨-, f, hf, -, hattributes⟩ := hprocess
    refine ⟨fun hplaced => absurd hentry.symm (hreplaced hplaced).1, fun hgood => ?_,
      fun _ g r hg hr => ?_⟩
    · obtain ⟨f', hf', -⟩ := hgood
      simp [State.unlinked] at hf'
    · simp [State.unlinked] at hg hr
      rw [Volume.read, hentry] at hr
      rw [Volume.read, hr] at hf
      cases hf
      exact hattributes g hg
  | replace hp hstaged hfree hplaced =>
    rw [hp] at hshape hprocess
    obtain ⟨i, hi⟩ := Option.ne_none_iff_exists'.mp hstaged
    obtain ⟨k, hk⟩ := Option.ne_none_iff_exists'.mp hshape.2
    have hik : i ≠ k := fun he => (hs.apart i hi).1 (by rw [hk, he])
    have hg : s.disk.read .staged = some (s.disk.file i) := Volume.read_eq_some.mpr ⟨i, hi, rfl⟩
    have hr : s.disk.read .quarantine = some (s.disk.file k) :=
      Volume.read_eq_some.mpr ⟨k, hk, rfl⟩
    have hattributes := hprocess.2 hfree _ _ hg hr
    cases hplaced with
    | rename =>
      refine ⟨fun _ => ⟨by simpa [hi, hk] using hik, _, _, ?_, ?_, hattributes⟩, fun _ => Or.inl rfl⟩
      · simpa using hg
      · simpa using hr
    | link =>
      refine ⟨fun _ => ⟨by simpa [hi, hk] using hik, _, _, ?_, ?_, hattributes⟩, fun _ => Or.inl rfl⟩
      · simpa using hg
      · simpa using hr
  | replaced hp =>
    rw [hp] at hprocess
    exact ⟨hreplaced, hprocess.1⟩
  | placed hp =>
    rw [hp] at hprocess
    refine ⟨hreplaced.of_disk ?_ ?_, fun hgood => ?_⟩
    · rintro n (rfl | rfl) <;> simp
    · rintro n (rfl | rfl) <;> simp
    · obtain ⟨f', hf', hverified⟩ := hgood
      exact hprocess ⟨f', by simpa [State.unlinked] using hf', hverified⟩
  | «return» bytes hp hgood => exact hreplaced.stop _

/-! ### What the steps of an undisturbed run do -/

theorem Faithful.step {a : Action} (hs : Shaped s) (h : Faithful j s)
    (hbegin : BeginsUndisturbed j s a) (hstep : Step j s a t) : Faithful j t := by
  rcases step_cases hstep with ⟨e, disk, -, hidle, -, rfl⟩ | ⟨source, -, -, rfl⟩ |
    ⟨created, ha, hadvance⟩ | ⟨-, rfl⟩
  · exact h.edit hidle
  · exact h.plan source
  · exact h.advance hs (fun want source hp => hbegin created want source ha hp) hadvance
  · exact h.replaced.stop none

theorem Faithful.asPlanned {a : Action} (hs : Shaped s) (h : Faithful j s) (hstep : Step j s a t) :
    AsPlanned s a t := by
  have hprocess := h.process
  have hshape := hs.process
  intro hprogram hgone
  rcases step_cases hstep with ⟨e, disk, he, -⟩ | ⟨source, -, -, rfl⟩ | ⟨created, -, hadvance⟩ |
    ⟨-, rfl⟩
  · exact absurd he (hprogram e)
  · rcases plan_cases j s source with he | ⟨-, he⟩ | ⟨-, f, -, he⟩ <;> rw [he] at hgone <;>
      rcases hgone with ⟨h, h'⟩ | ⟨h, h'⟩ <;> contradiction
  · cases hadvance with
    | @setAside want f _ hp hread hfree hplanned hplaced =>
      rw [hp] at hshape
      have hstaged := (resuming_iff.mp hshape.2).resolve_left (not_not.mpr hfree)
      exact ⟨f, hread, h.saw hp hread (fun _ => hplanned) ((toReplace_of_free hfree).trans hread)
        hstaged⟩
    | @drop want f hp hstaged hread hsame =>
      refine ⟨f, hread, h.saw hp hread (fun hfree => ?_) ((toReplace_of_same hsame).trans hread)
        hstaged⟩
      rw [← entry_of_same hsame, ← Volume.read_eq_none, hread] at hfree
      cases hfree
    | aside hp =>
      rw [hp] at hprocess
      obtain ⟨-, f, hf, hsaw, -⟩ := hprocess
      exact ⟨f, hf, hsaw⟩
    | stage hp hsource hfree hplaced => cases hplaced <;> simp at hgone
    | replace hp hstaged hfree hplaced => cases hplaced <;> simp [hfree] at hgone
    | _ => simp [State.fail, State.stop, State.unlinked] at hgone
  · simp [State.stop] at hgone

theorem Faithful.returnsRepaired {a : Action} (h : Faithful j s) (hstep : Step j s a t) :
    ReturnsRepaired j s a t := by
  have hprocess := h.process
  have hreturned : ∀ {good : Bool} {result : Option (Except RepairError Nat)},
      Good j s.disk .destination → (s.placed = false → good = true) →
      ∃ f, ({ s with goodBefore := good }.stop result).disk.read .destination = some f ∧
        j.blake3 f.bytes = j.blake3Hex ∧
        (s.placed = true → ∃ r, ({ s with goodBefore := good }.stop result).disk.read .quarantine =
          some r ∧ f.attributes = r.attributes) ∧ (s.placed = false → good = true) := by
    intro good result hgood hbefore
    obtain ⟨f, hf, hverified⟩ := hgood
    refine ⟨f, by simpa [State.stop] using hf, hverified, fun hplaced => ?_, hbefore⟩
    obtain ⟨-, f', r, hf', hr, hattributes⟩ := h.replaced hplaced
    rw [hf] at hf'
    cases hf'
    exact ⟨r, by simpa [State.stop] using hr, hattributes⟩
  intro created bytes ha hstopped
  subst ha
  have hadvance := advance_cases hstep
  cases hadvance with
  | already _ hp hgood => exact hreturned hgood fun _ => rfl
  | «return» _ hp hgood =>
    rw [hp] at hprocess
    exact hreturned hgood fun hnot => (hprocess hgood).resolve_left (by rw [hnot]; decide)
  | stage hp hsource hfree hplaced => cases hplaced <;> cases hstopped
  | setAside hp hread hfree hplanned hplaced => cases hplaced <;> cases hstopped
  | replace hp hstaged hfree hplaced => cases hplaced <;> cases hstopped
  | _ => cases hstopped

/-- No step of any job loses what was at the destination or what the user has put there.
When every run that begins with a staged file finds it with the attributes of the file that it
replaces, and finds that file as the plan of the job saw it, then only a file that the plan saw
is ever moved to quarantine, and what returns has repaired the destination. -/
theorem repair_of_undisturbed {p : List (Action × State)} (hs : Initial s)
    (h : Path (Step j) s p) :
    Path NothingLost s p ∧
      (Path (fun s a _ => BeginsUndisturbed j s a) s p →
        Path (fun s a t => AsPlanned s a t ∧ ReturnsRepaired j s a t) s p) := by
  constructor
  · exact h.along (fun s a t hshaped hstep => ⟨hshaped.step hstep, hshaped.nothingLost hstep⟩)
      hs.shaped
  · intro hbegin
    refine Path.along (P := fun s => Shaped s ∧ Faithful j s) ?_ ⟨hs.shaped, hs.faithful⟩
      (h.and hbegin)
    rintro s a t ⟨hshaped, hfaithful⟩ ⟨hstep, hbegins⟩
    exact ⟨⟨hshaped.step hstep, hfaithful.step hshaped hbegins hstep⟩,
      hfaithful.asPlanned hshaped hstep, hfaithful.returnsRepaired hstep⟩

/-! ### A run -/

namespace Sample

/-- A job whose target should hold one byte and holds another. -/
def job : RepairJob where
  blake3 bytes := if bytes = [0] then "good" else "bad"
  platform := .linux
  includeChanged := true
  blake3Hex := "good"
  observedSize := none
  observedMtime := none

def corrupt : StoredFile := ⟨[1], 5000, 420⟩

/-- What the user writes at the destination while the job is stopped. -/
def edited : StoredFile := ⟨[2, 2], 9000, 420⟩

def disk : Disk where
  entry := fun n => if n = .destination then some 0 else none
  file := fun _ => corrupt
  next := 1
  entry_lt := by
    intro n i h
    split at h
    · cases h
      exact Nat.zero_lt_one
    · cases h

def start : State := ⟨disk, .stopped none, none, false, false⟩

theorem initial : Initial start := ⟨rfl, rfl, rfl, rfl, rfl⟩

def step : Action := .advance (7000, 384)

/-- A fresh run that stops when the replacement is staged. -/
def interrupted : List Action := [.plan (some [0]), step, step, step, step, .crash]

/-- Its resumption, after an edit. -/
def resumed : List Action := [.edit (.write edited), .plan (some [0]), step]

def after (actions : List Action) : State := final start (start.trace job actions)

/-- The edit goes to quarantine, though no plan saw it. -/
theorem edit_set_aside : ¬ ∀ (j : RepairJob) (s : State) (p : List (Action × State)), Initial s →
    Path (Step j) s p → Path (fun s a t =>
      NothingLost s a t ∧ AsPlanned s a t ∧ ReturnsRepaired j s a t) s p := by
  intro h
  have hpath := h job start _ initial (path_trace job start (interrupted ++ resumed ++ [step]))
  have hsplit : start.trace job (interrupted ++ resumed ++ [step]) =
      start.trace job (interrupted ++ resumed) ++
        [(step, ((after (interrupted ++ resumed)).next job step).getD start)] := rfl
  rw [hsplit] at hpath
  obtain ⟨-, hplanned, -⟩ := hpath.step
  obtain ⟨f, hf, hsaw⟩ := hplanned nofun (Or.inl ⟨by decide, by decide⟩)
  have hread : (after (interrupted ++ resumed)).disk.read .destination = some edited := rfl
  cases hread.symm.trans hf
  exact absurd hsaw (by decide)

theorem begins_of_running {s : State} (h : s.process.running = true) (a : Action) :
    BeginsUndisturbed job s a := by
  intro created want source _ hp
  rw [hp] at h
  cases h

theorem begins_of_plan (s : State) (source : Option Bytes) :
    BeginsUndisturbed job s (.plan source) := nofun

theorem begins_of_crash (s : State) : BeginsUndisturbed job s .crash := nofun

/-- A fresh run finds no staged file. -/
theorem begins_fresh {s : State} (h : s.disk.read .staged = none) (a : Action) :
    BeginsUndisturbed job s a := by
  intro created want source _ _ g hg
  rw [h] at hg
  cases hg

theorem begins_resumed : BeginsUndisturbed job (after (interrupted ++ [.plan none])) step := by
  intro created want source _ _ g hg _ f hf
  have hstaged : (after (interrupted ++ [.plan none])).disk.read .staged =
      some ⟨[0], 5000, 420⟩ := rfl
  have hreplace : toReplace job (after (interrupted ++ [.plan none])).disk = some corrupt := rfl
  cases hstaged.symm.trans hg
  cases hreplace.symm.trans hf
  exact ⟨rfl, fun _ => rfl⟩

theorem resumed_repairs : Path (fun s a t => AsPlanned s a t ∧ ReturnsRepaired job s a t) start
    (start.trace job (interrupted ++ [.plan none, step, step, step, step])) :=
  (repair_of_undisturbed initial (path_trace ..)).2
    ⟨begins_of_plan _ _, begins_fresh rfl _, begins_of_running rfl _, begins_of_running rfl _,
      begins_of_running rfl _, begins_of_crash _, begins_of_plan _ _, begins_resumed,
      begins_of_running rfl _, begins_of_running rfl _, begins_of_running rfl _, trivial⟩

end Sample

end ArchiveLedger.Repair
