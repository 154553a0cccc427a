import ArchiveLedger.Sync.Lineage

/-!
# Two rounds of syncs

Once appends stop, a head moves only to commits that the remote has.  So after one round, in which
every client completed a sync, the remote descends from every head (`OnItsWay`), and in a second round
there is nothing left to push: each sync finds the head behind the remote and forwards it
(`Settled`).  After it all heads are the remote (`syncs_converge`).
-/

namespace ArchiveLedger

namespace Sync

open CommitGraph Outcome Transition

section

variable {κ π : Type} [DecidableEq κ] [DecidableEq π] {R : StoreRuntime} {owner : π → κ} {s t : State κ π} {e : Event π}

/-- Where the sync of a process began. -/
theorem Acts.begun_at (h : Acts R owner s e t) {q : π} {a : Attempt} (ha : (t.phase q).attempt? = some a) :
    (∃ b, (s.phase q).attempt? = some b ∧ b.localBefore = a.localBefore) ∨ a.localBefore = s.head (owner q) := by
  have hgo : ∀ {u : State κ π} {p : π} {phase : Phase}, u.phase = s.phase →
      ((u.enter p phase).phase q).attempt? = some a → (q = p → ∀ a, phase.attempt? = some a →
        (∃ b, (s.phase p).attempt? = some b ∧ b.localBefore = a.localBefore) ∨ a.localBefore = s.head (owner p)) →
      (∃ b, (s.phase q).attempt? = some b ∧ b.localBefore = a.localBefore) ∨ a.localBefore = s.head (owner q) := by
    intro u p phase hu ha hp
    rw [enter_phase] at ha
    split at ha
    · rename_i hq
      subst hq
      exact hp rfl a ha
    · rw [hu] at ha
      exact Or.inl ⟨a, ha, rfl⟩
  have hretry : ∀ {p : π} {b c : Attempt}, (s.phase p).attempt? = some b → b.retry.attempt? = some c →
      ∃ d, (s.phase p).attempt? = some d ∧ d.localBefore = c.localBefore := by
    intro p b c hb hc
    rcases retry_cases b with hr | ⟨attempts, hr⟩
    · rw [hr] at hc
      cases hc
    · rw [hr] at hc
      cases hc
      exact ⟨b, hb, rfl⟩
  have hkeep : ∀ {u : State κ π} {p : π} {phase : Phase} {b : Attempt}, u.phase = s.phase →
      ((u.enter p phase).phase q).attempt? = some a → (s.phase p).attempt? = some b → phase.attempt? = some b →
      (∃ b, (s.phase q).attempt? = some b ∧ b.localBefore = a.localBefore) ∨ a.localBefore = s.head (owner q) := by
    intro u p phase b hu ha hb hphase
    refine hgo hu ha fun _ a ha => Or.inl ⟨b, hb, ?_⟩
    rw [hphase] at ha
    cases ha
    rfl
  cases h with
  | rest hphase =>
    refine hgo rfl ha fun _ a ha => ?_
    rcases hphase with rfl | ⟨error, rfl⟩ <;> cases ha
  | began => exact hgo rfl ha fun _ a ha => by cases ha
  | appended hphase hverified htree hout => exact hgo rfl ha fun _ a ha => by cases ha
  | verified htree hvisit => exact hgo rfl ha fun _ a ha => by cases ha
  | read hphase =>
    refine hgo rfl ha fun _ a ha => ?_
    cases ha
    exact Or.inr rfl
  | absent hphase hremote => exact hkeep rfl ha (by rw [hphase]; rfl) rfl
  | present hphase hremote => exact hkeep rfl ha (by rw [hphase]; rfl) rfl
  | retried hphase => exact hgo rfl ha fun _ a ha => Or.inl (hretry hphase ha)
  | created hphase hahead hafter =>
    refine hgo rfl ha fun _ a ha => ?_
    rcases hafter with rfl | rfl
    · cases ha
    · exact Or.inl (hretry (by rw [hphase]; rfl) ha)
  | fetched hphase hremote => exact hkeep rfl ha (by rw [hphase]; rfl) rfl
  | same hphase => exact hgo rfl ha fun _ a ha => by cases ha
  | behind hphase hancestor => exact hkeep rfl ha (by rw [hphase]; rfl) rfl
  | ahead hphase hdiffers hancestor => exact hkeep rfl ha (by rw [hphase]; rfl) rfl
  | united hphase hdiffers hlocal hremote hvisit htree => exact hkeep rfl ha (by rw [hphase]; rfl) rfl
  | @pushed p reply b remote commit union phase hphase hremote hafter =>
    refine hgo rfl ha fun _ a ha => ?_
    rcases hafter with rfl | ⟨hash, -, rfl⟩ | ⟨-, rfl⟩
    · exact Or.inl (hretry (by rw [hphase]; rfl) ha)
    · cases ha
      exact Or.inl ⟨b, by rw [hphase]; rfl, rfl⟩
    · cases ha
  | contained hphase hancestor => exact hkeep rfl ha (by rw [hphase]; rfl) rfl
  | forwarded hphase hancestor => exact hkeep rfl ha (by rw [hphase]; rfl) rfl
  | confirmed hphase htree hvisit hunion => exact hgo rfl ha fun _ a ha => by cases ha
  | recorded hphase => exact Or.inl ⟨a, ha, rfl⟩

/-- A sync that is done has begun before. -/
theorem Acts.done_of (h : Acts R owner s e t) {q : π} {result : V2SyncResult} (hdone : t.phase q = .done result) :
    s.phase q = .done result ∨
      ∃ a, (s.phase q).attempt? = some a ∧ a.localBefore = result.localCommitBefore := by
  have hgo : ∀ {u : State κ π} {p : π} {phase : Phase}, u.phase = s.phase →
      (u.enter p phase).phase q = .done result → (q = p → phase = .done result →
        ∃ a, (s.phase p).attempt? = some a ∧ a.localBefore = result.localCommitBefore) →
      s.phase q = .done result ∨ ∃ a, (s.phase q).attempt? = some a ∧ a.localBefore = result.localCommitBefore := by
    intro u p phase hu hdone hp
    rw [enter_phase] at hdone
    split at hdone
    · rename_i hq
      subst hq
      exact Or.inr (hp rfl hdone)
    · rw [hu] at hdone
      exact Or.inl hdone
  have hretry : ∀ {b : Attempt}, b.retry ≠ .done result := by
    intro b hb
    rcases retry_cases b with hr | ⟨attempts, hr⟩ <;> rw [hr] at hb <;> cases hb
  cases h with
  | rest hphase =>
    refine hgo rfl hdone fun _ hnow => ?_
    rcases hphase with rfl | ⟨error, rfl⟩ <;> cases hnow
  | began => exact hgo rfl hdone fun _ hnow => by cases hnow
  | appended hphase hverified htree hout => exact hgo rfl hdone fun _ hnow => by cases hnow
  | verified htree hvisit => exact hgo rfl hdone fun _ hnow => by cases hnow
  | read hphase => exact hgo rfl hdone fun _ hnow => by cases hnow
  | absent hphase hremote => exact hgo rfl hdone fun _ hnow => by cases hnow
  | present hphase hremote => exact hgo rfl hdone fun _ hnow => by cases hnow
  | retried hphase => exact hgo rfl hdone fun _ hnow => absurd hnow hretry
  | @created p reply b phase hphase hahead hafter =>
    refine hgo rfl hdone fun _ hnow => ?_
    rcases hafter with rfl | rfl
    · cases hnow
      exact ⟨b, by rw [hphase]; rfl, rfl⟩
    · exact absurd hnow hretry
  | fetched hphase hremote => exact hgo rfl hdone fun _ hnow => by cases hnow
  | @same p permits again b hphase =>
    refine hgo rfl hdone fun _ hnow => ⟨b, by rw [hphase]; rfl, ?_⟩
    cases hnow
    rfl
  | behind hphase hancestor => exact hgo rfl hdone fun _ hnow => by cases hnow
  | ahead hphase hdiffers hancestor => exact hgo rfl hdone fun _ hnow => by cases hnow
  | united hphase hdiffers hlocal hremote hvisit htree => exact hgo rfl hdone fun _ hnow => by cases hnow
  | @pushed p reply b remote commit union phase hphase hremote hafter =>
    refine hgo rfl hdone fun _ hnow => ?_
    rcases hafter with rfl | ⟨hash, -, rfl⟩ | ⟨-, rfl⟩
    · exact absurd hnow hretry
    · cases hnow
    · cases hnow
      exact ⟨b, by rw [hphase]; rfl, rfl⟩
  | contained hphase hancestor => exact hgo rfl hdone fun _ hnow => by cases hnow
  | forwarded hphase hancestor => exact hgo rfl hdone fun _ hnow => by cases hnow
  | @confirmed p b remote target union tree archive yielded hphase htree hvisit hunion =>
    refine hgo rfl hdone fun _ hnow => ⟨b, by rw [hphase]; rfl, ?_⟩
    cases hnow
    rfl
  | recorded hphase => exact Or.inl hdone

/-- Without an append a head moves only to what the remote has. -/
theorem Acts.head_moves (hs : Sound owner s) (h : Acts R owner s e t) (hquiet : appendFree e = true) (k : κ) :
    t.head k = s.head k ∨ OnRemote t (t.head k) := by
  have hst := (sound_acts hs h).1
  cases h with
  | appended hphase hverified htree hout => cases hquiet
  | @forwarded p a remote target union hphase hancestor =>
    obtain ⟨-, hon, -, -⟩ := hs.at hphase
    by_cases hk : k = owner p
    · right
      show OnRemote _ (Function.update s.head (owner p) target k)
      rw [hk, Function.update_self]
      exact hon.mono hst
    · left
      show Function.update s.head (owner p) target k = s.head k
      rw [Function.update_of_ne hk]
  | rest hphase => exact Or.inl rfl
  | began => exact Or.inl rfl
  | verified htree hvisit => exact Or.inl rfl
  | read hphase => exact Or.inl rfl
  | absent hphase hremote => exact Or.inl rfl
  | present hphase hremote => exact Or.inl rfl
  | retried hphase => exact Or.inl rfl
  | created hphase hahead hafter => exact Or.inl rfl
  | fetched hphase hremote => exact Or.inl rfl
  | same hphase => exact Or.inl rfl
  | behind hphase hancestor => exact Or.inl rfl
  | ahead hphase hdiffers hancestor => exact Or.inl rfl
  | united hphase hdiffers hlocal hremote hvisit htree => exact Or.inl rfl
  | pushed hphase hremote hafter => exact Or.inl rfl
  | contained hphase hancestor => exact Or.inl rfl
  | confirmed hphase htree hvisit hunion => exact Or.inl rfl
  | recorded hphase => exact Or.inl rfl

/-! ### The first round -/

/-- The head that a sync began with is still there, or the remote has the head. -/
structure OnItsWay (owner : π → κ) (process : π) (s : State κ π) : Prop where
  attempt : ∀ a, (s.phase process).attempt? = some a →
    s.head (owner process) = a.localBefore ∨ OnRemote s (s.head (owner process))
  done : ∀ result, s.phase process = .done result → OnRemote s (s.head (owner process))

theorem onItsWay_acts {process : π} (hs : Sound owner s) (h : Acts R owner s e t) (hquiet : appendFree e = true)
    (hway : OnItsWay owner process s) : OnItsWay owner process t := by
  obtain ⟨hst, ht⟩ := sound_acts hs h
  have hmoves := h.head_moves hs hquiet (owner process)
  constructor
  · intro a ha
    rcases hmoves with hsame | hon
    · rcases h.begun_at ha with ⟨b, hb, hbefore⟩ | hread
      · rcases hway.attempt b hb with hhead | hon
        · exact Or.inl (hsame.trans (hhead.trans hbefore))
        · exact Or.inr (hsame ▸ hon.mono hst)
      · exact Or.inl (hsame.trans hread.symm)
    · exact Or.inr hon
  · intro result hdone
    rcases hmoves with hsame | hon
    · rcases h.done_of hdone with hbefore | ⟨a, ha, hbefore⟩
      · exact hsame ▸ (hway.done result hbefore).mono hst
      · rcases hway.attempt a ha with hhead | hon
        · obtain ⟨haccepted, -, hlocal, -⟩ := ht.at hdone
          rw [hsame, hhead, hbefore]
          exact haccepted.of_descends hlocal
        · exact hsame ▸ hon.mono hst
    · exact hon

theorem onRemote_run {p : List (Event π × State κ π)} {k : κ} (hs : Sound owner s) (hrun : Path (Steps R owner) s p)
    (hquiet : ∀ e ∈ p, appendFree e.1 = true) (hon : OnRemote s (s.head k)) :
    OnRemote (final s p) ((final s p).head k) := by
  have hinv := Path.invariant (P := fun t => Sound owner t ∧ OnRemote t (t.head k)) (fun t e u ht hstep => ?_) ⟨hs, hon⟩
    (hrun.and (path_iff_forall (C := fun e => appendFree e = true) |>.mpr hquiet))
  · exact hinv.2
  · have hacts := acts_of_next hstep.1
    obtain ⟨hst, hu⟩ := sound_acts ht.1 hacts
    rcases hacts.head_moves ht.1 hstep.2 k with hsame | hon
    · exact ⟨hu, hsame ▸ ht.2.mono hst⟩
    · exact ⟨hu, hon⟩

/-- After a round the remote has the head of each client. -/
theorem onRemote_of_completes {p : List (Event π × State κ π)} {k : κ} (hs : Sound owner s)
    (hrun : Path (Steps R owner) s p) (hquiet : ∀ e ∈ p, appendFree e.1 = true) (hcompletes : Completes owner p k) :
    OnRemote (final s p) ((final s p).head k) := by
  obtain ⟨process, before, t, during, after, result, rfl, rfl, hdone⟩ := hcompletes
  obtain ⟨hbefore, hverify, hrest⟩ := path_append.mp hrun
  obtain ⟨hduring, hafter⟩ := path_append.mp hrest
  obtain ⟨-, hsound⟩ := sound_run hs hbefore
  have hquiet' : ∀ e ∈ during ++ after, appendFree e.1 = true := fun e he =>
    hquiet e (List.mem_append_right _ (List.mem_cons_of_mem _ he))
  obtain ⟨hst, ht⟩ := sound_acts hsound (acts_of_next hverify)
  -- a process that just verified is in no sync yet
  have hway : OnItsWay owner process t := by
    rw [Steps, next] at hverify
    split at hverify
    · obtain ⟨tree, -, rfl⟩ := Option.map_eq_some_iff.mp hverify
      split
      · constructor
        · intro a ha
          rw [enter_phase, if_pos rfl] at ha
          cases ha
        · intro result hresult
          rw [enter_phase, if_pos rfl] at hresult
          cases hresult
      · constructor
        · intro a ha
          rw [enter_phase, if_pos rfl] at ha
          cases ha
        · intro result hresult
          rw [enter_phase, if_pos rfl] at hresult
          cases hresult
    · cases hverify
  have hinv := Path.invariant (P := fun t => Sound owner t ∧ OnItsWay owner process t) (fun t e u ht hstep => ?_)
    ⟨ht, hway⟩ (hduring.and (path_iff_forall (C := fun e => appendFree e = true) |>.mpr fun e he =>
      hquiet' e (List.mem_append_left _ he)))
  · rw [final_append, final_cons, final_append]
    exact onRemote_run hinv.1 hafter (fun e he => hquiet' e (List.mem_append_right _ he)) (hinv.2.done result hdone)
  · have hacts := acts_of_next hstep.1
    exact ⟨(sound_acts ht.1 hacts).2, onItsWay_acts ht.1 hacts hstep.2 ht.2⟩

end

/-! ### The second round -/

section

variable {κ π : Type} {owner : π → κ} {s : State κ π}

/-- What a process holds that has nothing to push, with the remote at this commit. -/
def PhaseSettled (remote : Nat) (s : State κ π) : Phase → Prop
  | .querying a => Descends s.commits a.localBefore remote
  | .fetching a r | .comparing a r => r = remote ∧ Descends s.commits a.localBefore remote
  | .forwarding _ _ target _ | .confirming _ _ target _ => target = remote
  | .creating _ | .pushing _ _ _ _ => False
  | _ => True

structure Settled (owner : π → κ) (remote : Nat) (s : State κ π) : Prop where
  sound : Sound owner s
  here : s.remote = some remote
  head : ∀ k, Descends s.commits (s.head k) remote
  phase : ∀ p, PhaseSettled remote s (s.phase p)

theorem Settled.at {remote : Nat} {p : π} {phase : Phase} (hs : Settled owner remote s) (hphase : s.phase p = phase) :
    PhaseSettled remote s phase := hphase ▸ hs.phase p

theorem phaseSettled_of_resting {remote : Nat} {phase : Phase} (h : phase.resting = true) : PhaseSettled remote s phase := by
  cases phase <;> trivial

theorem phaseSettled_retry {remote : Nat} {a : Attempt} (h : Descends s.commits a.localBefore remote) :
    PhaseSettled remote s a.retry := by
  rcases retry_cases a with hr | ⟨attempts, hr⟩
  · rw [hr]
    trivial
  · rw [hr]
    exact h

end

section

variable {κ π : Type} [DecidableEq κ] [DecidableEq π] {R : StoreRuntime} {owner : π → κ} {s t : State κ π} {e : Event π}

/-- What a settled step is, and what the syncs accept that end in it. -/
theorem settled_acts {remote : Nat} (hs : Settled owner remote s) (h : Acts R owner s e t) (hquiet : appendFree e = true) :
    Settled owner remote t ∧ ∀ q result, t.phase q = .done result → s.phase q = .done result ∨ result.acceptedCommit = remote := by
  have ht := (sound_acts hs.sound h).2
  have hgo : ∀ {u : State κ π} {p : π} {phase : Phase}, t = u.enter p phase → u.commits = s.commits → u.remote = s.remote →
      u.phase = s.phase → (∀ k, Descends s.commits (u.head k) remote) → PhaseSettled remote s phase →
      (∀ result, phase = .done result → result.acceptedCommit = remote) →
      Settled owner remote t ∧
        ∀ q result, t.phase q = .done result → s.phase q = .done result ∨ result.acceptedCommit = remote := by
    intro u p phase htu hcommits hremote hphases hhead hphase hdone
    have hmono : ∀ phase, PhaseSettled remote s phase → PhaseSettled remote t phase := by
      intro phase h
      have hsame : t.commits = s.commits := by rw [htu, enter_commits, hcommits]
      cases phase with
      | querying a =>
        show Descends t.commits a.localBefore remote
        rw [hsame]
        exact h
      | fetching a r =>
        refine ⟨h.1, ?_⟩
        rw [hsame]
        exact h.2
      | comparing a r =>
        refine ⟨h.1, ?_⟩
        rw [hsame]
        exact h.2
      | _ => exact h
    refine ⟨⟨ht, ?_, fun k => ?_, fun q => ?_⟩, fun q result hq => ?_⟩
    · rw [htu, enter_remote, hremote, hs.here]
    · rw [htu, enter_commits, enter_head, hcommits]
      exact hhead k
    · refine hmono _ ?_
      rw [htu, enter_phase]
      split
      · exact hphase
      · rw [hphases]
        exact hs.phase q
    · rw [htu, enter_phase] at hq
      split at hq
      · exact Or.inr (hdone result hq)
      · rw [hphases] at hq
        exact Or.inl hq
  have hbehind : ∀ {i : Nat}, Descends s.commits i remote → isAncestor s.commits i remote = true :=
    fun hi => (isAncestor_iff hs.sound.wellFormed).mpr hi
  cases h with
  | rest hphase =>
    refine hgo rfl rfl rfl rfl hs.head ?_ fun result hdone => ?_
    · rcases hphase with rfl | ⟨error, rfl⟩ <;> trivial
    · rcases hphase with rfl | ⟨error, rfl⟩ <;> cases hdone
  | began => exact hgo rfl rfl rfl rfl hs.head trivial nofun
  | appended hphase hverified htree hout => cases hquiet
  | verified htree hvisit => exact hgo rfl rfl rfl rfl hs.head trivial nofun
  | @read p commit archive hphase =>
    exact hgo rfl rfl rfl rfl hs.head (hs.head (owner p)) nofun
  | absent hphase hremote =>
    rw [hs.here] at hremote
    cases hremote
  | present hphase hremote =>
    rw [hs.here] at hremote
    cases hremote
    exact hgo rfl rfl rfl rfl hs.head ⟨rfl, hs.at hphase⟩ nofun
  | @retried _ p a hphase =>
    have hlocal : Descends s.commits a.localBefore remote :=
      ((hs.sound.phase p).local_descends hphase).trans (hs.head _)
    refine hgo rfl rfl rfl rfl hs.head (phaseSettled_retry hlocal) fun result hdone => ?_
    rcases retry_cases a with hr | ⟨attempts, hr⟩ <;> rw [hr] at hdone <;> cases hdone
  | created hphase hahead hafter => exact (hs.at hphase).elim
  | @fetched p a r now hphase hremote =>
    have hheld : r = remote ∧ Descends s.commits a.localBefore remote := hs.at hphase
    exact hgo rfl rfl rfl rfl hs.head hheld nofun
  | same hphase =>
    obtain ⟨hr, -⟩ := hs.at hphase
    refine hgo rfl rfl rfl rfl hs.head trivial fun result hdone => ?_
    cases hdone
    exact hr
  | behind hphase hancestor =>
    obtain ⟨hr, -⟩ := hs.at hphase
    exact hgo rfl rfl rfl rfl hs.head hr nofun
  | ahead hphase hdiffers hancestor =>
    obtain ⟨rfl, hlocal⟩ := hs.at hphase
    rw [hbehind hlocal] at hdiffers
    cases hdiffers
  | united hphase hdiffers hlocal hremote hvisit htree =>
    obtain ⟨rfl, hdescends⟩ := hs.at hphase
    rw [hbehind hdescends] at hdiffers
    cases hdiffers
  | pushed hphase hremote hafter => exact (hs.at hphase).elim
  | contained hphase hancestor =>
    have htarget := hs.at hphase
    exact hgo rfl rfl rfl rfl hs.head htarget nofun
  | @forwarded p a r target union hphase hancestor =>
    have htarget : target = remote := hs.at hphase
    refine hgo rfl rfl rfl rfl (fun k => ?_) htarget nofun
    show Descends s.commits (Function.update s.head (owner p) target k) remote
    rw [Function.update_apply]
    split
    · rw [htarget]
      exact .refl _
    · exact hs.head k
  | @confirmed p a r target union tree archive yielded hphase htree hvisit hunion =>
    have htarget : target = remote := hs.at hphase
    refine hgo rfl rfl rfl rfl hs.head trivial fun result hdone => ?_
    cases hdone
    exact htarget
  | recorded hphase =>
    refine ⟨⟨ht, hs.here, hs.head, fun q => ?_⟩, fun q result hq => Or.inl hq⟩
    have hq := hs.phase q
    revert hq
    show PhaseSettled remote s (s.phase q) → PhaseSettled remote _ (s.phase q)
    cases s.phase q <;> exact id

theorem settled_run {remote : Nat} {p : List (Event π × State κ π)} (hs : Settled owner remote s)
    (hrun : Path (Steps R owner) s p) (hquiet : ∀ e ∈ p, appendFree e.1 = true) : Settled owner remote (final s p) := by
  refine Path.invariant (P := Settled owner remote) (fun t e u ht hstep => ?_) hs
    (hrun.and (path_iff_forall (C := fun e => appendFree e = true) |>.mpr hquiet))
  exact (settled_acts ht (acts_of_next hstep.1) hstep.2).1

/-- A client that completes a sync then has the remote. -/
theorem head_of_completes {remote : Nat} {p : List (Event π × State κ π)} {k : κ} (hs : Settled owner remote s)
    (hrun : Path (Steps R owner) s p) (hquiet : ∀ e ∈ p, appendFree e.1 = true) (hcompletes : Completes owner p k) :
    (final s p).head k = remote := by
  have hend := settled_run hs hrun hquiet
  obtain ⟨process, before, t, during, after, result, rfl, rfl, hdone⟩ := hcompletes
  obtain ⟨hbefore, hverify, hrest⟩ := path_append.mp hrun
  obtain ⟨hduring, hafter⟩ := path_append.mp hrest
  have hquiet' : ∀ e ∈ during ++ after, appendFree e.1 = true := fun e he =>
    hquiet e (List.mem_append_right _ (List.mem_cons_of_mem _ he))
  have hmid := settled_run hs hbefore fun e he => hquiet e (List.mem_append_left _ he)
  have ht := (settled_acts hmid (acts_of_next hverify) rfl).1
  have hnone : ∀ result, t.phase process ≠ .done result := by
    intro result hresult
    rw [Steps, next] at hverify
    split at hverify
    · obtain ⟨tree, -, rfl⟩ := Option.map_eq_some_iff.mp hverify
      split at hresult <;> rw [enter_phase, if_pos rfl] at hresult <;> cases hresult
    · cases hverify
  have hinv := Path.invariant
    (P := fun t => Settled owner remote t ∧ ∀ result, t.phase process = .done result → result.acceptedCommit = remote)
    (fun t e u ht hstep => ?_) ⟨ht, fun result hresult => absurd hresult (hnone result)⟩
    (hduring.and (path_iff_forall (C := fun e => appendFree e = true) |>.mpr fun e he =>
      hquiet' e (List.mem_append_left _ he)))
  · obtain ⟨-, hhas, -, -⟩ := hinv.1.sound.at hdone
    rw [hinv.2 result hdone] at hhas
    obtain ⟨hgrows, -⟩ := sound_run hinv.1.sound hafter
    rw [final_append, final_cons, final_append] at hend ⊢
    have hreached := (hhas.mono hgrows.commits).trans (hgrows.head (owner process))
    exact (hreached.antisymm hend.sound.wellFormed (hend.head _)).symm
  · obtain ⟨hu, hends⟩ := settled_acts ht.1 (acts_of_next hstep.1) hstep.2
    refine ⟨hu, fun result hresult => ?_⟩
    rcases hends process result hresult with hbefore | haccepted
    · exact ht.2 result hbefore
    · exact haccepted

/-- **Two rounds of syncs converge.** After any run, a stretch without appends in which every client
completes a sync, then, with no process under way, completes another, leaves every head at the remote. -/
theorem syncs_converge {p first second : List (Event π × State κ π)} (hstart : Started s)
    (hrun : Path (Steps R owner) s (p ++ (first ++ second))) (hquiet : ∀ e ∈ first ++ second, appendFree e.1 = true)
    (hfirst : ∀ k, Completes owner first k) (hsecond : ∀ k, Completes owner second k)
    (hresting : ∀ q, ((final s (p ++ first)).phase q).resting = true) (k : κ) :
    (final s (p ++ (first ++ second))).remote = some ((final s (p ++ (first ++ second))).head k) := by
  obtain ⟨hp, hrest⟩ := path_append.mp hrun
  obtain ⟨hround, hround'⟩ := path_append.mp hrest
  obtain ⟨-, hsound⟩ := sound_run hstart.sound hp
  obtain ⟨-, hmid⟩ := sound_run hsound hround
  have hon : ∀ k, OnRemote (final (final s p) first) ((final (final s p) first).head k) := fun k =>
    onRemote_of_completes hsound hround (fun e he => hquiet e (List.mem_append_left _ he)) (hfirst k)
  obtain ⟨remote, hremote, -⟩ := hon k
  have hsettled : Settled owner remote (final (final s p) first) := by
    refine ⟨hmid, hremote, fun k => ?_, fun q => ?_⟩
    · obtain ⟨m, hm, hhead⟩ := hon k
      rw [hremote] at hm
      cases hm
      exact hhead
    · have hq := hresting q
      rw [final_append] at hq
      exact phaseSettled_of_resting hq
  have hquiet' : ∀ e ∈ second, appendFree e.1 = true := fun e he => hquiet e (List.mem_append_right _ he)
  rw [final_append, final_append, head_of_completes hsettled hround' hquiet' (hsecond k),
    (settled_run hsettled hround' hquiet').here]

end

end Sync

namespace Sample

open Sync Transition

/-- After both rounds both heads are the union. -/
theorem parted_converges : ∃ p : List (Sync.Event Bool × State Bool Bool), (final partedState p).remote = some 3 ∧
    ∀ k, (final partedState p).head k = 3 := by
  obtain ⟨p, htrace, hfacts⟩ := parted_run
  obtain ⟨-, -, hremote, -, -, -, hquiet, hresting, hfirst, hsecond⟩ := of_decide_eq_true hfacts
  have hsplit : p = p.take 4 ++ ((p.drop 4).take 13 ++ (p.drop 4).drop 13) := by
    rw [List.take_append_drop, List.take_append_drop]
  have hround : p.take 4 ++ (p.drop 4).take 13 = p.take (4 + 13) := List.take_add.symm
  have hrun := Transition.path_trace htrace
  rw [hsplit] at hrun
  have hhead := syncs_converge partedStarted hrun (by rw [List.take_append_drop]; exact hquiet)
    (fun k => completes_of_at (hfirst k)) (fun k => completes_of_at (hsecond k)) (by rw [hround]; exact hresting)
  rw [← hsplit] at hhead
  refine ⟨p, hremote, fun k => ?_⟩
  have hk := hhead k
  rw [hremote] at hk
  exact (Option.some.inj hk).symm

end Sample

end ArchiveLedger
