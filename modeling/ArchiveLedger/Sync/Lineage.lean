import ArchiveLedger.Foundation.Text
import ArchiveLedger.Journal.FrontierText
import ArchiveLedger.Journal.Verifiers
import ArchiveLedger.Sync.Steps

/-!
# No ref goes back

Whatever the processes of all replicas do and in whatever order, the remote and every head only move to
commits that descend from where they were (`refs_only_grow`).  What a replica fetched or recorded is on
the remote from then on, and so is what a sync that succeeded accepted, with both commits that it
started from (`Sound`).
-/

namespace ArchiveLedger

namespace Sync

open CommitGraph Outcome Transition

section

variable {κ π : Type} {s t u : State κ π} {i : Nat}

/-- The commit is the remote one or the remote descends from it. -/
def OnRemote (s : State κ π) (i : Nat) : Prop := ∃ m, s.remote = some m ∧ Descends s.commits i m

/-- Where the refs of the second state stand after those of the first. -/
structure Grows (s t : State κ π) : Prop where
  commits : s.commits <+: t.commits
  remote : ∀ m, s.remote = some m → ∃ n, t.remote = some n ∧ Descends t.commits m n
  head : ∀ k, Descends t.commits (s.head k) (t.head k)

theorem Grows.refl (s : State κ π) : Grows s s := ⟨List.prefix_refl _, fun m hm => ⟨m, hm, .refl m⟩, fun _ => .refl _⟩

theorem Grows.trans (h : Grows s t) (h' : Grows t u) : Grows s u := by
  refine ⟨h.commits.trans h'.commits, fun m hm => ?_, fun k => ?_⟩
  · obtain ⟨n, hn, hmn⟩ := h.remote m hm
    obtain ⟨o, ho, hno⟩ := h'.remote n hn
    exact ⟨o, ho, (hmn.mono h'.commits).trans hno⟩
  · exact ((h.head k).mono h'.commits).trans (h'.head k)

theorem OnRemote.mono (hst : Grows s t) (h : OnRemote s i) : OnRemote t i := by
  obtain ⟨m, hm, him⟩ := h
  obtain ⟨n, hn, hmn⟩ := hst.remote m hm
  exact ⟨n, hn, (him.mono hst.commits).trans hmn⟩

theorem OnRemote.of_descends {j : Nat} (hij : Descends s.commits i j) (h : OnRemote s j) : OnRemote s i := by
  obtain ⟨m, hm, hjm⟩ := h
  exact ⟨m, hm, hij.trans hjm⟩

variable (owner : π → κ)

/-- What the commits that a process holds have to do with the refs. -/
def PhaseSound (s : State κ π) (p : π) : Phase → Prop
  | .idle | .failed _ => True
  | .appending commit | .verified commit _ => Descends s.commits commit (s.head (owner p))
  | .querying a | .creating a => Descends s.commits a.localBefore (s.head (owner p))
  | .fetching a remote | .comparing a remote =>
      Descends s.commits a.localBefore (s.head (owner p)) ∧ OnRemote s remote
  | .pushing a remote commit union =>
      Descends s.commits a.localBefore (s.head (owner p)) ∧ OnRemote s remote ∧
        Descends s.commits a.localBefore commit ∧ Descends s.commits remote commit ∧
        commit < s.commits.length ∧ (union = none → commit = a.localBefore)
  | .forwarding a remote target _ =>
      Descends s.commits a.localBefore (s.head (owner p)) ∧ OnRemote s target ∧
        Descends s.commits a.localBefore target ∧ Descends s.commits remote target
  | .confirming a remote target _ =>
      Descends s.commits a.localBefore (s.head (owner p)) ∧ OnRemote s target ∧
        Descends s.commits a.localBefore target ∧ Descends s.commits remote target ∧
        Descends s.commits target (s.head (owner p))
  | .done result =>
      OnRemote s result.acceptedCommit ∧ Descends s.commits result.acceptedCommit (s.head (owner p)) ∧
        Descends s.commits result.localCommitBefore result.acceptedCommit ∧
        ∀ r, result.remoteCommitBefore = some r → Descends s.commits r result.acceptedCommit

structure Sound (s : State κ π) : Prop where
  wellFormed : WellFormed s.commits
  remote : ∀ m, s.remote = some m → m < s.commits.length
  head : ∀ k, s.head k < s.commits.length
  fetched : ∀ k f, s.fetched k = some f → OnRemote s f
  synced : ∀ k f, s.synced k = some f → OnRemote s f
  phase : ∀ p, PhaseSound owner s p (s.phase p)

variable {owner}

theorem PhaseSound.mono {p : π} {phase : Phase} (hst : Grows s t) (h : PhaseSound owner s p phase) :
    PhaseSound owner t p phase := by
  have hhead : ∀ {i}, Descends s.commits i (s.head (owner p)) → Descends t.commits i (t.head (owner p)) :=
    fun hi => (hi.mono hst.commits).trans (hst.head _)
  cases phase with
  | idle => trivial
  | failed error => trivial
  | appending commit => exact hhead h
  | verified commit archive => exact hhead h
  | querying a => exact hhead h
  | creating a => exact hhead h
  | fetching a remote => exact ⟨hhead h.1, h.2.mono hst⟩
  | comparing a remote => exact ⟨hhead h.1, h.2.mono hst⟩
  | pushing a remote commit union =>
    obtain ⟨hlocal, hremote, hdescends, hdescends', hlt, hunion⟩ := h
    exact ⟨hhead hlocal, hremote.mono hst, hdescends.mono hst.commits, hdescends'.mono hst.commits,
      hlt.trans_le hst.commits.length_le, hunion⟩
  | forwarding a remote target union =>
    obtain ⟨hlocal, htarget, hdescends, hdescends'⟩ := h
    exact ⟨hhead hlocal, htarget.mono hst, hdescends.mono hst.commits, hdescends'.mono hst.commits⟩
  | confirming a remote target union =>
    obtain ⟨hlocal, htarget, hdescends, hdescends', hhas⟩ := h
    exact ⟨hhead hlocal, htarget.mono hst, hdescends.mono hst.commits, hdescends'.mono hst.commits, hhead hhas⟩
  | done result =>
    obtain ⟨haccepted, hhas, hlocal, hremote⟩ := h
    exact ⟨haccepted.mono hst, hhead hhas, hlocal.mono hst.commits, fun r hr => (hremote r hr).mono hst.commits⟩

/-- What a sync holds that begins another attempt. -/
theorem PhaseSound.local_descends {p : π} {phase : Phase} {a : Attempt} (ha : phase.attempt? = some a)
    (h : PhaseSound owner s p phase) : Descends s.commits a.localBefore (s.head (owner p)) := by
  cases phase with
  | idle => cases ha
  | appending commit => cases ha
  | verified commit archive => cases ha
  | done result => cases ha
  | failed error => cases ha
  | querying a => cases ha; exact h
  | creating a => cases ha; exact h
  | fetching a remote => cases ha; exact h.1
  | comparing a remote => cases ha; exact h.1
  | pushing a remote commit union => cases ha; exact h.1
  | forwarding a remote target union => cases ha; exact h.1
  | confirming a remote target union => cases ha; exact h.1

theorem phaseSound_retry {p : π} {a : Attempt} (h : Descends s.commits a.localBefore (s.head (owner p))) :
    PhaseSound owner s p a.retry := by
  rcases retry_cases a with hretry | ⟨attempts, hretry⟩
  · rw [hretry]
    trivial
  · rw [hretry]
    exact h

theorem Sound.at {p : π} {phase : Phase} (hs : Sound owner s) (hphase : s.phase p = phase) : PhaseSound owner s p phase :=
  hphase ▸ hs.phase p

theorem Sound.tree (hs : Sound owner s) (k : κ) : ∃ c, s.commits[s.head k]? = some c :=
  ⟨_, List.getElem?_eq_getElem (hs.head k)⟩

theorem Sound.onRemote_lt (hs : Sound owner s) (h : OnRemote s i) : i < s.commits.length := by
  obtain ⟨m, hm, him⟩ := h
  exact (him.le hs.wellFormed).trans_lt (hs.remote m hm)

theorem Started.sound (h : Started s) : Sound owner s := by
  obtain ⟨tree, hcommits⟩ := h.root
  refine ⟨?_, ?_, ?_, ?_, ?_, ?_⟩
  · intro b c found p mem
    rw [hcommits] at found
    cases b with
    | zero =>
      cases found
      cases mem
    | succ b => cases found
  · intro m hm
    rw [h.remote] at hm
    cases hm
  · intro k
    rw [h.head k, hcommits]
    exact Nat.one_pos
  · intro k f hf
    rw [h.fetched k] at hf
    cases hf
  · intro k f hf
    rw [h.synced k] at hf
    cases hf
  · intro p
    rw [h.idle p]
    trivial

/-- A step of one process, whose other processes stand where they stood. -/
theorem Sound.step {p : π} (hs : Sound owner s) (hst : Grows s t) (hwell : WellFormed t.commits)
    (hremote : ∀ m, t.remote = some m → m < t.commits.length) (hhead : ∀ k, t.head k < t.commits.length)
    (hfetched : ∀ k f, t.fetched k = some f → s.fetched k = some f ∨ OnRemote t f)
    (hsynced : ∀ k f, t.synced k = some f → s.synced k = some f ∨ OnRemote t f)
    (hothers : ∀ q, q ≠ p → t.phase q = s.phase q) (hphase : PhaseSound owner t p (t.phase p)) : Sound owner t where
  wellFormed := hwell
  remote := hremote
  head := hhead
  fetched k f hf := (hfetched k f hf).elim (fun h => (hs.fetched k f h).mono hst) id
  synced k f hf := (hsynced k f hf).elim (fun h => (hs.synced k f h).mono hst) id
  phase q := by
    by_cases hq : q = p
    · rw [hq]
      exact hphase
    · rw [hothers q hq]
      exact (hs.phase q).mono hst

end

section

variable {κ π : Type} [DecidableEq π] {R : StoreRuntime} {owner : π → κ} {s t : State κ π} {e : Event π}

/-- A step that moves no ref. -/
theorem Sound.enter {p : π} {phase : Phase} (hs : Sound owner s) (hphase : PhaseSound owner s p phase) :
    Sound owner (s.enter p phase) := by
  refine hs.step (p := p) ⟨List.prefix_refl _, fun m hm => ⟨m, hm, .refl m⟩, fun _ => .refl _⟩ hs.wellFormed hs.remote
    hs.head (fun k f hf => Or.inl hf) (fun k f hf => Or.inl hf) (fun q hq => ?_) ?_
  · rw [enter_phase, if_neg hq]
  · rw [enter_phase, if_pos rfl]
    exact hphase.mono ⟨List.prefix_refl _, fun m hm => ⟨m, hm, .refl m⟩, fun _ => .refl _⟩

theorem Grows.enter (p : π) (phase : Phase) : Grows s (s.enter p phase) :=
  ⟨List.prefix_refl _, fun m hm => ⟨m, hm, .refl m⟩, fun _ => .refl _⟩

/-- A push that the remote took. -/
theorem sound_remote {p : π} {commit : Nat} {phase : Phase} (hs : Sound owner s) (hlt : commit < s.commits.length)
    (hahead : ∀ m, s.remote = some m → Descends s.commits m commit)
    (hphase : ∀ t : State κ π, Grows s t → t.remote = some commit → PhaseSound owner t p phase) :
    Grows s ({ s with remote := some commit }.enter p phase) ∧
      Sound owner ({ s with remote := some commit }.enter p phase) := by
  have hst : Grows s ({ s with remote := some commit }.enter p phase) :=
    ⟨List.prefix_refl _, fun m hm => ⟨commit, rfl, hahead m hm⟩, fun _ => .refl _⟩
  refine ⟨hst, hs.step (p := p) hst hs.wellFormed (fun m hm => ?_) hs.head (fun k f hf => Or.inl hf)
    (fun k f hf => Or.inl hf) (fun q hq => ?_) ?_⟩
  · cases hm
    exact hlt
  · rw [enter_phase, if_neg hq]
  · rw [enter_phase, if_pos rfl]
    exact hphase _ hst rfl

variable [DecidableEq κ]

/-- One step keeps the refs sound and moves none back. -/
theorem sound_acts (hs : Sound owner s) (h : Acts R owner s e t) : Grows s t ∧ Sound owner t := by
  cases h with
  | @rest _ p phase hphase =>
    refine ⟨.enter p phase, hs.enter ?_⟩
    rcases hphase with rfl | ⟨error, rfl⟩ <;> trivial
  | began => exact ⟨.enter _ _, hs.enter (Descends.refl _)⟩
  | @appended p a commit verified tree out hphase hverified htree hout =>
    have hparent : Descends (s.commits ++ [⟨[s.head (owner p)], out⟩]) (s.head (owner p)) s.commits.length :=
      descends_concat (List.mem_singleton.mpr rfl)
    have hheads : ∀ k, Descends (s.commits ++ [⟨[s.head (owner p)], out⟩]) (s.head k)
        (Function.update s.head (owner p) s.commits.length k) := by
      intro k
      rw [Function.update_apply]
      split
      · rename_i hk
        rw [hk]
        exact hparent
      · exact .refl _
    have hst : Grows s { s.enter p .idle with
        commits := s.commits ++ [⟨[s.head (owner p)], out⟩]
        head := Function.update s.head (owner p) s.commits.length } :=
      ⟨List.prefix_append .., fun m hm => ⟨m, hm, .refl m⟩, hheads⟩
    refine ⟨hst, hs.step (p := p) hst ?_ (fun m hm => ?_) (fun k => ?_) (fun k f hf => Or.inl hf)
      (fun k f hf => Or.inl hf) (fun q hq => ?_) ?_⟩
    · refine wellFormed_concat hs.wellFormed fun i hi => ?_
      rw [List.mem_singleton.mp hi]
      exact hs.head _
    · have := hs.remote m hm
      simp only [List.length_append, List.length_singleton]
      omega
    · have := hs.head k
      show Function.update s.head (owner p) s.commits.length k < _
      rw [Function.update_apply, List.length_append, List.length_singleton]
      split <;> omega
    · exact (enter_phase p q _).trans (if_neg hq)
    · have hself : (s.enter p .idle).phase p = .idle := (enter_phase p p _).trans (if_pos rfl)
      show PhaseSound owner _ p ((s.enter p .idle).phase p)
      rw [hself]
      trivial
  | verified htree hvisit => exact ⟨.enter _ _, hs.enter (Descends.refl _)⟩
  | read hphase => exact ⟨.enter _ _, hs.enter (Descends.refl _)⟩
  | @absent p a hphase hremote =>
    have hp := hs.at hphase
    exact ⟨.enter _ _, hs.enter hp⟩
  | @present p a remote hphase hremote =>
    have hp := hs.at hphase
    exact ⟨.enter _ _, hs.enter ⟨hp, remote, hremote, .refl _⟩⟩
  | @retried _ p a hphase => exact ⟨.enter _ _, hs.enter (phaseSound_retry ((hs.phase p).local_descends hphase))⟩
  | @created p reply a phase hphase hahead hafter =>
    have hp : Descends s.commits a.localBefore (s.head (owner p)) := hs.at hphase
    have hlt : a.localBefore < s.commits.length := (hp.le hs.wellFormed).trans_lt (hs.head _)
    refine sound_remote hs hlt (fun m hm => (isAncestor_iff hs.wellFormed).mp (hahead m hm)) fun t hst hremote => ?_
    have hlocal : Descends t.commits a.localBefore (t.head (owner p)) := (hp.mono hst.commits).trans (hst.head _)
    rcases hafter with rfl | rfl
    · exact ⟨⟨_, hremote, .refl _⟩, hlocal, .refl _, fun r hr => by cases hr⟩
    · exact phaseSound_retry hlocal
  | @fetched p a remote now hphase hremote =>
    have hp := hs.at hphase
    have hst : Grows s ({ s with fetched := Function.update s.fetched (owner p) (some now) }.enter p (.comparing a remote)) :=
      ⟨List.prefix_refl _, fun m hm => ⟨m, hm, .refl m⟩, fun _ => .refl _⟩
    refine ⟨hst, hs.step (p := p) hst hs.wellFormed hs.remote hs.head (fun k f hf => ?_) (fun k f hf => Or.inl hf)
      (fun q hq => ?_) ?_⟩
    · change Function.update s.fetched (owner p) (some now) k = some f at hf
      rw [Function.update_apply] at hf
      split at hf
      · cases hf
        exact Or.inr ⟨now, hremote, .refl _⟩
      · exact Or.inl hf
    · rw [enter_phase, if_neg hq]
    · rw [enter_phase, if_pos rfl]
      exact PhaseSound.mono hst hp
  | @same p permits again a hphase =>
    have hp := hs.at hphase
    refine ⟨.enter _ _, hs.enter ⟨hp.2, hp.1, .refl _, fun r hr => ?_⟩⟩
    cases hr
    exact .refl _
  | @behind p permits again a remote hphase hancestor =>
    have hp := hs.at hphase
    exact ⟨.enter _ _, hs.enter ⟨hp.1, hp.2, (isAncestor_iff hs.wellFormed).mp hancestor, .refl _⟩⟩
  | @ahead p permits again a remote hphase hdiffers hancestor =>
    have hp := hs.at hphase
    exact ⟨.enter _ _, hs.enter ⟨hp.1, hp.2, .refl _, (isAncestor_iff hs.wellFormed).mp hancestor,
      (hp.1.le hs.wellFormed).trans_lt (hs.head _), fun _ => rfl⟩⟩
  | @united p permits again a remote localTree remoteTree tree remoteVerified unionVerified yielded hphase hdiffers hlocal hremote
      hvisit htree =>
    have hp : Descends s.commits a.localBefore (s.head (owner p)) ∧ OnRemote s remote := hs.at hphase
    have hlocalLt : a.localBefore < s.commits.length := (hp.1.le hs.wellFormed).trans_lt (hs.head _)
    rcases commitTree_cases s.commits ⟨[a.localBefore, remote], tree⟩ again with hmade | ⟨made, hmade, hfound⟩
    · rw [hmade]
      have hst : Grows s ({ s with commits := s.commits ++ [(⟨[a.localBefore, remote], tree⟩ : Commit EventTree)] }.enter p
          (.pushing a remote s.commits.length (some unionVerified.acceptedFrontierHash))) :=
        ⟨List.prefix_append .., fun m hm => ⟨m, hm, .refl m⟩, fun _ => .refl _⟩
      refine ⟨hst, hs.step (p := p) hst ?_ (fun m hm => ?_) (fun k => ?_) (fun k f hf => Or.inl hf)
        (fun k f hf => Or.inl hf) (fun q hq => ?_) ?_⟩
      · refine wellFormed_concat hs.wellFormed fun i hi => ?_
        rcases List.mem_pair.mp hi with rfl | rfl
        · exact hlocalLt
        · exact hs.onRemote_lt hp.2
      · have := hs.remote m hm
        simp only [enter_commits, List.length_append, List.length_singleton]
        omega
      · have := hs.head k
        simp only [enter_commits, enter_head, List.length_append, List.length_singleton]
        omega
      · rw [enter_phase, if_neg hq]
      · rw [enter_phase, if_pos rfl]
        obtain ⟨hlocalHead, honRemote⟩ := (show PhaseSound owner s p (.comparing a remote) from hp).mono hst
        refine ⟨hlocalHead, honRemote, descends_concat (by simp), descends_concat (by simp), by simp, nofun⟩
    · rw [hmade]
      refine ⟨.enter _ _, hs.enter ⟨hp.1, hp.2, .of_parent hfound (by simp), .of_parent hfound (by simp),
        (List.getElem?_eq_some_iff.mp hfound).1, nofun⟩⟩
  | @pushed p reply a remote commit union phase hphase hremote hafter =>
    obtain ⟨hlocal, honRemote, hdescends, hdescends', hlt, hunion⟩ := hs.at hphase
    have hahead : ∀ m, s.remote = some m → Descends s.commits m commit := by
      intro m hm
      rcases hremote with hsame | hsame
      · rw [hm] at hsame
        cases hsame
        exact hdescends'
      · rw [hm] at hsame
        cases hsame
        exact .refl _
    refine sound_remote hs hlt hahead fun t hst hnow => ?_
    have hlocal' : Descends t.commits a.localBefore (t.head (owner p)) := (hlocal.mono hst.commits).trans (hst.head _)
    have hon : OnRemote t commit := ⟨commit, hnow, .refl _⟩
    rcases hafter with rfl | ⟨hash, rfl, rfl⟩ | ⟨rfl, rfl⟩
    · exact phaseSound_retry hlocal'
    · exact ⟨hlocal', hon, hdescends.mono hst.commits, hdescends'.mono hst.commits⟩
    · obtain rfl := hunion rfl
      refine ⟨hon, hlocal', .refl _, fun r hr => ?_⟩
      cases hr
      exact hdescends'.mono hst.commits
  | @contained p a remote target union hphase hancestor =>
    obtain ⟨hlocal, hon, hdescends, hdescends'⟩ := hs.at hphase
    exact ⟨.enter _ _, hs.enter ⟨hlocal, hon, hdescends, hdescends', (isAncestor_iff hs.wellFormed).mp hancestor⟩⟩
  | @forwarded p a remote target union hphase hancestor =>
    obtain ⟨hlocal, hon, hdescends, hdescends'⟩ := hs.at hphase
    have hmoves : Descends s.commits (s.head (owner p)) target := (isAncestor_iff hs.wellFormed).mp hancestor
    have hst : Grows s ({ s with head := Function.update s.head (owner p) target }.enter p
        (.confirming a remote target union)) := by
      refine ⟨List.prefix_refl _, fun m hm => ⟨m, hm, .refl m⟩, fun k => ?_⟩
      show Descends s.commits (s.head k) (Function.update s.head (owner p) target k)
      rw [Function.update_apply]
      split
      · rename_i hk
        rw [hk]
        exact hmoves
      · exact .refl _
    refine ⟨hst, hs.step (p := p) hst hs.wellFormed hs.remote (fun k => ?_) (fun k f hf => Or.inl hf)
      (fun k f hf => Or.inl hf) (fun q hq => ?_) ?_⟩
    · show Function.update s.head (owner p) target k < s.commits.length
      rw [Function.update_apply]
      split
      · exact hs.onRemote_lt hon
      · exact hs.head k
    · rw [enter_phase, if_neg hq]
    · rw [enter_phase, if_pos rfl]
      obtain ⟨hlocal', hon', hdescends, hdescends'⟩ :=
        (hs.at hphase).mono hst
      refine ⟨hlocal', hon', hdescends, hdescends', ?_⟩
      show Descends s.commits target (Function.update s.head (owner p) target (owner p))
      rw [Function.update_self]
      exact .refl _
  | @confirmed p a remote target union tree archive yielded hphase htree hvisit hunion =>
    obtain ⟨hlocal, hon, hdescends, hdescends', hhas⟩ := hs.at hphase
    refine ⟨.enter _ _, hs.enter ⟨hon, hhas, hdescends, fun r hr => ?_⟩⟩
    cases hr
    exact hdescends'
  | @recorded p result hphase =>
    have hp := hs.at hphase
    have hst : Grows s { s with synced := Function.update s.synced (owner p) (some result.acceptedCommit) } :=
      ⟨List.prefix_refl _, fun m hm => ⟨m, hm, .refl m⟩, fun _ => .refl _⟩
    refine ⟨hst, hs.step (p := p) hst hs.wellFormed hs.remote hs.head (fun k f hf => Or.inl hf) (fun k f hf => ?_)
      (fun q hq => rfl) ((hs.phase p).mono hst)⟩
    change Function.update s.synced (owner p) (some result.acceptedCommit) k = some f at hf
    rw [Function.update_apply] at hf
    split at hf
    · cases hf
      exact Or.inr (hp.1.mono hst)
    · exact Or.inl hf

/-- A run from refs that are sound moves none of them back. -/
theorem sound_run {p : List (Event π × State κ π)} (hs : Sound owner s) (h : Path (Steps R owner) s p) :
    Grows s (final s p) ∧ Sound owner (final s p) := by
  refine Path.invariant (P := fun t => Grows s t ∧ Sound owner t) (fun t e u ht hstep => ?_) ⟨.refl s, hs⟩ h
  obtain ⟨hgrows, hsound⟩ := sound_acts ht.2 (acts_of_next hstep)
  exact ⟨ht.1.trans hgrows, hsound⟩

/-- **The remote and the heads only move ahead**, in every run. -/
theorem refs_only_grow {p q : List (Event π × State κ π)} (hstart : Started s) (hrun : Path (Steps R owner) s (p ++ q)) :
    (∀ m, (final s p).remote = some m → ∃ n, (final s (p ++ q)).remote = some n ∧
        Descends (final s (p ++ q)).commits m n) ∧
      ∀ k, Descends (final s (p ++ q)).commits ((final s p).head k) ((final s (p ++ q)).head k) := by
  obtain ⟨hp, hq⟩ := path_append.mp hrun
  obtain ⟨-, hsound⟩ := sound_run hstart.sound hp
  obtain ⟨hgrows, -⟩ := sound_run hsound hq
  rw [final_append]
  exact ⟨hgrows.remote, hgrows.head⟩

/-- **What is not counted as unsynchronized is on the remote**, however long ago it was fetched or
recorded and whatever others have pushed since. -/
theorem protected_on_remote {p : List (Event π × State κ π)} (hstart : Started s) (hrun : Path (Steps R owner) s p)
    (k : κ) :
    (∀ i, Descends (final s p).commits i ((final s p).head k) → i ∉ unsyncedCommits (final s p) k →
        OnRemote (final s p) i) ∧
      (unsyncedCommits (final s p) k = [] → OnRemote (final s p) ((final s p).head k)) := by
  obtain ⟨-, hsound⟩ := sound_run hstart.sound hrun
  have hcounted : ∀ i, Descends (final s p).commits i ((final s p).head k) → i ∉ unsyncedCommits (final s p) k →
      OnRemote (final s p) i := by
    intro i hi hcount
    have hlt : i < (final s p).commits.length := (hi.le hsound.wellFormed).trans_lt (hsound.head k)
    by_cases hsynced : (final s p).synced k |>.any (isAncestor (final s p).commits i)
    · obtain ⟨f, hf, hancestor⟩ := Option.any_eq_true _ _ |>.mp hsynced
      exact (hsound.synced k f hf).of_descends ((isAncestor_iff hsound.wellFormed).mp hancestor)
    · by_cases hfetched : (final s p).fetched k |>.any (isAncestor (final s p).commits i)
      · obtain ⟨f, hf, hancestor⟩ := Option.any_eq_true _ _ |>.mp hfetched
        exact (hsound.fetched k f hf).of_descends ((isAncestor_iff hsound.wellFormed).mp hancestor)
      · refine absurd (List.mem_filter.mpr ⟨List.mem_range.mpr hlt, ?_⟩) hcount
        rw [decide_eq_true_eq]
        exact ⟨(isAncestor_iff hsound.wellFormed).mpr hi, hsynced, hfetched⟩
  refine ⟨hcounted, fun hnone => hcounted _ (.refl _) ?_⟩
  rw [hnone]
  exact List.not_mem_nil

end

end Sync

namespace Sample

open Sync Transition CommitGraph

/-! ### A small archive with two replicas

An archive of two batches of its first client, of which the second enrolls the other client.  Then both
clients append one batch each, the first creates the remote and the second unites with it.
-/

/-- The batches before the replicas part, then one of each client. -/
def parted : Archive where
  batches :=
    [⟨1, 0, none, 0, [initialized]⟩, ⟨1, 1, some 0, 1, [enrolled 2]⟩, ⟨1, 2, some 1, 2, [observed]⟩,
      ⟨2, 0, none, 2, [observed]⟩]
  frontiers := [⟨[], []⟩, ⟨[0], [0]⟩, ⟨[1], [1]⟩, ⟨[2], [2]⟩, ⟨[1, 3], [2]⟩, ⟨[2, 3], [3, 4]⟩]

/-- The manifests of appended segments name the files where an append puts them. -/
def appendedManifest (n : Nat) (b : Batch) : SignedSegmentManifest :=
  let m := manifest n b
  if 2 ≤ n then { m with body := { m.body with segmentPath := segmentRelativePath m.body.originId m.body.firstSeq } } else m

def partedDocuments : Documents :=
  { documents parted.batches parted.frontiers with
    manifests := parted.batches.zipIdx.map fun b => appendedManifest b.2 b.1 }

/-- The frontiers of the archive are numbered; others have their own text. -/
def partedFrontierText (f : CausalFrontier) : Bytes :=
  if f ∈ partedDocuments.frontiers then document 1 (partedDocuments.frontiers.idxOf f) else frontierText f

def partedRuntime : StoreRuntime := { partedDocuments.runtime with writeFrontier := partedFrontierText }

/-- The archive before the replicas part. -/
def partedRoot : EventTree := tree (parted.batches.take 2) (parted.frontiers.take 3)

def partedAppend (n first : Nat) (clientNumber : Nat) : AppendedSegment :=
  ⟨client clientNumber, 1, segment [first, first + 1, first + 2], document 2 n, recordId (first + 2)⟩

/-- Replicas and processes are numbered by the clients, `false` being the first. -/
def partedState : State Bool Bool where
  commits := [⟨[], partedRoot⟩]
  remote := none
  head _ := 0
  fetched _ := none
  synced _ := none
  phase _ := .idle

def partedAppends : List (Sync.Event Bool) :=
  [.beginAppend false, .commitAppend false (partedAppend 2 6 1), .beginAppend true,
    .commitAppend true (partedAppend 3 9 2)]

/-- The first client creates the remote; the second unites with it, forwards its head and records it. -/
def partedRound : List (Sync.Event Bool) :=
  [.verifyLocal false, .readHead false, .query false, .create false .answered,
    .verifyLocal true, .readHead true, .query true, .fetch true, .compare true (.ok ()) false,
    .push true .answered, .forward true, .confirm true, .record true]

/-- The first client forwards to the union; the second has it. -/
def partedSecondRound : List (Sync.Event Bool) :=
  [.verifyLocal false, .readHead false, .query false, .fetch false, .compare false (.ok ()) false, .forward false,
    .confirm false, .verifyLocal true, .readHead true, .query true, .fetch true, .compare true (.ok ()) false]

/-! ### Its runtime -/

theorem document_injective {m n : Nat} (hm : m < 224) (hn : n < 224) (h : document 1 m = document 1 n) : m = n := by
  have hbyte : UInt8.ofNat (32 + m) = UInt8.ofNat (32 + n) := by
    unfold document at h
    exact (List.cons.inj (List.cons.inj h).2).1
  have hval := congrArg UInt8.toNat hbyte
  rw [UInt8.toNat_ofNat', UInt8.toNat_ofNat'] at hval
  omega

theorem three_le_frontierText (f : CausalFrontier) : 3 ≤ (frontierText f).length := by
  have hlong : 3 ≤ f.json.length := by
    have hstart : ("\x7b\"v\":".toList).length = 5 := by decide
    unfold CausalFrontier.json
    simp only [List.length_append, hstart]
    omega
  rw [frontierText, length_utf8]
  exact hlong.trans (Text.length_le_utf8ByteSize f.json)

/-- No two frontiers have one text. -/
theorem partedFrontierText_injective : Function.Injective partedFrontierText := by
  have hlt : ∀ f ∈ partedDocuments.frontiers, partedDocuments.frontiers.idxOf f < 224 := by
    intro f hf
    have hlen : partedDocuments.frontiers.length = 6 := rfl
    have := List.idxOf_lt_length_of_mem hf
    omega
  have hdiffers : ∀ n f, document 1 n ≠ frontierText f := by
    intro n f h
    have hlen := three_le_frontierText f
    rw [← h] at hlen
    exact absurd (show 3 ≤ 2 from hlen) (by decide)
  intro f g h
  unfold partedFrontierText at h
  split at h
  · rename_i hf
    split at h
    · rename_i hg
      exact (List.idxOf_inj hf).mp (document_injective (hlt f hf) (hlt g hg) h)
    · exact absurd h (hdiffers _ _)
  · split at h
    · exact absurd h.symm (hdiffers _ _)
    · exact frontierText_injective h

/-! ### Its run -/

def resultOf : Phase → Option V2SyncResult
  | .done result => some result
  | _ => none

theorem done_of_result {phase : Phase} {result : V2SyncResult} (h : resultOf phase = some result) : phase = .done result := by
  unfold resultOf at h
  split at h
  · cases h
    rfl
  · cases h

/-- The second client united its commit with that of the first. -/
def isUnion (result : V2SyncResult) : Bool :=
  result.merged && result.localCommitBefore = 2 && result.remoteCommitBefore = some 1 && result.acceptedCommit = 3

/-- The process verifies at the one place and is done so many steps after it. -/
def completesAt (p : List (Sync.Event Bool × State Bool Bool)) (process : Bool) (place steps : Nat) : Bool :=
  match p.drop place with
  | (.verifyLocal q, t) :: rest => q = process && (resultOf ((final t (rest.take steps)).phase process)).isSome
  | _ => false

theorem completes_of_at {p : List (Sync.Event Bool × State Bool Bool)} {process : Bool} {place steps : Nat}
    (h : completesAt p process place steps = true) : Completes id p process := by
  unfold completesAt at h
  split at h
  · rename_i q t rest hdrop
    obtain ⟨hq, hdone⟩ := Bool.and_eq_true_iff.mp h
    obtain rfl := of_decide_eq_true hq
    obtain ⟨result, hresult⟩ := Option.isSome_iff_exists.mp hdone
    refine ⟨q, p.take place, t, rest.take steps, rest.drop steps, result, rfl, ?_, done_of_result hresult⟩
    rw [List.take_append_drop, ← hdrop, List.take_append_drop]
  · cases h

theorem partedStarted : Started partedState :=
  ⟨⟨partedRoot, rfl⟩, rfl, fun _ => rfl, fun _ => rfl, fun _ => rfl, fun _ => rfl⟩

/-- The run of both rounds: where its first round ends, and what it ends with. -/
theorem parted_run : ∃ p, Transition.trace (Sync.next partedRuntime id) partedState (partedAppends ++ (partedRound ++ partedSecondRound)) = some p ∧
    decide (Path (fun s e _ => undisturbed id s e = true) partedState p ∧
      (final partedState (p.take 8)).remote = some 1 ∧ (final partedState p).remote = some 3 ∧
      (final partedState (p.take 17)).head true = 3 ∧ unsyncedCommits (final partedState (p.take 17)) true = [] ∧
      (resultOf ((final partedState (p.take 17)).phase true)).any isUnion = true ∧
      (∀ e ∈ p.drop 4, appendFree e.1 = true) ∧
      (∀ q, ((final partedState (p.take 17)).phase q).resting = true) ∧
      (∀ k, completesAt ((p.drop 4).take 13) k (if k then 4 else 0) (if k then 7 else 3) = true) ∧
      ∀ k, completesAt ((p.drop 4).drop 13) k (if k then 7 else 0) (if k then 4 else 6) = true) = true := by
  have h : (Transition.trace (Sync.next partedRuntime id) partedState (partedAppends ++ (partedRound ++ partedSecondRound))).any (fun p =>
      decide (Path (fun s e _ => undisturbed id s e = true) partedState p ∧
        (final partedState (p.take 8)).remote = some 1 ∧ (final partedState p).remote = some 3 ∧
        (final partedState (p.take 17)).head true = 3 ∧ unsyncedCommits (final partedState (p.take 17)) true = [] ∧
        (resultOf ((final partedState (p.take 17)).phase true)).any isUnion = true ∧
        (∀ e ∈ p.drop 4, appendFree e.1 = true) ∧
        (∀ q, ((final partedState (p.take 17)).phase q).resting = true) ∧
        (∀ k, completesAt ((p.drop 4).take 13) k (if k then 4 else 0) (if k then 7 else 3) = true) ∧
        ∀ k, completesAt ((p.drop 4).drop 13) k (if k then 7 else 0) (if k then 4 else 6) = true)) = true := by
    decide +kernel
  exact (Option.any_eq_true _ _).mp h

/-! ### Its refs -/

/-- The remote goes from the head of the first client to the union. -/
theorem parted_refs_grow : ∃ p q : List (Sync.Event Bool × State Bool Bool), (final partedState p).remote = some 1 ∧
    (final partedState (p ++ q)).remote = some 3 ∧ Descends (final partedState (p ++ q)).commits 1 3 := by
  obtain ⟨p, htrace, hfacts⟩ := parted_run
  obtain ⟨-, hremote, hremote', -⟩ := of_decide_eq_true hfacts
  rw [← List.take_append_drop 8 p] at hremote'
  have hrun : Path (Steps partedRuntime id) partedState (p.take 8 ++ p.drop 8) := by
    rw [List.take_append_drop]
    exact Transition.path_trace htrace
  obtain ⟨hgrows, -⟩ := refs_only_grow partedStarted hrun
  obtain ⟨n, hn, hdescends⟩ := hgrows 1 hremote
  rw [hremote'] at hn
  cases hn
  exact ⟨p.take 8, p.drop 8, hremote, hremote', hdescends⟩

/-- After its union the second client counts no commit, and the remote has its head. -/
theorem parted_protected : ∃ p : List (Sync.Event Bool × State Bool Bool),
    unsyncedCommits (final partedState p) true = [] ∧ OnRemote (final partedState p) 3 := by
  obtain ⟨p, htrace, hfacts⟩ := parted_run
  obtain ⟨-, -, -, hhead, hnone, -⟩ := of_decide_eq_true hfacts
  have hrun : Path (Steps partedRuntime id) partedState (p.take 17 ++ p.drop 17) := by
    rw [List.take_append_drop]
    exact Transition.path_trace htrace
  have hon := (protected_on_remote partedStarted (path_append.mp hrun).1 true).2 hnone
  rw [hhead] at hon
  exact ⟨p.take 17, hnone, hon⟩

end Sample

end ArchiveLedger
