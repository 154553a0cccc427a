import ArchiveLedger.Sync.Lineage

/-!
# Nothing is lost

Each commit is made of the trees of its parents: an append of the head it adds to, a union of both heads
that it unites.  While no append or fast-forward of the same replica falls between what a process
verified and the head that it then reads (`undisturbed`), the tree of a commit follows those of its
parents (`Faithful`), and with them those of all commits it descends from.  So the trees that the
remote and the heads name only grow (`nothing_lost`), and what a sync accepted has the files and
the records of both sides (`synced_has_both`).

A sync takes no append lock.  An append that is committed between `verify_compact` and `rev-parse HEAD`
would be a parent of the union without being counted by its frontier.
-/

namespace ArchiveLedger

namespace Sync

open CommitGraph Outcome Transition

section

variable {κ π : Type} {s t : State κ π} {i : Nat}

/-- The tree of a commit is followed by that of another, of a later state. -/
def Kept (R : StoreRuntime) (s : State κ π) (i : Nat) (t : State κ π) (j : Nat) : Prop :=
  ∃ tree out, s.tree? i = some tree ∧ t.tree? j = some out ∧ Follows R tree out

/-- The frontier is the one that the commit accepts. -/
def AcceptsAt (R : StoreRuntime) (s : State κ π) (i : Nat) (f : CausalFrontier) : Prop :=
  ∃ tree hash path, s.tree? i = some tree ∧ Accepts R tree f hash path

theorem tree?_of_isPrefix {tree : EventTree} (hst : s.commits <+: t.commits) (h : s.tree? i = some tree) :
    t.tree? i = some tree := by
  obtain ⟨c, hc, rfl⟩ := tree?_eq.mp h
  exact tree?_eq.mpr ⟨c, getElem?_of_isPrefix hst hc, rfl⟩

variable {R : StoreRuntime} {owner : π → κ}

theorem AcceptsAt.mono {f : CausalFrontier} (hst : s.commits <+: t.commits) (h : AcceptsAt R s i f) : AcceptsAt R t i f := by
  obtain ⟨tree, hash, path, htree, haccepts⟩ := h
  exact ⟨tree, hash, path, tree?_of_isPrefix hst htree, haccepts⟩

variable (R owner)

structure Faithful (s : State κ π) : Prop where
  sound : Sound owner s
  inherits : Inherits (Follows R) s.commits
  verified : ∀ p commit archive, s.phase p = .verified commit archive → AcceptsAt R s commit archive.acceptedFrontier
  attempt : ∀ p a, (s.phase p).attempt? = some a → AcceptsAt R s a.localBefore a.localVerified.acceptedFrontier

variable {R owner}

theorem Started.faithful (h : Started s) : Faithful R owner s := by
  obtain ⟨tree, hcommits⟩ := h.root
  refine ⟨h.sound, ?_, ?_, ?_⟩
  · intro b c found p mem
    rw [hcommits] at found
    cases b with
    | zero =>
      cases found
      cases mem
    | succ b => cases found
  · intro p commit archive hphase
    rw [h.idle p] at hphase
    cases hphase
  · intro p a ha
    rw [h.idle p] at ha
    cases ha

theorem Faithful.kept {j : Nat} (hs : Faithful R owner s) (hij : Descends s.commits i j) (hj : j < s.commits.length) :
    Kept R s i s j := by
  have hi : i < s.commits.length := (hij.le hs.sound.wellFormed).trans_lt hj
  have hfound : s.commits[i]? = some s.commits[i] := List.getElem?_eq_getElem hi
  have hfound' : s.commits[j]? = some s.commits[j] := List.getElem?_eq_getElem hj
  refine ⟨_, _, tree?_eq.mpr ⟨_, hfound, rfl⟩, tree?_eq.mpr ⟨_, hfound', rfl⟩, ?_⟩
  exact hij.keeps Follows.refl (fun _ _ _ => Follows.trans) hs.sound.wellFormed hs.inherits hfound hfound'

/-- What an earlier commit has, every commit that descends from it has in a later state. -/
theorem Faithful.kept_later {j : Nat} (ht : Faithful R owner t) (hst : s.commits <+: t.commits) (hi : i < s.commits.length)
    (hij : Descends t.commits i j) (hj : j < t.commits.length) : Kept R s i t j := by
  obtain ⟨tree, out, htree, hout, hfollows⟩ := ht.kept hij hj
  have hfound : s.tree? i = some s.commits[i].content := tree?_eq.mpr ⟨_, List.getElem?_eq_getElem hi, rfl⟩
  have hsame := tree?_of_isPrefix hst hfound
  rw [htree] at hsame
  cases hsame
  exact ⟨_, out, hfound, hout, hfollows⟩

/-- A step of one process that adds at most one commit. -/
theorem Faithful.step {p : π} (hs : Faithful R owner s) (hst : Grows s t) (ht : Sound owner t)
    (hinherits : Inherits (Follows R) t.commits) (hothers : ∀ q, q ≠ p → t.phase q = s.phase q)
    (hverified : ∀ commit archive, t.phase p = .verified commit archive → AcceptsAt R t commit archive.acceptedFrontier)
    (hattempt : ∀ a, (t.phase p).attempt? = some a → AcceptsAt R t a.localBefore a.localVerified.acceptedFrontier) :
    Faithful R owner t where
  sound := ht
  inherits := hinherits
  verified q commit archive hphase := by
    by_cases hq : q = p
    · subst hq
      exact hverified commit archive hphase
    · rw [hothers q hq] at hphase
      exact (hs.verified q commit archive hphase).mono hst.commits
  attempt q a ha := by
    by_cases hq : q = p
    · subst hq
      exact hattempt a ha
    · rw [hothers q hq] at ha
      exact (hs.attempt q a ha).mono hst.commits

end

section

variable {κ π : Type} [DecidableEq π] {R : StoreRuntime} {owner : π → κ} {s t u : State κ π} {e : Event π} {p : π}
  {phase : Phase}

theorem enter_self : (u.enter p phase).phase p = phase := (enter_phase p p phase).trans (if_pos rfl)

theorem enter_other {q : π} (hq : q ≠ p) : (u.enter p phase).phase q = u.phase q := (enter_phase p q phase).trans (if_neg hq)

/-- A step that makes no commit, and after which its process is in the sync it was in or in none. -/
theorem Faithful.go_on (hs : Faithful R owner s) (hst : Grows s (u.enter p phase)) (ht : Sound owner (u.enter p phase))
    (hcommits : u.commits = s.commits) (hphases : u.phase = s.phase)
    (hverified : ∀ commit archive, phase ≠ .verified commit archive)
    (hattempt : ∀ a, phase.attempt? = some a → ∃ b, (s.phase p).attempt? = some b ∧
      b.localBefore = a.localBefore ∧ b.localVerified = a.localVerified) : Faithful R owner (u.enter p phase) := by
  refine hs.step (p := p) hst ht ?_ (fun q hq => ?_) (fun commit archive hphase => ?_) (fun a ha => ?_)
  · show Inherits (Follows R) u.commits
    rw [hcommits]
    exact hs.inherits
  · rw [enter_other hq, hphases]
  · rw [enter_self] at hphase
    exact absurd hphase (hverified commit archive)
  · rw [enter_self] at ha
    obtain ⟨b, hb, hbefore, hlocal⟩ := hattempt a ha
    rw [← hbefore, ← hlocal]
    exact (hs.attempt p b hb).mono hst.commits

/-- The process goes on with its sync. -/
theorem Faithful.same_attempt {a : Attempt} (hs : Faithful R owner s) (hst : Grows s (u.enter p phase))
    (ht : Sound owner (u.enter p phase)) (hcommits : u.commits = s.commits) (hphases : u.phase = s.phase)
    (hbefore : (s.phase p).attempt? = some a) (hafter : phase.attempt? = some a) : Faithful R owner (u.enter p phase) := by
  refine hs.go_on hst ht hcommits hphases (fun commit archive hphase => ?_) (fun b hb => ?_)
  · rw [hphase] at hafter
    cases hafter
  · rw [hafter] at hb
    cases hb
    exact ⟨a, hbefore, rfl, rfl⟩

/-- The process is in no sync any more. -/
theorem Faithful.no_attempt (hs : Faithful R owner s) (hst : Grows s (u.enter p phase)) (ht : Sound owner (u.enter p phase))
    (hcommits : u.commits = s.commits) (hphases : u.phase = s.phase)
    (hverified : ∀ commit archive, phase ≠ .verified commit archive) (hafter : phase.attempt? = none) :
    Faithful R owner (u.enter p phase) := by
  refine hs.go_on hst ht hcommits hphases hverified fun a ha => ?_
  rw [hafter] at ha
  cases ha

theorem attempt?_retry {a b : Attempt} (h : a.retry.attempt? = some b) :
    a.localBefore = b.localBefore ∧ a.localVerified = b.localVerified := by
  rcases retry_cases a with hretry | ⟨attempts, hretry⟩
  · rw [hretry] at h
    cases h
  · rw [hretry] at h
    cases h
    exact ⟨rfl, rfl⟩

theorem retry_ne_verified (a : Attempt) (commit : Nat) (archive : VerifiedV2Archive) : a.retry ≠ .verified commit archive := by
  rcases retry_cases a with hretry | ⟨attempts, hretry⟩
  · rw [hretry]
    exact nofun
  · rw [hretry]
    exact nofun

/-- The process begins another attempt. -/
theorem Faithful.retry {a : Attempt} (hs : Faithful R owner s) (hst : Grows s (u.enter p a.retry))
    (ht : Sound owner (u.enter p a.retry)) (hcommits : u.commits = s.commits) (hphases : u.phase = s.phase)
    (hbefore : (s.phase p).attempt? = some a) : Faithful R owner (u.enter p a.retry) :=
  hs.go_on hst ht hcommits hphases (retry_ne_verified a) fun _ hb => ⟨a, hbefore, attempt?_retry hb⟩

variable [DecidableEq κ]

/-- One step that nothing disturbs. -/
theorem faithful_acts (hwrite : Function.Injective R.writeFrontier) (hs : Faithful R owner s)
    (hundisturbed : undisturbed owner s e = true) (h : Acts R owner s e t) : Faithful R owner t := by
  obtain ⟨hst, ht⟩ := sound_acts hs.sound h
  cases h with
  | @rest _ p phase hphase =>
    rcases hphase with rfl | ⟨error, rfl⟩
    · exact hs.no_attempt hst ht rfl rfl nofun rfl
    · exact hs.no_attempt hst ht rfl rfl nofun rfl
  | began => exact hs.no_attempt hst ht rfl rfl nofun rfl
  | @appended p a commit verified tree out hphase hverified htree hout =>
    -- what was verified is the tree that the append is made on
    have hcommit : s.head (owner p) = commit := by
      simpa [undisturbed, hphase] using hundisturbed
    rw [hcommit, hverified] at htree
    cases htree
    obtain ⟨c, hc, rfl⟩ := tree?_eq.mp hverified
    have hphase' : (s.enter p .idle).phase p = .idle := enter_self
    refine hs.step (p := p) hst ht ?_ (fun q hq => enter_other hq) (fun commit archive hq => ?_) (fun b hb => ?_)
    · refine inherits_concat hs.sound.wellFormed hs.inherits (fun i hi d hd => ?_) (fun i hi => ?_)
      · rw [List.mem_singleton.mp hi, hcommit, hc] at hd
        cases hd
        exact follows_append hwrite hout
      · rw [List.mem_singleton.mp hi]
        exact hs.sound.head _
    · change (s.enter p .idle).phase p = _ at hq
      rw [hphase'] at hq
      cases hq
    · change ((s.enter p .idle).phase p).attempt? = _ at hb
      rw [hphase'] at hb
      cases hb
  | @verified p tree archive yielded htree hvisit =>
    obtain ⟨path, haccepts⟩ := accepts_of_visit hvisit
    refine hs.step (p := p) hst ht hs.inherits (fun q hq => enter_other hq) (fun commit archive' hq => ?_) (fun b hb => ?_)
    · rw [enter_self] at hq
      cases hq
      exact ⟨tree, _, path, htree, haccepts⟩
    · rw [enter_self] at hb
      cases hb
  | @read p commit archive hphase =>
    -- the head that is read is the commit that was verified
    have hcommit : s.head (owner p) = commit := by
      simpa [undisturbed, hphase] using hundisturbed
    refine hs.step (p := p) hst ht hs.inherits (fun q hq => enter_other hq) (fun commit archive' hq => ?_) (fun b hb => ?_)
    · rw [enter_self] at hq
      cases hq
    · rw [enter_self] at hb
      cases hb
      show AcceptsAt R _ (s.head (owner p)) archive.acceptedFrontier
      rw [hcommit]
      exact (hs.verified p commit archive hphase).mono hst.commits
  | absent hphase hremote => exact hs.same_attempt hst ht rfl rfl (by rw [hphase]; rfl) rfl
  | present hphase hremote => exact hs.same_attempt hst ht rfl rfl (by rw [hphase]; rfl) rfl
  | retried hphase => exact hs.retry hst ht rfl rfl hphase
  | created hphase hahead hafter =>
    rcases hafter with rfl | rfl
    · exact hs.no_attempt hst ht rfl rfl nofun rfl
    · exact hs.retry hst ht rfl rfl (by rw [hphase]; rfl)
  | fetched hphase hremote => exact hs.same_attempt hst ht rfl rfl (by rw [hphase]; rfl) rfl
  | same hphase => exact hs.no_attempt hst ht rfl rfl nofun rfl
  | behind hphase hancestor => exact hs.same_attempt hst ht rfl rfl (by rw [hphase]; rfl) rfl
  | ahead hphase hdiffers hancestor => exact hs.same_attempt hst ht rfl rfl (by rw [hphase]; rfl) rfl
  | @united p permits again a remote localTree remoteTree tree remoteVerified unionVerified yielded hphase hdiffers hlocal hremote
      hvisit htree =>
    obtain ⟨localTree', hash, path, hlocal', haccepts⟩ := hs.attempt p a (by rw [hphase]; rfl)
    rw [hlocal] at hlocal'
    cases hlocal'
    obtain ⟨remotePath, hremoteAccepts⟩ := accepts_of_visit hvisit
    obtain ⟨hfollows, hfollows'⟩ := follows_unite hwrite haccepts hremoteAccepts htree
    obtain ⟨localCommit, hlocalCommit, rfl⟩ := tree?_eq.mp hlocal
    obtain ⟨remoteCommit, hremoteCommit, rfl⟩ := tree?_eq.mp hremote
    refine hs.step (p := p) hst ht ?_ (fun q hq => enter_other hq) (fun commit archive hq => ?_) (fun b hb => ?_)
    · show Inherits (Follows R) (commitTree s.commits _ again).1
      rcases commitTree_cases s.commits ⟨[a.localBefore, remote], tree⟩ again with hmade | ⟨made, hmade, -⟩
      · rw [hmade]
        refine inherits_concat hs.sound.wellFormed hs.inherits (fun i hi d hd => ?_) (fun i hi => ?_)
        · rcases List.mem_pair.mp hi with rfl | rfl
          · rw [hlocalCommit] at hd
            cases hd
            exact hfollows
          · rw [hremoteCommit] at hd
            cases hd
            exact hfollows'
        · rcases List.mem_pair.mp hi with rfl | rfl
          · exact (List.getElem?_eq_some_iff.mp hlocalCommit).1
          · exact (List.getElem?_eq_some_iff.mp hremoteCommit).1
      · rw [hmade]
        exact hs.inherits
    · rw [enter_self] at hq
      cases hq
    · rw [enter_self] at hb
      cases hb
      exact (hs.attempt p _ (by rw [hphase]; rfl)).mono hst.commits
  | pushed hphase hremote hafter =>
    rcases hafter with rfl | ⟨hash, -, rfl⟩ | ⟨-, rfl⟩
    · exact hs.retry hst ht rfl rfl (by rw [hphase]; rfl)
    · exact hs.same_attempt hst ht rfl rfl (by rw [hphase]; rfl) rfl
    · exact hs.no_attempt hst ht rfl rfl nofun rfl
  | contained hphase hancestor => exact hs.same_attempt hst ht rfl rfl (by rw [hphase]; rfl) rfl
  | forwarded hphase hancestor => exact hs.same_attempt hst ht rfl rfl (by rw [hphase]; rfl) rfl
  | confirmed hphase htree hvisit hunion => exact hs.no_attempt hst ht rfl rfl nofun rfl
  | @recorded p result hphase =>
    refine hs.step (p := p) hst ht hs.inherits (fun q hq => rfl) (fun commit archive hq => ?_) (fun a ha => ?_)
    · exact (hs.verified p commit archive hq).mono hst.commits
    · exact (hs.attempt p a ha).mono hst.commits

theorem faithful_run (hwrite : Function.Injective R.writeFrontier) {p : List (Event π × State κ π)}
    (hs : Faithful R owner s) (hrun : Path (Steps R owner) s p)
    (hundisturbed : Path (fun s e _ => undisturbed owner s e = true) s p) : Faithful R owner (final s p) := by
  refine Path.invariant (fun t e u ht hstep => ?_) hs (hrun.and hundisturbed)
  exact faithful_acts hwrite ht hstep.2 (acts_of_next hstep.1)

/-- **No file and no accepted record is lost**: what the remote and the heads name later follows what
they name before. -/
theorem nothing_lost (hwrite : Function.Injective R.writeFrontier) {p q : List (Event π × State κ π)}
    (hstart : Started s) (hrun : Path (Steps R owner) s (p ++ q))
    (hundisturbed : Path (fun s e _ => undisturbed owner s e = true) s (p ++ q)) :
    (∀ m, (final s p).remote = some m → ∃ n, (final s (p ++ q)).remote = some n ∧
        Kept R (final s p) m (final s (p ++ q)) n) ∧
      ∀ k, Kept R (final s p) ((final s p).head k) (final s (p ++ q)) ((final s (p ++ q)).head k) := by
  have hlater := faithful_run hwrite hstart.faithful hrun hundisturbed
  obtain ⟨hp, hq⟩ := path_append.mp hrun
  obtain ⟨-, hsound⟩ := sound_run hstart.sound hp
  obtain ⟨hgrows, -⟩ := sound_run hsound hq
  rw [← final_append] at hgrows
  constructor
  · intro m hm
    obtain ⟨n, hn, hmn⟩ := hgrows.remote m hm
    exact ⟨n, hn, hlater.kept_later hgrows.commits (hsound.remote m hm) hmn (hlater.sound.remote n hn)⟩
  · intro k
    exact hlater.kept_later hgrows.commits (hsound.head k) (hgrows.head k) (hlater.sound.head k)

/-- **A sync that succeeded has both sides**: the commit that it accepted follows the local commit and the
remote one that it started from, and the head and the remote have followed it since. -/
theorem synced_has_both (hwrite : Function.Injective R.writeFrontier) {p : List (Event π × State κ π)} {process : π}
    {result : V2SyncResult} (hstart : Started s) (hrun : Path (Steps R owner) s p)
    (hundisturbed : Path (fun s e _ => undisturbed owner s e = true) s p)
    (hdone : (final s p).phase process = .done result) :
    Kept R (final s p) result.localCommitBefore (final s p) result.acceptedCommit ∧
      (∀ r, result.remoteCommitBefore = some r → Kept R (final s p) r (final s p) result.acceptedCommit) ∧
      Kept R (final s p) result.acceptedCommit (final s p) ((final s p).head (owner process)) ∧
      ∃ m, (final s p).remote = some m ∧ Kept R (final s p) result.acceptedCommit (final s p) m := by
  have hfaithful := faithful_run hwrite hstart.faithful hrun hundisturbed
  obtain ⟨haccepted, hhead, hlocal, hremote⟩ := hfaithful.sound.at hdone
  have hlt := hfaithful.sound.onRemote_lt haccepted
  obtain ⟨m, hm, hmn⟩ := haccepted
  exact ⟨hfaithful.kept hlocal hlt, fun r hr => hfaithful.kept (hremote r hr) hlt,
    hfaithful.kept hhead (hfaithful.sound.head _), m, hm, hfaithful.kept hmn (hfaithful.sound.remote m hm)⟩

end

end Sync

namespace Sample

open Sync Transition CommitGraph

/-- What the remote has after the second client's union follows what the first client pushed. -/
theorem parted_nothing_lost : ∃ p q : List (Sync.Event Bool × State Bool Bool), (final partedState p).remote = some 1 ∧
    (final partedState (p ++ q)).remote = some 3 ∧
    Kept partedRuntime (final partedState p) 1 (final partedState (p ++ q)) 3 := by
  obtain ⟨p, htrace, hfacts⟩ := parted_run
  obtain ⟨hundisturbed, hremote, hremote', -⟩ := of_decide_eq_true hfacts
  have hrun := Transition.path_trace htrace
  rw [← List.take_append_drop 8 p] at hrun hundisturbed hremote'
  obtain ⟨hkept, -⟩ := nothing_lost partedFrontierText_injective partedStarted hrun hundisturbed
  obtain ⟨n, hn, hfollows⟩ := hkept 1 hremote
  rw [hremote'] at hn
  cases hn
  exact ⟨p.take 8, p.drop 8, hremote, hremote', hfollows⟩

/-- The union of the second client has both sides. -/
theorem parted_synced : ∃ p : List (Sync.Event Bool × State Bool Bool),
    Kept partedRuntime (final partedState p) 1 (final partedState p) 3 ∧
      Kept partedRuntime (final partedState p) 2 (final partedState p) 3 := by
  obtain ⟨p, htrace, hfacts⟩ := parted_run
  obtain ⟨hundisturbed, -, -, -, -, hunion, -⟩ := of_decide_eq_true hfacts
  obtain ⟨result, hresult, hunion⟩ := (Option.any_eq_true _ _).mp hunion
  simp only [isUnion, Bool.and_eq_true, decide_eq_true_eq] at hunion
  obtain ⟨⟨⟨-, hlocal⟩, hremote⟩, haccepted⟩ := hunion
  have hrun := Transition.path_trace htrace
  rw [← List.take_append_drop 17 p] at hrun hundisturbed
  obtain ⟨hkept, hkept', -⟩ := synced_has_both partedFrontierText_injective partedStarted (path_append.mp hrun).1
    (path_append.mp hundisturbed).1 (done_of_result hresult)
  rw [hlocal, haccepted] at hkept
  rw [haccepted] at hkept'
  exact ⟨p.take 17, hkept' 1 hremote, hkept⟩

end Sample

end ArchiveLedger
