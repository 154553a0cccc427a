import ArchiveLedger.Sync.Protocol

/-!
# What a step can do

`acts_of_next` takes a step apart, once for all invariants: which of the shared refs it moved, what
it had found there, and where its process stands after it.
-/

namespace ArchiveLedger.Sync

open CommitGraph Outcome Transition

/-- The sync that a process is in. -/
def Phase.attempt? : Phase → Option Attempt
  | .querying a | .creating a => some a
  | .fetching a _ | .comparing a _ => some a
  | .pushing a _ _ _ | .forwarding a _ _ _ | .confirming a _ _ _ => some a
  | _ => none

theorem retry_cases (a : Attempt) :
    a.retry = .failed changedRepeatedly ∨ ∃ attempts, a.retry = .querying { a with attempts } := by
  rcases a with ⟨localBefore, archive, attempts⟩
  cases attempts with
  | zero => exact Or.inl rfl
  | succ attempts => exact Or.inr ⟨attempts, rfl⟩

section

variable {κ π : Type} {s : State κ π}

theorem tree?_eq {i : Nat} {tree : EventTree} : s.tree? i = some tree ↔ ∃ c, s.commits[i]? = some c ∧ c.content = tree :=
  Option.map_eq_some_iff

variable [DecidableEq π]

@[simp] theorem enter_commits (p : π) (phase : Phase) : (s.enter p phase).commits = s.commits := rfl

@[simp] theorem enter_remote (p : π) (phase : Phase) : (s.enter p phase).remote = s.remote := rfl

@[simp] theorem enter_head (p : π) (phase : Phase) : (s.enter p phase).head = s.head := rfl

@[simp] theorem enter_fetched (p : π) (phase : Phase) : (s.enter p phase).fetched = s.fetched := rfl

@[simp] theorem enter_synced (p : π) (phase : Phase) : (s.enter p phase).synced = s.synced := rfl

@[simp] theorem enter_phase (p q : π) (phase : Phase) :
    (s.enter p phase).phase q = if q = p then phase else s.phase q := Function.update_apply ..

end

theorem commitTree_cases (commits : List (Commit EventTree)) (c : Commit EventTree) (again : Bool) :
    commitTree commits c again = (commits ++ [c], commits.length) ∨
      ∃ made, commitTree commits c again = (commits, made) ∧ commits[made]? = some c := by
  unfold commitTree
  split
  · rename_i made hmade
    right
    cases again with
    | false => cases hmade
    | true =>
      obtain ⟨hlt, hsame, -⟩ := List.findIdx?_eq_some_iff_getElem.mp hmade
      refine ⟨made, rfl, ?_⟩
      rw [decide_eq_true_eq] at hsame
      rw [List.getElem?_eq_getElem hlt]
      rcases hd : commits[made] with ⟨parents, content⟩
      rw [hd] at hsame
      rcases c with ⟨parents', content'⟩
      obtain ⟨rfl, rfl⟩ := hsame
      rfl
  · exact Or.inl rfl

section

variable {κ π : Type} [DecidableEq κ] [DecidableEq π] (R : StoreRuntime) (owner : π → κ)

/-- The steps, each with what it found. -/
inductive Acts (s : State κ π) : Event π → State κ π → Prop
  | rest {e : Event π} {p : π} {phase : Phase} (hphase : phase = .idle ∨ ∃ error, phase = .failed error) :
      Acts s e (s.enter p phase)
  | began {p : π} : Acts s (.beginAppend p) (s.enter p (.appending (s.head (owner p))))
  | appended {p : π} {a : AppendedSegment} {commit : Nat} {verified tree out : EventTree}
      (hphase : s.phase p = .appending commit) (hverified : s.tree? commit = some verified)
      (htree : s.tree? (s.head (owner p)) = some tree) (hout : appendSegment R verified tree a = .ok out) :
      Acts s (.commitAppend p a) { s.enter p .idle with
        commits := s.commits ++ [⟨[s.head (owner p)], out⟩]
        head := Function.update s.head (owner p) s.commits.length }
  | verified {p : π} {tree : EventTree} {archive : VerifiedV2Archive} {yielded : List VerifiedV2Record}
      (htree : s.tree? (s.head (owner p)) = some tree) (hvisit : visitVerified R tree = .ok (archive, yielded)) :
      Acts s (.verifyLocal p) (s.enter p (.verified (s.head (owner p)) archive))
  | read {p : π} {commit : Nat} {archive : VerifiedV2Archive} (hphase : s.phase p = .verified commit archive) :
      Acts s (.readHead p) (s.enter p (.querying ⟨s.head (owner p), archive, 3⟩))
  | absent {p : π} {a : Attempt} (hphase : s.phase p = .querying a) (hremote : s.remote = none) :
      Acts s (.query p) (s.enter p (.creating a))
  | present {p : π} {a : Attempt} {remote : Nat} (hphase : s.phase p = .querying a) (hremote : s.remote = some remote) :
      Acts s (.query p) (s.enter p (.fetching a remote))
  | retried {e : Event π} {p : π} {a : Attempt} (hphase : (s.phase p).attempt? = some a) : Acts s e (s.enter p a.retry)
  | created {p : π} {reply : PushReply} {a : Attempt} {phase : Phase} (hphase : s.phase p = .creating a)
      (hahead : ∀ m, s.remote = some m → isAncestor s.commits m a.localBefore = true)
      (hafter : phase = .done (syncResult a.localBefore none a.localBefore a.localVerified false true false) ∨
        phase = a.retry) :
      Acts s (.create p reply) ({ s with remote := some a.localBefore }.enter p phase)
  | fetched {p : π} {a : Attempt} {remote now : Nat} (hphase : s.phase p = .fetching a remote)
      (hremote : s.remote = some now) :
      Acts s (.fetch p)
        ({ s with fetched := Function.update s.fetched (owner p) (some now) }.enter p (.comparing a remote))
  | same {p : π} {permits : StoreResult Unit} {again : Bool} {a : Attempt}
      (hphase : s.phase p = .comparing a a.localBefore) :
      Acts s (.compare p permits again) (s.enter p
        (.done (syncResult a.localBefore (some a.localBefore) a.localBefore a.localVerified true false false)))
  | behind {p : π} {permits : StoreResult Unit} {again : Bool} {a : Attempt} {remote : Nat}
      (hphase : s.phase p = .comparing a remote) (hancestor : isAncestor s.commits a.localBefore remote = true) :
      Acts s (.compare p permits again) (s.enter p (.forwarding a remote remote none))
  | ahead {p : π} {permits : StoreResult Unit} {again : Bool} {a : Attempt} {remote : Nat}
      (hphase : s.phase p = .comparing a remote) (hdiffers : isAncestor s.commits a.localBefore remote = false)
      (hancestor : isAncestor s.commits remote a.localBefore = true) :
      Acts s (.compare p permits again) (s.enter p (.pushing a remote a.localBefore none))
  | united {p : π} {permits : StoreResult Unit} {again : Bool} {a : Attempt} {remote : Nat}
      {localTree remoteTree tree : EventTree} {remoteVerified unionVerified : VerifiedV2Archive}
      {yielded : List VerifiedV2Record} (hphase : s.phase p = .comparing a remote)
      (hdiffers : isAncestor s.commits a.localBefore remote = false)
      (hlocal : s.tree? a.localBefore = some localTree) (hremote : s.tree? remote = some remoteTree)
      (hvisit : visitVerified R remoteTree = .ok (remoteVerified, yielded))
      (htree : uniteTrees R a.localVerified remoteVerified localTree remoteTree = .ok tree) :
      Acts s (.compare p permits again)
        ({ s with commits := (commitTree s.commits ⟨[a.localBefore, remote], tree⟩ again).1 }.enter p
          (.pushing a remote (commitTree s.commits ⟨[a.localBefore, remote], tree⟩ again).2
            (some unionVerified.acceptedFrontierHash)))
  | pushed {p : π} {reply : PushReply} {a : Attempt} {remote commit : Nat} {union : Option String} {phase : Phase}
      (hphase : s.phase p = .pushing a remote commit union)
      (hremote : s.remote = some remote ∨ s.remote = some commit)
      (hafter : phase = a.retry ∨ (∃ hash, union = some hash ∧ phase = .forwarding a remote commit (some hash)) ∨
        (union = none ∧
          phase = .done (syncResult a.localBefore (some remote) commit a.localVerified true true false))) :
      Acts s (.push p reply) ({ s with remote := some commit }.enter p phase)
  | contained {p : π} {a : Attempt} {remote target : Nat} {union : Option String}
      (hphase : s.phase p = .forwarding a remote target union)
      (hancestor : isAncestor s.commits target (s.head (owner p)) = true) :
      Acts s (.forward p) (s.enter p (.confirming a remote target union))
  | forwarded {p : π} {a : Attempt} {remote target : Nat} {union : Option String}
      (hphase : s.phase p = .forwarding a remote target union)
      (hancestor : isAncestor s.commits (s.head (owner p)) target = true) :
      Acts s (.forward p)
        ({ s with head := Function.update s.head (owner p) target }.enter p (.confirming a remote target union))
  | confirmed {p : π} {a : Attempt} {remote target : Nat} {union : Option String} {tree : EventTree}
      {archive : VerifiedV2Archive} {yielded : List VerifiedV2Record}
      (hphase : s.phase p = .confirming a remote target union) (htree : s.tree? (s.head (owner p)) = some tree)
      (hvisit : visitVerified R tree = .ok (archive, yielded))
      (hunion : ∀ hash, union = some hash → archive.acceptedFrontierHash = hash) :
      Acts s (.confirm p) (s.enter p
        (.done (syncResult a.localBefore (some remote) target archive true union.isSome union.isSome)))
  | recorded {p : π} {result : V2SyncResult} (hphase : s.phase p = .done result) :
      Acts s (.record p) { s with synced := Function.update s.synced (owner p) (some result.acceptedCommit) }

variable {R owner} {s t : State κ π} {e : Event π}

theorem acts_of_compare {p : π} {permits : StoreResult Unit} {again : Bool} {a : Attempt} {remote fetched : Nat}
    {commits : List (Commit EventTree)} {phase : Phase} (hphase : s.phase p = .comparing a remote)
    (h : compareFetched R s.commits a remote fetched permits again = .ok (commits, phase)) :
    Acts R owner s (.compare p permits again) ({ s with commits }.enter p phase) := by
  unfold compareFetched at h
  by_cases hsame : fetched ≠ remote
  · rw [if_pos hsame] at h
    cases h
    exact .retried (by rw [hphase]; rfl)
  rw [if_neg hsame] at h
  obtain rfl := not_not.mp hsame
  by_cases hlocal : fetched = a.localBefore
  · rw [if_pos hlocal] at h
    cases h
    subst hlocal
    exact .same hphase
  rw [if_neg hlocal] at h
  obtain ⟨remoteTree, hremote, h⟩ := bind_eq_ok.mp h
  obtain ⟨⟨remoteVerified, yielded⟩, hvisit, h⟩ := bind_eq_ok.mp h
  obtain ⟨_, -, h⟩ := bind_eq_ok.mp h
  by_cases hbehind : isAncestor s.commits a.localBefore fetched = true
  · rw [if_pos hbehind] at h
    cases h
    exact .behind hphase hbehind
  rw [if_neg hbehind] at h
  obtain ⟨_, -, h⟩ := bind_eq_ok.mp h
  by_cases hahead : isAncestor s.commits fetched a.localBefore = true
  · rw [if_pos hahead] at h
    cases h
    exact .ahead hphase (Bool.eq_false_iff.mpr hbehind) hahead
  rw [if_neg hahead] at h
  obtain ⟨localTree, hlocalTree, h⟩ := bind_eq_ok.mp h
  obtain ⟨tree, htree, h⟩ := bind_eq_ok.mp h
  obtain ⟨⟨unionVerified, _⟩, -, h⟩ := bind_eq_ok.mp h
  cases h
  exact .united hphase (Bool.eq_false_iff.mpr hbehind) (okOr_eq_ok.mp hlocalTree) (okOr_eq_ok.mp hremote) hvisit htree

/-- **What a step can do.** -/
theorem acts_of_next (h : next R owner s e = some t) : Acts R owner s e t := by
  cases e with
  | beginAppend p =>
    rw [next] at h
    split at h
    · cases h
      exact .began
    · cases h
  | commitAppend p a =>
    rw [next] at h
    split at h
    · rename_i commit hphase
      obtain ⟨verified, hverified, h⟩ := Option.bind_eq_some_iff.mp h
      obtain ⟨tree, htree, h⟩ := Option.bind_eq_some_iff.mp h
      obtain ⟨out, hout, h⟩ := Option.bind_eq_some_iff.mp h
      cases h
      have hok : appendSegment R verified tree a = .ok out := by
        cases happend : appendSegment R verified tree a with
        | error error => rw [happend] at hout; cases hout
        | ok made => rw [happend] at hout; cases hout; rfl
      exact .appended hphase hverified htree hok
    · cases h
  | verifyLocal p =>
    rw [next] at h
    split at h
    · obtain ⟨tree, htree, rfl⟩ := Option.map_eq_some_iff.mp h
      split
      · rename_i hvisit
        exact .verified htree hvisit
      · exact .rest (Or.inr ⟨_, rfl⟩)
    · cases h
  | readHead p =>
    rw [next] at h
    split at h
    · rename_i hphase
      cases h
      exact .read hphase
    · cases h
  | query p =>
    rw [next] at h
    split at h
    · rename_i hphase
      split at h
      · rename_i hremote
        cases h
        exact .absent hphase hremote
      · rename_i hremote
        cases h
        exact .present hphase hremote
    · cases h
  | create p reply =>
    rw [next] at h
    split at h
    · rename_i a hphase
      split at h
      · rename_i hmoves
        cases h
        refine .created hphase (fun m hm => ?_) ?_
        · have hall := hmoves.2
          rw [hm] at hall
          exact hall
        · split
          · exact Or.inl rfl
          · exact Or.inr rfl
      · cases h
        exact .retried (by rw [hphase]; rfl)
    · cases h
  | fetch p =>
    rw [next] at h
    split at h
    · rename_i hphase
      obtain ⟨now, hremote, rfl⟩ := Option.map_eq_some_iff.mp h
      exact .fetched hphase hremote
    · cases h
  | compare p permits again =>
    rw [next] at h
    split at h
    · rename_i hphase
      obtain ⟨fetched, -, rfl⟩ := Option.map_eq_some_iff.mp h
      split
      · rename_i hcompare
        exact acts_of_compare hphase hcompare
      · exact .rest (Or.inr ⟨_, rfl⟩)
    · cases h
  | push p reply =>
    rw [next] at h
    split at h
    · rename_i a remote commit union hphase
      split at h
      · rename_i hmoves
        cases h
        refine .pushed hphase hmoves.2 ?_
        split
        · cases union with
          | none => exact Or.inr (Or.inr ⟨rfl, rfl⟩)
          | some hash => exact Or.inr (Or.inl ⟨hash, rfl, rfl⟩)
        · exact Or.inl rfl
      · cases h
        exact .retried (by rw [hphase]; rfl)
    · cases h
  | forward p =>
    rw [next] at h
    split at h
    · rename_i hphase
      split at h
      · rename_i hancestor
        cases h
        exact .contained hphase hancestor
      · split at h
        · rename_i hancestor
          cases h
          exact .forwarded hphase hancestor
        · cases h
    · cases h
  | confirm p =>
    rw [next] at h
    split at h
    · rename_i a remote target union hphase
      obtain ⟨tree, htree, rfl⟩ := Option.map_eq_some_iff.mp h
      split
      · exact .rest (Or.inr ⟨_, rfl⟩)
      · rename_i archive yielded hvisit
        split
        · rename_i hunion
          refine .confirmed hphase htree hvisit fun hash hhash => ?_
          rw [hhash] at hunion
          exact of_decide_eq_true hunion
        · exact .rest (Or.inr ⟨_, rfl⟩)
    · cases h
  | record p =>
    rw [next] at h
    split at h
    · rename_i hphase
      cases h
      exact .recorded hphase
    · cases h
  | stop p =>
    cases h
    exact .rest (Or.inl rfl)

end

end ArchiveLedger.Sync
