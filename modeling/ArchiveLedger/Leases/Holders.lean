import ArchiveLedger.Leases.Protocol
import ArchiveLedger.Sync.Lineage

/-!
# One holder at a time

Each lease on the ref names the one before it, and begins after that one is over: a lease that was
acquired is followed by its release, or by one that begins after it expired (`Follows`).  So two leases
that the ref ever had do not overlap (`windows_disjoint`), whatever their holders do after they stop, and
of all processes one at most has a lease that is still in force (`one_holder`).
-/

namespace ArchiveLedger

namespace Leases

open Outcome Sync Transition

section

variable {π : Type} [DecidableEq π] {s : State π}

@[simp] theorem enter_now (p : π) (phase : Phase) : (s.enter p phase).now = s.now := rfl

@[simp] theorem enter_commits (p : π) (phase : Phase) : (s.enter p phase).commits = s.commits := rfl

@[simp] theorem enter_ref (p : π) (phase : Phase) : (s.enter p phase).ref = s.ref := rfl

@[simp] theorem enter_phase (p q : π) (phase : Phase) :
    (s.enter p phase).phase q = if q = p then phase else s.phase q := Function.update_apply ..

end

/-- A process that has nothing to do with the ref. -/
def Phase.quiet : Phase → Bool
  | .idle | .querying _ | .failed _ => true
  | _ => false

theorem retry_quiet (a : Attempt) : a.retry.quiet = true := by
  rcases a with ⟨verified, durationMs, attempts⟩
  cases attempts with
  | zero => rfl
  | succ attempts => rfl

/-! ### What a step can do -/

section

variable {π : Type} [DecidableEq π] (L : LeaseRuntime π)

inductive Acts (s : State π) : State π → Prop
  | clock {ms : Nat} : Acts s { s with now := s.now + ms }
  | rests {p : π} {phase : Phase} (hquiet : phase.quiet = true) : Acts s (s.enter p phase)
  | read {p : π} {a : Attempt} : Acts s (s.enter p (.offering a s.ref))
  | made {p : π} {a : Attempt} {previous : Option String} {tokenId : String} {c : LeaseCommit}
      (hphase : s.phase p = .offering a previous) (hfresh : ∀ d ∈ s.commits, d.signed.body.tokenId ≠ tokenId)
      (hoffer : offerLease L p s.commits a previous tokenId s.now = .ok c) :
      Acts s ({ s with commits := s.commits ++ [c] }.enter p (.pushing a previous (handedOut L p c)))
  | pushed {p : π} {a : Attempt} {previous : Option String} {lease : V2CoordinationLease} {phase : Phase}
      (hphase : s.phase p = .pushing a previous lease) (href : s.ref = previous ∨ s.ref = some lease.leaseCommit)
      (hafter : phase = .holding lease ∨ phase.quiet = true) :
      Acts s ({ s with ref := some lease.leaseCommit }.enter p phase)
  | keeps {p : π} {phase : Phase} {lease : V2CoordinationLease} (hphase : (s.phase p).lease? = some lease)
      (hafter : ∃ verified, phase = .confirming verified lease ∨ phase = .ending verified lease) : Acts s (s.enter p phase)
  | ended {p : π} {verified : VerifiedV2Archive} {lease : V2CoordinationLease} {c : LeaseCommit}
      (hphase : s.phase p = .ending verified lease) (hend : endLease L p s.commits verified lease s.now = .ok c) :
      Acts s ({ s with commits := s.commits ++ [c] }.enter p (.unlocking lease (L.commitName c)))
  | unlocked {p : π} {lease : V2CoordinationLease} {commit : String} {phase : Phase}
      (hphase : s.phase p = .unlocking lease commit)
      (href : s.ref = some lease.leaseCommit ∨ s.ref = some commit) (hquiet : phase.quiet = true) :
      Acts s ({ s with ref := some commit }.enter p phase)

variable {L} {s t : State π} {e : Event π}

theorem acts_of_next (h : next L s e = some t) : Acts L s t := by
  cases e with
  | tick ms =>
    cases h
    exact .clock
  | acquire p durationMs verified synchronized =>
    rw [next] at h
    split at h
    · split at h
      · cases h
        exact .rests rfl
      · cases h
        exact .rests rfl
    · split at h
      · cases h
        exact .rests rfl
      · cases h
        exact .rests rfl
    · cases h
  | query p =>
    rw [next] at h
    split at h
    · cases h
      exact .read
    · cases h
  | offer p ulid =>
    rw [next] at h
    split at h
    · rename_i a previous hphase
      split at h
      · cases h
      · rename_i hfresh
        split at h
        · rename_i c hoffer
          cases h
          refine .made hphase (fun d hd htoken => hfresh ?_) hoffer
          exact List.any_eq_true.mpr ⟨d, hd, decide_eq_true htoken⟩
        · cases h
          exact .rests rfl
    · cases h
  | push p reply =>
    rw [next] at h
    split at h
    · rename_i a previous lease hphase
      split at h
      · rename_i hreaches
        cases h
        refine .pushed hphase hreaches.2 ?_
        split
        · exact Or.inl rfl
        · exact Or.inr (retry_quiet a)
      · cases h
        exact .rests (retry_quiet a)
    · cases h
  | release p verified =>
    rw [next] at h
    split at h
    · rename_i lease hphase
      split at h
      · rename_i verified hbegin
        cases h
        have hlease : (s.phase p).lease? = some lease := by rw [hphase]; rfl
        exact .keeps hlease ⟨verified, Or.inl rfl⟩
      · cases h
        exact .rests rfl
    · cases h
  | confirm p =>
    rw [next] at h
    split at h
    · rename_i verified lease hphase
      split at h
      · cases h
        have hlease : (s.phase p).lease? = some lease := by rw [hphase]; rfl
        exact .keeps hlease ⟨verified, Or.inr rfl⟩
      · cases h
        exact .rests rfl
    · cases h
  | finish p =>
    rw [next] at h
    split at h
    · rename_i verified lease hphase
      split at h
      · rename_i c hend
        cases h
        exact .ended hphase hend
      · cases h
        exact .rests rfl
    · cases h
  | unlock p reply =>
    rw [next] at h
    split at h
    · rename_i lease commit hphase
      split at h
      · rename_i hreaches
        cases h
        refine .unlocked hphase hreaches.2 ?_
        split
        · rfl
        · rfl
      · cases h
        exact .rests rfl
    · cases h
  | stop p =>
    cases h
    exact .rests rfl

end

/-! ### What the commits say -/

section

variable {π : Type} {L : LeaseRuntime π}

theorem lookup_eq_some {commits : List LeaseCommit} {name : String} {c : LeaseCommit}
    (h : lookup L commits name = some c) : c ∈ commits ∧ L.commitName c = name := by
  have hname := List.find?_some h
  exact ⟨List.mem_of_find?_eq_some h, of_decide_eq_true hname⟩

theorem mem_of_readSignedLeaseCommit {commits : List LeaseCommit} {name scopeKind scopeId : String}
    {verified : VerifiedV2Archive} {signed : SignedCoordinationLease}
    (h : readSignedLeaseCommit L commits name verified scopeKind scopeId = .ok signed) :
    ∃ c ∈ commits, L.commitName c = name ∧ c.signed = signed := by
  obtain ⟨c, hc, h⟩ := bind_eq_ok.mp h
  obtain ⟨hmem, hname⟩ := lookup_eq_some (okOr_eq_ok.mp hc)
  obtain ⟨_, -, h⟩ := bind_eq_ok.mp h
  obtain ⟨_, -, h⟩ := bind_eq_ok.mp h
  obtain ⟨_, -, h⟩ := bind_eq_ok.mp h
  cases h
  exact ⟨c, hmem, hname, rfl⟩

theorem body_of_sign {p : π} {body : CoordinationLeaseBody} {signed : SignedCoordinationLease}
    (h : signCoordinationLease L p body = .ok signed) : signed.body = body := by
  obtain ⟨_, -, h⟩ := bind_eq_ok.mp h
  cases h
  rfl

/-- The lease is not acquired, or it was over at the time. -/
def OverBefore (c : LeaseCommit) (time : Nat) : Prop :=
  c.signed.body.state = "acquired" → c.signed.body.notAfterUtcMs < time

theorem overBefore_of_inForce {c : LeaseCommit} {now : Nat} (h : inForce c.signed.body now = false) :
    OverBefore c now := by
  intro hstate
  unfold inForce at h
  rw [hstate] at h
  by_contra hlt
  exact absurd h (by simp [not_lt.mp hlt])

theorem offered_spec {p : π} {commits : List LeaseCommit} {a : Attempt} {previous : Option String} {tokenId : String}
    {now : Nat} {c : LeaseCommit} (h : offerLease L p commits a previous tokenId now = .ok c) :
    c.signed.body = offeredBody L p a previous tokenId now ∧
      ∀ i, previous = some i → ∃ b ∈ commits, L.commitName b = i ∧ OverBefore b now := by
  obtain ⟨_, hprevious, h⟩ := bind_eq_ok.mp h
  obtain ⟨_, -, h⟩ := bind_eq_ok.mp h
  obtain ⟨signed, hsigned, h⟩ := bind_eq_ok.mp h
  cases h
  refine ⟨body_of_sign hsigned, fun i hi => ?_⟩
  subst hi
  obtain ⟨read, hread, hforce⟩ := bind_eq_ok.mp hprevious
  obtain ⟨b, hb, hname, rfl⟩ := mem_of_readSignedLeaseCommit hread
  exact ⟨b, hb, hname, overBefore_of_inForce (require_eq_ok.mp hforce)⟩

theorem ended_spec {p : π} {commits : List LeaseCommit} {verified : VerifiedV2Archive} {lease : V2CoordinationLease}
    {now : Nat} {c : LeaseCommit} (h : endLease L p commits verified lease now = .ok c) :
    c.signed.body = releasedBody verified lease now := by
  obtain ⟨_, -, h⟩ := bind_eq_ok.mp h
  obtain ⟨_, -, h⟩ := bind_eq_ok.mp h
  obtain ⟨signed, hsigned, h⟩ := bind_eq_ok.mp h
  cases h
  exact body_of_sign hsigned

/-! ### The invariant -/

variable (L)

/-- No two of the commits have one name. -/
def NoCollision (commits : List LeaseCommit) : Prop :=
  ∀ b ∈ commits, ∀ c ∈ commits, L.commitName b = L.commitName c → b = c

/-- The second lease names the first. -/
def Names (b c : LeaseCommit) : Prop := c.signed.body.previousLeaseCommit = some (L.commitName b)

/-- How a lease follows the one it names: it is its release, or begins when it is over. -/
inductive Follows (b c : LeaseCommit) : Prop
  | begins (hnames : Names L b c) (hstate : c.signed.body.state = "acquired")
      (hover : OverBefore b c.signed.body.notBeforeUtcMs)
      (hreleased : b.signed.body.state = "released" → b.signed.body.notAfterUtcMs ≤ c.signed.body.notBeforeUtcMs)
      (hbefore : b.signed.body.notBeforeUtcMs ≤ c.signed.body.notBeforeUtcMs)
  | releases (hnames : Names L b c) (hstate : c.signed.body.state = "released") (hof : b.signed.body.state = "acquired")
      (htoken : c.signed.body.tokenId = b.signed.body.tokenId)
      (hbefore : c.signed.body.notBeforeUtcMs = b.signed.body.notBeforeUtcMs)

/-- A process has the lease of a commit that says so. -/
def Holds (s : State π) (lease : V2CoordinationLease) : Prop :=
  ∃ c ∈ s.commits, c.signed.body.state = "acquired" ∧ ∃ p, lease = handedOut L p c

/-- What a process relies on. -/
def PhaseSound (s : State π) : Phase → Prop
  | .idle | .querying _ | .failed _ => True
  | .offering _ previous => ∀ i, previous = some i → ∃ b ∈ s.commits, L.commitName b = i
  | .pushing _ previous lease =>
      Holds L s lease ∧ s.ref ≠ some lease.leaseCommit ∧ lease.leaseProof.body.previousLeaseCommit = previous ∧
        ∀ i, previous = some i → ∃ b ∈ s.commits, L.commitName b = i ∧ OverBefore b s.now
  | .holding lease | .confirming _ lease | .ending _ lease =>
      Holds L s lease ∧ (s.now ≤ lease.notAfterUtcMs → s.ref = some lease.leaseCommit)
  | .unlocking lease commit =>
      (Holds L s lease ∧ (s.now ≤ lease.notAfterUtcMs → s.ref = some lease.leaseCommit)) ∧
        ∃ c ∈ s.commits, L.commitName c = commit ∧ c.signed.body.state = "released" ∧
          c.signed.body.previousLeaseCommit = some lease.leaseCommit

/-- The lease that a process made and did not give up. -/
def Phase.made? : Phase → Option V2CoordinationLease
  | .pushing _ _ lease => some lease
  | phase => phase.lease?

structure Sound (s : State π) : Prop where
  follows : ∀ c ∈ s.commits, ∀ i, c.signed.body.previousLeaseCommit = some i →
    ∃ b ∈ s.commits, L.commitName b = i ∧ Follows L b c
  past : ∀ c ∈ s.commits, c.signed.body.notBeforeUtcMs ≤ s.now ∧
    (c.signed.body.state = "released" → c.signed.body.notAfterUtcMs ≤ s.now)
  ref : ∀ i, s.ref = some i → ∃ c ∈ s.commits, L.commitName c = i
  phase : ∀ p, PhaseSound L s (s.phase p)
  own : ∀ p q lease lease', (s.phase p).made? = some lease → (s.phase q).made? = some lease' →
    lease.leaseCommit = lease'.leaseCommit → p = q

variable {L}

theorem sound_of_started (h : Started s) : Sound L s := by
  refine ⟨fun c hc => ?_, fun c hc => ?_, fun i hi => ?_, fun p => ?_, fun p q lease lease' hp => ?_⟩
  · rw [h.commits] at hc
    cases hc
  · rw [h.commits] at hc
    cases hc
  · rw [h.ref] at hi
    cases hi
  · rw [h.idle p]
    trivial
  · rw [h.idle p] at hp
    cases hp

theorem NoCollision.mono {commits commits' : List LeaseCommit} (hcommits : ∀ c ∈ commits, c ∈ commits')
    (h : NoCollision L commits') : NoCollision L commits :=
  fun b hb c hc hsame => h b (hcommits b hb) c (hcommits c hc) hsame

variable {s t : State π}

theorem Holds.mono {lease : V2CoordinationLease} (hcommits : ∀ c ∈ s.commits, c ∈ t.commits) (h : Holds L s lease) :
    Holds L t lease := by
  obtain ⟨c, hc, hrest⟩ := h
  exact ⟨c, hcommits c hc, hrest⟩

theorem made?_of_lease? {phase : Phase} {lease : V2CoordinationLease} (h : phase.lease? = some lease) :
    phase.made? = some lease := by
  cases phase with
  | pushing a previous lease => cases h
  | _ => exact h

theorem PhaseSound.holds {phase : Phase} {lease : V2CoordinationLease} (hlease : phase.made? = some lease)
    (h : PhaseSound L s phase) : Holds L s lease := by
  cases phase with
  | idle => cases hlease
  | querying a => cases hlease
  | offering a previous => cases hlease
  | failed error => cases hlease
  | pushing a previous lease => cases hlease; exact h.1
  | holding lease => cases hlease; exact h.1
  | confirming verified lease => cases hlease; exact h.1
  | ending verified lease => cases hlease; exact h.1
  | unlocking lease commit => cases hlease; exact h.1.1

theorem PhaseSound.current {phase : Phase} {lease : V2CoordinationLease} (hlease : phase.lease? = some lease)
    (h : PhaseSound L s phase) (hforce : s.now ≤ lease.notAfterUtcMs) : s.ref = some lease.leaseCommit := by
  cases phase with
  | idle => cases hlease
  | querying a => cases hlease
  | offering a previous => cases hlease
  | failed error => cases hlease
  | pushing a previous lease => cases hlease
  | holding lease => cases hlease; exact h.2 hforce
  | confirming verified lease => cases hlease; exact h.2 hforce
  | ending verified lease => cases hlease; exact h.2 hforce
  | unlocking lease commit => cases hlease; exact h.1.2 hforce

/-- Nothing a process relies on is undone where the ref stays: commits stay, and what was over is over. -/
theorem PhaseSound.mono {phase : Phase} (hcommits : ∀ c ∈ s.commits, c ∈ t.commits) (hnow : s.now ≤ t.now)
    (href : t.ref = s.ref) (h : PhaseSound L s phase) : PhaseSound L t phase := by
  have hheld : ∀ lease : V2CoordinationLease, (s.now ≤ lease.notAfterUtcMs → s.ref = some lease.leaseCommit) →
      t.now ≤ lease.notAfterUtcMs → t.ref = some lease.leaseCommit := by
    intro lease hcurrent hforce
    rw [href]
    exact hcurrent (hnow.trans hforce)
  cases phase with
  | idle => trivial
  | querying a => trivial
  | failed error => trivial
  | offering a previous =>
    intro i hi
    obtain ⟨b, hb, hname⟩ := h i hi
    exact ⟨b, hcommits b hb, hname⟩
  | pushing a previous lease =>
    obtain ⟨hholds, hdiffers, hprevious, hover⟩ := h
    refine ⟨hholds.mono hcommits, by rwa [href], hprevious, fun i hi => ?_⟩
    obtain ⟨b, hb, hname, hbefore⟩ := hover i hi
    exact ⟨b, hcommits b hb, hname, fun hstate => (hbefore hstate).trans_le hnow⟩
  | holding lease => exact ⟨h.1.mono hcommits, hheld lease h.2⟩
  | confirming verified lease => exact ⟨h.1.mono hcommits, hheld lease h.2⟩
  | ending verified lease => exact ⟨h.1.mono hcommits, hheld lease h.2⟩
  | unlocking lease commit =>
    obtain ⟨hholds, c, hc, hrest⟩ := h
    exact ⟨⟨hholds.1.mono hcommits, hheld lease hholds.2⟩, c, hcommits c hc, hrest⟩

/-- The ref may move to a commit that no process would push, past a lease that is over. -/
theorem PhaseSound.moved {phase : Phase} {j : String}
    (hmade : ∀ lease, phase.made? = some lease → lease.leaseCommit ≠ j)
    (hheld : ∀ lease, phase.lease? = some lease → s.ref = some lease.leaseCommit → lease.notAfterUtcMs < s.now)
    (h : PhaseSound L s phase) : PhaseSound L { s with ref := some j } phase := by
  have hover : ∀ lease, phase.lease? = some lease → s.now ≤ lease.notAfterUtcMs → some j = some lease.leaseCommit := by
    intro lease hlease hforce
    have := hheld lease hlease (h.current hlease hforce)
    omega
  cases phase with
  | idle => trivial
  | querying a => trivial
  | failed error => trivial
  | offering a previous => exact h
  | pushing a previous lease =>
    obtain ⟨hholds, -, hrest⟩ := h
    exact ⟨hholds, fun hj => hmade lease rfl (Option.some.inj hj).symm, hrest⟩
  | holding lease => exact ⟨h.1, hover lease rfl⟩
  | confirming verified lease => exact ⟨h.1, hover lease rfl⟩
  | ending verified lease => exact ⟨h.1, hover lease rfl⟩
  | unlocking lease commit => exact ⟨⟨h.1.1, hover lease rfl⟩, h.2⟩

theorem phaseSound_of_quiet {phase : Phase} (h : phase.quiet = true) : PhaseSound L s phase := by
  cases phase with
  | idle => trivial
  | querying a => trivial
  | failed error => trivial
  | _ => cases h

theorem made?_of_quiet {phase : Phase} (h : phase.quiet = true) : phase.made? = none := by
  cases phase with
  | idle => rfl
  | querying a => rfl
  | failed error => rfl
  | _ => cases h

/-! ### What every step keeps -/

/-- The commit of a lease that a process has. -/
theorem Holds.unique (hname : NoCollision L s.commits) {lease : V2CoordinationLease} {c : LeaseCommit}
    (hmem : c ∈ s.commits) (hc : L.commitName c = lease.leaseCommit) (h : Holds L s lease) :
    c.signed.body.state = "acquired" ∧ ∃ p, lease = handedOut L p c := by
  obtain ⟨d, hd, hstate, p, rfl⟩ := h
  obtain rfl := hname c hmem d hd hc
  exact ⟨hstate, p, rfl⟩

theorem Sound.tick {ms : Nat} (h : Sound L s) : Sound L { s with now := s.now + ms } := by
  refine ⟨h.follows, fun c hc => ?_, h.ref, fun p => ?_, h.own⟩
  · obtain ⟨hbefore, hreleased⟩ := h.past c hc
    exact ⟨hbefore.trans (Nat.le_add_right _ _), fun hstate => (hreleased hstate).trans (Nat.le_add_right _ _)⟩
  · exact PhaseSound.mono (s := s) (fun _ hc => hc) (Nat.le_add_right s.now ms) rfl (h.phase p)

/-- A commit is made that follows the one it names and is not of the future. -/
theorem Sound.commit {c : LeaseCommit}
    (hfollows : ∀ i, c.signed.body.previousLeaseCommit = some i → ∃ b ∈ s.commits, L.commitName b = i ∧ Follows L b c)
    (hbefore : c.signed.body.notBeforeUtcMs ≤ s.now)
    (hreleased : c.signed.body.state = "released" → c.signed.body.notAfterUtcMs ≤ s.now) (h : Sound L s) :
    Sound L { s with commits := s.commits ++ [c] } := by
  have hgrow : ∀ d ∈ s.commits, d ∈ s.commits ++ [c] := fun d hd => List.mem_append_left _ hd
  refine ⟨fun d hd i hi => ?_, fun d hd => ?_, fun i hi => ?_, fun p => ?_, h.own⟩
  · have hold : ∃ b ∈ s.commits, L.commitName b = i ∧ Follows L b d := by
      rcases List.mem_append.mp hd with hd | hd
      · exact h.follows d hd i hi
      · obtain rfl := List.mem_singleton.mp hd
        exact hfollows i hi
    obtain ⟨b, hb, hrest⟩ := hold
    exact ⟨b, hgrow b hb, hrest⟩
  · rcases List.mem_append.mp hd with hd | hd
    · exact h.past d hd
    · obtain rfl := List.mem_singleton.mp hd
      exact ⟨hbefore, hreleased⟩
  · obtain ⟨b, hb, hname⟩ := h.ref i hi
    exact ⟨b, hgrow b hb, hname⟩
  · exact (h.phase p).mono hgrow le_rfl rfl

/-- The ref moves to a commit that nobody has. -/
theorem Sound.move {j : String} (hknown : ∃ c ∈ s.commits, L.commitName c = j)
    (hmade : ∀ p lease, (s.phase p).made? = some lease → lease.leaseCommit ≠ j)
    (hheld : ∀ p lease, (s.phase p).lease? = some lease → s.ref = some lease.leaseCommit → lease.notAfterUtcMs < s.now)
    (h : Sound L s) : Sound L { s with ref := some j } := by
  refine ⟨h.follows, h.past, fun i hi => ?_, fun p => (h.phase p).moved (hmade p) (hheld p), h.own⟩
  cases hi
  exact hknown

end

section

variable {π : Type} [DecidableEq π] {L : LeaseRuntime π} {s t : State π}

/-- A process moves on where nothing shared changes.  What it has then it had, or nobody else has. -/
theorem Sound.enter {p : π} {phase : Phase} (hphase : PhaseSound L s phase)
    (hmade : ∀ lease, phase.made? = some lease → (s.phase p).made? = some lease ∨
      ∀ q lease', q ≠ p → (s.phase q).made? = some lease' → lease'.leaseCommit ≠ lease.leaseCommit)
    (h : Sound L s) : Sound L (s.enter p phase) := by
  have hother : ∀ {q lease}, q ≠ p → ((s.enter p phase).phase q).made? = some lease → (s.phase q).made? = some lease := by
    intro q lease hq hlease
    rwa [enter_phase, if_neg hq] at hlease
  have hself : ∀ {lease q lease'}, phase.made? = some lease → q ≠ p → (s.phase q).made? = some lease' →
      lease'.leaseCommit ≠ lease.leaseCommit := by
    intro lease q lease' hlease hq hlease' hsame
    rcases hmade lease hlease with hold | hnew
    · exact hq (h.own q p lease' lease hlease' hold hsame)
    · exact hnew q lease' hq hlease' hsame
  refine ⟨h.follows, h.past, h.ref, fun q => ?_, fun q r lease lease' hlease hlease' hsame => ?_⟩
  · have hmono : ∀ {phase'}, PhaseSound L s phase' → PhaseSound L (s.enter p phase) phase' :=
      fun hsound => hsound.mono (fun _ hc => hc) le_rfl rfl
    rw [enter_phase]
    split
    · exact hmono hphase
    · exact hmono (h.phase q)
  · by_cases hq : q = p
    · by_cases hr : r = p
      · rw [hq, hr]
      · rw [hq, enter_phase, if_pos rfl] at hlease
        exact absurd hsame.symm (hself hlease hr (hother hr hlease'))
    · by_cases hr : r = p
      · rw [hr, enter_phase, if_pos rfl] at hlease'
        exact absurd hsame (hself hlease' hq (hother hq hlease))
      · exact h.own q r lease lease' (hother hq hlease) (hother hr hlease') hsame

theorem Sound.enter_quiet {p : π} {phase : Phase} (hquiet : phase.quiet = true) (h : Sound L s) :
    Sound L (s.enter p phase) := by
  refine h.enter (phaseSound_of_quiet hquiet) fun lease hlease => ?_
  rw [made?_of_quiet hquiet] at hlease
  cases hlease

theorem enter_enter (p : π) (phase phase' : Phase) : (s.enter p phase).enter p phase' = s.enter p phase' := by
  unfold State.enter
  rw [Function.update_idem]

theorem phase_of_enter_idle {p q : π} {lease : V2CoordinationLease}
    (h : ((s.enter p .idle).phase q).made? = some lease) : q ≠ p ∧ (s.phase q).made? = some lease := by
  rw [enter_phase] at h
  split at h
  · cases h
  · rename_i hq
    exact ⟨hq, h⟩

/-- A process moves the ref to a commit of its own and goes on. -/
theorem Sound.push {p : π} {phase : Phase} {lease : V2CoordinationLease} {j : String}
    (hlease : (s.phase p).made? = some lease) (hknown : ∃ c ∈ s.commits, L.commitName c = j)
    (hmade : ∀ q lease', q ≠ p → (s.phase q).made? = some lease' → lease'.leaseCommit ≠ j)
    (hheld : ∀ q lease', q ≠ p → (s.phase q).lease? = some lease' → s.ref = some lease'.leaseCommit →
      lease'.notAfterUtcMs < s.now)
    (hphase : PhaseSound L { s with ref := some j } phase)
    (hkeeps : ∀ lease', phase.made? = some lease' → lease' = lease) (h : Sound L s) :
    Sound L ({ s with ref := some j }.enter p phase) := by
  have hrest : Sound L { s.enter p .idle with ref := some j } := by
    refine (h.enter_quiet rfl).move hknown (fun q lease' hq => ?_) fun q lease' hq => ?_
    · obtain ⟨hdiffers, hq⟩ := phase_of_enter_idle hq
      exact hmade q lease' hdiffers hq
    · obtain ⟨hdiffers, -⟩ := phase_of_enter_idle (made?_of_lease? hq)
      rw [enter_phase, if_neg hdiffers] at hq
      exact hheld q lease' hdiffers hq
  have hagain : (State.enter { s.enter p .idle with ref := some j } p phase) = { s with ref := some j }.enter p phase :=
    enter_enter (s := { s with ref := some j }) p .idle phase
  rw [← hagain]
  refine hrest.enter (hphase.mono (fun _ hc => hc) le_rfl rfl) fun lease' hlease' => Or.inr fun q lease'' hq hother hsame => ?_
  obtain rfl := hkeeps lease' hlease'
  exact hq (h.own q p lease'' lease' (phase_of_enter_idle hother).2 hlease hsame)

theorem Sound.made {p : π} {a : Attempt} {previous : Option String}
    {tokenId : String} {c : LeaseCommit} (hname : NoCollision L (s.commits ++ [c])) (hfresh : ∀ d ∈ s.commits, d.signed.body.tokenId ≠ tokenId)
    (hoffer : offerLease L p s.commits a previous tokenId s.now = .ok c) (h : Sound L s) :
    Sound L ({ s with commits := s.commits ++ [c] }.enter p (.pushing a previous (handedOut L p c))) := by
  obtain ⟨hbody, hprevious⟩ := offered_spec hoffer
  have hstate : c.signed.body.state = "acquired" := by rw [hbody]; rfl
  have hbegin : c.signed.body.notBeforeUtcMs = s.now := by rw [hbody]; rfl
  have hnames : c.signed.body.previousLeaseCommit = previous := by rw [hbody]; rfl
  have hmember : c ∈ s.commits ++ [c] := List.mem_append_right _ (List.mem_singleton.mpr rfl)
  have hnew : ∀ d ∈ s.commits, L.commitName d ≠ L.commitName c := by
    intro d hd hsame
    obtain rfl := hname d (List.mem_append_left _ hd) c hmember hsame
    exact hfresh d hd (by rw [hbody]; rfl)
  have hcommit : Sound L { s with commits := s.commits ++ [c] } := by
    refine h.commit (fun i hi => ?_) hbegin.le (fun hreleased => ?_)
    · rw [hnames] at hi
      obtain ⟨b, hb, rfl, hover⟩ := hprevious i hi
      obtain ⟨hbefore, hreleased⟩ := h.past b hb
      refine ⟨b, hb, rfl, .begins ?_ hstate ?_ ?_ ?_⟩
      · rw [Names, hnames, hi]
      · rwa [hbegin]
      · rwa [hbegin]
      · rwa [hbegin]
    · rw [hstate] at hreleased
      exact absurd hreleased (by decide)
  refine hcommit.enter ⟨⟨c, hmember, hstate, p, rfl⟩, fun href => ?_, hnames, fun i hi => ?_⟩ fun lease hlease =>
    Or.inr fun q lease' _ hq hsame => ?_
  · obtain ⟨d, hd, hd'⟩ := h.ref _ href
    exact hnew d hd hd'
  · obtain ⟨b, hb, hb', hover⟩ := hprevious i hi
    exact ⟨b, List.mem_append_left _ hb, hb', hover⟩
  · cases hlease
    obtain ⟨d, hd, -, r, rfl⟩ := (h.phase q).holds hq
    exact hnew d hd hsame

theorem Sound.pushed (hname : NoCollision L s.commits) {p : π} {a : Attempt} {previous : Option String}
    {lease : V2CoordinationLease} {phase : Phase} (hphase : s.phase p = .pushing a previous lease)
    (href : s.ref = previous ∨ s.ref = some lease.leaseCommit) (hafter : phase = .holding lease ∨ phase.quiet = true)
    (h : Sound L s) : Sound L ({ s with ref := some lease.leaseCommit }.enter p phase) := by
  have hp := h.phase p
  rw [hphase] at hp
  obtain ⟨hholds, hdiffers, -, hover⟩ := hp
  have hprevious := href.resolve_right hdiffers
  have hmade : (s.phase p).made? = some lease := by rw [hphase]; rfl
  have hknown : ∃ c ∈ s.commits, L.commitName c = lease.leaseCommit := by
    obtain ⟨c, hc, -, q, rfl⟩ := hholds
    exact ⟨c, hc, rfl⟩
  refine h.push hmade hknown (fun q lease' hq hlease' hsame => hq (h.own q p lease' lease hlease' hmade hsame))
    (fun q lease' hq hlease' hcurrent => ?_) ?_ fun lease' hlease' => ?_
  · -- what this process read was over, and it is the lease of the other
    rw [hprevious] at hcurrent
    obtain ⟨b, hb, hbname, hbefore⟩ := hover _ hcurrent
    obtain ⟨hstate, r, rfl⟩ := ((h.phase q).holds (made?_of_lease? hlease')).unique hname hb hbname
    exact hbefore hstate
  · rcases hafter with rfl | hquiet
    · exact ⟨hholds, fun _ => rfl⟩
    · exact phaseSound_of_quiet hquiet
  · rcases hafter with rfl | hquiet
    · exact (Option.some.inj hlease').symm
    · rw [made?_of_quiet hquiet] at hlease'
      cases hlease'

theorem Sound.ended {p : π} {verified : VerifiedV2Archive} {lease : V2CoordinationLease} {c : LeaseCommit}
    (hphase : s.phase p = .ending verified lease) (hend : endLease L p s.commits verified lease s.now = .ok c)
    (h : Sound L s) :
    Sound L ({ s with commits := s.commits ++ [c] }.enter p (.unlocking lease (L.commitName c))) := by
  have hbody := ended_spec hend
  have hp := h.phase p
  rw [hphase] at hp
  obtain ⟨hholds, hcurrent⟩ := hp
  have hstate : c.signed.body.state = "released" := by rw [hbody]; rfl
  have hnames : c.signed.body.previousLeaseCommit = some lease.leaseCommit := by rw [hbody]; rfl
  have hcommit : Sound L { s with commits := s.commits ++ [c] } := by
    obtain ⟨b, hb, hacquired, r, rfl⟩ := hholds
    refine h.commit (fun i hi => ?_) ?_ (fun _ => ?_)
    · rw [hnames] at hi
      cases hi
      exact ⟨b, hb, rfl, .releases hnames hstate hacquired (by rw [hbody]; rfl) (by rw [hbody]; rfl)⟩
    · rw [hbody]
      exact (h.past b hb).1
    · rw [hbody]
      exact le_rfl
  have hgrow : ∀ d ∈ s.commits, d ∈ s.commits ++ [c] := fun d hd => List.mem_append_left _ hd
  refine hcommit.enter ⟨⟨hholds.mono hgrow, hcurrent⟩, c, List.mem_append_right _ (List.mem_singleton.mpr rfl), rfl,
    hstate, hnames⟩ fun lease' hlease' => Or.inl ?_
  cases hlease'
  show (s.phase p).made? = _
  rw [hphase]
  rfl

theorem Sound.unlocked (hname : NoCollision L s.commits) {p : π} {lease : V2CoordinationLease} {commit : String}
    {phase : Phase} (hphase : s.phase p = .unlocking lease commit)
    (href : s.ref = some lease.leaseCommit ∨ s.ref = some commit) (hquiet : phase.quiet = true) (h : Sound L s) :
    Sound L ({ s with ref := some commit }.enter p phase) := by
  have hp := h.phase p
  rw [hphase] at hp
  obtain ⟨-, c, hc, rfl, hreleased, -⟩ := hp
  have hmade : (s.phase p).made? = some lease := by rw [hphase]; rfl
  -- nobody has a lease that is a release
  have hdiffers : ∀ q lease', (s.phase q).made? = some lease' → lease'.leaseCommit ≠ L.commitName c := by
    intro q lease' hlease' hsame
    obtain ⟨hacquired, -⟩ := ((h.phase q).holds hlease').unique hname hc hsame.symm
    rw [hreleased] at hacquired
    exact absurd hacquired (by decide)
  refine h.push hmade ⟨c, hc, rfl⟩ (fun q lease' _ hlease' => hdiffers q lease' hlease')
    (fun q lease' hq hlease' hcurrent => ?_) (phaseSound_of_quiet hquiet) fun lease' hlease' => ?_
  · have hlease' := made?_of_lease? hlease'
    rcases href with href | href
    · rw [href] at hcurrent
      exact absurd (h.own q p lease' lease hlease' hmade (Option.some.inj hcurrent).symm) hq
    · rw [href] at hcurrent
      exact absurd (Option.some.inj hcurrent).symm (hdiffers q lease' hlease')
  · rw [made?_of_quiet hquiet] at hlease'
    cases hlease'

/-- **What a step keeps.** -/
theorem Sound.acts (hname : NoCollision L t.commits) (h : Sound L s) (hacts : Acts L s t) : Sound L t := by
  cases hacts with
  | clock => exact h.tick
  | rests hquiet => exact h.enter_quiet hquiet
  | read =>
    refine h.enter (fun i hi => h.ref i hi) fun lease hlease => ?_
    cases hlease
  | made _ hfresh hoffer => exact h.made hname hfresh hoffer
  | pushed hphase href hafter => exact Sound.pushed (s := s) hname hphase href hafter h
  | @keeps p phase lease hphase hafter =>
    have hholds := (h.phase p).holds (made?_of_lease? hphase)
    have hcurrent := (h.phase p).current hphase
    obtain ⟨verified, rfl | rfl⟩ := hafter
    · refine h.enter ⟨hholds, hcurrent⟩ fun lease' hlease' => Or.inl ?_
      cases hlease'
      exact made?_of_lease? hphase
    · refine h.enter ⟨hholds, hcurrent⟩ fun lease' hlease' => Or.inl ?_
      cases hlease'
      exact made?_of_lease? hphase
  | ended hphase hend => exact h.ended hphase hend
  | unlocked hphase href hquiet => exact Sound.unlocked (s := s) hname hphase href hquiet h

theorem commits_of_acts (h : Acts L s t) : ∀ c ∈ s.commits, c ∈ t.commits := by
  intro c hc
  cases h with
  | clock => exact hc
  | rests hquiet => exact hc
  | read => exact hc
  | made _ hfresh hoffer => exact List.mem_append_left _ hc
  | pushed hphase href hafter => exact hc
  | keeps hphase hafter => exact hc
  | ended hphase hend => exact List.mem_append_left _ hc
  | unlocked hphase href hquiet => exact hc

variable {run : List (Event π × State π)}

theorem commits_of_run (hrun : Path (Steps L) s run) : ∀ c ∈ s.commits, c ∈ (final s run).commits :=
  Path.invariant (P := fun t => ∀ c ∈ s.commits, c ∈ t.commits)
    (fun _ _ _ h hstep c hc => commits_of_acts (acts_of_next hstep) c (h c hc)) (fun _ hc => hc) hrun

theorem sound_run (hstart : Started s) (hrun : Path (Steps L) s run) (hname : NoCollision L (final s run).commits) :
    Sound L (final s run) := by
  refine Path.invariant (P := fun t => NoCollision L t.commits → Sound L t) (fun t e u h hstep hname => ?_)
    (fun _ => sound_of_started hstart) hrun hname
  have hacts := acts_of_next hstep
  exact (h (hname.mono (commits_of_acts hacts))).acts hname hacts

/-- **One holder.**  Of all processes one at most has a lease that is not over, and that lease is the one on the ref. -/
theorem one_holder (hstart : Started s) (hrun : Path (Steps L) s run) (hname : NoCollision L (final s run).commits) {p q : π}
    {lease lease' : V2CoordinationLease} (hp : ((final s run).phase p).lease? = some lease)
    (hq : ((final s run).phase q).lease? = some lease') (hforce : (final s run).now ≤ lease.notAfterUtcMs)
    (hforce' : (final s run).now ≤ lease'.notAfterUtcMs) :
    p = q ∧ (final s run).ref = some lease.leaseCommit := by
  have hsound := sound_run hstart hrun hname
  have hcurrent := (hsound.phase p).current hp hforce
  have hcurrent' := (hsound.phase q).current hq hforce'
  rw [hcurrent] at hcurrent'
  exact ⟨hsound.own p q lease lease' (made?_of_lease? hp) (made?_of_lease? hq) (Option.some.inj hcurrent'), hcurrent⟩

end

/-! ### Windows -/

section

variable {π : Type} {L : LeaseRuntime π} {s t : State π}

variable (L) in
/-- The second lease is the first, or comes after it on the ref. -/
def Leads (s : State π) : LeaseCommit → LeaseCommit → Prop :=
  Relation.ReflTransGen fun b c => b ∈ s.commits ∧ c ∈ s.commits ∧ Follows L b c

theorem Follows.names {b c : LeaseCommit} (h : Follows L b c) : Names L b c := by
  cases h with
  | begins hnames => exact hnames
  | releases hnames => exact hnames

theorem Follows.begins_after {b c : LeaseCommit} (h : Follows L b c) :
    b.signed.body.notBeforeUtcMs ≤ c.signed.body.notBeforeUtcMs := by
  cases h with
  | begins _ _ _ _ hbefore => exact hbefore
  | releases _ _ _ _ hbefore => exact hbefore.ge

/-- Leases begin one after the other. -/
theorem begins_in_order {b c : LeaseCommit} (h : Leads L s b c) :
    b.signed.body.notBeforeUtcMs ≤ c.signed.body.notBeforeUtcMs := by
  induction h with
  | refl => exact le_rfl
  | tail _ hstep ih => exact ih.trans hstep.2.2.begins_after

theorem not_releases_after_release {b c : LeaseCommit} (hb : b.signed.body.state = "released") (h : Follows L b c) :
    b.signed.body.notAfterUtcMs ≤ c.signed.body.notBeforeUtcMs := by
  cases h with
  | begins _ _ _ hreleased _ => exact hreleased hb
  | releases _ _ hof =>
    rw [hb] at hof
    exact absurd hof (by decide)

/-- What comes behind a successor of a lease begins when that lease has expired, or the successor is its release. -/
theorem Follows.disjoint {b k c : LeaseCommit} (hb : b.signed.body.state = "acquired")
    (hc : c.signed.body.state = "acquired") (hfollows : Follows L b k) (hrest : Leads L s k c) :
    b.signed.body.notAfterUtcMs < c.signed.body.notBeforeUtcMs ∨
      k.signed.body.state = "released" ∧ k.signed.body.tokenId = b.signed.body.tokenId ∧
        k.signed.body.notAfterUtcMs ≤ c.signed.body.notBeforeUtcMs := by
  cases hfollows with
  | begins _ hstate hover hreleased hbefore =>
    left
    exact (hover hb).trans_le (begins_in_order hrest)
  | releases _ hstate hof htoken _ =>
    right
    refine ⟨hstate, htoken, ?_⟩
    -- the release is not the later lease, and what follows it begins after it
    rcases Relation.ReflTransGen.cases_head hrest with rfl | ⟨m, ⟨-, -, hm⟩, hrest⟩
    · rw [hstate] at hc
      exact absurd hc (by decide)
    · exact (not_releases_after_release hstate hm).trans (begins_in_order hrest)

theorem Leads.mono {b c : LeaseCommit} (hcommits : ∀ d ∈ s.commits, d ∈ t.commits) (h : Leads L s b c) : Leads L t b c := by
  induction h with
  | refl => exact .refl
  | tail _ hstep ih => exact ih.tail ⟨hcommits _ hstep.1, hcommits _ hstep.2.1, hstep.2.2⟩

/-- A commit that names what the ref had follows it. -/
theorem Sound.follows_ref (hname : NoCollision L s.commits) (h : Sound L s) {b c : LeaseCommit} (hb : b ∈ s.commits)
    (hc : c ∈ s.commits) (hnames : c.signed.body.previousLeaseCommit = some (L.commitName b)) : Follows L b c := by
  obtain ⟨d, hd, hsame, hfollows⟩ := h.follows c hc _ hnames
  obtain rfl := hname d hd b hb hsame
  exact hfollows

end

section

variable {π : Type} [DecidableEq π] {L : LeaseRuntime π} {s t : State π}

/-- The ref moves only to what follows what it had. -/
theorem ref_of_acts (hname : NoCollision L s.commits) (h : Sound L s) (hacts : Acts L s t) {b : LeaseCommit}
    (hmem : b ∈ s.commits) (hb : s.ref = some (L.commitName b)) :
    ∃ c ∈ t.commits, t.ref = some (L.commitName c) ∧ (b = c ∨ Follows L b c) := by
  have hstays := commits_of_acts hacts b hmem
  cases hacts with
  | clock => exact ⟨b, hstays, hb, Or.inl rfl⟩
  | rests hquiet => exact ⟨b, hstays, hb, Or.inl rfl⟩
  | read => exact ⟨b, hstays, hb, Or.inl rfl⟩
  | made _ hfresh hoffer => exact ⟨b, hstays, hb, Or.inl rfl⟩
  | keeps hphase hafter => exact ⟨b, hstays, hb, Or.inl rfl⟩
  | ended hphase hend => exact ⟨b, hstays, hb, Or.inl rfl⟩
  | @pushed p a previous lease phase hphase href hafter =>
    have hp := h.phase p
    rw [hphase] at hp
    obtain ⟨⟨c, hc, -, q, rfl⟩, hdiffers, hprevious, -⟩ := hp
    refine ⟨c, hc, rfl, Or.inr ?_⟩
    have hprevious : c.signed.body.previousLeaseCommit = previous := hprevious
    rw [← href.resolve_right hdiffers, hb] at hprevious
    exact h.follows_ref hname hmem hc hprevious
  | @unlocked p lease commit phase hphase href hquiet =>
    have hp := h.phase p
    rw [hphase] at hp
    obtain ⟨-, c, hc, rfl, -, hprevious⟩ := hp
    refine ⟨c, hc, rfl, ?_⟩
    rw [hb] at href
    rcases href with href | href
    · right
      rw [← Option.some.inj href] at hprevious
      exact h.follows_ref hname hmem hc hprevious
    · left
      exact hname b hmem c hc (Option.some.inj href)

variable {run later : List (Event π × State π)}

theorem ref_of_run (h : Sound L s) (hrun : Path (Steps L) s run) (hname : NoCollision L (final s run).commits)
    {b : LeaseCommit} (hmem : b ∈ s.commits) (hb : s.ref = some (L.commitName b)) :
    ∃ c ∈ (final s run).commits, (final s run).ref = some (L.commitName c) ∧ Leads L (final s run) b c := by
  have hinv : NoCollision L (final s run).commits → Sound L (final s run) ∧
      ∃ c ∈ (final s run).commits, (final s run).ref = some (L.commitName c) ∧ Leads L (final s run) b c := by
    refine Path.invariant (P := fun t => NoCollision L t.commits → Sound L t ∧
      ∃ c ∈ t.commits, t.ref = some (L.commitName c) ∧ Leads L t b c) (fun t e u ht hstep hname => ?_)
      (fun _ => ⟨h, b, hmem, hb, .refl⟩) hrun
    have hacts := acts_of_next hstep
    have hbefore := hname.mono (commits_of_acts hacts)
    obtain ⟨hsound, c, hc, href, hbc⟩ := ht hbefore
    obtain ⟨d, hd, href', hcd⟩ := ref_of_acts hbefore hsound hacts hc href
    have hbc := hbc.mono (commits_of_acts hacts)
    refine ⟨hsound.acts hname hacts, d, hd, href', ?_⟩
    rcases hcd with rfl | hcd
    · exact hbc
    · exact hbc.tail ⟨commits_of_acts hacts c hc, hd, hcd⟩
  exact (hinv hname).2

/-- Where the ref has another commit in the end, it had a successor of the first one in between. -/
theorem successor_on_ref (h : Sound L s) (hrun : Path (Steps L) s run) (hname : NoCollision L (final s run).commits)
    {b c : LeaseCommit} (hmem : b ∈ s.commits) (hb : s.ref = some (L.commitName b)) (hc : c ∈ (final s run).commits)
    (href : (final s run).ref = some (L.commitName c)) (hdiffers : b ≠ c) :
    ∃ before k, before <+: run ∧ (final s before).ref = some (L.commitName k) ∧ k ∈ (final s run).commits ∧
      Follows L b k ∧ Leads L (final s run) k c := by
  induction run generalizing s with
  | nil => exact absurd (hname b hmem c hc (Option.some.inj (hb.symm.trans href))) hdiffers
  | cons e run ih =>
    have hacts := acts_of_next hrun.1
    have hnext : NoCollision L e.2.commits := hname.mono (commits_of_run hrun.2)
    have hsound := h.acts hnext hacts
    obtain ⟨k, hk, href', hfollows⟩ := ref_of_acts (hnext.mono (commits_of_acts hacts)) h hacts hmem hb
    rcases hfollows with rfl | hfollows
    · obtain ⟨before, k, hbefore, hrest⟩ := ih hsound hrun.2 hname hk href' hc href
      exact ⟨e :: before, k, List.cons_prefix_cons.mpr ⟨rfl, hbefore⟩, hrest⟩
    · obtain ⟨d, hd, href'', hleads⟩ := ref_of_run hsound hrun.2 hname hk href'
      obtain rfl := hname d hd c hc (Option.some.inj (href''.symm.trans href))
      exact ⟨[e], k, List.cons_prefix_cons.mpr ⟨rfl, List.nil_prefix⟩, href', commits_of_run hrun.2 k hk, hfollows, hleads⟩

/-- **Leases do not overlap.**  Of two leases that the ref had one after the other, the second begins after the first
expired, or the ref had its release in between and the second begins no earlier. -/
theorem windows_disjoint (hstart : Started s) (hrun : Path (Steps L) s (run ++ later))
    (hname : NoCollision L (final s (run ++ later)).commits) {b c : LeaseCommit} (hmem : b ∈ (final s run).commits)
    (hb : (final s run).ref = some (L.commitName b)) (hmem' : c ∈ (final s (run ++ later)).commits)
    (hc : (final s (run ++ later)).ref = some (L.commitName c)) (hdiffers : b ≠ c)
    (hbstate : b.signed.body.state = "acquired") (hcstate : c.signed.body.state = "acquired") :
    b.signed.body.notAfterUtcMs < c.signed.body.notBeforeUtcMs ∨
      ∃ k ∈ (final s (run ++ later)).commits, Names L b k ∧ k.signed.body.state = "released" ∧
        k.signed.body.tokenId = b.signed.body.tokenId ∧ k.signed.body.notAfterUtcMs ≤ c.signed.body.notBeforeUtcMs ∧
        ∃ before, before <+: later ∧ (final s (run ++ before)).ref = some (L.commitName k) := by
  obtain ⟨hrun, hlater⟩ := path_append.mp hrun
  rw [final_append] at hname hmem' hc ⊢
  have hsound := sound_run hstart hrun (hname.mono (commits_of_run hlater))
  obtain ⟨before, k, hbefore, href, hk, hfollows, hleads⟩ := successor_on_ref hsound hlater hname hmem hb hmem' hc hdiffers
  rcases hfollows.disjoint hbstate hcstate hleads with hover | ⟨hstate, htoken, hend⟩
  · exact Or.inl hover
  · refine Or.inr ⟨k, hk, hfollows.names, hstate, htoken, hend, before, hbefore, ?_⟩
    rw [final_append]
    exact href

end

end Leases

namespace Sample

open Leases Transition

/-! ### Two clients and one lease

The first client acquires the lease of the small archive and is not heard of again; when its lease has
expired the second client acquires one.
-/

/-- What the two replicas verified before they part. -/
def leasedArchive : StoreResult VerifiedV2Archive := (visitVerified partedRuntime partedRoot).map Prod.fst

def leasingClient (p : Bool) : Nat := if p then 2 else 1

/-- The lease of a client that begins at a time. -/
def sampleLease (p : Bool) (token : String) (time : Nat) (previous : Option String) : LeaseCommit where
  parents := previous.toList
  signed :=
    { body := ⟨1, "arc_sample", genesisHash, "archive", "arc_sample", token, client (leasingClient p), frontierId 2,
        "acquired", time, time + 10, previous⟩
      signature := signature (leasingClient p) }
  seconds := 0

def sampleCommitName (c : LeaseCommit) : String :=
  String.ofList (hexDigits 40 (c.signed.body.notBeforeUtcMs * 16 + c.signed.body.notAfterUtcMs))

def firstLease : LeaseCommit := sampleLease false "lease_a" 0 none

def secondLease : LeaseCommit := sampleLease true "lease_b" 11 (some (sampleCommitName firstLease))

def leasedRuntime : LeaseRuntime Bool where
  toStoreRuntime :=
    { partedRuntime with
      readLease := fun value =>
        match value with
        | .num "1" => .ok firstLease.signed
        | .num "2" => .ok secondLease.signed
        | _ => .error "no lease" }
  commitName := sampleCommitName
  leaseValue signed := if signed = firstLease.signed then .num "1" else .num "2"
  remote _ := "origin"
  activeOriginId p := client (leasingClient p)
  sign p _ := key (leasingClient p) ++ key (leasingClient p)

def leasedState : Leases.State Bool where
  now := 0
  commits := []
  ref := none
  phase _ := .idle

theorem leasedStarted : Leases.Started leasedState := ⟨rfl, rfl, fun _ => rfl⟩

def leasedEvents : List (Leases.Event Bool) :=
  [.acquire false 10 leasedArchive true, .query false, .offer false "a", .push false .answered, .tick 11,
    .acquire true 10 leasedArchive true, .query true, .offer true "b", .push true .answered]

/-- What the first client would push. -/
def offersFirst (archive : VerifiedV2Archive) : Bool :=
  decide (archive.acceptedFrontierHash = frontierId 2 ∧
    (offerLease leasedRuntime false [] ⟨archive, 10, 3⟩ none "lease_a" 0).toOption = some firstLease)

/-- The second client has the lease after the first, which expired. -/
def leasedTwice (run : List (Leases.Event Bool × Leases.State Bool)) : Bool :=
  decide (((final leasedState run).phase true).lease? = some (handedOut leasedRuntime true secondLease) ∧
    (final leasedState run).now = 11 ∧ (final leasedState run).commits = [firstLease, secondLease] ∧
    (final leasedState run).ref = some (sampleCommitName secondLease) ∧
    (final leasedState (run.take 5)).commits = [firstLease] ∧
    (final leasedState (run.take 5)).ref = some (sampleCommitName firstLease))

theorem leased_facts : leasedArchive.toOption.any offersFirst = true ∧
    (Transition.trace (Leases.next leasedRuntime) leasedState leasedEvents).any leasedTwice = true := by decide +kernel

theorem leased_run : ∃ run, Transition.trace (Leases.next leasedRuntime) leasedState leasedEvents = some run ∧
    ((final leasedState run).phase true).lease? = some (handedOut leasedRuntime true secondLease) ∧
    (final leasedState run).now = 11 ∧ (final leasedState run).commits = [firstLease, secondLease] ∧
    (final leasedState run).ref = some (sampleCommitName secondLease) ∧
    (final leasedState (run.take 5)).commits = [firstLease] ∧
    (final leasedState (run.take 5)).ref = some (sampleCommitName firstLease) := by
  obtain ⟨run, htrace, hfacts⟩ := (Option.any_eq_true _ _).mp leased_facts.2
  exact ⟨run, htrace, of_decide_eq_true hfacts⟩

theorem leased_names : Leases.NoCollision leasedRuntime [firstLease, secondLease] := by
  intro b hb c hc h
  have hdiffers : sampleCommitName firstLease ≠ sampleCommitName secondLease := by decide +kernel
  simp only [List.mem_cons, List.not_mem_nil, or_false] at hb hc
  rcases hb with rfl | rfl
  · rcases hc with rfl | rfl
    · rfl
    · exact absurd h hdiffers
  · rcases hc with rfl | rfl
    · exact absurd h.symm hdiffers
    · rfl

/-- The second client is the one holder. -/
theorem leased_one_holder : ∃ run : List (Leases.Event Bool × Leases.State Bool),
    (final leasedState run).ref = some (handedOut leasedRuntime true secondLease).leaseCommit := by
  obtain ⟨run, htrace, hlease, hnow, hcommits, -⟩ := leased_run
  have hforce : (final leasedState run).now ≤ (handedOut leasedRuntime true secondLease).notAfterUtcMs := by
    rw [hnow]
    decide
  obtain ⟨-, href⟩ := one_holder leasedStarted (Transition.path_trace htrace) (by rw [hcommits]; exact leased_names) hlease
    hlease hforce hforce
  exact ⟨run, href⟩

end Sample

end ArchiveLedger
