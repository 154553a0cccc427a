import ArchiveLedger.Retry.Ledger

/-!
# Attempts that are interrupted and retried

A client submits a list of observations in batches, may be interrupted after any of
them, and then starts over with batches of any other size, while other clients submit
observations about other paths (`Retrying`).  A batch that fails, or that an
interruption cuts off, commits nothing, so an interrupted attempt is the batches it
committed.

By `once_of_submit` the memo of the list's paths moves with the requests of the client
alone, so the library's `Passed` is an invariant of the session (`Session`), and the
attempt that reaches the end leaves the ledger of a single pass
(`retries_are_exactly_once`).
-/

namespace ArchiveLedger

open Relational Transition Once

/-! ### Lists of batches -/

/-- Batches in the order of their submission, each with the identifiers its new
objects get. -/
abbrev Calls := List ((Nat → String) × List CatalogObservation)

/-- The observations of all batches. -/
def Calls.observations (calls : Calls) : List CatalogObservation := calls.flatMap Prod.snd

/-- Each batch draws new identifiers where it is submitted. -/
def Calls.Fresh (c : Catalog) (calls : Calls) : Prop :=
  Admissible next UlidsFresh c (calls.map fun call => .observeBatch call.1 call.2)

/-- The outcomes of an attempt that no failure interrupts. -/
def observeAll (c : Catalog) : Calls → WriteResult (List ObservationOutcome × Catalog)
  | [] => .ok ([], c)
  | call :: rest => do
      let (outcomes, d) ← observeBatch call.1 c call.2
      let (more, e) ← observeAll d rest
      .ok (outcomes ++ more, e)

/-- The client is past `done` in its current attempt, which returned `outcomes`; `others`
is what other clients committed since the state `c`. -/
inductive Retrying (observations : List CatalogObservation) (c : Catalog) :
    List CatalogObservation → List ObservationOutcome → List CatalogObservation → Catalog → Prop
  | start : Retrying observations c [] [] [] c
  | batch {done batch others : List CatalogObservation} {outcomes returned : List ObservationOutcome}
      {d e : Catalog} {newIds : Nat → String} (prior : Retrying observations c done outcomes others d)
      (next : done ++ batch <+: observations) (fresh : UlidsFresh d (.observeBatch newIds batch))
      (committed : observeBatch newIds d batch = .ok (returned, e)) :
      Retrying observations c (done ++ batch) (outcomes ++ returned) others e
  | interrupted {done others : List CatalogObservation} {outcomes : List ObservationOutcome}
      {d : Catalog} (prior : Retrying observations c done outcomes others d) :
      Retrying observations c [] [] others d
  | other {done batch others : List CatalogObservation} {outcomes returned : List ObservationOutcome}
      {d e : Catalog} {newIds : Nat → String} (prior : Retrying observations c done outcomes others d)
      (disjoint : ∀ o ∈ batch, ∀ o' ∈ observations, observedPath o ≠ observedPath o')
      (fresh : UlidsFresh d (.observeBatch newIds batch))
      (committed : observeBatch newIds d batch = .ok (returned, e)) :
      Retrying observations c done outcomes (others ++ batch) e

/-! ### What every batch keeps -/

/-- What every submission preserves, a batch preserves. -/
theorem observeBatch_rule {P : List CatalogObservation → List ObservationOutcome → Catalog → Prop}
    (hsubmit : ∀ done outcomes c newId o s, P done outcomes c → c.objects.get? newId = none →
      submit newId c o = .ok s → P (done ++ [o]) (outcomes ++ [s.outcome]) s.tx)
    (hbump : ∀ done outcomes c, P done outcomes c → P done outcomes c.bumpRevision)
    {done batch : List CatalogObservation} {outcomes returned : List ObservationOutcome}
    {c d : Catalog} {newIds : Nat → String} (hc : P done outcomes c)
    (hfresh : UlidsFresh c (.observeBatch newIds batch))
    (h : observeBatch newIds c batch = .ok (returned, d)) :
    P (done ++ batch) (outcomes ++ returned) d := by
  have hloop : ∀ batch newIds done outcomes returned changed c d, P done outcomes c →
      Function.Injective newIds → (∀ n, c.objects.get? (newIds n) = none) →
      observeLoop newIds c batch = .ok (returned, changed, d) →
      P (done ++ batch) (outcomes ++ returned) d := by
    intro batch
    induction batch with
    | nil =>
      intro newIds done outcomes returned changed c d hc _ _ h
      cases h
      simpa using hc
    | cons o batch ih =>
      intro newIds done outcomes returned changed c d hc hinj hnew h
      obtain ⟨s, more, changedMore, hs, hmore, rfl, -⟩ := observeLoop_cons.mp h
      have hfirst := hsubmit done outcomes c (newIds 0) o s hc (hnew 0) hs
      have hrest := ih (fun n => newIds (n + 1)) _ _ more changedMore s.tx d hfirst
        (fun m n heq => Nat.succ_injective (hinj heq))
        (fun n => unused_of_submit hs (fun heq => Nat.succ_ne_zero n (hinj heq)) (hnew (n + 1))) hmore
      simpa using hrest
  obtain ⟨changed, tx, hbatch, rfl⟩ := observeBatch_eq_ok.mp h
  have htx := hloop batch newIds done outcomes returned changed c tx hc hfresh.1 hfresh.2 hbatch
  cases changed with
  | false => exact htx
  | true => exact hbump _ _ _ htx

/-- When every submission of a list succeeds and preserves `P`, so does a batch of it. -/
theorem observeBatch_total {P : List CatalogObservation → List ObservationOutcome → Catalog → Prop}
    {observations : List CatalogObservation}
    (hsubmit : ∀ done outcomes c newId o, P done outcomes c → c.objects.get? newId = none →
      done ++ [o] <+: observations →
      ∃ s, submit newId c o = .ok s ∧ P (done ++ [o]) (outcomes ++ [s.outcome]) s.tx)
    (hbump : ∀ done outcomes c, P done outcomes c → P done outcomes c.bumpRevision)
    {done batch : List CatalogObservation} {outcomes : List ObservationOutcome} {c : Catalog}
    {newIds : Nat → String} (hc : P done outcomes c)
    (hfresh : UlidsFresh c (.observeBatch newIds batch)) (hnext : done ++ batch <+: observations) :
    ∃ returned d, observeBatch newIds c batch = .ok (returned, d) ∧
      P (done ++ batch) (outcomes ++ returned) d := by
  have hloop : ∀ batch newIds done outcomes c, P done outcomes c → Function.Injective newIds →
      (∀ n, c.objects.get? (newIds n) = none) → done ++ batch <+: observations →
      ∃ returned changed d, observeLoop newIds c batch = .ok (returned, changed, d) ∧
        P (done ++ batch) (outcomes ++ returned) d := by
    intro batch
    induction batch with
    | nil =>
      intro newIds done outcomes c hc _ _ _
      exact ⟨[], false, c, rfl, by simpa using hc⟩
    | cons o batch ih =>
      intro newIds done outcomes c hc hinj hnew hnext
      have happend : done ++ o :: batch = done ++ [o] ++ batch := by simp
      rw [happend] at hnext ⊢
      obtain ⟨s, hs, hfirst⟩ := hsubmit done outcomes c (newIds 0) o hc (hnew 0)
        ((List.prefix_append _ _).trans hnext)
      obtain ⟨more, changed, d, hmore, hd⟩ := ih (fun n => newIds (n + 1)) _ _ s.tx hfirst
        (fun m n heq => Nat.succ_injective (hinj heq))
        (fun n => unused_of_submit hs (fun heq => Nat.succ_ne_zero n (hinj heq)) (hnew (n + 1))) hnext
      refine ⟨s.outcome :: more, s.fresh || changed, d,
        observeLoop_cons.mpr ⟨s, more, changed, hs, hmore, rfl, rfl⟩, ?_⟩
      simpa using hd
  obtain ⟨returned, changed, tx, hbatch, htx⟩ :=
    hloop batch newIds done outcomes c hc hfresh.1 hfresh.2 hnext
  refine ⟨returned, _, observeBatch_eq_ok.mpr ⟨changed, tx, hbatch, rfl⟩, ?_⟩
  cases changed with
  | false => exact htx
  | true => exact hbump _ _ _ htx

/-- And so do the batches of the list one after the other. -/
theorem observeAll_total {P : List CatalogObservation → List ObservationOutcome → Catalog → Prop}
    {observations : List CatalogObservation}
    (hsubmit : ∀ done outcomes c newId o, P done outcomes c → c.objects.get? newId = none →
      done ++ [o] <+: observations →
      ∃ s, submit newId c o = .ok s ∧ P (done ++ [o]) (outcomes ++ [s.outcome]) s.tx)
    (hbump : ∀ done outcomes c, P done outcomes c → P done outcomes c.bumpRevision)
    {done : List CatalogObservation} {outcomes : List ObservationOutcome} {c : Catalog}
    {calls : Calls} (hc : P done outcomes c) (hfresh : calls.Fresh c)
    (hnext : done ++ calls.observations <+: observations) :
    ∃ returned d, observeAll c calls = .ok (returned, d) ∧
      P (done ++ calls.observations) (outcomes ++ returned) d := by
  induction calls generalizing done outcomes c with
  | nil => exact ⟨[], c, rfl, by simpa [Calls.observations] using hc⟩
  | cons call calls ih =>
    have happend : done ++ Calls.observations (call :: calls) =
        done ++ call.2 ++ Calls.observations calls := by simp [Calls.observations]
    rw [happend] at hnext ⊢
    obtain ⟨returned, d, hbatch, hd⟩ := observeBatch_total hsubmit hbump hc hfresh.1
      ((List.prefix_append _ _).trans hnext)
    have hexec : next c (.observeBatch call.1 call.2) = d :=
      next_of_exec (exec_observeBatch.mpr ⟨returned, hbatch⟩)
    have hrest : Calls.Fresh d calls := hexec ▸ hfresh.2
    obtain ⟨more, e, hmore, he⟩ := ih hd hrest hnext
    refine ⟨returned ++ more, e, ?_, by rwa [List.append_assoc outcomes] at he⟩
    rw [observeAll, hbatch]
    change (observeAll d calls >>= _) = _
    rw [hmore]
    rfl

/-! ### What observations leave alone -/

/-- The catalog later, after observations only: the admission of observations is the same,
and stored outcomes are still there. -/
structure Grows (c d : Catalog) : Prop where
  collections : d.collections = c.collections
  locations : d.locations = c.locations
  catalogJobs : d.catalogJobs = c.catalogJobs
  operations : ∀ key w, c.catalogWriteOperations.get? key = some w →
    d.catalogWriteOperations.get? key = some w

theorem Grows.refl (c : Catalog) : Grows c c := ⟨rfl, rfl, rfl, fun _ _ h => h⟩

theorem Grows.trans {c d e : Catalog} (h : Grows c d) (h' : Grows d e) : Grows c e :=
  ⟨h'.collections.trans h.collections, h'.locations.trans h.locations,
    h'.catalogJobs.trans h.catalogJobs, fun key w hw => h'.operations key w (h.operations key w hw)⟩

theorem Grows.requireObservationJob {c d : Catalog} (h : Grows c d) (o : CatalogObservation) :
    requireObservationJob d o = requireObservationJob c o := by
  unfold ArchiveLedger.requireObservationJob requireRunningJob requireJobScope
  rw [h.catalogJobs]

theorem Grows.admitObservation {c d : Catalog} (h : Grows c d) :
    admitObservation d = admitObservation c := by
  funext o
  unfold ArchiveLedger.admitObservation scopeActive
  rw [h.collections, h.locations]
  simp only [h.requireObservationJob]

theorem grows_submit {newId : String} {c : Catalog} {o : CatalogObservation} {s : Submission}
    (h : submit newId c o = .ok s) : Grows c s.tx := by
  have hoperations : ∀ key w, c.catalogWriteOperations.get? key = some w →
      s.tx.catalogWriteOperations.get? key = some w := by
    intro key w hw
    rw [operations_submit h, if_neg, hw]
    rintro ⟨hfresh, hkey⟩
    rcases submit_eq_ok.mp h with ⟨_, _, -, -, -, -, rfl⟩ | ⟨hnone, -⟩
    · cases hfresh
    · rw [hkey, Option.bind_some, hw] at hnone
      cases hnone
  rcases submit_eq_ok.mp h with ⟨_, _, -, -, -, -, rfl⟩ | ⟨-, path, time, -, hstore, -⟩
  · exact ⟨rfl, rfl, rfl, hoperations⟩
  · rcases storeOutcome_eq_ok.mp hstore with ⟨-, htx⟩ | ⟨key, t, -, -, htx⟩
    · exact ⟨by rw [htx]; rfl, by rw [htx]; rfl, by rw [htx]; rfl, hoperations⟩
    · exact ⟨by rw [htx]; rfl, by rw [htx]; rfl, by rw [htx]; rfl, hoperations⟩

/-- What a submission that succeeds found: the job may be named, the path is valid, and
the key holds no other request. -/
structure Served (c : Catalog) (o : CatalogObservation) : Prop where
  job : requireObservationJob c o = .ok ()
  path : ∃ path, observedPath o = some path
  own : ∀ key w, o.operationKey = some key → c.catalogWriteOperations.get? key = some w →
    w.request = o

theorem served_of_submit {newId : String} {c : Catalog} {o : CatalogObservation} {s : Submission}
    (hlinked : Linked c) (h : submit newId c o = .ok s) : Served c o := by
  rcases submit_eq_ok.mp h with ⟨key, w, hkey, hw, rfl, hjob, -⟩ | ⟨hnone, path, time, hadm, -⟩
  · obtain ⟨r, -, -, hpath⟩ := hlinked.operations key w hw
    refine ⟨hjob, ⟨r.path, hpath⟩, fun key' w' hkey' hw' => ?_⟩
    obtain rfl : key = key' := Option.some.inj (hkey.symm.trans hkey')
    rw [Option.some.inj (hw'.symm.trans hw)]
  · obtain ⟨hpath, -, -, -, -, hjob⟩ := admitObservation_eq_ok.mp hadm.admitted
    refine ⟨hjob, ⟨path, hpath⟩, fun key w hkey hw => ?_⟩
    rw [hkey, Option.bind_some, hw] at hnone
    cases hnone

theorem Served.before {c d : Catalog} {o : CatalogObservation} (h : Grows c d) (hd : Served d o) :
    Served c o :=
  ⟨(h.requireObservationJob o).symm.trans hd.job, hd.path,
    fun key w hkey hw => hd.own key w hkey (h.operations key w hw)⟩

/-- The outcome is stored under the key of the observation. -/
def Stored (c : Catalog) (o : CatalogObservation) (outcome : ObservationOutcome) : Prop :=
  ∃ key, o.operationKey = some key ∧ c.catalogWriteOperations.get? key = some ⟨key, o, outcome⟩

theorem Stored.grows {c d : Catalog} {o : CatalogObservation} {outcome : ObservationOutcome}
    (hc : Stored c o outcome) (h : Grows c d) : Stored d o outcome := by
  obtain ⟨key, hkey, hw⟩ := hc
  exact ⟨key, hkey, h.operations key _ hw⟩

theorem stored_of_submit {newId : String} {c : Catalog} {o : CatalogObservation} {s : Submission}
    (hkey : o.operationKey.isSome) (h : submit newId c o = .ok s) : Stored s.tx o s.outcome := by
  obtain ⟨key, hkey⟩ := Option.isSome_iff_exists.mp hkey
  refine ⟨key, hkey, ?_⟩
  have hget := operations_submit h key
  rcases submit_eq_ok.mp h with ⟨key', w, hkey', hw, hreq, -, rfl⟩ | ⟨-, _, _, -, -, -, hfresh⟩
  · obtain rfl : key = key' := Option.some.inj (hkey.symm.trans hkey')
    have hwkey : w.operationKey = key := Table.key_of_get? hw
    subst hreq hwkey
    exact hw
  · rwa [if_pos ⟨hfresh, hkey⟩] at hget

/-! ### The invariant of a session -/

/-- What holds while the client is past `done`. -/
structure Session (observations : List CatalogObservation) (c : Catalog)
    (done : List CatalogObservation) (outcomes : List ObservationOutcome)
    (others : List CatalogObservation) (d : Catalog) : Prop where
  linked : Linked d
  grows : Grows c d
  served : ∀ o ∈ done, Served c o
  othersServed : ∀ o ∈ others, Served c o
  stored : List.Forall₂ (Stored d) done outcomes
  passed : ∀ Q, (∀ o ∈ observations, Within Q o) → (∀ o ∈ others, Outside Q o) →
    Passed (Ledger.observe (admitObservation c)) CatalogObservation.operationKey (memoOf Q c)
      observations done (outcomes.map ObservationOutcome.anonymous) (memoOf Q d)
  othersPassed : ∀ Q, (∀ o ∈ observations, Outside Q o) → (∀ o ∈ others, Within Q o) →
    ∃ returned, onceAll (Ledger.observe (admitObservation c)) CatalogObservation.operationKey
      (memoOf Q c) others = some (memoOf Q d, returned)

section Sessions

variable {observations done others : List CatalogObservation} {outcomes : List ObservationOutcome}
  {c d : Catalog}

theorem session_start (hlinked : Linked c) (observations : List CatalogObservation) :
    Session observations c [] [] [] c where
  linked := hlinked
  grows := .refl c
  served _ ho := absurd ho List.not_mem_nil
  othersServed _ ho := absurd ho List.not_mem_nil
  stored := .nil
  passed Q _ _ := passed_start (memoOf Q c) observations
  othersPassed _ _ _ := ⟨[], rfl⟩

theorem Session.bump (h : Session observations c done outcomes others d) :
    Session observations c done outcomes others d.bumpRevision where
  linked := ⟨h.linked.files, h.linked.history, h.linked.operations⟩
  grows := ⟨h.grows.collections, h.grows.locations, h.grows.catalogJobs, h.grows.operations⟩
  served := h.served
  othersServed := h.othersServed
  stored := h.stored
  passed := h.passed
  othersPassed := h.othersPassed

theorem Session.interrupted (h : Session observations c done outcomes others d) :
    Session observations c [] [] others d where
  linked := h.linked
  grows := h.grows
  served _ ho := absurd ho List.not_mem_nil
  othersServed := h.othersServed
  stored := .nil
  passed Q hin hout := (h.passed Q hin hout).restart
  othersPassed := h.othersPassed

variable {newId : String} {o : CatalogObservation} {s : Submission}

/-- The admission checks are those of the first state. -/
theorem Session.request_eq (h : Session observations c done outcomes others d)
    (m : Memo Ledger String CatalogObservation ObservationOutcome) (o : CatalogObservation) :
    request d m o = request c m o := by
  rw [request, request, h.grows.admitObservation]

/-- The client submits the next observation of its list. -/
theorem Session.submit (hkeys : ∀ o ∈ observations, o.operationKey.isSome)
    (h : Session observations c done outcomes others d) (hnext : done ++ [o] <+: observations)
    (hnew : d.objects.get? newId = none) (hs : ArchiveLedger.submit newId d o = .ok s) :
    Session observations c (done ++ [o]) (outcomes ++ [s.outcome]) others s.tx := by
  have hmem : o ∈ observations := hnext.subset (by simp)
  have hgrows := grows_submit hs
  refine ⟨?_, h.grows.trans hgrows, ?_, h.othersServed, ?_, fun Q hin hout => ?_,
    fun Q hout hin => ?_⟩
  · exact linked_step (e := .submitted newId o s.outcome s.fresh) h.linked hs hnew
  · intro o' ho'
    rcases List.mem_append.mp ho' with ho' | ho'
    · exact h.served o' ho'
    · rw [List.mem_singleton.mp ho']
      exact (served_of_submit h.linked hs).before h.grows
  · refine List.rel_append (h.stored.imp fun _ _ hst => hst.grows hgrows) ?_
    exact .cons (stored_of_submit (hkeys o hmem) hs) .nil
  · have hrequest := once_of_submit h.linked hnew (hin o hmem) hs
    rw [h.request_eq] at hrequest
    rw [List.map_append]
    exact (h.passed Q hin hout).once hkeys hnext hrequest
  · rw [memoOf_submit_of_outside h.linked hnew (hout o hmem) hs]
    exact h.othersPassed Q hout hin

/-- Another client submits an observation. -/
theorem Session.other (h : Session observations c done outcomes others d)
    (hnew : d.objects.get? newId = none) (hs : ArchiveLedger.submit newId d o = .ok s) :
    Session observations c done outcomes (others ++ [o]) s.tx := by
  have hgrows := grows_submit hs
  refine ⟨?_, h.grows.trans hgrows, h.served, ?_, h.stored.imp fun _ _ hst => hst.grows hgrows,
    fun Q hin hout => ?_, fun Q hout hin => ?_⟩
  · exact linked_step (e := .submitted newId o s.outcome s.fresh) h.linked hs hnew
  · intro o' ho'
    rcases List.mem_append.mp ho' with ho' | ho'
    · exact h.othersServed o' ho'
    · rw [List.mem_singleton.mp ho']
      exact (served_of_submit h.linked hs).before h.grows
  · rw [memoOf_submit_of_outside h.linked hnew (hout o (by simp)) hs]
    exact h.passed Q hin fun o' ho' => hout o' (List.mem_append_left _ ho')
  · obtain ⟨returned, hpass⟩ := h.othersPassed Q hout fun o' ho' =>
      hin o' (List.mem_append_left _ ho')
    have hrequest := once_of_submit h.linked hnew (hin o (by simp)) hs
    rw [h.request_eq] at hrequest
    exact ⟨_, onceAll_concat hpass hrequest⟩

/-- Every moment of a session meets the invariant. -/
theorem session_of_retrying (hlinked : Linked c) (hkeys : ∀ o ∈ observations, o.operationKey.isSome)
    (h : Retrying observations c done outcomes others d) :
    Session observations c done outcomes others d := by
  induction h with
  | start => exact session_start hlinked observations
  | batch prior hnext hfresh hbatch ih =>
    refine observeBatch_rule (P := fun done outcomes d => done <+: observations →
      Session observations c done outcomes _ d) ?_ ?_ (fun _ => ih) hfresh hbatch hnext
    · exact fun done outcomes d newId o s hd hnew hs hnext =>
        (hd ((List.prefix_append _ _).trans hnext)).submit hkeys hnext hnew hs
    · exact fun done outcomes d hd hnext => (hd hnext).bump
  | interrupted prior ih => exact ih.interrupted
  | other prior _ hfresh hbatch ih =>
    refine @observeBatch_rule (fun others _ d => Session observations c _ _ others d) ?_ ?_ _ _ [] _
      _ _ _ ih hfresh hbatch
    · exact fun others _ d newId o s hd hnew hs => hd.other hnew hs
    · exact fun others _ d hd => hd.bump

end Sessions

/-! ### Uninterrupted passes -/

/-- What holds while a list about the paths of `Q` is submitted without interruption. -/
structure Passing (Q : ObjectPath → Bool) (observations : List CatalogObservation) (c : Catalog)
    (done : List CatalogObservation) (outcomes : List ObservationOutcome) (d : Catalog) : Prop where
  linked : Linked d
  grows : Grows c d
  own : ∀ o ∈ observations, ∀ key w, o.operationKey = some key →
    d.catalogWriteOperations.get? key = some w → (observedPath w.request).any Q = true
  stored : (∀ o ∈ observations, o.operationKey.isSome) → List.Forall₂ (Stored d) done outcomes
  passed : onceAll (Ledger.observe (admitObservation c)) CatalogObservation.operationKey (memoOf Q c)
    done = some (memoOf Q d, outcomes.map ObservationOutcome.anonymous)

section Passes

variable {Q : ObjectPath → Bool} {observations done : List CatalogObservation}
  {outcomes : List ObservationOutcome} {c d : Catalog}

theorem passing_start (hlinked : Linked c) (hserved : ∀ o ∈ observations, Served c o)
    (hin : ∀ o ∈ observations, Within Q o) : Passing Q observations c [] [] c where
  linked := hlinked
  grows := .refl c
  own o ho key w hkey hw := by
    obtain ⟨path, hpath⟩ := (hserved o ho).path
    rw [(hserved o ho).own key w hkey hw, hpath, Option.any_some]
    exact hin o ho path hpath
  stored _ := .nil
  passed := rfl

theorem Passing.bump (h : Passing Q observations c done outcomes d) :
    Passing Q observations c done outcomes d.bumpRevision where
  linked := ⟨h.linked.files, h.linked.history, h.linked.operations⟩
  grows := ⟨h.grows.collections, h.grows.locations, h.grows.catalogJobs, h.grows.operations⟩
  own := h.own
  stored := h.stored
  passed := h.passed

/-- The next submission succeeds where the memo serves the whole list. -/
theorem Passing.submit (hserved : ∀ o ∈ observations, Served c o)
    (hin : ∀ o ∈ observations, Within Q o)
    {m : Memo Ledger String CatalogObservation ObservationOutcome} {os : List ObservationOutcome}
    (hall : onceAll (Ledger.observe (admitObservation c)) CatalogObservation.operationKey (memoOf Q c)
      observations = some (m, os))
    (h : Passing Q observations c done outcomes d) {newId : String} {o : CatalogObservation}
    (hnew : d.objects.get? newId = none) (hnext : done ++ [o] <+: observations) :
    ∃ s, ArchiveLedger.submit newId d o = .ok s ∧
      Passing Q observations c (done ++ [o]) (outcomes ++ [s.outcome]) s.tx := by
  have hmem : o ∈ observations := hnext.subset (by simp)
  obtain ⟨rest, hrest⟩ := hnext
  rw [List.append_assoc] at hrest
  rw [← hrest] at hall
  obtain ⟨m₁, first, more, hfirst, hmore, -⟩ := onceAll_append.mp hall
  obtain ⟨rfl, -⟩ := Prod.mk.inj (Option.some.inj (hfirst.symm.trans h.passed))
  obtain ⟨m₂, outcome, later, hrequest, -, -⟩ := onceAll_cons.mp hmore
  have hadmission := h.grows.admitObservation
  have hserve : request d (memoOf Q d) o = some (m₂, outcome) := by
    rw [request, hadmission]
    exact hrequest
  obtain ⟨s, hs⟩ := submit_of_once h.linked hnew (hin o hmem)
    ((h.grows.requireObservationJob o).trans (hserved o hmem).job) (h.own o hmem) hserve
  have hgrows := grows_submit hs
  refine ⟨s, hs, ?_, h.grows.trans hgrows, ?_, fun hkeys => ?_, ?_⟩
  · exact linked_step (e := .submitted newId o s.outcome s.fresh) h.linked hs hnew
  · intro o' ho' key w hkey hw
    rw [operations_submit hs] at hw
    split at hw
    · cases hw
      obtain ⟨path, hpath⟩ := (hserved o hmem).path
      rw [hpath, Option.any_some]
      exact hin o hmem path hpath
    · exact h.own o' ho' key w hkey hw
  · refine List.rel_append ((h.stored hkeys).imp fun _ _ hst => hst.grows hgrows) ?_
    exact .cons (stored_of_submit (hkeys o hmem) hs) .nil
  · have hdone := once_of_submit h.linked hnew (hin o hmem) hs
    rw [request, hadmission] at hdone
    rw [List.map_append]
    exact onceAll_concat h.passed hdone

/-- A list the memo serves is committed by every uninterrupted pass over it. -/
theorem observeAll_of_onceAll (hlinked : Linked c) (hserved : ∀ o ∈ observations, Served c o)
    (hin : ∀ o ∈ observations, Within Q o)
    {m : Memo Ledger String CatalogObservation ObservationOutcome} {os : List ObservationOutcome}
    (hall : onceAll (Ledger.observe (admitObservation c)) CatalogObservation.operationKey (memoOf Q c)
      observations = some (m, os)) {calls : Calls} (hcalls : calls.observations = observations)
    (hfresh : calls.Fresh c) :
    ∃ returned d, observeAll c calls = .ok (returned, d) ∧
      Passing Q observations c observations returned d ∧ memoOf Q d = m ∧
      returned.map ObservationOutcome.anonymous = os := by
  obtain ⟨returned, d, hcommitted, hd⟩ := observeAll_total
    (P := fun done outcomes d => Passing Q observations c done outcomes d)
    (fun _ _ _ _ _ h hnew hnext => h.submit hserved hin hall hnew hnext) (fun _ _ _ h => h.bump)
    (passing_start hlinked hserved hin) hfresh
    (by simp [hcalls])
  rw [List.nil_append, List.nil_append, hcalls] at hd
  have hsame := hd.passed
  rw [hall, Option.some.injEq, Prod.mk.injEq] at hsame
  exact ⟨returned, d, hcommitted, hd, hsame.1.symm, hsame.2.symm⟩

end Passes

/-! ### Resubmissions -/

/-- A batch whose keys are all stored writes the coverage of scans and nothing else. -/
theorem observeBatch_of_known {newIds : Nat → String} {c d : Catalog}
    {batch : List CatalogObservation} {returned : List ObservationOutcome}
    (hkeys : ∀ o ∈ batch, ∃ key, o.operationKey = some key ∧
      (c.catalogWriteOperations.get? key).isSome)
    (h : observeBatch newIds c batch = .ok (returned, d)) :
    ∃ seen, d = { c with catalogScanSeen := seen } := by
  have hloop : ∀ batch newIds c returned changed d, (∀ o ∈ batch, ∃ key, o.operationKey = some key ∧
      (c.catalogWriteOperations.get? key).isSome) →
      observeLoop newIds c batch = .ok (returned, changed, d) →
      changed = false ∧ ∃ seen, d = { c with catalogScanSeen := seen } := by
    intro batch
    induction batch with
    | nil =>
      intro newIds c returned changed d _ h
      cases h
      exact ⟨rfl, c.catalogScanSeen, rfl⟩
    | cons o batch ih =>
      intro newIds c returned changed d hkeys h
      obtain ⟨s, more, changedMore, hs, hmore, -, rfl⟩ := observeLoop_cons.mp h
      obtain ⟨key, hkey, hstored⟩ := hkeys o List.mem_cons_self
      rcases submit_eq_ok.mp hs with ⟨key', w, -, -, -, -, rfl⟩ | ⟨hnone, -⟩
      · obtain ⟨rfl, seen, rfl⟩ := ih (fun n => newIds (n + 1)) { c with
            catalogScanSeen := markJobObject c.catalogScanSeen o.jobId w.outcome.objectId }
          more changedMore d (fun o' ho' => hkeys o' (List.mem_cons_of_mem o ho')) hmore
        exact ⟨rfl, seen, rfl⟩
      · rw [hkey, Option.bind_some] at hnone
        rw [hnone] at hstored
        cases hstored
  obtain ⟨changed, tx, hbatch, rfl⟩ := observeBatch_eq_ok.mp h
  obtain ⟨rfl, seen, rfl⟩ := hloop batch newIds c returned changed tx hkeys hbatch
  exact ⟨seen, rfl⟩

/-- A batch whose outcomes are all stored is served with them. -/
theorem observeBatch_of_stored (newIds : Nat → String) {c : Catalog}
    {batch : List CatalogObservation} {outcomes : List ObservationOutcome}
    (hstored : List.Forall₂ (Stored c) batch outcomes)
    (hjobs : ∀ o ∈ batch, requireObservationJob c o = .ok ()) :
    ∃ seen, observeBatch newIds c batch = .ok (outcomes, { c with catalogScanSeen := seen }) := by
  have hloop : ∀ newIds before, ∃ seen, observeLoop newIds { c with catalogScanSeen := before } batch =
      .ok (outcomes, false, { c with catalogScanSeen := seen }) := by
    induction hstored with
    | nil => exact fun _ before => ⟨before, rfl⟩
    | @cons o outcome batch outcomes ho hrest ih =>
      intro newIds before
      obtain ⟨key, hkey, hw⟩ := ho
      have hs : submit (newIds 0) { c with catalogScanSeen := before } o = .ok ⟨outcome, false, { c with
          catalogScanSeen := markJobObject before o.jobId outcome.objectId }⟩ :=
        submit_eq_ok.mpr (Or.inl ⟨key, _, hkey, hw, rfl, hjobs o List.mem_cons_self, rfl⟩)
      obtain ⟨seen, hmore⟩ := ih (fun o' ho' => hjobs o' (List.mem_cons_of_mem o ho'))
        (fun n => newIds (n + 1)) (markJobObject before o.jobId outcome.objectId)
      exact ⟨seen, observeLoop_cons.mpr ⟨_, outcomes, false, hs, hmore, rfl, rfl⟩⟩
  obtain ⟨seen, hloop⟩ := hloop newIds c.catalogScanSeen
  exact ⟨seen, observeBatch_eq_ok.mpr ⟨false, _, hloop, rfl⟩⟩

/-- The list again, in any batches: the same outcomes, and nothing but coverage is written. -/
theorem observeAll_of_stored {c : Catalog} {calls : Calls} {outcomes : List ObservationOutcome}
    (hstored : List.Forall₂ (Stored c) calls.observations outcomes)
    (hjobs : ∀ o ∈ calls.observations, requireObservationJob c o = .ok ()) :
    ∃ seen, observeAll c calls = .ok (outcomes, { c with catalogScanSeen := seen }) := by
  have hcalls : ∀ before, ∃ seen, observeAll { c with catalogScanSeen := before } calls =
      .ok (outcomes, { c with catalogScanSeen := seen }) := by
    induction calls generalizing outcomes with
    | nil =>
      intro before
      cases hstored
      exact ⟨before, rfl⟩
    | cons call calls ih =>
      intro before
      have happend : Calls.observations (call :: calls) = call.2 ++ Calls.observations calls := rfl
      rw [happend] at hstored hjobs
      have hfirst := List.forall₂_take_append outcomes call.2 _ hstored.flip
      have hrest := List.forall₂_drop_append outcomes call.2 _ hstored.flip
      obtain ⟨seen, hbatch⟩ := @observeBatch_of_stored call.1 { c with catalogScanSeen := before }
        call.2 (outcomes.take call.2.length) hfirst.flip
        (fun o ho => hjobs o (List.mem_append_left _ ho))
      obtain ⟨seen', hmore⟩ := ih hrest.flip (fun o ho => hjobs o (List.mem_append_right _ ho)) seen
      refine ⟨seen', ?_⟩
      rw [observeAll, hbatch]
      change (observeAll { c with catalogScanSeen := seen } calls >>= _) = _
      rw [hmore]
      exact congrArg (fun os => Except.ok (os, _)) (List.take_append_drop call.2.length outcomes)
  exact hcalls c.catalogScanSeen

/-! ### Exactly once -/

/-- Returned outcomes, each with the path of its object for the identifier. -/
def named (c : Catalog) (outcomes : List ObservationOutcome) :
    List (Option ObjectPath × ObservationOutcome) :=
  outcomes.map fun outcome => (pathOf c outcome.objectId, outcome.anonymous)

/-- The paths that no observation of the list is about. -/
def untouched (observations : List CatalogObservation) (path : ObjectPath) : Bool :=
  observations.all fun o => observedPath o ≠ some path

theorem outside_untouched {observations : List CatalogObservation} {o : CatalogObservation}
    (ho : o ∈ observations) : Outside (untouched observations) o := by
  intro path hpath
  rw [untouched, List.all_eq_false]
  exact ⟨o, ho, by simp [hpath]⟩

theorem within_untouched {observations : List CatalogObservation} {o : CatalogObservation}
    (h : ∀ o' ∈ observations, observedPath o' ≠ observedPath o) :
    Within (untouched observations) o := by
  intro path hpath
  rw [untouched, List.all_eq_true]
  intro o' ho'
  rw [← hpath]
  exact decide_eq_true (h o' ho')

/-- A stored outcome names the object at the path of its request. -/
theorem named_of_stored {c : Catalog} (hlinked : Linked c) {observations : List CatalogObservation}
    {outcomes : List ObservationOutcome} (h : List.Forall₂ (Stored c) observations outcomes) :
    named c outcomes =
      List.zip (observations.map observedPath) (outcomes.map ObservationOutcome.anonymous) := by
  induction h with
  | nil => rfl
  | @cons o outcome observations outcomes ho hrest ih =>
    obtain ⟨key, -, hw⟩ := ho
    obtain ⟨r, hr, hid, hpath⟩ := hlinked.operations key _ hw
    have hget : c.objects.get? r.objectId = some r := Table.get?_of_mem hr
    have hfirst : pathOf c outcome.objectId = observedPath o := by
      rw [pathOf, show outcome.objectId = r.objectId from hid.symm, hget]
      exact hpath.symm
    rw [named, List.map_cons, hfirst]
    exact congrArg _ ih

/-- The other clients' observations are about other paths. -/
theorem Retrying.disjoint {observations done others : List CatalogObservation}
    {outcomes : List ObservationOutcome} {c d : Catalog}
    (h : Retrying observations c done outcomes others d) :
    ∀ o ∈ others, ∀ o' ∈ observations, observedPath o ≠ observedPath o' := by
  induction h with
  | start => exact fun o ho => absurd ho List.not_mem_nil
  | batch _ _ _ _ ih => exact ih
  | interrupted _ ih => exact ih
  | other _ hdisjoint _ _ ih =>
    intro o ho
    rcases List.mem_append.mp ho with ho | ho
    · exact ih o ho
    · exact hdisjoint o ho

/-- The catalog `e` holds the effects of the list once, over those of `others`: it is what
an uninterrupted pass over the list leaves, and what the others alone leave elsewhere. -/
structure ExactlyOnce (observations : List CatalogObservation) (c : Catalog)
    (others : List CatalogObservation) (outcomes : List ObservationOutcome) (e : Catalog) : Prop where
  pass : ∀ calls : Calls, calls.observations = observations → calls.Fresh c → ∃ returned d,
    observeAll c calls = .ok (returned, d) ∧ named d returned = named e outcomes ∧
      (evidence d).restrict (untouched others) = (evidence e).restrict (untouched others)
  others : ∀ calls : Calls, calls.observations = others → calls.Fresh c → ∃ returned d,
    observeAll c calls = .ok (returned, d) ∧
      (evidence d).restrict (untouched observations) = (evidence e).restrict (untouched observations)
  stored : List.Forall₂ (fun o outcome => ∃ key, o.operationKey = some key ∧
    e.catalogWriteOperations.rows.filter (fun w => w.operationKey = key) = [⟨key, o, outcome⟩])
    observations outcomes
  resubmitted : ∀ calls : Calls, calls.observations = observations → ∃ seen,
    observeAll e calls = .ok (outcomes, { e with catalogScanSeen := seen })

/-- **An attempt that reaches the end leaves every observation of the list with its effects
exactly once**, whatever interrupted the attempts before it and whatever others submitted
about other paths; and a batch whose keys are all stored writes coverage markers only. -/
theorem retries_are_exactly_once {c e : Catalog} {observations others : List CatalogObservation}
    {outcomes : List ObservationOutcome} (hc : Reachable c)
    (hkeys : ∀ o ∈ observations, o.operationKey.isSome)
    (h : Retrying observations c observations outcomes others e) :
    ExactlyOnce observations c others outcomes e ∧
    ∀ x newIds batch returned y, (∀ o ∈ batch, ∃ key, o.operationKey = some key ∧
        (x.catalogWriteOperations.get? key).isSome) →
      observeBatch newIds x batch = .ok (returned, y) → ∃ seen, y = { x with catalogScanSeen := seen } := by
  have hlinked := linked_of_reachable hc
  have hsession := session_of_retrying hlinked hkeys h
  have hin : ∀ o ∈ observations, Within (untouched others) o := fun o ho =>
    within_untouched fun o' ho' => h.disjoint o' ho' o ho
  have hothersIn : ∀ o ∈ others, Within (untouched observations) o := fun o ho =>
    within_untouched fun o' ho' => (h.disjoint o ho o' ho').symm
  refine ⟨⟨?_, ?_, ?_, ?_⟩, fun x newIds batch returned y => observeBatch_of_known⟩
  · intro calls hcalls hfresh
    have hpass := (hsession.passed _ hin fun o ho => outside_untouched ho).onceAll_eq
    obtain ⟨returned, d, hcommitted, hd, hmemo, houtcomes⟩ :=
      observeAll_of_onceAll hlinked hsession.served hin hpass hcalls hfresh
    refine ⟨returned, d, hcommitted, ?_, congrArg Memo.state hmemo⟩
    rw [named_of_stored hd.linked (hd.stored hkeys), houtcomes,
      named_of_stored hsession.linked hsession.stored]
  · intro calls hcalls hfresh
    obtain ⟨os, hpass⟩ := hsession.othersPassed _ (fun o ho => outside_untouched ho) hothersIn
    obtain ⟨returned, d, hcommitted, -, hmemo, -⟩ :=
      observeAll_of_onceAll hlinked hsession.othersServed hothersIn hpass hcalls hfresh
    exact ⟨returned, d, hcommitted, congrArg Memo.state hmemo⟩
  · refine hsession.stored.imp fun o outcome hst => ?_
    obtain ⟨key, hkey, hw⟩ := hst
    refine ⟨key, hkey, ?_⟩
    have hrows := Table.filter_key e.catalogWriteOperations key
    rw [hw] at hrows
    exact hrows
  · intro calls hcalls
    refine observeAll_of_stored (hcalls ▸ hsession.stored) fun o ho => ?_
    rw [hsession.grows.requireObservationJob]
    exact (hsession.served o (hcalls ▸ ho)).job

/-! ### A small session -/

/-- A checksum of another path of the small archive, under a key. -/
def keyedObservation (path key : String) : CatalogObservation :=
  { sampleObservation "usb" 150 (sampleDigest 9) false with
    path := .utf8 path
    operationKey := some key }

/-- The list a client submits. -/
def keyedList : List CatalogObservation := [keyedObservation "b.jpg" "k1", keyedObservation "c.jpg" "k2"]

/-- The first observation is committed and the client interrupted. -/
def interruptedCatalog : Catalog :=
  next sampleCatalog (.observeBatch (fun n => sampleIds (n + 1)) [keyedObservation "b.jpg" "k1"])

/-- What another client submits then. -/
def betweenList : List CatalogObservation := [sampleObservation "usb" 160 (sampleDigest 7) false]

def betweenCatalog : Catalog :=
  next interruptedCatalog (.observeBatch (fun n => sampleIds (n + 2)) betweenList)

theorem retried_list_is_exactly_once :
    ∃ outcomes e, observeBatch (fun n => sampleIds (n + 2)) betweenCatalog keyedList =
        .ok (outcomes, e) ∧ outcomes.map (fun o => o.result) = [.checked .ok, .checked .ok] ∧
      ExactlyOnce keyedList sampleCatalog betweenList outcomes e := by
  have hreachable : Reachable sampleCatalog := ⟨"archive", "Archive", sampleOps, sampleOps_admissible, rfl⟩
  have hcommits : ∀ c op, (exec c op).isSome → exec c op = some (next c op) := by
    intro c op h
    obtain ⟨d, hd⟩ := Option.isSome_iff_exists.mp h
    rw [next, hd]
    rfl
  obtain ⟨first, hfirst⟩ := exec_observeBatch.mp (hcommits sampleCatalog (.observeBatch
    (fun n => sampleIds (n + 1)) [keyedObservation "b.jpg" "k1"]) (by decide +kernel))
  obtain ⟨between, hbetween⟩ := exec_observeBatch.mp (hcommits interruptedCatalog (.observeBatch
    (fun n => sampleIds (n + 2)) betweenList) (by decide +kernel))
  obtain ⟨outcomes, hlast⟩ := exec_observeBatch.mp (hcommits betweenCatalog (.observeBatch
    (fun n => sampleIds (n + 2)) keyedList) (by decide +kernel))
  refine ⟨outcomes, _, hlast, ?_, ?_⟩
  · have hresults : (observeBatch (fun n => sampleIds (n + 2)) betweenCatalog keyedList).toOption.map
        (fun r => r.1.map fun o => o.result) = some [.checked .ok, .checked .ok] := by decide +kernel
    rw [hlast] at hresults
    exact Option.some.inj hresults
  · have hstart := (@Retrying.start keyedList sampleCatalog).batch
      (by decide) (sampleIds_fresh _ (by decide +kernel)) hfirst
    have hother := hstart.interrupted.other (by decide) (sampleIds_fresh _ (by decide +kernel)) hbetween
    have hend := hother.batch (by decide) (sampleIds_fresh _ (by decide +kernel)) hlast
    exact (retries_are_exactly_once hreachable (by decide) hend).1

end ArchiveLedger
