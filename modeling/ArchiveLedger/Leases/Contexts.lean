import ArchiveLedger.Annex.LocationLog
import ArchiveLedger.Journal.ReadBack
import ArchiveLedger.Leases.Holders

/-!
# Batches under a lease

A batch repeats the lease it is made under, and the verifiers compare it with the signed lease.  What
`acquire_archive_lease` hands out passes that check in every batch its holder makes from the base of the lease
in its time (`lease_context_accepted`).  Of two batches under two leases, what passes the check is in the order
of the leases (`coordinated_in_order`).
-/

namespace ArchiveLedger

namespace Leases

open Outcome Sync Transition

/-! ### Signatures as text -/

theorem mem_encode {e : Base64.Engine} : ∀ {bytes : Bytes} {c : Char}, c ∈ Base64.encode e bytes →
    (∃ n < 64, c = e.symbol n) ∨ (e.padded = true ∧ c = '=')
  | [], c, h => by cases h
  | [a], c, h => by
      have ha := a.toNat_lt
      rw [Base64.encode, List.mem_append] at h
      rcases h with h | h
      · simp only [List.mem_cons, List.not_mem_nil, or_false] at h
        rcases h with rfl | rfl
        · exact Or.inl ⟨_, by omega, rfl⟩
        · exact Or.inl ⟨_, by omega, rfl⟩
      · by_cases hp : e.padded = true
        · rw [if_pos hp] at h
          simp only [List.mem_cons, List.not_mem_nil, or_false, or_self] at h
          exact Or.inr ⟨hp, h⟩
        · rw [if_neg hp] at h
          cases h
  | [a, b], c, h => by
      have ha := a.toNat_lt
      have hb := b.toNat_lt
      rw [Base64.encode, List.mem_append] at h
      rcases h with h | h
      · simp only [List.mem_cons, List.not_mem_nil, or_false] at h
        rcases h with rfl | rfl | rfl
        · exact Or.inl ⟨_, by omega, rfl⟩
        · exact Or.inl ⟨_, by omega, rfl⟩
        · exact Or.inl ⟨_, by omega, rfl⟩
      · by_cases hp : e.padded = true
        · rw [if_pos hp, List.mem_singleton] at h
          exact Or.inr ⟨hp, h⟩
        · rw [if_neg hp] at h
          cases h
  | a :: b :: d :: rest, c, h => by
      have ha := a.toNat_lt
      have hb := b.toNat_lt
      have hd := d.toNat_lt
      rw [Base64.encode] at h
      simp only [List.mem_cons] at h
      rcases h with rfl | rfl | rfl | rfl | h
      · exact Or.inl ⟨_, by omega, rfl⟩
      · exact Or.inl ⟨_, by omega, rfl⟩
      · exact Or.inl ⟨_, by omega, rfl⟩
      · exact Or.inl ⟨_, by omega, rfl⟩
      · exact mem_encode h

/-- The symbols of base64 are single bytes. -/
theorem bytes_of_symbol : ∀ n < 64,
    (String.utf8EncodeChar (standardNoPad.symbol n)).map (fun b => Char.ofNat b.toNat) = [standardNoPad.symbol n] := by
  decide

theorem decodeNoPad_encodeNoPad (bytes : Bytes) : decodeNoPad (encodeNoPad bytes) = some bytes := by
  have hsymbols : ∀ symbols : List Char, (∀ c ∈ symbols, ∃ n < 64, c = standardNoPad.symbol n) →
      (symbols.flatMap String.utf8EncodeChar).map (fun b => Char.ofNat b.toNat) = symbols := by
    intro symbols
    induction symbols with
    | nil => intro _; rfl
    | cons c symbols ih =>
      intro h
      obtain ⟨n, hn, rfl⟩ := h c List.mem_cons_self
      rw [List.flatMap_cons, List.map_append, bytes_of_symbol n hn, ih fun d hd => h d (List.mem_cons_of_mem _ hd)]
      rfl
  unfold decodeNoPad encodeNoPad
  rw [utf8_eq, String.toList_ofList, hsymbols _ fun c hc => ?_]
  · exact Base64.decode_encode bytes
  · exact (mem_encode hc).resolve_right fun hpad => absurd hpad.1 (by decide)

/-! ### What a batch says of its lease -/

section

variable {π : Type} {L : LeaseRuntime π}

theorem validate_of_sign {p : π} {body : CoordinationLeaseBody} {signed : SignedCoordinationLease}
    (h : signCoordinationLease L p body = .ok signed) :
    validateCoordinationLeaseBody body = .ok () ∧ signed = ⟨body, encodeNoPad (L.sign p (L.writeLeaseBody body))⟩ := by
  obtain ⟨_, hvalid, h⟩ := bind_eq_ok.mp h
  exact ⟨hvalid, (Except.ok.inj h).symm⟩

/-- What a client signs verifies under the key it is enrolled with. -/
theorem verifySignature_of_sign {p : π} {key : Bytes} {ε : Type} (notBase64 wrongLength invalid : ε)
    (hsign : ∀ m, (L.sign p m).length = 64 ∧ L.verifyStrict key m (L.sign p m) = true) (message : Bytes) :
    verifySignature L.toStoreRuntime key message (encodeNoPad (L.sign p message)) notBase64 wrongLength invalid = .ok () := by
  unfold verifySignature
  rw [decodeNoPad_encodeNoPad]
  obtain ⟨hlength, hverify⟩ := hsign message
  simp only [bind_eq_ok, okOr_eq_ok, require_eq_ok]
  exact ⟨_, rfl, (), hlength, hverify⟩

theorem notAfter_of_offer {p : π} {commits : List LeaseCommit} {a : Attempt} {previous : Option String} {tokenId : String}
    {now : Nat} {c : LeaseCommit} (h : offerLease L p commits a previous tokenId now = .ok c) :
    now + a.durationMs ≤ u64Max := by
  obtain ⟨_, -, h⟩ := bind_eq_ok.mp h
  obtain ⟨_, htime, h⟩ := bind_eq_ok.mp h
  exact require_eq_ok.mp htime

theorem signed_of_offer {p : π} {commits : List LeaseCommit} {a : Attempt} {previous : Option String} {tokenId : String}
    {now : Nat} {c : LeaseCommit} (h : offerLease L p commits a previous tokenId now = .ok c) :
    signCoordinationLease L p (offeredBody L p a previous tokenId now) = .ok c.signed := by
  obtain ⟨_, -, h⟩ := bind_eq_ok.mp h
  obtain ⟨_, -, h⟩ := bind_eq_ok.mp h
  obtain ⟨signed, hsigned, h⟩ := bind_eq_ok.mp h
  cases h
  exact hsigned

theorem requireContext_of_str {coordination : Json} {field value : String}
    (h : coordination.get field = some (.str value)) : requireContext coordination field value = .ok () := by
  unfold requireContext contextString
  rw [h]
  simp only [bind_eq_ok, okOr_eq_ok, require_eq_ok]
  exact ⟨value, rfl, rfl⟩

theorem requireContextNumber_of_ofNat {coordination : Json} {field : String} {n : Nat}
    (h : coordination.get field = some (.ofNat n)) (hn : n ≤ u64Max) :
    requireContextNumber coordination field n = .ok () := by
  unfold requireContextNumber contextNumber
  rw [h]
  simp only [bind_eq_ok, okOr_eq_ok, require_eq_ok]
  exact ⟨n, Json.asU64_ofNat hn, rfl⟩

/-- **What is handed out is accepted.**  The holder of a new lease makes a batch from the base of the lease and in its
time; what the batch says of the lease passes the check of every verifier that knows the holder. -/
theorem lease_context_accepted {p : π} {commits : List LeaseCommit} {a : Attempt} {previous : Option String}
    {tokenId : String} {now : Nat} {c : LeaseCommit} (hoffer : offerLease L p commits a previous tokenId now = .ok c)
    {clients : ClientMap} {client : VerifiedV2Client} (hclient : clients (L.activeOriginId p) = some client)
    (hkey : L.validKey client.publicKey = true)
    (hsign : ∀ m, (L.sign p m).length = 64 ∧ L.verifyStrict client.publicKey m (L.sign p m) = true)
    (hread : L.readLease (L.leaseValue c.signed) = .ok c.signed) (hcommit : isCommitHash (L.commitName c) = true)
    (hremote : validateRemoteName (L.remote p) = .ok ()) {record : VerifiedV2Record}
    (horigin : record.originId = L.activeOriginId p)
    (hbase : record.causalFrontierHash = a.verified.acceptedFrontierHash)
    (hbefore : now ≤ record.record.envelope.timeUtcMs) (hafter : record.record.envelope.timeUtcMs ≤ now + a.durationMs) :
    validateCoordination L.toStoreRuntime clients record (leaseContext L (handedOut L p c)) = .ok () := by
  obtain ⟨hvalid, hsigned⟩ := validate_of_sign (signed_of_offer hoffer)
  have hbody : c.signed.body = offeredBody L p a previous tokenId now := by rw [hsigned]
  have htime := notAfter_of_offer hoffer
  have hproof : verifyLeaseProof L.toStoreRuntime clients c.signed = .ok () := by
    unfold verifyLeaseProof
    have hholder : c.signed.body.holderClientId = L.activeOriginId p := by rw [hbody]; rfl
    have hsignature : c.signed.signature = encodeNoPad (L.sign p (L.writeLeaseBody c.signed.body)) := by rw [hsigned]
    simp only [bind_eq_ok, okOr_eq_ok, require_eq_ok]
    refine ⟨(), by rwa [hbody], client, by rwa [hholder], (), hkey, ?_⟩
    rw [hsignature]
    exact verifySignature_of_sign _ _ _ hsign _
  have hnotBefore : c.signed.body.notBeforeUtcMs = now := by rw [hbody]; rfl
  have hnotAfter : c.signed.body.notAfterUtcMs = now + a.durationMs := by rw [hbody]; rfl
  have hmax : c.signed.body.notBeforeUtcMs ≤ u64Max := by omega
  unfold validateCoordination
  simp only [bind_eq_ok, okOr_eq_ok, require_eq_ok, mapError_eq_ok]
  refine ⟨(), rfl, L.leaseValue c.signed, rfl, c.signed, hread, (), hproof, (), by rw [hbody]; rfl,
    (), requireContext_of_str rfl, (), requireContext_of_str rfl, (), requireContext_of_str rfl,
    (), requireContext_of_str rfl, (), requireContext_of_str rfl,
    (), requireContextNumber_of_ofNat rfl hmax, (), requireContextNumber_of_ofNat rfl (by rwa [hnotAfter]),
    (), by rw [horigin, hbody]; rfl, (), by rw [hbase, hbody]; rfl, (), by rwa [hnotBefore], (), by rwa [hnotAfter],
    L.commitName c, ?_, (), hcommit, L.remote p, ?_, hremote⟩
  · unfold contextString
    exact okOr_eq_ok.mpr rfl
  · unfold contextString
    exact okOr_eq_ok.mpr rfl

/-- The batch is of the time of its lease. -/
theorem window_of_validateCoordination {R : StoreRuntime} {clients : ClientMap} {record : VerifiedV2Record}
    {coordination proofValue : Json} {proof : SignedCoordinationLease}
    (hvalue : coordination.get "lease_proof" = some proofValue) (hproof : R.readLease proofValue = .ok proof)
    (h : validateCoordination R clients record coordination = .ok ()) :
    proof.body.state = "acquired" ∧ proof.body.notBeforeUtcMs ≤ record.record.envelope.timeUtcMs ∧
      record.record.envelope.timeUtcMs ≤ proof.body.notAfterUtcMs := by
  obtain ⟨_, -, h⟩ := bind_eq_ok.mp h
  obtain ⟨value, hvalue', h⟩ := bind_eq_ok.mp h
  obtain ⟨read, hread, h⟩ := bind_eq_ok.mp h
  obtain rfl := Option.some.inj (hvalue.symm.trans (okOr_eq_ok.mp hvalue'))
  obtain rfl := Except.ok.inj (hproof.symm.trans (mapError_eq_ok.mp hread))
  simp only [bind_eq_ok, require_eq_ok] at h
  obtain ⟨_, -, _, hstate, _, -, _, -, _, -, _, -, _, -, _, -, _, -, _, -, _, -, _, hbefore, _, hafter, -⟩ := h
  exact ⟨hstate, hbefore, hafter⟩

end

section

variable {π : Type} [DecidableEq π] {L : LeaseRuntime π} {s : State π} {run later : List (Event π × State π)}

/-- **Coordinated batches are in order.**  Of two batches under two leases that the ref had, one after the other, the
batch under the first is older, unless the ref had the release of that lease in between, made before the second batch. -/
theorem coordinated_in_order (hstart : Started s) (hrun : Path (Steps L) s (run ++ later))
    (hname : NoCollision L (final s (run ++ later)).commits) {b c : LeaseCommit} (hmem : b ∈ (final s run).commits)
    (hb : (final s run).ref = some (L.commitName b)) (hmem' : c ∈ (final s (run ++ later)).commits)
    (hc : (final s (run ++ later)).ref = some (L.commitName c)) (hdiffers : b ≠ c) {clients clients' : ClientMap}
    {record record' : VerifiedV2Record} {context context' value value' : Json}
    (hvalue : context.get "lease_proof" = some value) (hproof : L.readLease value = .ok b.signed)
    (hvalid : validateCoordination L.toStoreRuntime clients record context = .ok ())
    (hvalue' : context'.get "lease_proof" = some value') (hproof' : L.readLease value' = .ok c.signed)
    (hvalid' : validateCoordination L.toStoreRuntime clients' record' context' = .ok ()) :
    record.record.envelope.timeUtcMs < record'.record.envelope.timeUtcMs ∨
      ∃ k ∈ (final s (run ++ later)).commits, Names L b k ∧ k.signed.body.state = "released" ∧
        k.signed.body.tokenId = b.signed.body.tokenId ∧
        k.signed.body.notAfterUtcMs ≤ record'.record.envelope.timeUtcMs ∧
        ∃ before, before <+: later ∧ (final s (run ++ before)).ref = some (L.commitName k) := by
  obtain ⟨hbstate, -, hafter⟩ := window_of_validateCoordination hvalue hproof hvalid
  obtain ⟨hcstate, hbefore, -⟩ := window_of_validateCoordination hvalue' hproof' hvalid'
  rcases windows_disjoint hstart hrun hname hmem hb hmem' hc hdiffers hbstate hcstate with
    hover | ⟨k, hk, hnames, hstate, htoken, hend, href⟩
  · exact Or.inl ((hafter.trans_lt hover).trans_le hbefore)
  · exact Or.inr ⟨k, hk, hnames, hstate, htoken, hend.trans hbefore, href⟩

end

end Leases

namespace Sample

open Leases Transition

/-- The start of a batch of a client, at its time. -/
def leasedBatch (p : Bool) (time : Nat) : VerifiedV2Record where
  record := ⟨⟨2, client (leasingClient p), 7, numbered "rec_" 20, .batchStart, time, numbered "batch_" 20, none, .obj []⟩,
    recordId 20⟩
  exactLineBytes := document 3 20
  segmentManifestHash := manifestId 20
  causalFrontierHash := frontierId 2

def leasedClients : ClientMap := fun id =>
  if id = client 1 then some firstClient else if id = client 2 then some (enrolledClient 2 1) else none

def leasedContext (p : Bool) (lease : LeaseCommit) : Json := leaseContext leasedRuntime (handedOut leasedRuntime p lease)

/-- What the first client would push. -/
theorem first_offered : ∃ a : Leases.Attempt, a.durationMs = 10 ∧ a.verified.acceptedFrontierHash = frontierId 2 ∧
    offerLease leasedRuntime false [] a none "lease_a" 0 = .ok firstLease := by
  obtain ⟨archive, -, hfacts⟩ := (Option.any_eq_true _ _).mp leased_facts.1
  obtain ⟨hbase, hoffer⟩ := of_decide_eq_true hfacts
  refine ⟨⟨archive, 10, 3⟩, rfl, hbase, ?_⟩
  cases hresult : offerLease leasedRuntime false [] ⟨archive, 10, 3⟩ none "lease_a" 0 with
  | error error => rw [hresult] at hoffer; cases hoffer
  | ok c => rw [hresult] at hoffer; rw [Option.some.inj hoffer]

/-- A batch of the first client in the time of its lease. -/
theorem first_batch_accepted :
    validateCoordination leasedRuntime.toStoreRuntime leasedClients (leasedBatch false 5) (leasedContext false firstLease) = .ok () := by
  obtain ⟨a, hduration, hbase, hoffer⟩ := first_offered
  have hclient : leasedClients (client 1) = some firstClient := by decide +kernel
  exact lease_context_accepted hoffer hclient (by decide +kernel) (fun _ => ⟨rfl, rfl⟩) rfl
    (by decide +kernel) (by decide +kernel) rfl (by rw [hbase]; rfl) (Nat.zero_le _) (by rw [hduration]; decide)

/-- The batch under the second lease is younger than the one under the first. -/
theorem leased_in_order :
    (leasedBatch false 5).record.envelope.timeUtcMs < (leasedBatch true 12).record.envelope.timeUtcMs ∨
      ∃ k ∈ [firstLease, secondLease], Leases.Names leasedRuntime firstLease k ∧ k.signed.body.state = "released" ∧
        k.signed.body.tokenId = firstLease.signed.body.tokenId ∧
        k.signed.body.notAfterUtcMs ≤ (leasedBatch true 12).record.envelope.timeUtcMs := by
  obtain ⟨run, htrace, -, -, hcommits, href, hcommits', href'⟩ := leased_run
  have hrun := Transition.path_trace htrace
  rw [← List.take_append_drop 5 run] at hrun hcommits href
  have hvalid : validateCoordination leasedRuntime.toStoreRuntime leasedClients (leasedBatch false 5)
      (leasedContext false firstLease) = .ok () := by decide +kernel
  have hvalid' : validateCoordination leasedRuntime.toStoreRuntime leasedClients (leasedBatch true 12)
      (leasedContext true secondLease) = .ok () := by decide +kernel
  rw [← hcommits]
  rcases coordinated_in_order leasedStarted hrun (by rw [hcommits]; exact leased_names)
    (by rw [hcommits']; exact List.mem_singleton.mpr rfl) href' (by rw [hcommits]; decide +kernel) href
    (by decide +kernel) rfl rfl hvalid rfl rfl hvalid' with hyounger | ⟨k, hk, hnames, hstate, htoken, hend, -⟩
  · exact Or.inl hyounger
  · exact Or.inr ⟨k, hk, hnames, hstate, htoken, hend⟩

end Sample

end ArchiveLedger
