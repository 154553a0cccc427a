import ArchiveLedger.Journal.Verify

/-!
# Enrollment and revocation

What registry items do to the enrolled clients.  An item enrolls a client that was not
enrolled, revokes one that was not revoked, or leaves the clients alone
(`applyRegistryItem_cases`); so the clients after some records are the ones known before
them and those the records enroll, and each revocation of the records stands with its
client (`Registered`).
-/

namespace ArchiveLedger

open Outcome Transition

/-- The client an item names. -/
def namedClient (item : Json) : Option String := (item.get "client_id").bind Json.asStr

/-- The record carries an item of this kind about the client. -/
def VerifiedV2Record.concerns (kind : String) (r : VerifiedV2Record) (clientId : String) : Bool :=
  r.items.any fun item => itemKind item = some kind && namedClient item = some clientId

abbrev VerifiedV2Record.enrolls (r : VerifiedV2Record) (clientId : String) : Bool :=
  r.concerns "client_enrolled" clientId

abbrev VerifiedV2Record.revokes (r : VerifiedV2Record) (clientId : String) : Bool :=
  r.concerns "client_revoked" clientId

theorem concerns_iff {kind clientId : String} {r : VerifiedV2Record} :
    r.concerns kind clientId ↔
      ∃ item ∈ r.items, itemKind item = some kind ∧ namedClient item = some clientId := by
  simp [VerifiedV2Record.concerns]

/-! ### One client -/

namespace VerifiedV2Client

/-- The client is the same, but that it may have been revoked. -/
structure Keeps (a b : VerifiedV2Client) : Prop where
  clientId : b.clientId = a.clientId
  publicKey : b.publicKey = a.publicKey
  approved : b.approvedOriginId = a.approvedOriginId ∧ b.approvedOriginSeq = a.approvedOriginSeq
  revoked : a.isRevoked → b.revokedOriginId = a.revokedOriginId ∧ b.revokedOriginSeq = a.revokedOriginSeq

theorem Keeps.refl (a : VerifiedV2Client) : a.Keeps a := ⟨rfl, rfl, ⟨rfl, rfl⟩, fun _ => ⟨rfl, rfl⟩⟩

theorem Keeps.trans {a b c : VerifiedV2Client} (h : a.Keeps b) (g : b.Keeps c) : a.Keeps c where
  clientId := g.clientId.trans h.clientId
  publicKey := g.publicKey.trans h.publicKey
  approved := ⟨g.approved.1.trans h.approved.1, g.approved.2.trans h.approved.2⟩
  revoked ha := by
    have hb := h.revoked ha
    have hc := g.revoked (by unfold isRevoked at ha ⊢; rw [hb.1]; exact ha)
    exact ⟨hc.1.trans hb.1, hc.2.trans hb.2⟩

theorem Keeps.of_unrevoked {a : VerifiedV2Client} (h : a.isRevoked = false) (origin : Option String)
    (seq : Option Nat) : a.Keeps { a with revokedOriginId := origin, revokedOriginSeq := seq } where
  clientId := rfl
  publicKey := rfl
  approved := ⟨rfl, rfl⟩
  revoked ha := by rw [h] at ha; cases ha

end VerifiedV2Client

/-- Every client is still there. -/
def ClientMap.Keeps (c d : ClientMap) : Prop := ∀ o a, c o = some a → ∃ b, d o = some b ∧ a.Keeps b

theorem ClientMap.Keeps.refl (c : ClientMap) : c.Keeps c := fun _ a ha => ⟨a, ha, .refl a⟩

theorem ClientMap.Keeps.trans {c d e : ClientMap} (h : c.Keeps d) (g : d.Keeps e) : c.Keeps e := by
  intro o a ha
  obtain ⟨b, hb, hab⟩ := h o a ha
  obtain ⟨b', hb', hbb⟩ := g o b hb
  exact ⟨b', hb', hab.trans hbb⟩

/-! ### One item -/

variable {R : StoreRuntime}

theorem enrolledClientFromItem_eq_ok {item : Json} {r : VerifiedV2Record} {client : VerifiedV2Client}
    (h : enrolledClientFromItem R item r = .ok client) :
    namedClient item = some client.clientId ∧ client.approvedOriginId = r.originId ∧
      client.approvedOriginSeq = r.originSeq ∧ client.revokedOriginId = none ∧
      client.revokedOriginSeq = none ∧ R.validKey client.publicKey := by
  simp only [enrolledClientFromItem, requiredString, bind_eq_ok, okOr_eq_ok, require_eq_ok,
    Except.ok.injEq] at h
  obtain ⟨id, hid, _, -, name, -, _, -, encoded, -, key, -, _, -, _, hkey, _, -, values, -, capabilities,
    -, _, -, rfl⟩ := h
  exact ⟨hid, rfl, rfl, rfl, rfl, hkey⟩

/-- What a registry item can do. -/
theorem applyRegistryItem_cases {r : VerifiedV2Record} {c d : ClientMap} {item : Json}
    (h : applyRegistryItem R r c item = .ok d) :
    (itemKind item = some "client_enrolled" ∧ ∃ client, namedClient item = some client.clientId ∧
        (client.approvedOriginId = r.originId ∧ client.approvedOriginSeq = r.originSeq) ∧
        c client.clientId = none ∧ d = c.insert client) ∨
      (itemKind item = some "client_revoked" ∧ ∃ o client, namedClient item = some o ∧
        c o = some client ∧ client.isRevoked = false ∧
        d = Function.update c o (some { client with
          revokedOriginId := some r.originId, revokedOriginSeq := some r.originSeq })) ∨
      (itemKind item ≠ some "client_enrolled" ∧ itemKind item ≠ some "client_revoked" ∧ d = c) := by
  unfold applyRegistryItem at h
  split at h
  · rename_i hkind
    simp only [enrollClient, bind_eq_ok, require_eq_ok, Except.ok.injEq] at h
    obtain ⟨client, hclient, _, hnone, rfl⟩ := h
    obtain ⟨hid, horigin, hseq, -⟩ := enrolledClientFromItem_eq_ok hclient
    exact Or.inl ⟨hkind, client, hid, ⟨horigin, hseq⟩, Option.isNone_iff_eq_none.mp hnone, rfl⟩
  · rename_i henroll
    split at h
    · rename_i hkind
      simp only [revokeClient, bind_eq_ok, okOr_eq_ok, require_eq_ok, Except.ok.injEq,
        Bool.not_eq_eq_eq_not, Bool.not_true] at h
      obtain ⟨o, ho, _, -, client, hclient, _, hrevoked, rfl⟩ := h
      exact Or.inr (Or.inl ⟨hkind, o, client, ho, hclient, hrevoked, rfl⟩)
    · rename_i hrevoke
      exact Or.inr (Or.inr ⟨henroll, hrevoke, (Except.ok.inj h).symm⟩)

theorem applyRegistryItem_keeps {r : VerifiedV2Record} {c d : ClientMap} {item : Json}
    (h : applyRegistryItem R r c item = .ok d) : c.Keeps d := by
  intro o a ha
  obtain ⟨-, client, -, -, hnone, rfl⟩ | ⟨-, o', client, -, hclient, hrevoked, rfl⟩ | ⟨-, -, rfl⟩ :=
    applyRegistryItem_cases h
  · have hne : o ≠ client.clientId := by
      intro he
      rw [he, hnone] at ha
      cases ha
    exact ⟨a, by rw [ClientMap.insert, Function.update_of_ne hne, ha], .refl a⟩
  · by_cases he : o = o'
    · subst he
      rw [hclient] at ha
      cases ha
      exact ⟨_, Function.update_self .., .of_unrevoked hrevoked _ _⟩
    · exact ⟨a, by rw [Function.update_of_ne he, ha], .refl a⟩
  · exact ⟨a, ha, .refl a⟩

/-- A client that an item makes known is the one it enrolls. -/
theorem applyRegistryItem_new {r : VerifiedV2Record} {c d : ClientMap} {item : Json}
    (h : applyRegistryItem R r c item = .ok d) {o : String} {b : VerifiedV2Client} (hc : c o = none)
    (hd : d o = some b) :
    itemKind item = some "client_enrolled" ∧ namedClient item = some o ∧
      b.approvedOriginId = r.originId ∧ b.approvedOriginSeq = r.originSeq := by
  obtain ⟨hkind, client, hid, happroved, hnone, rfl⟩ | ⟨-, o', client, -, hclient, -, rfl⟩ | ⟨-, -, rfl⟩ :=
    applyRegistryItem_cases h
  · by_cases he : o = client.clientId
    · subst he
      rw [ClientMap.insert, Function.update_self] at hd
      cases hd
      exact ⟨hkind, hid, happroved⟩
    · rw [ClientMap.insert, Function.update_of_ne he, hc] at hd
      cases hd
  · by_cases he : o = o'
    · subst he
      rw [hclient] at hc
      cases hc
    · rw [Function.update_of_ne he, hc] at hd
      cases hd
  · rw [hc] at hd
    cases hd

theorem applyRegistryItem_enrolls {r : VerifiedV2Record} {c d : ClientMap} {item : Json} {o : String}
    (h : applyRegistryItem R r c item = .ok d) (hkind : itemKind item = some "client_enrolled")
    (ho : namedClient item = some o) : (d o).isSome := by
  obtain ⟨-, client, hid, -, -, rfl⟩ | ⟨hkind', -⟩ | ⟨hkind', -⟩ := applyRegistryItem_cases h
  · obtain rfl : o = client.clientId := Option.some.inj (ho.symm.trans hid)
    rw [ClientMap.insert, Function.update_self]
    rfl
  · rw [hkind] at hkind'
    exact absurd (Option.some.inj hkind') (by decide)
  · exact absurd hkind hkind'

theorem applyRegistryItem_revokes {r : VerifiedV2Record} {c d : ClientMap} {item : Json} {o : String}
    (h : applyRegistryItem R r c item = .ok d) (hkind : itemKind item = some "client_revoked")
    (ho : namedClient item = some o) :
    ∃ b, d o = some b ∧ b.revokedOriginId = some r.originId ∧ b.revokedOriginSeq = some r.originSeq := by
  obtain ⟨hkind', -⟩ | ⟨-, o', client, hid, -, -, rfl⟩ | ⟨-, hkind', -⟩ := applyRegistryItem_cases h
  · rw [hkind] at hkind'
    exact absurd (Option.some.inj hkind') (by decide)
  · obtain rfl : o = o' := Option.some.inj (ho.symm.trans hid)
    exact ⟨_, Function.update_self .., rfl, rfl⟩
  · exact absurd hkind hkind'

/-! ### Some records -/

/-- The items of some records, each with its record. -/
def itemsOf (records : List VerifiedV2Record) : List (VerifiedV2Record × Json) :=
  records.flatMap fun r => r.items.map fun item => (r, item)

theorem mem_itemsOf {records : List VerifiedV2Record} {r : VerifiedV2Record} {item : Json} :
    (r, item) ∈ itemsOf records ↔ r ∈ records ∧ item ∈ r.items := by
  simp only [itemsOf, List.mem_flatMap, List.mem_map, Prod.mk.injEq]
  constructor
  · rintro ⟨w, hw, i, hi, rfl, rfl⟩
    exact ⟨hw, hi⟩
  · rintro ⟨hr, hitem⟩
    exact ⟨r, hr, item, hitem, rfl, rfl⟩

/-- The clients after some items, from those that were known before. -/
structure Registered (known : ClientMap) (events : List (VerifiedV2Record × Json)) (clients : ClientMap) :
    Prop where
  keeps : known.Keeps clients
  enrolled : ∀ e ∈ events, ∀ o, itemKind e.2 = some "client_enrolled" → namedClient e.2 = some o →
    (clients o).isSome
  approved : ∀ o b, known o = none → clients o = some b → ∃ e ∈ events,
    itemKind e.2 = some "client_enrolled" ∧ namedClient e.2 = some o ∧
      b.approvedOriginId = e.1.originId ∧ b.approvedOriginSeq = e.1.originSeq
  revoked : ∀ e ∈ events, ∀ o, itemKind e.2 = some "client_revoked" → namedClient e.2 = some o →
    ∃ b, clients o = some b ∧ b.revokedOriginId = some e.1.originId ∧
      b.revokedOriginSeq = some e.1.originSeq

namespace Registered

variable {known c d : ClientMap} {events more : List (VerifiedV2Record × Json)}

theorem nil (known : ClientMap) : Registered known [] known where
  keeps := .refl known
  enrolled e he := absurd he List.not_mem_nil
  approved o b hnone hb := by rw [hnone] at hb; cases hb
  revoked e he := absurd he List.not_mem_nil

theorem step (hc : Registered known events c) {e : VerifiedV2Record × Json}
    (h : applyRegistryItem R e.1 c e.2 = .ok d) : Registered known (events ++ [e]) d where
  keeps := hc.keeps.trans (applyRegistryItem_keeps h)
  enrolled := by
    intro e' he' o hkind ho
    rcases List.mem_append.mp he' with he' | he'
    · obtain ⟨a, ha⟩ := Option.isSome_iff_exists.mp (hc.enrolled e' he' o hkind ho)
      obtain ⟨b, hb, -⟩ := applyRegistryItem_keeps h o a ha
      rw [hb]
      rfl
    · rw [List.mem_singleton.mp he'] at hkind ho
      exact applyRegistryItem_enrolls h hkind ho
  approved := by
    intro o b hnone hb
    cases hco : c o with
    | none =>
      obtain ⟨hkind, ho, happroved⟩ := applyRegistryItem_new h hco hb
      exact ⟨e, by simp, hkind, ho, happroved⟩
    | some a =>
      obtain ⟨b', hb', hab⟩ := applyRegistryItem_keeps h o a hco
      rw [hb] at hb'
      cases hb'
      obtain ⟨e', he', hkind, ho, horigin, hseq⟩ := hc.approved o a hnone hco
      exact ⟨e', List.mem_append_left _ he', hkind, ho, hab.approved.1.trans horigin,
        hab.approved.2.trans hseq⟩
  revoked := by
    intro e' he' o hkind ho
    rcases List.mem_append.mp he' with he' | he'
    · obtain ⟨a, ha, horigin, hseq⟩ := hc.revoked e' he' o hkind ho
      obtain ⟨b, hb, hab⟩ := applyRegistryItem_keeps h o a ha
      have hrevoked := hab.revoked (by rw [VerifiedV2Client.isRevoked, horigin]; rfl)
      exact ⟨b, hb, hrevoked.1.trans horigin, hrevoked.2.trans hseq⟩
    · rw [List.mem_singleton.mp he'] at hkind ho ⊢
      exact applyRegistryItem_revokes h hkind ho

theorem run (hc : Registered known events c)
    (h : commitAll (fun c (e : VerifiedV2Record × Json) => applyRegistryItem R e.1 c e.2) c more = .ok d) :
    Registered known (events ++ more) d := by
  induction more generalizing events c with
  | nil =>
    cases h
    rwa [List.append_nil]
  | cons e more ih =>
    obtain ⟨u, hu, hrest⟩ := (commitAll_cons _).mp h
    have := ih (hc.step hu) hrest
    rwa [List.append_assoc, List.singleton_append] at this

end Registered

theorem commitAll_items {r : VerifiedV2Record} {c d : ClientMap} {items : List Json} :
    commitAll (applyRegistryItem R r) c items = .ok d ↔
      commitAll (fun c (e : VerifiedV2Record × Json) => applyRegistryItem R e.1 c e.2) c
        (items.map fun item => (r, item)) = .ok d := by
  induction items generalizing c with
  | nil => rfl
  | cons item items ih =>
    rw [List.map_cons, commitAll_cons, commitAll_cons]
    exact exists_congr fun u => and_congr_right fun _ => ih

theorem applyClientRegistryItems_eq_ok {records : List VerifiedV2Record} {c d : ClientMap} :
    applyClientRegistryItems R records c = .ok d ↔
      commitAll (fun c (e : VerifiedV2Record × Json) => applyRegistryItem R e.1 c e.2) c
        (itemsOf records) = .ok d := by
  unfold applyClientRegistryItems
  induction records generalizing c with
  | nil => rfl
  | cons r records ih =>
    rw [itemsOf, List.flatMap_cons, commitAll_cons, commitAll_append]
    exact exists_congr fun u => and_congr commitAll_items ih

theorem Registered.records {known c d : ClientMap} {done records : List VerifiedV2Record}
    (hc : Registered known (itemsOf done) c) (h : applyClientRegistryItems R records c = .ok d) :
    Registered known (itemsOf (done ++ records)) d := by
  rw [itemsOf, List.flatMap_append]
  exact hc.run (applyClientRegistryItems_eq_ok.mp h)

theorem Registered.ofRecords {c d : ClientMap} {records : List VerifiedV2Record}
    (h : applyClientRegistryItems R records c = .ok d) : Registered c (itemsOf records) d :=
  (Registered.nil c).run (applyClientRegistryItems_eq_ok.mp h)

/-- The clients that are known after some records. -/
theorem Registered.isSome_iff {known c : ClientMap} {records : List VerifiedV2Record}
    (h : Registered known (itemsOf records) c) (o : String) :
    (c o).isSome ↔ (known o).isSome ∨ ∃ w ∈ records, w.enrolls o := by
  constructor
  · intro hsome
    obtain ⟨b, hb⟩ := Option.isSome_iff_exists.mp hsome
    cases hknown : known o with
    | some a => exact Or.inl rfl
    | none =>
      obtain ⟨⟨w, item⟩, he, hkind, ho, -⟩ := h.approved o b hknown hb
      obtain ⟨hw, hitem⟩ := mem_itemsOf.mp he
      exact Or.inr ⟨w, hw, concerns_iff.mpr ⟨item, hitem, hkind, ho⟩⟩
  · rintro (hsome | ⟨w, hw, henrolls⟩)
    · obtain ⟨a, ha⟩ := Option.isSome_iff_exists.mp hsome
      obtain ⟨b, hb, -⟩ := h.keeps o a ha
      rw [hb]
      rfl
    · obtain ⟨item, hitem, hkind, ho⟩ := concerns_iff.mp henrolls
      exact h.enrolled (w, item) (mem_itemsOf.mpr ⟨hw, hitem⟩) o hkind ho

/-! ### The approval of the initial client -/

/-- A client with its approval found. -/
def VerifiedV2Client.approve (approval : String × Nat) (client : VerifiedV2Client) : VerifiedV2Client :=
  { client with approvedOriginId := approval.1, approvedOriginSeq := approval.2 }

theorem approveInitialClient_self {clients : ClientMap} {initial : String} {approval : String × Nat} :
    approveInitialClient clients initial approval initial = (clients initial).map (.approve approval) :=
  Function.update_self ..

theorem approveInitialClient_of_ne {clients : ClientMap} {initial o : String} {approval : String × Nat}
    (h : o ≠ initial) : approveInitialClient clients initial approval o = clients o :=
  Function.update_of_ne h ..

theorem approveInitialClient_isSome {clients : ClientMap} {initial o : String} {approval : String × Nat} :
    (approveInitialClient clients initial approval o).isSome = (clients o).isSome := by
  by_cases h : o = initial
  · subst h
    rw [approveInitialClient_self, Option.isSome_map]
  · rw [approveInitialClient_of_ne h]

theorem Registered.approve {known c : ClientMap} {events : List (VerifiedV2Record × Json)}
    (hc : Registered known events c) {initial : String} (hknown : (known initial).isSome)
    (approval : String × Nat) :
    Registered (approveInitialClient known initial approval) events
      (approveInitialClient c initial approval) where
  keeps := by
    intro o a ha
    by_cases h : o = initial
    · subst h
      rw [approveInitialClient_self, Option.map_eq_some_iff] at ha
      obtain ⟨a, ha, rfl⟩ := ha
      obtain ⟨b, hb, hab⟩ := hc.keeps o a ha
      refine ⟨b.approve approval, by rw [approveInitialClient_self, hb, Option.map_some], ?_⟩
      exact ⟨hab.clientId, hab.publicKey, ⟨rfl, rfl⟩, hab.revoked⟩
    · rw [approveInitialClient_of_ne h] at ha ⊢
      exact hc.keeps o a ha
  enrolled := by
    intro e he o hkind ho
    rw [approveInitialClient_isSome]
    exact hc.enrolled e he o hkind ho
  approved := by
    intro o b hnone hb
    have h : o ≠ initial := by
      rintro rfl
      rw [← @approveInitialClient_isSome known o o approval, hnone] at hknown
      cases hknown
    rw [approveInitialClient_of_ne h] at hnone hb
    exact hc.approved o b hnone hb
  revoked := by
    intro e he o hkind ho
    obtain ⟨b, hb, hrevoked⟩ := hc.revoked e he o hkind ho
    by_cases h : o = initial
    · subst h
      exact ⟨b.approve approval, by rw [approveInitialClient_self, hb, Option.map_some], hrevoked⟩
    · rw [approveInitialClient_of_ne h]
      exact ⟨b, hb, hrevoked⟩

end ArchiveLedger
