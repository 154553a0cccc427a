import ArchiveLedger.Catalog.Queries
import ArchiveLedger.Journal.Packed

/-!
# What a batch validator accepts

`accept_chunk` writes to the validator only after its last check, so a chunk that is refused
leaves it as it was (`accept_run`), whichever of the checks failed.  What a run has accepted is
an invariant of the validator (`Holds`): its counters are those of the accepted chunks, and its
hasher was given their encodings.  The encoding of a chunk has a fixed width and says its first
index, its count and its record hash, so the digest text of a run says which chunks it
accepted (`digestText_inj`).
-/

namespace ArchiveLedger

open Outcome Transition

/-! ### Encodings -/

theorem length_beBytes (width n : Nat) : (beBytes width n).length = width := by
  induction width generalizing n with
  | zero => rfl
  | succ width ih => rw [beBytes, List.length_append, ih, List.length_singleton]

theorem beBytes_inj {width n m : Nat} (hn : n < 256 ^ width) (hm : m < 256 ^ width)
    (h : beBytes width n = beBytes width m) : n = m := by
  induction width generalizing n m with
  | zero => omega
  | succ width ih =>
    rw [beBytes, beBytes] at h
    obtain ⟨hhigh, hlow⟩ := List.append_inj' h rfl
    have hlow := congrArg UInt8.toNat (List.singleton_injective hlow)
    rw [UInt8.toNat_ofNat', UInt8.toNat_ofNat'] at hlow
    rw [Nat.pow_succ] at hn hm
    have hdiv := ih (n := n / 256) (m := m / 256) (by omega) (by omega) hhigh
    omega

/-- Lists whose elements are written with one width are told apart by what is written. -/
theorem flatMap_inj {α β γ : Type} {width : Nat} {l m : List α} {f : α → List β} {g : α → γ}
    (hwidth : 0 < width) (hl : ∀ a ∈ l, (f a).length = width) (hm : ∀ a ∈ m, (f a).length = width)
    (hinj : ∀ a ∈ l, ∀ b ∈ m, f a = f b → g a = g b) (h : l.flatMap f = m.flatMap f) :
    l.map g = m.map g := by
  induction l generalizing m with
  | nil =>
    cases m with
    | nil => rfl
    | cons b m =>
      have hlen := congrArg List.length h
      rw [List.flatMap_cons, List.length_append, hm b List.mem_cons_self] at hlen
      simp only [List.flatMap_nil, List.length_nil] at hlen
      omega
  | cons a l ih =>
    have ha := hl a List.mem_cons_self
    cases m with
    | nil =>
      have hlen := congrArg List.length h
      rw [List.flatMap_cons, List.length_append, ha] at hlen
      simp only [List.flatMap_nil, List.length_nil] at hlen
      omega
    | cons b m =>
      have hb := hm b List.mem_cons_self
      rw [List.flatMap_cons, List.flatMap_cons] at h
      obtain ⟨hhead, htail⟩ := List.append_inj h (ha.trans hb.symm)
      have hrest := ih (fun x hx => hl x (List.mem_cons_of_mem _ hx))
        (fun x hx => hm x (List.mem_cons_of_mem _ hx))
        (fun x hx y hy => hinj x (List.mem_cons_of_mem _ hx) y (List.mem_cons_of_mem _ hy)) htail
      rw [List.map_cons, List.map_cons, hrest, hinj a List.mem_cons_self b List.mem_cons_self hhead]

theorem decodeNibble_lt {b : UInt8} {n : Nat} (h : decodeNibble b = some n) : n < 16 := by
  unfold decodeNibble at h
  dsimp only at h
  split at h
  · cases h
    omega
  · split at h
    · cases h
      omega
    · cases h

theorem decodeNibble_inj {b c : UInt8} {n : Nat} (hb : decodeNibble b = some n)
    (hc : decodeNibble c = some n) : b = c := by
  apply UInt8.toNat_inj.mp
  unfold decodeNibble at hb hc
  grind

theorem decodePairs_cons {high low : UInt8} {rest out : Bytes} :
    decodePairs (high :: low :: rest) = some out ↔ ∃ h l bytes, decodeNibble high = some h ∧
      decodeNibble low = some l ∧ decodePairs rest = some bytes ∧ out = UInt8.ofNat (h * 16 + l) :: bytes := by
  rw [decodePairs]
  constructor
  · intro h
    split at h
    · rename_i n m bytes hhigh hlow hrest
      exact ⟨n, m, bytes, hhigh, hlow, hrest, (Option.some.inj h).symm⟩
    · cases h
  · rintro ⟨h, l, bytes, hhigh, hlow, hrest, rfl⟩
    rw [hhigh, hlow, hrest]

theorem length_decodePairs {hex bytes : Bytes} (h : decodePairs hex = some bytes) :
    hex.length = 2 * bytes.length := by
  induction hex using List.twoStepInduction generalizing bytes with
  | nil =>
    cases h
    rfl
  | singleton b => cases h
  | cons_cons high low rest ih _ =>
    obtain ⟨n, m, bytes, -, -, hrest, rfl⟩ := decodePairs_cons.mp h
    have := ih hrest
    simp only [List.length_cons]
    omega

theorem decodePairs_inj {a b bytes : Bytes} (ha : decodePairs a = some bytes)
    (hb : decodePairs b = some bytes) : a = b := by
  have hlen : a.length = b.length := (length_decodePairs ha).trans (length_decodePairs hb).symm
  induction a using List.twoStepInduction generalizing b bytes with
  | nil => exact (List.length_eq_zero_iff.mp hlen.symm).symm
  | singleton x => cases ha
  | cons_cons high low rest ih _ =>
    obtain ⟨n, m, tail, hhigh, hlow, hrest, rfl⟩ := decodePairs_cons.mp ha
    cases b with
    | nil => simp at hlen
    | cons high' b => cases b with
      | nil => simp at hlen
      | cons low' rest' =>
        obtain ⟨n', m', tail', hhigh', hlow', hrest', hbytes⟩ := decodePairs_cons.mp hb
        obtain ⟨hbyte, rfl⟩ := List.cons.inj hbytes
        have hn := decodeNibble_lt hhigh
        have hm := decodeNibble_lt hlow
        have hn' := decodeNibble_lt hhigh'
        have hm' := decodeNibble_lt hlow'
        have hbyte := congrArg UInt8.toNat hbyte
        rw [UInt8.toNat_ofNat', UInt8.toNat_ofNat'] at hbyte
        have hnn : n = n' := by omega
        have hmm : m = m' := by omega
        subst hnn hmm
        rw [decodeNibble_inj hhigh hhigh', decodeNibble_inj hlow hlow',
          ih hrest hrest' (by simpa using hlen)]

theorem decodeBlake3_eq_ok {value : String} {bytes : Bytes} : decodeBlake3 value = .ok bytes ↔
    ∃ hex, utf8 value = utf8 "blake3:" ++ hex ∧ hex.length = 64 ∧ decodePairs hex = some bytes := by
  simp only [decodeBlake3, bind_eq_ok, okOr_eq_ok, require_eq_ok, stripPrefix_eq_some]
  constructor
  · rintro ⟨hex, hvalue, _, hlen, hbytes⟩
    exact ⟨hex, hvalue, hlen, hbytes⟩
  · rintro ⟨hex, hvalue, hlen, hbytes⟩
    exact ⟨hex, hvalue, (), hlen, hbytes⟩

theorem decodeBlake3_inj {a b : String} {bytes : Bytes} (ha : decodeBlake3 a = .ok bytes)
    (hb : decodeBlake3 b = .ok bytes) : a = b := by
  obtain ⟨x, hx, -, hxbytes⟩ := decodeBlake3_eq_ok.mp ha
  obtain ⟨y, hy, -, hybytes⟩ := decodeBlake3_eq_ok.mp hb
  rw [decodePairs_inj hxbytes hybytes, ← hy] at hx
  exact utf8_injective hx

theorem length_decodeBlake3 {value : String} {bytes : Bytes} (h : decodeBlake3 value = .ok bytes) :
    bytes.length = 32 := by
  obtain ⟨hex, -, hlen, hbytes⟩ := decodeBlake3_eq_ok.mp h
  have := length_decodePairs hbytes
  omega

/-! ### The validator as a state -/

namespace BatchValidator

/-- `accept_chunk` on the validator itself: what it returns, and the validator it leaves. -/
def offer (v : BatchValidator) (chunk : BatchChunkDescriptor) : BatchResult Unit × BatchValidator :=
  if chunk.batchId ≠ v.batchId then (.error (.batchMismatch v.batchId chunk.batchId), v)
  else if chunk.itemCount = 0 then (.error .emptyChunk, v)
  else if chunk.itemCount > v.limits.maxItems then
    (.error (.tooManyItems chunk.itemCount v.limits.maxItems), v)
  else if chunk.serializedBytes > v.limits.maxSerializedBytes then
    (.error (.tooManyBytes chunk.serializedBytes v.limits.maxSerializedBytes), v)
  else if chunk.firstItemIndex ≠ v.nextItemIndex then
    (.error (.nonConsecutiveRange v.nextItemIndex chunk.firstItemIndex), v)
  else match decodeBlake3 chunk.recordHash with
  | .error e => (.error e, v)
  | .ok recordHash =>
      match checkedAdd v.nextItemIndex chunk.itemCount with
      | none => (.error .itemCountOverflow, v)
      | some nextItemIndex =>
          let v := { v with digest := v.digest ++ beBytes 8 chunk.firstItemIndex }
          let v := { v with digest := v.digest ++ beBytes 4 chunk.itemCount }
          let v := { v with digest := v.digest ++ recordHash }
          let v := { v with nextItemIndex := nextItemIndex }
          (.ok (), { v with chunkCount := v.chunkCount + 1 })

/-- The conditions on a chunk that is accepted. -/
structure Accepts (v : BatchValidator) (chunk : BatchChunkDescriptor) : Prop where
  batch : chunk.batchId = v.batchId
  nonempty : chunk.itemCount ≠ 0
  items : chunk.itemCount ≤ v.limits.maxItems
  bytes : chunk.serializedBytes ≤ v.limits.maxSerializedBytes
  consecutive : chunk.firstItemIndex = v.nextItemIndex
  hash : ∃ bytes, decodeBlake3 chunk.recordHash = .ok bytes
  counted : v.nextItemIndex + chunk.itemCount ≤ u64Max

end BatchValidator

/-- What the hasher is given of an accepted chunk. -/
def BatchChunkDescriptor.encode (chunk : BatchChunkDescriptor) : Bytes :=
  beBytes 8 chunk.firstItemIndex ++ beBytes 4 chunk.itemCount ++
    (decodeBlake3 chunk.recordHash).toOption.getD []

namespace BatchValidator

/-- The validator after an accepted chunk. -/
def after (v : BatchValidator) (chunk : BatchChunkDescriptor) : BatchValidator :=
  { v with
    nextItemIndex := v.nextItemIndex + chunk.itemCount
    chunkCount := v.chunkCount + 1
    digest := v.digest ++ chunk.encode }

variable {v : BatchValidator} {chunk : BatchChunkDescriptor}

theorem offer_accepted (h : v.Accepts chunk) : v.offer chunk = (.ok (), v.after chunk) := by
  obtain ⟨bytes, hbytes⟩ := h.hash
  have hnext : checkedAdd v.nextItemIndex chunk.itemCount = some (v.nextItemIndex + chunk.itemCount) :=
    if_pos h.counted
  rw [offer, if_neg (not_not.mpr h.batch), if_neg h.nonempty, if_neg (not_lt.mpr h.items),
    if_neg (not_lt.mpr h.bytes), if_neg (not_not.mpr h.consecutive), hbytes]
  simp only [hnext, after, BatchChunkDescriptor.encode, hbytes, Except.toOption, Option.getD_some,
    List.append_assoc]

/-- A chunk that is refused leaves the validator as it was. -/
theorem offer_refused (h : ¬ v.Accepts chunk) : ∃ e, v.offer chunk = (.error e, v) := by
  unfold offer
  split
  · exact ⟨_, rfl⟩
  · rename_i hbatch
    split
    · exact ⟨_, rfl⟩
    · rename_i hnonempty
      split
      · exact ⟨_, rfl⟩
      · rename_i hitems
        split
        · exact ⟨_, rfl⟩
        · rename_i hbytes
          split
          · exact ⟨_, rfl⟩
          · rename_i hconsecutive
            split
            · exact ⟨_, rfl⟩
            · rename_i hash hhash
              have hcounted : ¬ v.nextItemIndex + chunk.itemCount ≤ u64Max := fun hcounted =>
                h ⟨not_not.mp hbatch, hnonempty, not_lt.mp hitems, not_lt.mp hbytes,
                  not_not.mp hconsecutive, ⟨hash, hhash⟩, hcounted⟩
              have hnext : checkedAdd v.nextItemIndex chunk.itemCount = none := if_neg hcounted
              rw [hnext]
              exact ⟨_, rfl⟩

theorem offer_isOk_iff : (v.offer chunk).1 = .ok () ↔ v.Accepts chunk := by
  constructor
  · intro h
    by_contra hno
    obtain ⟨e, he⟩ := offer_refused hno
    rw [he] at h
    cases h
  · intro h
    rw [offer_accepted h]

/-! ### Runs -/

/-- What the chunks give one after the other, and the validator at the end. -/
def offers (v : BatchValidator) : List BatchChunkDescriptor → List (BatchResult Unit) × BatchValidator
  | [] => ([], v)
  | chunk :: chunks =>
      let first := v.offer chunk
      let rest := first.2.offers chunks
      (first.1 :: rest.1, rest.2)

/-- The chunks that are accepted. -/
def accepted (v : BatchValidator) : List BatchChunkDescriptor → List BatchChunkDescriptor
  | [] => []
  | chunk :: chunks =>
      match v.offer chunk with
      | (.ok (), w) => chunk :: w.accepted chunks
      | (.error _, w) => w.accepted chunks

theorem offers_append (v : BatchValidator) (l m : List BatchChunkDescriptor) :
    v.offers (l ++ m) = ((v.offers l).1 ++ ((v.offers l).2.offers m).1, ((v.offers l).2.offers m).2) := by
  induction l generalizing v with
  | nil => rfl
  | cons chunk l ih =>
    rw [List.cons_append, offers, ih]
    rfl

/-- What is true of a validator that has accepted these chunks. -/
structure Holds (id : String) (limits : BatchLimits) (v : BatchValidator)
    (chunks : List BatchChunkDescriptor) : Prop where
  batchId : v.batchId = id
  bounds : v.limits = limits
  indexes : chunks.flatMap (fun c => List.range' c.firstItemIndex c.itemCount) = List.range v.nextItemIndex
  total : v.nextItemIndex = (chunks.map BatchChunkDescriptor.itemCount).sum
  fits : v.nextItemIndex ≤ u64Max
  count : v.chunkCount = chunks.length
  digest : v.digest = digestDomain ++ chunks.flatMap BatchChunkDescriptor.encode
  each : ∀ c ∈ chunks, c.batchId = id ∧ 0 < c.itemCount ∧ c.itemCount ≤ limits.maxItems ∧
    c.serializedBytes ≤ limits.maxSerializedBytes ∧ c.firstItemIndex ≤ u64Max ∧
    ∃ bytes, decodeBlake3 c.recordHash = .ok bytes

theorem Holds.after {id : String} {limits : BatchLimits} {chunks : List BatchChunkDescriptor}
    (h : Holds id limits v chunks) (ha : v.Accepts chunk) : Holds id limits (v.after chunk) (chunks ++ [chunk]) where
  batchId := h.batchId
  bounds := h.bounds
  indexes := by
    rw [List.flatMap_append, h.indexes, List.flatMap_singleton, ha.consecutive]
    show _ = List.range (v.nextItemIndex + chunk.itemCount)
    have happend := List.range'_append_1 (s := 0) (m := v.nextItemIndex) (n := chunk.itemCount)
    rwa [Nat.zero_add, ← List.range_eq_range', ← List.range_eq_range'] at happend
  total := by
    show v.nextItemIndex + chunk.itemCount = _
    rw [List.map_append, List.sum_append, ← h.total, List.map_singleton, List.sum_singleton]
  fits := ha.counted
  count := by
    show v.chunkCount + 1 = _
    rw [h.count, List.length_append, List.length_singleton]
  digest := by
    show v.digest ++ chunk.encode = _
    rw [h.digest, List.flatMap_append, List.flatMap_singleton, List.append_assoc]
  each := by
    intro c hc
    rcases List.mem_append.mp hc with hc | hc
    · exact h.each c hc
    · obtain rfl := List.mem_singleton.mp hc
      refine ⟨ha.batch.trans h.batchId, Nat.pos_of_ne_zero ha.nonempty, ?_, ?_, ?_, ha.hash⟩
      · rw [← h.bounds]
        exact ha.items
      · rw [← h.bounds]
        exact ha.bytes
      · rw [ha.consecutive]
        exact h.fits

/-- A run keeps it, chunk by chunk. -/
theorem Holds.offers {id : String} {limits : BatchLimits} {done : List BatchChunkDescriptor}
    (h : Holds id limits v done) (chunks : List BatchChunkDescriptor) :
    Holds id limits (v.offers chunks).2 (done ++ v.accepted chunks) := by
  induction chunks generalizing v done with
  | nil => simpa [BatchValidator.offers, accepted] using h
  | cons chunk chunks ih =>
    rw [BatchValidator.offers, accepted]
    by_cases ha : v.Accepts chunk
    · rw [offer_accepted ha]
      have hnext := ih (h.after ha)
      rwa [List.append_assoc] at hnext
    · obtain ⟨e, he⟩ := offer_refused ha
      rw [he]
      exact ih h

theorem holds_new {id : String} {limits : BatchLimits} (h : BatchValidator.new id limits = .ok v) :
    Holds id limits v [] := by
  simp only [BatchValidator.new, bind_eq_ok, require_eq_ok, BatchLimits.validate] at h
  obtain ⟨_, -, valid, hvalid, h⟩ := h
  split at hvalid
  · cases hvalid
  · cases hvalid
    cases h
    exact ⟨rfl, rfl, rfl, rfl, Nat.zero_le _, rfl, (List.append_nil _).symm,
      fun c hc => absurd hc List.not_mem_nil⟩

/-- What the hasher was given for accepted chunks. -/
def digestText (chunks : List BatchChunkDescriptor) : Bytes :=
  digestDomain ++ chunks.flatMap BatchChunkDescriptor.encode

theorem length_encode {id : String} {limits : BatchLimits} {chunks : List BatchChunkDescriptor}
    (h : Holds id limits v chunks) (hchunk : chunk ∈ chunks) : chunk.encode.length = 44 := by
  obtain ⟨-, -, -, -, -, bytes, hbytes⟩ := h.each chunk hchunk
  rw [BatchChunkDescriptor.encode, hbytes, List.length_append, List.length_append, length_beBytes,
    length_beBytes]
  show 8 + 4 + bytes.length = 44
  rw [length_decodeBlake3 hbytes]

/-- The chunk boundaries, counts and record hashes are read back from the digest text. -/
theorem digestText_inj {id id' : String} {limits limits' : BatchLimits} {w : BatchValidator}
    {l m : List BatchChunkDescriptor} (hl : Holds id limits v l) (hm : Holds id' limits' w m)
    (hsmall : limits.maxItems < 2 ^ 32) (hsmall' : limits'.maxItems < 2 ^ 32)
    (h : digestText l = digestText m) :
    l.map (fun c => (c.firstItemIndex, c.itemCount, c.recordHash)) =
      m.map fun c => (c.firstItemIndex, c.itemCount, c.recordHash) := by
  have hwidth : 0 < 44 := by decide
  refine flatMap_inj hwidth (fun a ha => length_encode hl ha) (fun b hb => length_encode hm hb) ?_
    (List.append_cancel_left h)
  intro a ha b hb hab
  obtain ⟨-, -, hitems, -, hfirst, bytes, hbytes⟩ := hl.each a ha
  obtain ⟨-, -, hitems', -, hfirst', bytes', hbytes'⟩ := hm.each b hb
  rw [BatchChunkDescriptor.encode, BatchChunkDescriptor.encode, hbytes, hbytes'] at hab
  obtain ⟨hnumbers, hhash⟩ := List.append_inj hab (by simp [length_beBytes])
  obtain ⟨hindex, hcount⟩ := List.append_inj hnumbers (by simp [length_beBytes])
  have hsame : bytes = bytes' := hhash
  rw [← hsame] at hbytes'
  have hmax : u64Max < 256 ^ 8 := by decide
  have hwidth : (256 : Nat) ^ 4 = 2 ^ 32 := by decide
  have hfirstEq := beBytes_inj (by omega) (by omega) hindex
  have hcountEq := beBytes_inj (by omega) (by omega) hcount
  rw [hfirstEq, hcountEq, decodeBlake3_inj hbytes hbytes']

theorem validateCompletion_eq_ok {blake3 : Bytes → String} {completion : BatchCompletion} :
    v.validateCompletion blake3 completion = .ok () ↔ v.chunkCount ≠ 0 ∧
      completion.totalItems = v.nextItemIndex ∧ completion.orderedItemDigest = "blake3:" ++ blake3 v.digest := by
  simp only [validateCompletion, orderedItemDigest, bind_eq_ok, require_eq_ok, Except.ok.injEq]
  constructor
  · rintro ⟨_, hcount, _, htotal, _, ⟨_, -, rfl⟩, hdigest⟩
    exact ⟨hcount, htotal, hdigest⟩
  · rintro ⟨hcount, htotal, hdigest⟩
    exact ⟨(), hcount, (), htotal, _, ⟨(), hcount, rfl⟩, hdigest⟩

theorem orderedItemDigest_eq_ok {blake3 : Bytes → String} {digest : String} :
    v.orderedItemDigest blake3 = .ok digest ↔ v.chunkCount ≠ 0 ∧ digest = "blake3:" ++ blake3 v.digest := by
  simp only [orderedItemDigest, bind_eq_ok, require_eq_ok, Except.ok.injEq]
  constructor
  · rintro ⟨_, hcount, rfl⟩
    exact ⟨hcount, rfl⟩
  · rintro ⟨hcount, rfl⟩
    exact ⟨(), hcount, rfl⟩

theorem maxItems_of_new {id : String} {limits : BatchLimits} (h : BatchValidator.new id limits = .ok v) :
    limits.maxItems < 2 ^ 32 := by
  simp only [BatchValidator.new, bind_eq_ok, require_eq_ok, BatchLimits.validate] at h
  obtain ⟨_, -, valid, hvalid, -⟩ := h
  split at hvalid
  · cases hvalid
  · rename_i hlimits
    have hmax : defaultMaxBatchChunkItems < 2 ^ 32 := by decide
    omega

/-- What is claimed of the run of a validator. -/
structure ExactRun (blake3 : Bytes → String) (id : String) (limits : BatchLimits) (v : BatchValidator)
    (offered : List BatchChunkDescriptor) : Prop where
  /-- The accepted chunks list the indexes below the number of items observed, each once. -/
  covers : (v.accepted offered).flatMap (fun c => List.range' c.firstItemIndex c.itemCount) =
    List.range (v.offers offered).2.nextItemIndex
  within : ∀ c ∈ v.accepted offered, c.batchId = id ∧ 0 < c.itemCount ∧ c.itemCount ≤ limits.maxItems ∧
    c.serializedBytes ≤ limits.maxSerializedBytes
  /-- A chunk is accepted when it goes on with the batch within the limits. -/
  accepts : ∀ before chunk after, offered = before ++ chunk :: after →
    (((v.offers before).2.offer chunk).1 = .ok () ↔ chunk.batchId = id ∧ chunk.itemCount ≠ 0 ∧
      chunk.itemCount ≤ limits.maxItems ∧ chunk.serializedBytes ≤ limits.maxSerializedBytes ∧
      chunk.firstItemIndex = (v.offers before).2.nextItemIndex ∧
      (∃ bytes, decodeBlake3 chunk.recordHash = .ok bytes) ∧
      (v.offers before).2.nextItemIndex + chunk.itemCount ≤ u64Max)
  /-- A refused chunk may be left out: what the others give and what is left is the same. -/
  refused : ∀ before chunk after e, offered = before ++ chunk :: after →
    ((v.offers before).2.offer chunk).1 = .error e →
      ∃ results, (v.offers offered).1 = (v.offers before).1 ++ .error e :: results ∧
        v.offers (before ++ after) = ((v.offers before).1 ++ results, (v.offers offered).2)
  completion : ∀ completion, (v.offers offered).2.validateCompletion blake3 completion = .ok () ↔
    v.accepted offered ≠ [] ∧
      completion.totalItems = ((v.accepted offered).map BatchChunkDescriptor.itemCount).sum ∧
      completion.orderedItemDigest = "blake3:" ++ blake3 (digestText (v.accepted offered))

theorem exactRun {id : String} {limits : BatchLimits} (blake3 : Bytes → String)
    (h : BatchValidator.new id limits = .ok v) (offered : List BatchChunkDescriptor) :
    ExactRun blake3 id limits v offered := by
  have hrun : ∀ l, Holds id limits (v.offers l).2 (v.accepted l) := fun l => (holds_new h).offers l
  refine ⟨(hrun offered).indexes, ?_, ?_, ?_, ?_⟩
  · intro c hc
    obtain ⟨hbatch, hpos, hitems, hbytes, -⟩ := (hrun offered).each c hc
    exact ⟨hbatch, hpos, hitems, hbytes⟩
  · intro before chunk after _
    rw [offer_isOk_iff, ← (hrun before).batchId, ← (hrun before).bounds]
    constructor
    · intro ha
      exact ⟨ha.batch, ha.nonempty, ha.items, ha.bytes, ha.consecutive, ha.hash, ha.counted⟩
    · rintro ⟨h₁, h₂, h₃, h₄, h₅, h₆, h₇⟩
      exact ⟨h₁, h₂, h₃, h₄, h₅, h₆, h₇⟩
  · intro before chunk after e hsplit he
    have hno : ¬ (v.offers before).2.Accepts chunk := by
      intro ha
      rw [offer_accepted ha] at he
      cases he
    obtain ⟨e', hoffer⟩ := offer_refused hno
    rw [hoffer] at he
    cases he
    refine ⟨((v.offers before).2.offers after).1, ?_, ?_⟩
    · rw [hsplit, offers_append, offers, hoffer]
    · rw [hsplit, offers_append, offers_append, offers, hoffer]
  · intro completion
    have hfinal := hrun offered
    rw [validateCompletion_eq_ok, hfinal.count, hfinal.digest, ← hfinal.total, digestText,
      ne_eq, List.length_eq_zero_iff]

/-- **The validator accepts exactly contiguous bounded batches, and its digest binds them**: two runs
with the same digest accepted the same boundaries, counts and record hashes in the same order, or
their digest texts are a collision of the hash. -/
theorem batchValidator_exact (blake3 : Bytes → String) {id : String} {limits : BatchLimits}
    (h : BatchValidator.new id limits = .ok v) (offered : List BatchChunkDescriptor) :
    ExactRun blake3 id limits v offered ∧
      ∀ (id' : String) (limits' : BatchLimits) (w : BatchValidator) (others : List BatchChunkDescriptor)
        (digest : String), BatchValidator.new id' limits' = .ok w →
        (v.offers offered).2.orderedItemDigest blake3 = .ok digest →
        (w.offers others).2.orderedItemDigest blake3 = .ok digest →
        (v.accepted offered).map (fun c => (c.firstItemIndex, c.itemCount, c.recordHash)) =
            (w.accepted others).map (fun c => (c.firstItemIndex, c.itemCount, c.recordHash)) ∨
          digestText (v.accepted offered) ≠ digestText (w.accepted others) ∧
            blake3 (digestText (v.accepted offered)) = blake3 (digestText (w.accepted others)) := by
  refine ⟨exactRun blake3 h offered, ?_⟩
  intro id' limits' w others digest h' hv hw
  have hleft := (holds_new h).offers offered
  have hright := (holds_new h').offers others
  obtain ⟨-, hv⟩ := orderedItemDigest_eq_ok.mp hv
  obtain ⟨-, hw⟩ := orderedItemDigest_eq_ok.mp hw
  rw [hleft.digest] at hv
  rw [hright.digest] at hw
  have hhash : blake3 (digestText (v.accepted offered)) = blake3 (digestText (w.accepted others)) :=
    String.append_right_inj _ |>.mp (hv.symm.trans hw)
  by_cases heq : digestText (v.accepted offered) = digestText (w.accepted others)
  · exact Or.inl (digestText_inj hleft hright (maxItems_of_new h) (maxItems_of_new h') heq)
  · exact Or.inr ⟨heq, hhash⟩

/-! ### A run -/

def sampleChunk (first count : Nat) : BatchChunkDescriptor :=
  ⟨"batch", first, count, 100,
    "blake3:0123456789abcdef0123456789abcdef0123456789abcdef0123456789abcdef"⟩

def sampleValidator : BatchValidator := ⟨"batch", .default, 0, 0, digestDomain⟩

/-- The second of three chunks leaves a gap and is refused. -/
def sampleOffers : List BatchChunkDescriptor := [sampleChunk 0 2, sampleChunk 5 1, sampleChunk 2 3]

theorem sampleOffers_exact :
    sampleValidator.accepted sampleOffers = [sampleChunk 0 2, sampleChunk 2 3] ∧
      ExactRun (fun bytes => bytes.length.repr) "batch" .default sampleValidator sampleOffers :=
  ⟨by decide +kernel, (batchValidator_exact (fun bytes => bytes.length.repr) rfl sampleOffers).1⟩

end BatchValidator

end ArchiveLedger
