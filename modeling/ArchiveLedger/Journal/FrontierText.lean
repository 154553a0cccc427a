import ArchiveLedger.Catalog.Queries
import ArchiveLedger.Journal.Frontier

/-!
# The text of a frontier

`serde_json::to_vec` of a frontier, field by field in the order of its declaration.  Frontiers that
differ have different texts (`frontierText_injective`), so the text that a hash was taken of
determines the frontier.
-/

namespace ArchiveLedger

open JsonText

def OriginFrontier.json (o : OriginFrontier) : List Char :=
  "\x7b\"origin_id\":".toList ++ writeString o.originId ++
    ",\"seq\":".toList ++ writeNat o.seq ++
    ",\"event_hash\":".toList ++ writeString o.eventHash ++
    ",\"segment_manifest_hash\":".toList ++ writeString o.segmentManifestHash ++ "\x7d".toList

def CausalFrontier.json (f : CausalFrontier) : List Char :=
  "\x7b\"v\":".toList ++ writeNat f.v ++
    ",\"archive_id\":".toList ++ writeString f.archiveId ++
    ",\"genesis_hash\":".toList ++ writeString f.genesisHash ++
    ",\"origins\":".toList ++ writeArray OriginFrontier.json f.origins ++
    ",\"previous_frontiers\":".toList ++ writeArray writeString f.previousFrontiers ++
    ",\"item_projection_version\":".toList ++ writeNat f.itemProjectionVersion ++ "\x7d".toList

def frontierText (f : CausalFrontier) : Bytes := utf8 (String.ofList f.json)

theorem OriginFrontier.json_cancel {o p : OriginFrontier} {r s : List Char} (h : o.json ++ r = p.json ++ s) :
    o = p ∧ r = s := by
  unfold OriginFrontier.json at h
  simp only [List.append_assoc] at h
  obtain ⟨hid, h⟩ := writeString_cancel (List.append_cancel_left h)
  obtain ⟨hseq, h⟩ := writeNat_cancel (by simp [Ends]) (by simp [Ends]) (List.append_cancel_left h)
  obtain ⟨hevent, h⟩ := writeString_cancel (List.append_cancel_left h)
  obtain ⟨hmanifest, h⟩ := writeString_cancel (List.append_cancel_left h)
  have hrest := List.append_cancel_left h
  cases o
  cases p
  simp only [OriginFrontier.mk.injEq]
  exact ⟨⟨hid, hseq, hevent, hmanifest⟩, hrest⟩

theorem OriginFrontier.json_ne_bracket (o : OriginFrontier) (r s : List Char) : o.json ++ r ≠ ']' :: s := by
  intro h
  unfold OriginFrontier.json at h
  simp only [List.append_assoc] at h
  exact absurd (List.cons.inj h).1 (by decide)

theorem writeString_ne_bracket (text : String) (r s : List Char) : writeString text ++ r ≠ ']' :: s := by
  intro h
  exact absurd (List.cons.inj h).1 (by decide)

/-- **The text of a frontier determines the frontier.** -/
theorem frontierText_injective : Function.Injective frontierText := by
  intro f g h
  have h := String.ofList_injective (utf8_injective h)
  unfold CausalFrontier.json at h
  simp only [List.append_assoc] at h
  obtain ⟨hv, h⟩ := writeNat_cancel (by simp [Ends]) (by simp [Ends]) (List.append_cancel_left h)
  obtain ⟨harchive, h⟩ := writeString_cancel (List.append_cancel_left h)
  obtain ⟨hgenesis, h⟩ := writeString_cancel (List.append_cancel_left h)
  obtain ⟨horigins, h⟩ :=
    writeArray_cancel OriginFrontier.json_cancel OriginFrontier.json_ne_bracket (List.append_cancel_left h)
  obtain ⟨hprevious, h⟩ := writeArray_cancel writeString_cancel writeString_ne_bracket (List.append_cancel_left h)
  obtain ⟨hprojection, -⟩ := writeNat_cancel (by simp [Ends]) (by simp [Ends]) (List.append_cancel_left h)
  cases f
  cases g
  simp only [CausalFrontier.mk.injEq]
  exact ⟨hv, harchive, hgenesis, horigins, hprevious, hprojection⟩

end ArchiveLedger
