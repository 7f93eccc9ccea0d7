import Cdm.Feature.Explode
import Cdm.Feature.Framing
import Cdm.Lib.Encoded

/-!
# What an exploded map holds

The entries of a well-formed map come out one by one and in the order they stand in; none is
dropped, and none is merged with another one.
-/

namespace Cdm

/-- Entries as a serialized map. -/
def ExplodedEntry.serialize (entries : List ExplodedEntry) : Except CdmError Bytes :=
  (Wire.writeElements (Wire.flatten (entries.map fun entry => (entry.key, entry.value)))).map
    fun out => Wire.writeI32 entries.length ++ out

theorem ExplodedEntry.serialize_of_isMap {entries : List ExplodedEntry} {bytes : Bytes}
    (h : Wire.IsMap entries.length (entries.map fun entry => (entry.key, entry.value)) bytes) :
    ExplodedEntry.serialize entries = .ok bytes := by
  obtain ⟨-, -, out, hwrite, rfl⟩ := h
  exact Fallible.map_eq_ok.2 ⟨out, hwrite, rfl⟩

namespace ExplodePlan

open Fallible

variable {plan : ExplodePlan} {entry : RawCell × RawCell} {out : ExplodedEntry}

theorem explodeEntry_eq_ok :
    plan.explodeEntry entry = .ok out ↔
      plan.keyPlan.apply entry.1 = .ok out.key ∧ plan.valuePlan.apply entry.2 = .ok out.value := by
  rw [explodeEntry, bind_eq_ok]
  constructor
  · rintro ⟨key, hkey, h⟩
    obtain ⟨value, hvalue, h⟩ := bind_eq_ok.1 h
    cases h
    exact ⟨hkey, hvalue⟩
  · rintro ⟨hkey, hvalue⟩
    exact ⟨out.key, hkey, bind_eq_ok.2 ⟨out.value, hvalue, rfl⟩⟩

/-- A null value stays null. -/
theorem explodeEntry_null (h : plan.explodeEntry entry = .ok out) (hnull : entry.2 = none) :
    out.value = none := by
  have hvalue := (explodeEntry_eq_ok.1 h).2
  rw [hnull, ConversionPlan.apply_none] at hvalue
  exact (Except.ok.inj hvalue).symm

/-- A map is exploded to what its entries are converted to. -/
theorem explode_of_isMap {entries : List (RawCell × RawCell)} {bytes : Bytes}
    (h : Wire.IsMap entries.length entries bytes) :
    plan.explode (some bytes) = entries.mapM plan.explodeEntry := by
  show (FeatureWire.mapEntries bytes >>= fun entries => entries.mapM plan.explodeEntry) = _
  rw [FeatureWire.mapEntries_of_isMap h]
  rfl

/-- Plans that change nothing leave the entries as they are. -/
theorem mapM_explodeEntry_identity (hkey : plan.keyPlan.isIdentity = true)
    (hvalue : plan.valuePlan.isIdentity = true) (entries : List (RawCell × RawCell)) :
    entries.mapM plan.explodeEntry = .ok (entries.map fun entry => ⟨entry.1, entry.2⟩) := by
  induction entries with
  | nil => rfl
  | cons entry entries ih =>
    have hentry : plan.explodeEntry entry = .ok ⟨entry.1, entry.2⟩ :=
      explodeEntry_eq_ok.2 ⟨ConversionPlan.apply_of_isIdentity hkey _,
        ConversionPlan.apply_of_isIdentity hvalue _⟩
    rw [List.mapM_cons, hentry, ih]
    rfl

/-- A null map has no entries.  Every other one has one for each of its own: the entry at a position
is the conversion of the one at that position, and what plans that change nothing leave behind is
the map. -/
theorem explode_isMap (plan : ExplodePlan) :
    plan.explode none = .ok [] ∧
      ∀ (entries : List (RawCell × RawCell)) (bytes : Bytes),
        Wire.IsMap entries.length entries bytes →
        (∀ entry ∈ entries, (∃ key, plan.keyPlan.apply entry.1 = .ok key) ∧
          ∃ value, plan.valuePlan.apply entry.2 = .ok value) →
        ∃ exploded, plan.explode (some bytes) = .ok exploded ∧
          exploded.length = entries.length ∧
          (∀ (i : ℕ) (entry : RawCell × RawCell), entries[i]? = some entry →
            ∃ out : ExplodedEntry, exploded[i]? = some out ∧
            plan.keyPlan.apply entry.1 = .ok out.key ∧
            plan.valuePlan.apply entry.2 = .ok out.value ∧ (entry.2 = none → out.value = none)) ∧
          (plan.keyPlan.isIdentity = true → plan.valuePlan.isIdentity = true →
            ExplodedEntry.serialize exploded = .ok bytes) := by
  refine ⟨rfl, fun entries bytes hmap hconvert => ?_⟩
  have hentries : ∀ entry ∈ entries, ∃ out, plan.explodeEntry entry = .ok out := by
    intro entry hentry
    obtain ⟨⟨key, hkey⟩, value, hvalue⟩ := hconvert entry hentry
    exact ⟨⟨key, value⟩, explodeEntry_eq_ok.2 ⟨hkey, hvalue⟩⟩
  obtain ⟨exploded, hexploded⟩ := exists_mapM_eq_ok.2 hentries
  refine ⟨exploded, ?_, length_mapM hexploded, ?_, ?_⟩
  · rw [explode_of_isMap hmap, hexploded]
  · intro i entry hentry
    obtain ⟨out, hout, hentry⟩ := exists_mapM_getElem? hexploded i hentry
    exact ⟨out, hout, (explodeEntry_eq_ok.1 hentry).1, (explodeEntry_eq_ok.1 hentry).2,
      explodeEntry_null hentry⟩
  · intro hkey hvalue
    rw [mapM_explodeEntry_identity hkey hvalue] at hexploded
    cases hexploded
    refine ExplodedEntry.serialize_of_isMap ?_
    have hpairs : (entries.map fun entry => (⟨entry.1, entry.2⟩ : ExplodedEntry)).map
        (fun entry => (entry.key, entry.value)) = entries := by
      rw [List.map_map]
      exact List.map_id entries
    rwa [hpairs, List.length_map]

/-- The map of a key `a` to a null and a key `b` to an empty value, exploded as it is. -/
theorem explode_isMap_two :
    ∃ exploded,
      explode ⟨0, .passthrough, .passthrough, "k", "v", true, false⟩
        (some [0, 0, 0, 2, 0, 0, 0, 1, 97, 255, 255, 255, 255, 0, 0, 0, 1, 98, 0, 0, 0, 0]) =
          .ok exploded ∧ exploded.length = 2 := by
  have hmap : Wire.IsMap (2 : ℕ) [(some [97], none), (some [98], some [])]
      [0, 0, 0, 2, 0, 0, 0, 1, 97, 255, 255, 255, 255, 0, 0, 0, 1, 98, 0, 0, 0, 0] :=
    ⟨by decide, rfl, [0, 0, 0, 1, 97, 255, 255, 255, 255, 0, 0, 0, 1, 98, 0, 0, 0, 0], rfl, rfl⟩
  obtain ⟨exploded, h, hlength, -, -⟩ := (explode_isMap
    ⟨0, .passthrough, .passthrough, "k", "v", true, false⟩).2 [(some [97], none), (some [98], some [])] _ hmap
      (fun entry _ => ⟨⟨entry.1, rfl⟩, entry.2, rfl⟩)
  exact ⟨exploded, h, hlength⟩

end ExplodePlan

end Cdm
