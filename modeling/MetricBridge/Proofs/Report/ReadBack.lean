import MetricBridge.Proofs.Json.ReadBack
import MetricBridge.Proofs.Report.Remembered

namespace MetricBridge

namespace ReportInfo

def reread (r : ReportInfo) : ReportInfo where
  module := Text.joined r.module
  action := Text.joined r.action
  category := Text.joined r.category
  name := Text.joined r.name
  parameters := r.parameters.map fun parameters =>
    Entries.ofPairs (parameters.map fun (name, value) => (Text.joined name, Text.joined value))

theorem hasShortInts_toJson (r : ReportInfo) : r.toJson.HasShortInts := by
  intro n hn
  obtain ⟨module, action, category, name, parameters⟩ := r
  cases parameters with
  | none => simp [toJson, Json.parts, Json.partsOfFields] at hn
  | some parameters => simp [toJson, Json.parts, Json.partsOfFields, Json.partsOfFields_eq] at hn

theorem ofJson_toJson (r : ReportInfo) : ofJson r.toJson = .ok r := by
  obtain ⟨module, action, category, name, parameters⟩ := r
  cases parameters with
  | none => rfl
  | some parameters =>
      have hplain : (parameters.map fun e => (e.1, Json.string e.2)).map (fun e => (e.1, e.2.plain)) =
          parameters := by
        rw [List.map_map]
        exact List.map_id _
      exact congrArg (fun pairs => Except.ok (ReportInfo.mk _ _ _ _ (some pairs))) hplain

theorem reread_toJson (r : ReportInfo) : Json.reread r.toJson = r.reread.toJson := by
  rw [toJson, Json.reread]
  simp only [Json.rereadFields, Json.reread]
  obtain ⟨module, action, category, name, parameters⟩ := r
  cases parameters with
  | none => rfl
  | some parameters =>
      have hfields : Json.reread (.object (parameters.map fun (name, value) => (name, .string value))) =
          .object ((Entries.ofPairs (parameters.map fun (name, value) =>
            (Text.joined name, Text.joined value))).map fun (name, value) => (name, .string value)) := by
        rw [Json.reread, Json.rereadFields_eq, ← Entries.ofPairs_map, List.map_map, List.map_map]
        rfl
      dsimp only
      rw [hfields]
      rfl

end ReportInfo

namespace ReportListing

def reread (l : ReportListing) : ReportListing where
  reports := l.reports.map ReportInfo.reread
  hasMetricTypes := l.hasMetricTypes

theorem hasShortInts_toJson (l : ReportListing) : l.toJson.HasShortInts := by
  intro n hn
  simp only [toJson, Json.parts, Json.partsOfFields, Json.partsOfItems_eq, List.append_nil,
    List.cons_append, List.mem_cons, List.mem_append, reduceCtorEq, false_or,
    List.not_mem_nil, or_false, List.mem_flatMap, List.mem_map] at hn
  obtain ⟨-, ⟨r, -, rfl⟩, hn⟩ := hn
  exact r.hasShortInts_toJson n hn

theorem mapM_ofJson_toJson (reports : List ReportInfo) :
    (reports.map ReportInfo.toJson).mapM ReportInfo.ofJson = .ok reports := by
  induction reports with
  | nil => rfl
  | cons r reports ih =>
      rw [List.map_cons, List.mapM_cons, r.ofJson_toJson, ih]
      rfl

theorem ofJson_toJson (l : ReportListing) : ofJson l.toJson = .ok l := by
  unfold ofJson
  change (do
    let reports ← (l.reports.map ReportInfo.toJson).mapM ReportInfo.ofJson
    pure (ReportListing.mk reports !(!l.hasMetricTypes))) = _
  rw [mapM_ofJson_toJson, Bool.not_not]
  rfl

theorem reread_toJson (l : ReportListing) : Json.reread l.toJson = l.reread.toJson := by
  rw [toJson, Json.reread]
  simp only [Json.rereadFields, Json.reread, Json.rereadItems_eq, List.map_map]
  have hreports : l.reports.map (Json.reread ∘ ReportInfo.toJson) =
      l.reread.reports.map ReportInfo.toJson := by
    rw [reread, List.map_map]
    exact List.map_congr_left fun r _ => r.reread_toJson
  rw [hreports]
  rfl

end ReportListing

namespace ReportClient

/-- The text of a listing encodes what is read back of it. -/
theorem encodes_print (l : ReportListing) : Encodes l.toJson.print l.reread :=
  ⟨_, (Json.parse_print l.hasShortInts_toJson).trans (congrArg Except.ok l.reread_toJson),
    l.reread.ofJson_toJson⟩

end ReportClient
end MetricBridge
