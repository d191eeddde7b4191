import OtaAgent.Archive.History
import OtaAgent.Proofs.Json.Building
import OtaAgent.Proofs.Table

set_option autoImplicit false

namespace OtaAgent

open Json

theorem Backup.ofDoc?_toDoc (b : Backup) : ofDoc? b.toJson.toDoc = some b := by
  have fields : fields? ["downloaded", "sha-256", "file"] 3 b.toJson.toDoc =
      some [some (.bool b.downloaded), some (.string (some b.digest)),
        some (.string (some b.file.text))] := by
    simp [Backup.toJson, toDoc, memberDocs, fields?, memberNames?, docMember?]
  rw [ofDoc?, fields]
  rfl

namespace History

theorem memberDocs_backups (t : Table Backup) :
    memberDocs (t.map fun (version, b) => (version, b.toJson)) =
      t.map fun (version, b) => (some version, b.toJson.toDoc) := by
  induction t with
  | nil => rfl
  | cons e t ih => rw [List.map_cons, List.map_cons, memberDocs, ih]

theorem mapM_pair? (t : Table Backup) :
    (t.map fun (version, b) => (some version, b.toJson.toDoc)).mapM (pair? Backup.ofDoc?) =
      some t := by
  induction t with
  | nil => rfl
  | cons e t ih => simp [pair?, Backup.ofDoc?_toDoc, ih]

theorem ofDoc?_toDoc {h : History} (sorted : h.backups.Sorted) :
    ofDoc? h.toJson.toDoc = some h := by
  have fields : fields? ["version", "version-list"] 1 h.toJson.toDoc =
      some [some (.string (some h.current)),
        some (.object (h.backups.map fun (version, b) => (some version, b.toJson.toDoc)))] := by
    simp [History.toJson, toDoc, memberDocs, memberDocs_backups, fields?, memberNames?, docMember?]
  have backups : table? Backup.ofDoc?
      (.object (h.backups.map fun (version, b) => (some version, b.toJson.toDoc))) =
        some h.backups := by
    rw [table?, mapM_pair?, Option.map_some, Table.ofList_eq_self sorted]
  simp [ofDoc?, fields, required?, text?, default?, backups]

theorem parse?_text {h : History} (sorted : h.backups.Sorted) : parse? h.text = some h := by
  rw [parse?, text, Doc.parse?_pretty, Option.bind_some, ofDoc?_toDoc sorted]

theorem sorted_of_table? {d : Doc} {t : Table Backup} (read : table? Backup.ofDoc? d = some t) :
    t.Sorted := by
  cases d with
  | object members =>
    obtain ⟨entries, -, rfl⟩ := Option.map_eq_some_iff.mp read
    exact Table.sorted_ofList entries
  | _ => cases read

theorem sorted_of_parse? {s : String} {h : History} (parsed : parse? s = some h) :
    h.backups.Sorted := by
  obtain ⟨doc, -, read⟩ := Option.bind_eq_some_iff.mp parsed
  obtain ⟨fields, -, read⟩ := Option.bind_eq_some_iff.mp read
  split at read
  · obtain ⟨current, -, read⟩ := Option.bind_eq_some_iff.mp read
    obtain ⟨backups, given, made⟩ := Option.bind_eq_some_iff.mp read
    cases made
    unfold default? at given
    split at given
    · cases given
      exact List.Pairwise.nil
    · exact sorted_of_table? given
  · cases read

end History
end OtaAgent
