import MetricBridge.Files
import MetricBridge.Proofs.Entries

namespace MetricBridge

namespace Path

variable {p q : Path} {name : Text}

theorem resolve_child (h : name ≠ lit "..") : (p.child name).resolve = p.resolve.child name := by
  simp [resolve, child, h]

theorem child_ne (p : Path) (name : Text) : p.child name ≠ p := by
  intro h
  have hlength := congrArg (fun q : Path => q.parts.length) h
  simp [child] at hlength

theorem mem_steps_self (h : p.parts ≠ []) : p ∈ p.steps := by
  have hpos := List.length_pos_iff.mpr h
  refine List.mem_map.mpr ⟨p.parts.length - 1, List.mem_range.mpr (by omega), ?_⟩
  rw [Nat.sub_add_cancel hpos, List.take_length]

theorem length_resolve_le (p : Path) : p.resolve.parts.length ≤ p.parts.length := by
  unfold resolve
  dsimp only
  induction p.parts using List.reverseRecOn with
  | nil => exact Nat.le_refl _
  | append_singleton parts part ih =>
      rw [List.foldl_append, List.foldl_cons, List.foldl_nil, List.length_append, List.length_singleton]
      split
      · rw [List.length_dropLast]
        omega
      · rw [List.length_append, List.length_singleton]
        omega

/-- The steps in front of the last one are shorter. -/
theorem length_lt_of_mem_steps (h : q ∈ p.steps.dropLast) : q.parts.length < p.parts.length := by
  unfold steps at h
  rw [← List.map_dropLast] at h
  obtain ⟨n, hn, rfl⟩ := List.mem_map.mp h
  have hlt : n < p.parts.length - 1 := by
    cases hlength : p.parts.length with
    | zero =>
        rw [hlength] at hn
        cases hn
    | succ k =>
        rw [hlength, List.range_succ, List.dropLast_concat] at hn
        simpa using hn
  dsimp only
  rw [List.length_take]
  omega

end Path

namespace Files

variable {p q : Path} {files files' : Files} {content : Bytes}

theorem node?_of_parts (h : p.resolve.parts ≠ []) (files : Files) :
    files.node? p = Entries.find? p.resolve files := by
  simp [node?, h]

theorem node?_set (h : p.resolve.parts ≠ []) (node : FileNode) :
    node? p (Entries.set p.resolve node files) = some node := by
  rw [node?_of_parts h, Entries.find?_set, if_pos rfl]

theorem node?_set_of_ne (h : p.resolve ≠ q.resolve) (node : FileNode) :
    node? q (Entries.set p.resolve node files) = files.node? q := by
  unfold node?
  dsimp only
  split
  · rfl
  · rw [Entries.find?_set, if_neg h]

/-- What is at a path itself does not block it. -/
theorem isBlocked_congr (h : ∀ q : Path, p.resolve ≠ q.resolve → files'.node? q = files.node? q) :
    files'.isBlocked p = files.isBlocked p := by
  unfold isBlocked
  rw [Bool.eq_iff_iff, List.any_eq_true, List.any_eq_true]
  refine exists_congr fun q => and_congr_right fun hq => ?_
  rw [h q fun heq => ?_]
  have hle := q.length_resolve_le
  have hlt := Path.length_lt_of_mem_steps hq
  rw [← heq] at hle
  omega

theorem node?_erase_of_ne (h : p.resolve ≠ q.resolve) :
    node? q (Entries.erase p.resolve files) = files.node? q := by
  unfold node?
  dsimp only
  split
  · rfl
  · rw [Entries.find?_erase_of_ne h]

theorem write_eq_ok (h : files.write p content = .ok files') :
    files' = Entries.set p.resolve (.file content) files ∧ p.resolve.parts ≠ [] := by
  have hparts : files.node? p ≠ some .folder → p.resolve.parts ≠ [] := by
    intro hnode hnil
    exact hnode (by simp [node?, hnil])
  unfold write at h
  split at h
  · cases h
  · rename_i hnode
    cases h
    exact ⟨rfl, hparts (by simp [hnode])⟩
  · rename_i hnode
    split at h
    · cases h
      exact ⟨rfl, hparts (by simp [hnode])⟩
    · cases h
    · cases h

/-- Whether a file can be written does not depend on what is written. -/
theorem exists_write (h : files.write p content = .ok files') (more : Bytes) :
    ∃ files'', files.write p more = .ok files'' := by
  unfold write at h ⊢
  split at h
  · cases h
  · exact ⟨_, rfl⟩
  · split at h
    · exact ⟨_, rfl⟩
    · cases h
    · cases h

theorem node?_foldl_folder (steps : List Path) (files : Files) :
    Entries.find? q (steps.foldl (fun files p => Entries.set p .folder files) files) =
      if q ∈ steps then some .folder else Entries.find? q files := by
  induction steps generalizing files with
  | nil => rfl
  | cons p steps ih =>
      rw [List.foldl_cons, ih, Entries.find?_set]
      by_cases hmem : q ∈ steps
      · simp [hmem]
      · by_cases hp : p = q
        · simp [hp]
        · simp [hmem, hp, Ne.symm hp]

theorem node?_makeFolders (h : files.makeFolders p = .ok files') : files'.node? p = some .folder := by
  unfold makeFolders at h
  split at h
  · rename_i hnode
    cases h
    exact hnode
  · cases h
  · rename_i hnode
    split at h
    · cases h
    · cases h
      unfold node? at hnode ⊢
      dsimp only at hnode ⊢
      split
      · rfl
      · rename_i hparts
        rw [node?_foldl_folder, if_pos (Path.mem_steps_self (by simpa using hparts))]

theorem makeFolders_of_folder (h : files.node? p = some .folder) :
    files.makeFolders p = .ok files := by
  simp [makeFolders, h]

theorem write_of_file {old : Bytes} (h : files.node? p = some (.file old)) :
    files.write p content = .ok (Entries.set p.resolve (.file content) files) := by
  simp [write, h]

end Files
end MetricBridge
