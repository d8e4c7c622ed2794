import Mathlib.Data.List.Nodup
import SourceLoom.Proofs.Graph.Recording

/-!
# Records without repetitions

Recording repeats neither a file nor a value of it. So every file has at most one record, the pairs
of a file with a value are those that were recorded, each once, and they are counted by their
values.
-/

namespace SourceLoom

namespace Records

variable {α : Type}

/-- Every file has one record, in which every value comes once. -/
structure Sound (records : Records α) : Prop where
  /-- No file has two records. -/
  files_nodup : (records.map (·.1)).Nodup
  /-- No record has a value twice. -/
  values_nodup : ∀ record ∈ records, record.2.Nodup

/-- Nothing is recorded yet. -/
theorem Sound.nil : Sound ([] : Records α) := ⟨List.nodup_nil, nofun⟩

/-- If every file has one record, its values are those of its record. -/
theorem mem_get_iff {records : Records α} (h : (records.map (·.1)).Nodup) {file : Path}
    {value : α} :
    value ∈ records.get file ↔ ∃ values, (file, values) ∈ records ∧ value ∈ values := by
  induction records with
  | nil =>
    exact ⟨fun hv => absurd hv List.not_mem_nil, fun ⟨_, hr, _⟩ => absurd hr List.not_mem_nil⟩
  | cons record records ih =>
    obtain ⟨other, values⟩ := record
    rw [List.map_cons, List.nodup_cons] at h
    rw [get_cons]
    split
    · rename_i hother
      subst hother
      refine ⟨fun hv => ⟨values, List.mem_cons_self, hv⟩, fun ⟨values', hr, hv⟩ => ?_⟩
      rcases List.mem_cons.mp hr with heq | hr
      · rwa [← (Prod.mk.inj heq).2]
      · exact absurd (List.mem_map_of_mem hr) h.1
    · rename_i hother
      rw [ih h.2]
      refine exists_congr fun values' => and_congr_left fun _ => ?_
      rw [List.mem_cons, or_iff_right]
      exact fun heq => hother (Prod.mk.inj heq).1.symm

section Pairs

variable {sort : List α → List α} (hsort : ∀ values, (sort values).Perm values)
include hsort

/-- The pairs of a sound record are a file with each of its values. -/
theorem mem_pairs_iff {records : Records α} (h : records.Sound) {file : Path} {value : α} :
    (file, value) ∈ records.pairs sort ↔ value ∈ records.get file := by
  rw [mem_get_iff h.files_nodup, pairs, List.mem_flatMap]
  constructor
  · rintro ⟨⟨other, values⟩, hr, hv⟩
    obtain ⟨value', hv', heq⟩ := List.mem_map.mp hv
    obtain ⟨rfl, rfl⟩ := Prod.mk.inj heq
    exact ⟨values, hr, (hsort values).mem_iff.mp hv'⟩
  · rintro ⟨values, hr, hv⟩
    exact ⟨(file, values), hr, List.mem_map_of_mem ((hsort values).mem_iff.mpr hv)⟩

/-- No pair of a sound record comes twice. -/
theorem pairs_nodup {records : Records α} (h : records.Sound) : (records.pairs sort).Nodup := by
  refine List.nodup_flatMap.mpr ⟨fun record hr => ?_, ?_⟩
  · exact ((hsort record.2).nodup_iff.mpr (h.values_nodup record hr)).map
      fun _ _ heq => (Prod.mk.inj heq).2
  · -- pairs of two records differ in their files
    refine (List.pairwise_map.mp h.files_nodup).imp fun {record other} hne pair hp hp' => ?_
    obtain ⟨value, -, rfl⟩ := List.mem_map.mp hp
    obtain ⟨value', -, heq⟩ := List.mem_map.mp hp'
    exact hne (Prod.mk.inj heq).1.symm

/-- There are as many pairs as values. -/
theorem length_pairs (records : Records α) : (records.pairs sort).length = records.count := by
  have hcount : ∀ n, records.foldl (· + ·.2.length) n = n + (records.pairs sort).length := by
    induction records with
    | nil => exact fun n => rfl
    | cons record records ih =>
      intro n
      have hcons : pairs sort (record :: records) =
          (sort record.2).map (record.1, ·) ++ pairs sort records := rfl
      rw [List.foldl_cons, ih, hcons, List.length_append, List.length_map,
        (hsort record.2).length_eq, Nat.add_assoc]
  rw [count, hcount, Nat.zero_add]

end Pairs

variable [DecidableEq α]

/-- Recording a value adds at most one record, the last. -/
theorem mem_map_fst_add {records : Records α} {file other : Path} {new : α} :
    other ∈ (records.add file new).map (·.1) ↔ other ∈ records.map (·.1) ∨ other = file := by
  induction records with
  | nil => simp [add]
  | cons record records ih =>
    obtain ⟨first, values⟩ := record
    rw [add]
    split
    · rename_i hfirst
      subst hfirst
      simp only [List.map_cons, List.mem_cons]
      tauto
    · rw [List.map_cons, List.mem_cons, ih, List.map_cons, List.mem_cons, or_assoc]

/-- Recording a value repeats neither a file nor a value. -/
theorem Sound.add {records : Records α} (h : records.Sound) (file : Path) (new : α) :
    (records.add file new).Sound := by
  induction records with
  | nil =>
    refine ⟨List.nodup_singleton _, fun record hr => ?_⟩
    rw [List.mem_singleton.mp hr]
    exact List.nodup_singleton _
  | cons record records ih =>
    obtain ⟨other, values⟩ := record
    obtain ⟨hother, hfiles⟩ := List.nodup_cons.mp h.files_nodup
    obtain ⟨hvalues, hrest⟩ := List.forall_mem_cons.mp h.values_nodup
    rw [Records.add]
    split
    · refine ⟨h.files_nodup, List.forall_mem_cons.mpr ⟨?_, hrest⟩⟩
      dsimp only
      split
      · exact hvalues
      · rename_i hnew
        rw [← List.concat_eq_append]
        exact hvalues.concat hnew
    · rename_i hne
      obtain ⟨hfiles', hvalues'⟩ := ih ⟨hfiles, hrest⟩
      refine ⟨List.nodup_cons.mpr ⟨fun hmem => ?_, hfiles'⟩,
        List.forall_mem_cons.mpr ⟨hvalues, hvalues'⟩⟩
      exact (mem_map_fst_add.mp hmem).elim hother hne

end Records

end SourceLoom
