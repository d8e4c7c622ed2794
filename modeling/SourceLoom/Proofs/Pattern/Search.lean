import SourceLoom.Proofs.Pattern.Language

/-!
# What a search finds

A search for all pieces of a pattern finds only pieces that stand somewhere in the text. It may pass
over a place where a piece begins, but only because of a piece that it found there or earlier and
that goes on beyond the place.
-/

namespace SourceLoom.Pattern

variable {p : Pattern} {here place found : Cursor} {text piece : Text}

/-- The next character leads one place on. -/
theorem Cursor.next?_eq_some_iff {c : Char} {there : Cursor} :
    here.next? = some (c, there) ↔ here.Reads [c] [] there := by
  obtain ⟨before, after, left, left_eq, groups⟩ := here
  cases after with
  | nil =>
    refine ⟨nofun, fun hreads => ?_⟩
    cases hreads.after
  | cons d after =>
    rw [next?, Option.some_inj, Prod.mk.injEq]
    constructor
    · rintro ⟨rfl, rfl⟩
      exact ⟨rfl, rfl, rfl⟩
    · intro hreads
      obtain ⟨rfl, hafter⟩ := List.cons.inj hreads.after
      exact ⟨rfl, ext_iff'.mpr ⟨hreads.before.symm, hafter, hreads.groups.symm⟩⟩

section Places

variable {places skip : Nat} {c : Char} {there : Cursor}

/-- Before the end of the text there is a next place. -/
theorem Cursor.exists_next (h : here.after ≠ []) : ∃ c there, here.next? = some (c, there) := by
  obtain ⟨before, after, left, left_eq, groups⟩ := here
  cases after with
  | nil => exact absurd rfl h
  | cons c after => exact ⟨c, _, rfl⟩

/-- At the end of the text nothing is sought. -/
theorem findAllFrom_end (h : here.next? = none) : findAllFrom p places skip here = [] := by
  cases places with
  | zero => rfl
  | succ places =>
    unfold findAllFrom
    rw [h]

/-- A character that belongs to the piece before is passed over. -/
theorem findAllFrom_skip (h : here.next? = some (c, there)) :
    findAllFrom p (places + 1) (skip + 1) here = findAllFrom p places skip there := by
  rw [findAllFrom.eq_def]
  simp only [h]

/-- Where no piece begins, the search goes on at the next place. -/
theorem findAllFrom_missed (h : here.next? = some (c, there)) (hways : ways p here = []) :
    findAllFrom p (places + 1) 0 here = findAllFrom p places 0 there := by
  rw [findAllFrom.eq_def]
  simp only [h, matchAt_eq_head?, hways, List.head?_nil]

/-- Where a piece begins, the preferred one is found, and its characters are passed over. -/
theorem findAllFrom_found {others : List Cursor} (h : here.next? = some (c, there))
    (hways : ways p here = found :: others) :
    findAllFrom p (places + 1) 0 here =
      found :: findAllFrom p places (there.left - found.left) there := by
  rw [findAllFrom.eq_def]
  simp only [h, matchAt_eq_head?, hways, List.head?_cons]

end Places

/-- What is found begins somewhere at or after the place where the search begins. -/
theorem exists_of_mem_findAllFrom {places skip : Nat}
    (h : found ∈ findAllFrom p places skip here) :
    ∃ piece place, here.Reads piece [] place ∧ found ∈ ways p place := by
  induction places generalizing skip here with
  | zero => cases h
  | succ places ih =>
    cases hnext : here.next? with
    | none =>
      rw [findAllFrom_end hnext] at h
      cases h
    | some next =>
      obtain ⟨c, there⟩ := next
      have hread := Cursor.next?_eq_some_iff.mp hnext
      have hlater {skip : Nat} (h : found ∈ findAllFrom p places skip there) :
          ∃ piece place, here.Reads piece [] place ∧ found ∈ ways p place := by
        obtain ⟨piece, place, hplace, hways⟩ := ih h
        exact ⟨[c] ++ piece, place, hread.trans hplace, hways⟩
      cases skip with
      | succ skip =>
        rw [findAllFrom_skip hnext] at h
        exact hlater h
      | zero =>
        cases hways : ways p here with
        | nil =>
          rw [findAllFrom_missed hnext hways] at h
          exact hlater h
        | cons first others =>
          rw [findAllFrom_found hnext hways] at h
          rcases List.mem_cons.mp h with rfl | h
          · exact ⟨[], here, .refl here, hways ▸ List.mem_cons_self⟩
          · exact hlater h

/-- Where a piece begins that is not passed over, it or an earlier piece that goes on beyond its
beginning is found. -/
theorem exists_mem_findAllFrom {places skip : Nat} (hplace : here.Reads piece [] place)
    (hskip : skip ≤ piece.length) (hplaces : piece.length < places) (hafter : place.after ≠ [])
    (hways : ways p place ≠ []) :
    ∃ first rest early found, here.Reads first [] early ∧ early.Reads rest [] place ∧
      found ∈ findAllFrom p places skip here ∧ found ∈ ways p early ∧
      (rest = [] ∨ found.left < place.left) := by
  induction places generalizing skip here piece with
  | zero => cases hplaces
  | succ places ih =>
    cases piece with
    | nil =>
      cases (Cursor.Reads.refl here).unique hplace
      obtain rfl : skip = 0 := Nat.le_zero.mp hskip
      obtain ⟨found, others, hways⟩ := List.exists_cons_of_ne_nil hways
      obtain ⟨c, there, hnext⟩ := place.exists_next hafter
      refine ⟨[], [], place, found, hplace, hplace, ?_, hways ▸ List.mem_cons_self, Or.inl rfl⟩
      rw [findAllFrom_found hnext hways]
      exact List.mem_cons_self
    | cons c piece =>
      obtain ⟨there, hread, hrest⟩ : ∃ there, here.Reads [c] [] there ∧
        there.Reads piece [] place := hplace.split [] []
      have hnext := Cursor.next?_eq_some_iff.mpr hread
      have hlength := Nat.lt_of_succ_lt_succ hplaces
      have hlater {later : Nat} (hpiece : later ≤ piece.length)
          (hmem : ∀ found ∈ findAllFrom p places later there,
            found ∈ findAllFrom p (places + 1) skip here) :
          ∃ first rest early found, here.Reads first [] early ∧ early.Reads rest [] place ∧
            found ∈ findAllFrom p (places + 1) skip here ∧ found ∈ ways p early ∧
            (rest = [] ∨ found.left < place.left) := by
        obtain ⟨first, rest, early, found, hearly, hbetween, hfound, hmatch, hends⟩ :=
          ih hrest hpiece hlength
        exact ⟨[c] ++ first, rest, early, found, hread.trans hearly, hbetween, hmem found hfound,
          hmatch, hends⟩
      cases skip with
      | succ skip =>
        refine hlater (Nat.le_of_succ_le_succ hskip) fun found hfound => ?_
        rw [findAllFrom_skip hnext]
        exact hfound
      | zero =>
        cases hhere : ways p here with
        | nil =>
          refine hlater (Nat.zero_le _) fun found hfound => ?_
          rw [findAllFrom_missed hnext hhere]
          exact hfound
        | cons first others =>
          rw [findAllFrom_found hnext hhere] at hlater ⊢
          by_cases hbeyond : first.left < place.left
          · exact ⟨[], c :: piece, here, first, .refl here, hplace, List.mem_cons_self,
              hhere ▸ List.mem_cons_self, Or.inr hbeyond⟩
          · refine hlater ?_ fun found hfound => List.mem_cons_of_mem _ hfound
            have hleft := hrest.left_eq
            omega

/-- A search finds pieces that stand in the text. -/
theorem exists_of_mem_findAll (h : found ∈ findAll p text) :
    ∃ piece place, (Cursor.start text).Reads piece [] place ∧ found ∈ ways p place :=
  exists_of_mem_findAllFrom h

/-- Where a piece begins, a search finds it or an earlier piece that goes on beyond its
beginning. -/
theorem exists_mem_findAll (hplace : (Cursor.start text).Reads piece [] place)
    (hafter : place.after ≠ []) (hways : ways p place ≠ []) :
    ∃ first rest early found, (Cursor.start text).Reads first [] early ∧
      early.Reads rest [] place ∧ found ∈ findAll p text ∧ found ∈ ways p early ∧
      (rest = [] ∨ found.left < place.left) := by
  refine exists_mem_findAllFrom hplace (Nat.zero_le _) ?_ hafter hways
  have htext : text = piece ++ place.after := hplace.after
  rw [htext, List.length_append]
  have hpositive := List.length_pos_iff.mpr hafter
  omega

end SourceLoom.Pattern
