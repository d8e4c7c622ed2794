import SourceLoom.Proofs.Files.Places

/-!
# Following names

In a tree without links, names without double dots are followed from a node to the nodes in it and
never elsewhere. So what a normal path leads to can be read off the root directory alone, and
putting a file at a place changes the answer for no other place but those that are on the way to it
or beyond it.
-/

namespace SourceLoom.Files

namespace Node

/-- What names lead to below a node: a node, or nothing yet in an existing directory. -/
def follow : Node → List Name → Except Cause (Option Node)
  | node, [] => .ok (some node)
  | .directory permissions entries, name :: names =>
    if !permissions.reach then .error .denied
    else if nameLimit < Utf8.size name then .error .nameTooLong
    else match entries.lookup name with
      | none => if names = [] then .ok none else .error .notFound
      | some inner => inner.follow names
  | .file _ _, _ :: _ => .error .notADirectory
  | .link _, _ :: _ => .error .notADirectory
  | .device _, _ :: _ => .error .notADirectory

/-- What is at a place below a place. -/
theorem get?_append (node : Node) (place names : List Name) :
    node.get? (place ++ names) = (node.get? place).bind fun inner => inner.get? names := by
  induction place generalizing node with
  | nil => rfl
  | cons name place ih =>
    rw [List.cons_append, get?, get?, Option.bind_assoc]
    congr 1
    funext inner
    exact ih inner

/-- What is at the place of an entry is what the directory has under its name. -/
theorem get?_concat {node : Node} {place : List Name} {permissions : Permissions}
    {entries : List (Name × Node)} (h : node.get? place = some (.directory permissions entries))
    (name : Name) : node.get? (place ++ [name]) = entries.lookup name := by
  rw [get?_append, h, Option.bind_some, get?, entry?]
  cases entries.lookup name <;> rfl

section Put

variable {name other : Name} {new : Node} {entries : List (Name × Node)}

/-- What was put is found. -/
@[simp] theorem lookup_put_self : (put name new entries).lookup name = some new := by
  induction entries with
  | nil => simp [put]
  | cons entry entries ih =>
    obtain ⟨first, old⟩ := entry
    rw [put]
    split
    · exact List.lookup_cons_self
    · rename_i hfirst
      have hname : (name == first) = false := beq_eq_false_iff_ne.mpr (Ne.symm hfirst)
      rw [List.lookup_cons, hname]
      exact ih

/-- What was there under another name is still found. -/
theorem lookup_put_of_ne (h : other ≠ name) :
    (put name new entries).lookup other = entries.lookup other := by
  induction entries with
  | nil => simp [put, h]
  | cons entry entries ih =>
    obtain ⟨first, old⟩ := entry
    rw [put]
    split
    · rename_i hfirst
      have hname : (other == name) = false := beq_eq_false_iff_ne.mpr h
      rw [List.lookup_cons, List.lookup_cons, hfirst, hname]
    · rw [List.lookup_cons, List.lookup_cons, ih]

/-- Putting twice under one name is putting once. -/
theorem put_put (newer : Node) :
    put name newer (put name new entries) = put name newer entries := by
  induction entries with
  | nil => simp [put]
  | cons entry entries ih =>
    obtain ⟨first, old⟩ := entry
    rw [put, put]
    split
    · rw [put, if_pos rfl]
    · rename_i hfirst
      rw [put, if_neg hfirst, ih]

/-- The names stay the same where one of them is given a node. -/
theorem map_fst_put {old : Node} (h : entries.lookup name = some old) :
    (put name new entries).map (·.1) = entries.map (·.1) := by
  induction entries with
  | nil => cases h
  | cons entry entries ih =>
    obtain ⟨first, node⟩ := entry
    rw [put]
    split
    · rename_i hfirst
      rw [List.map_cons, List.map_cons, hfirst]
    · rename_i hfirst
      have hname : (name == first) = false := beq_eq_false_iff_ne.mpr (Ne.symm hfirst)
      rw [List.lookup_cons, hname] at h
      rw [List.map_cons, List.map_cons, ih h]

/-- A new name comes last. -/
theorem map_fst_put_of_none (h : entries.lookup name = none) :
    (put name new entries).map (·.1) = entries.map (·.1) ++ [name] := by
  induction entries with
  | nil => rfl
  | cons entry entries ih =>
    obtain ⟨first, node⟩ := entry
    rw [List.lookup_cons] at h
    split at h
    · cases h
    · rename_i hfirst
      rw [put, if_neg (Ne.symm (beq_eq_false_iff_ne.mp hfirst)),
        List.map_cons, List.map_cons, ih h, List.cons_append]

/-- A name that nothing is found under is none of the names. -/
theorem not_mem_of_lookup_eq_none (h : entries.lookup name = none) :
    name ∉ entries.map (·.1) := by
  rw [List.lookup_eq_none_iff] at h
  intro hmem
  obtain ⟨entry, hentry, hname⟩ := List.mem_map.mp hmem
  exact absurd (h entry hentry) (by simp [hname])

/-- What is in a list of entries without links is, after putting something without links there. -/
theorem LinkFree.put (hnew : new.LinkFree) (h : ∀ entry ∈ entries, entry.2.LinkFree) :
    ∀ entry ∈ Node.put name new entries, entry.2.LinkFree := by
  induction entries with
  | nil =>
    intro entry hentry
    rw [List.mem_singleton.mp hentry]
    exact hnew
  | cons first entries ih =>
    obtain ⟨other, old⟩ := first
    intro entry hentry
    rw [Node.put] at hentry
    split at hentry
    · rcases List.mem_cons.mp hentry with rfl | hentry
      · exact hnew
      · exact h entry (List.mem_cons_of_mem _ hentry)
    · rcases List.mem_cons.mp hentry with rfl | hentry
      · exact h _ List.mem_cons_self
      · exact ih (fun entry hentry => h entry (List.mem_cons_of_mem _ hentry)) entry hentry

end Put

/-- A tree without links stays so when something without links is put into it. -/
theorem LinkFree.set {node new : Node} (h : node.LinkFree) (hnew : new.LinkFree)
    (place : List Name) : (node.set place new).LinkFree := by
  induction place generalizing node with
  | nil => exact hnew
  | cons name place ih =>
    cases h with
    | file permissions bytes => exact .file permissions bytes
    | device permissions => exact .device permissions
    | @directory permissions entries hall =>
      refine .directory (LinkFree.put (ih ?_) hall)
      cases hlookup : entries.lookup name with
      | none => exact .directory nofun
      | some inner =>
        have hself : LinkFree (.directory permissions entries) := .directory hall
        exact hself.of_entry hlookup

/-- Following a name of a directory that can be reached. -/
theorem follow_directory {permissions : Permissions} (entries : List (Name × Node)) {name : Name}
    (hreach : permissions.reach = true) (hsize : ¬nameLimit < Utf8.size name)
    (names : List Name) :
    (directory permissions entries).follow (name :: names) =
      match entries.lookup name with
      | none => if names = [] then .ok none else .error .notFound
      | some inner => inner.follow names := by
  rw [follow, hreach, if_neg (by decide), if_neg hsize]

/-- A file can be at a place: there is one, or there is nothing yet in an existing directory. -/
def TakesFile (node : Node) (place : List Name) : Prop :=
  node.follow place = .ok none ∨
    ∃ permissions bytes, node.follow place = .ok (some (.file permissions bytes))

/-- No file can be where following fails. -/
theorem not_takesFile {node : Node} {place : List Name} (cause : Cause)
    (h : node.follow place = .error cause) : ¬node.TakesFile place := by
  rintro (hnone | ⟨permissions, bytes, hfile⟩)
  · rw [h] at hnone
    cases hnone
  · rw [h] at hfile
    cases hfile

/-- The first step to a place where a file can be. -/
theorem TakesFile.step {node : Node} {name : Name} {place : List Name}
    (h : node.TakesFile (name :: place)) :
    ∃ permissions entries, node = .directory permissions entries ∧ permissions.reach = true ∧
      ¬nameLimit < Utf8.size name ∧
      ((place = [] ∧ entries.lookup name = none) ∨
        ∃ inner, entries.lookup name = some inner ∧ inner.TakesFile place) := by
  cases node with
  | file permissions bytes => exact absurd h (not_takesFile _ rfl)
  | link target => exact absurd h (not_takesFile _ rfl)
  | device permissions => exact absurd h (not_takesFile _ rfl)
  | directory permissions entries =>
    have hreach : permissions.reach = true := by
      by_contra hreach
      refine not_takesFile .denied ?_ h
      rw [follow, if_pos (by simpa using hreach)]
    have hsize : ¬nameLimit < Utf8.size name := by
      intro hsize
      refine not_takesFile .nameTooLong ?_ h
      rw [follow, hreach, if_neg (by decide), if_pos hsize]
    refine ⟨permissions, entries, rfl, hreach, hsize, ?_⟩
    have hnext := follow_directory entries hreach hsize place
    cases hlookup : entries.lookup name with
    | none =>
      rw [hlookup] at hnext
      by_cases hplace : place = []
      · exact Or.inl ⟨hplace, rfl⟩
      · exact absurd h (not_takesFile _ (hnext.trans (if_neg hplace)))
    | some inner =>
      rw [hlookup] at hnext
      unfold TakesFile at h
      rw [hnext] at h
      exact Or.inr ⟨inner, rfl, h⟩

section Putting

variable {node : Node} {place : List Name} (permissions : Permissions) (bytes : List UInt8)

/-- A file that was put at a place is found there. -/
theorem follow_set_self {permissions : Permissions} {bytes : List UInt8}
    (h : node.TakesFile place) :
    (node.set place (.file permissions bytes)).follow place =
      .ok (some (.file permissions bytes)) := by
  induction place generalizing node with
  | nil => rfl
  | cons name place ih =>
    obtain ⟨rights, entries, rfl, hreach, hsize, hnext⟩ := h.step
    rw [set, follow_directory _ hreach hsize, lookup_put_self]
    rcases hnext with ⟨rfl, hnone⟩ | ⟨inner, hsome, hinner⟩
    · rfl
    · rw [hsome]
      exact ih hinner

/-- Putting a file at a place twice is putting it there once. -/
theorem set_set {permissions : Permissions} {bytes : List UInt8} (h : node.TakesFile place)
    (newer : Node) :
    (node.set place (.file permissions bytes)).set place newer = node.set place newer := by
  induction place generalizing node with
  | nil => rfl
  | cons name place ih =>
    obtain ⟨rights, entries, rfl, -, -, hnext⟩ := h.step
    rw [set, set, lookup_put_self, put_put, Option.getD_some]
    rcases hnext with ⟨rfl, hnone⟩ | ⟨inner, hsome, hinner⟩
    · rfl
    · rw [hsome, Option.getD_some, ih hinner, set, hsome]
      rfl

/-- On the way to the place of a file there are the same directories as before, with the same
permissions. -/
theorem follow_set_above {names rest : List Name} {name : Name}
    (h : node.TakesFile (names ++ name :: rest)) :
    ∃ rights entries inner, node.follow names = .ok (some (.directory rights entries)) ∧
      (node.set (names ++ name :: rest) (.file permissions bytes)).follow names =
        .ok (some (.directory rights (put name inner entries))) ∧
      (entries.lookup name = none → rest = []) := by
  induction names generalizing node with
  | nil =>
    obtain ⟨rights, entries, rfl, -, -, hnext⟩ := h.step
    refine ⟨rights, entries, _, rfl, rfl, fun hnone => ?_⟩
    rcases hnext with ⟨rfl, -⟩ | ⟨inner, hsome, -⟩
    · rfl
    · rw [hnone] at hsome
      cases hsome
  | cons first names ih =>
    obtain ⟨rights, entries, rfl, hreach, hsize, hnext⟩ := h.step
    rcases hnext with ⟨hnil, -⟩ | ⟨inner, hsome, hinner⟩
    · exact absurd hnil (by simp)
    · rw [List.cons_append, set, follow_directory _ hreach hsize, follow_directory _ hreach hsize,
        lookup_put_self, hsome]
      exact ih hinner

/-- Nothing is beyond a file, as nothing was before. -/
theorem follow_set_beyond {names : List Name} (hnames : names ≠ []) (h : node.TakesFile place) :
    (node.follow (place ++ names) = .error .notFound ∨
        node.follow (place ++ names) = .error .notADirectory) ∧
      (node.set place (.file permissions bytes)).follow (place ++ names) =
        .error .notADirectory := by
  obtain ⟨first, names, rfl⟩ := List.exists_cons_of_ne_nil hnames
  induction place generalizing node with
  | nil =>
    refine ⟨Or.inr ?_, rfl⟩
    rcases h with h | ⟨rights, old, h⟩
    · cases h
    · cases h
      rfl
  | cons name place ih =>
    obtain ⟨rights, entries, rfl, hreach, hsize, hnext⟩ := h.step
    rw [List.cons_append, set, follow_directory _ hreach hsize, follow_directory _ hreach hsize,
      lookup_put_self]
    rcases hnext with ⟨rfl, hnone⟩ | ⟨inner, hsome, hinner⟩
    · rw [hnone]
      exact ⟨Or.inl rfl, rfl⟩
    · rw [hsome]
      exact ih hinner

/-- What is neither on the way to the place of a file nor beyond it stays as it was. -/
theorem follow_set_aside {permissions : Permissions} {bytes : List UInt8} {names : List Name}
    (habove : ¬names <+: place)
    (hbeyond : ¬place <+: names) (h : node.TakesFile place) :
    (node.set place (.file permissions bytes)).follow names = node.follow names := by
  induction place generalizing node names with
  | nil => exact absurd List.nil_prefix hbeyond
  | cons name place ih =>
    cases names with
    | nil => exact absurd List.nil_prefix habove
    | cons other names =>
      obtain ⟨rights, entries, rfl, hreach, hsize, hnext⟩ := h.step
      rw [set]
      by_cases hname : other = name
      · subst hname
        rw [List.prefix_cons_inj] at habove hbeyond
        rw [follow_directory _ hreach hsize, follow_directory _ hreach hsize, lookup_put_self]
        rcases hnext with ⟨rfl, -⟩ | ⟨inner, hsome, hinner⟩
        · exact absurd List.nil_prefix hbeyond
        · rw [hsome]
          exact ih habove hbeyond hinner
      · rw [follow, follow, lookup_put_of_ne hname]

end Putting

end Node

end SourceLoom.Files
