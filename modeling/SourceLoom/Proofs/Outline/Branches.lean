import Mathlib.Data.List.Induction
import Mathlib.Data.List.Lex
import SourceLoom.Outline
import SourceLoom.Proofs.Text.Order

/-!
# The branches of an outline

A branch of an outline is the list of names from its top down to an entry with nothing below it.
In an outline whose siblings come in increasing order the branches come in increasing order, and
there is only one such outline with given branches. A path that is added becomes a branch and
leaves the others as they are, unless it goes on where a branch ends or ends where a branch goes
on; and if it comes after all of them, the siblings stay in order.
-/

namespace SourceLoom.Outline

/-- The names of the entries at the top. -/
def tops : Outline → List Text
  | nil => []
  | entry name _ next => name :: tops next

/-- Siblings come in an order, everywhere in the outline. -/
def IsOrdered (before : Text → Text → Prop) : Outline → Prop
  | nil => True
  | entry name below next =>
    (∀ other ∈ tops next, before name other) ∧ IsOrdered before below ∧ IsOrdered before next

/-- The names from the top down to each entry with nothing below it. -/
def branches : Outline → List (List Text)
  | nil => []
  | entry name below next =>
    (if below = nil then [[]] else branches below).map (name :: ·) ++ branches next

/-- How the branches through an entry go on below it. -/
def endings (below : Outline) : List (List Text) := if below = nil then [[]] else branches below

variable {outline other below next : Outline} {name : Text} {names branch : List Text}

/-- The branches of an entry and those of the entries after it. -/
theorem branches_entry (name : Text) (below next : Outline) :
    branches (entry name below next) = (endings below).map (name :: ·) ++ branches next := rfl

/-- A branch goes through the first entry or one of those after it. -/
theorem mem_branches_entry : branch ∈ branches (entry name below next) ↔
    (∃ ending ∈ endings below, branch = name :: ending) ∨ branch ∈ branches next := by
  simp [branches_entry, eq_comm]

/-- How a branch goes on below the first entry makes a branch. -/
theorem mem_branches_of_ending (h : names ∈ endings below) :
    name :: names ∈ branches (entry name below next) :=
  mem_branches_entry.mpr (Or.inl ⟨names, h, rfl⟩)

/-- What is a branch of the entries after the first one is a branch. -/
theorem mem_branches_of_next (h : branch ∈ next.branches) :
    branch ∈ branches (entry name below next) :=
  mem_branches_entry.mpr (Or.inr h)

/-- A branch has at least one name. -/
theorem nil_not_mem_branches (outline : Outline) : [] ∉ outline.branches := by
  induction outline with
  | nil => exact List.not_mem_nil
  | entry name below next _ ih =>
    rw [mem_branches_entry]
    rintro (⟨ending, -, hnil⟩ | hnext)
    · cases hnil
    · exact ih hnext

/-- Nothing goes on below an entry exactly if there is nothing. -/
theorem nil_mem_endings_iff : [] ∈ endings below ↔ below = nil := by
  unfold endings
  split
  · rename_i hnil
    exact ⟨fun _ => hnil, fun _ => List.mem_singleton_self []⟩
  · rename_i hne
    exact ⟨fun h => absurd h (nil_not_mem_branches below), fun h => absurd h hne⟩

/-- Some branch goes through every entry. -/
theorem endings_ne_nil (below : Outline) : endings below ≠ [] := by
  induction below with
  | nil => exact List.cons_ne_nil _ _
  | entry name inner next ihinner _ =>
    have hentry : endings (entry name inner next) = branches (entry name inner next) :=
      if_neg nofun
    rw [hentry, branches_entry]
    simp [ihinner]

/-- An outline with the same branches as an empty one is empty. -/
theorem eq_nil_of_branches (h : ∀ branch, branch ∉ outline.branches) : outline = nil := by
  cases outline with
  | nil => rfl
  | entry name below next =>
    obtain ⟨ending, hending⟩ := List.exists_mem_of_ne_nil _ (endings_ne_nil below)
    exact absurd (mem_branches_of_ending hending) (h _)

/-- A name is at the top exactly if a branch begins with it. -/
theorem mem_tops_iff : name ∈ outline.tops ↔ ∃ ending, name :: ending ∈ outline.branches := by
  induction outline with
  | nil => simp [tops, branches]
  | entry first below next _ ih =>
    simp only [tops, List.mem_cons, ih, mem_branches_entry, List.cons.injEq]
    constructor
    · rintro (rfl | ⟨ending, hending⟩)
      · obtain ⟨ending, hending⟩ := List.exists_mem_of_ne_nil _ (endings_ne_nil below)
        exact ⟨ending, Or.inl ⟨ending, hending, rfl, rfl⟩⟩
      · exact ⟨ending, Or.inr hending⟩
    · rintro ⟨ending, ⟨-, -, hname, -⟩ | hnext⟩
      · exact Or.inl hname
      · exact Or.inr ⟨ending, hnext⟩

section Ordered

/-- Names that go on below the first entry of siblings in order are the branches that begin with its
name. -/
theorem mem_endings_iff (h : (entry name below next).IsOrdered (· < ·)) :
    names ∈ endings below ↔ name :: names ∈ branches (entry name below next) := by
  rw [mem_branches_entry]
  constructor
  · exact fun hending => Or.inl ⟨names, hending, rfl⟩
  · rintro (⟨ending, hending, hsame⟩ | hnext)
    · cases hsame
      exact hending
    · exact absurd (h.1 name (mem_tops_iff.mpr ⟨names, hnext⟩)) (lt_irrefl name)

/-- The other branches are those of the entries after it. -/
theorem mem_branches_next_iff (h : (entry name below next).IsOrdered (· < ·)) :
    branch ∈ next.branches ↔
      branch ∈ branches (entry name below next) ∧ branch.head? ≠ some name := by
  rw [mem_branches_entry]
  constructor
  · intro hnext
    refine ⟨Or.inr hnext, fun hhead => ?_⟩
    obtain ⟨ending, rfl⟩ := List.head?_eq_some_iff.mp hhead
    exact lt_irrefl name (h.1 name (mem_tops_iff.mpr ⟨ending, hnext⟩))
  · rintro ⟨⟨ending, -, rfl⟩ | hnext, hhead⟩
    · exact absurd rfl hhead
    · exact hnext

/-- Where siblings come in increasing order, so do the branches. -/
theorem IsOrdered.pairwise_branches (h : outline.IsOrdered (· < ·)) :
    outline.branches.Pairwise (· < ·) := by
  induction outline with
  | nil => exact List.Pairwise.nil
  | entry name below next ihbelow ihnext =>
    obtain ⟨hfirst, hbelow, hnext⟩ := h
    rw [branches_entry, List.pairwise_append]
    refine ⟨?_, ihnext hnext, ?_⟩
    · have hendings : (endings below).Pairwise (· < ·) := by
        unfold endings
        split
        · exact List.pairwise_singleton _ _
        · exact ihbelow hbelow
      exact List.pairwise_map.mpr
        (hendings.imp fun hlt => List.cons_lt_cons_iff.mpr (Or.inr ⟨rfl, hlt⟩))
    · intro branch hbranch later hlater
      obtain ⟨ending, -, rfl⟩ := List.mem_map.mp hbranch
      cases later with
      | nil => exact absurd hlater (nil_not_mem_branches next)
      | cons other more =>
        have hlt := hfirst other (mem_tops_iff.mpr ⟨more, hlater⟩)
        exact List.cons_lt_cons_iff.mpr (Or.inl hlt)

/-- Where siblings come in increasing order, the first of them is the least. -/
theorem IsOrdered.le_of_mem_tops (h : (entry name below next).IsOrdered (· < ·)) {later : Text}
    (hlater : later ∈ tops (entry name below next)) : name ≤ later := by
  rcases List.mem_cons.mp hlater with rfl | hnext
  · exact le_rfl
  · exact (h.1 later hnext).le

/-- An outline whose siblings come in increasing order is told by its branches. -/
theorem IsOrdered.eq_of_branches (h : outline.IsOrdered (· < ·)) (hother : other.IsOrdered (· < ·))
    (hsame : ∀ branch, branch ∈ outline.branches ↔ branch ∈ other.branches) :
    outline = other := by
  induction outline generalizing other with
  | nil => exact (eq_nil_of_branches fun branch hbranch => nomatch (hsame branch).mpr hbranch).symm
  | entry name below next ihbelow ihnext =>
    cases other with
    | nil => exact eq_nil_of_branches fun branch hbranch => nomatch (hsame branch).mp hbranch
    | entry first inner later =>
      have htops (top : Text) :
          top ∈ tops (entry name below next) ↔ top ∈ tops (entry first inner later) := by
        simp only [mem_tops_iff, hsame]
      have hname : name = first := le_antisymm
        (h.le_of_mem_tops ((htops first).mpr List.mem_cons_self))
        (hother.le_of_mem_tops ((htops name).mp List.mem_cons_self))
      subst hname
      have hendings (ending : List Text) : ending ∈ endings below ↔ ending ∈ endings inner := by
        rw [mem_endings_iff h, mem_endings_iff hother, hsame]
      have hbelow : below = inner := by
        by_cases hnil : below = nil
        · rw [hnil, nil_mem_endings_iff.mp ((hendings []).mp (nil_mem_endings_iff.mpr hnil))]
        · have hinner : inner ≠ nil := fun hinner =>
            hnil (nil_mem_endings_iff.mp ((hendings []).mpr (nil_mem_endings_iff.mpr hinner)))
          simp only [endings, if_neg hnil, if_neg hinner] at hendings
          exact ihbelow h.2.1 hother.2.1 hendings
      have hnext : next = later := by
        refine ihnext h.2.2 hother.2.2 fun branch => ?_
        rw [mem_branches_next_iff h, mem_branches_next_iff hother, hsame]
      rw [hbelow, hnext]

end Ordered

section Adding

/-- The only branch of the outline of a path is the path. -/
theorem branches_ofNames (h : names ≠ []) : branches (ofNames names) = [names] := by
  induction names with
  | nil => exact absurd rfl h
  | cons name names ih =>
    rw [ofNames, branches_entry]
    cases names with
    | nil => rfl
    | cons next names =>
      have hendings : endings (ofNames (next :: names)) = branches (ofNames (next :: names)) :=
        if_neg nofun
      rw [hendings, ih (List.cons_ne_nil _ _)]
      rfl

/-- The outline of a path has one entry at each level. -/
theorem isOrdered_ofNames (before : Text → Text → Prop) (names : List Text) :
    (ofNames names).IsOrdered before := by
  induction names with
  | nil => exact trivial
  | cons name names ih => exact ⟨nofun, ih, trivial⟩

/-- There is something in an outline to which a path was added. -/
theorem add_ne_nil (outline : Outline) (h : names ≠ []) : outline.add names ≠ nil := by
  cases names with
  | nil => exact absurd rfl h
  | cons name names =>
    cases outline with
    | nil => nofun
    | entry first below next =>
      rw [add]
      split <;> nofun

/-- A path neither goes on where a branch ends, nor ends where a branch goes on. -/
def IsApart (names : List Text) (branches : List (List Text)) : Prop :=
  ∀ branch ∈ branches, branch <+: names ∨ names <+: branch → branch = names

/-- A path that is added below an entry becomes one more way to go on there, if paths that are added
to what is below the entry become branches. -/
theorem mem_endings_add (hapart : IsApart names (endings below))
    (hadd : names ≠ [] → IsApart names below.branches → ∀ branch,
      branch ∈ (below.add names).branches ↔ branch = names ∨ branch ∈ below.branches)
    (ending : List Text) :
    ending ∈ endings (below.add names) ↔ ending = names ∨ ending ∈ endings below := by
  by_cases hends : names = []
  · subst hends
    have hself : [] ∈ endings below := by
      obtain ⟨some, hsome⟩ := List.exists_mem_of_ne_nil _ (endings_ne_nil below)
      have hnil := hapart some hsome (Or.inr List.nil_prefix)
      exact hnil ▸ hsome
    have hkept : below.add [] = below := by rw [add]
    rw [hkept]
    exact ⟨Or.inr, fun h => h.elim (fun hnil => hnil ▸ hself) id⟩
  · have hbelow : below ≠ nil := fun hnil =>
      hends (hapart [] (nil_mem_endings_iff.mpr hnil) (Or.inl List.nil_prefix)).symm
    simp only [endings, if_neg hbelow, if_neg (add_ne_nil below hends)] at hapart ⊢
    exact hadd hends hapart ending

/-- A path that is added becomes a branch and leaves the others as they are, if it is apart from
them. -/
theorem mem_branches_add (hnames : names ≠ []) (hapart : IsApart names outline.branches) :
    branch ∈ (outline.add names).branches ↔ branch = names ∨ branch ∈ outline.branches := by
  induction outline generalizing names branch with
  | nil =>
    obtain ⟨name, names, rfl⟩ := List.exists_cons_of_ne_nil hnames
    rw [add, branches_ofNames hnames, List.mem_singleton]
    exact (or_iff_left List.not_mem_nil).symm
  | entry first below next ihbelow ihnext =>
    obtain ⟨name, names, rfl⟩ := List.exists_cons_of_ne_nil hnames
    rw [add]
    split
    · rename_i hname
      subst hname
      have hbelow : IsApart names (endings below) := fun ending hending hmeet => by
        have hsame := hapart _ (mem_branches_of_ending hending)
          (by simpa [List.cons_prefix_cons] using hmeet)
        exact (List.cons.inj hsame).2
      have hendings := mem_endings_add hbelow fun hne hapart branch => ihbelow hne hapart
      simp only [mem_branches_entry, hendings]
      constructor
      · rintro (⟨ending, rfl | hending, rfl⟩ | hnext)
        · exact Or.inl rfl
        · exact Or.inr (Or.inl ⟨ending, hending, rfl⟩)
        · exact Or.inr (Or.inr hnext)
      · rintro (rfl | ⟨ending, hending, rfl⟩ | hnext)
        · exact Or.inl ⟨names, Or.inl rfl, rfl⟩
        · exact Or.inl ⟨ending, Or.inr hending, rfl⟩
        · exact Or.inr hnext
    · have hnext : IsApart (name :: names) next.branches := fun branch hbranch =>
        hapart branch (mem_branches_of_next hbranch)
      rw [mem_branches_entry, mem_branches_entry, ihnext hnames hnext]
      exact or_left_comm

/-- Adding a path puts no other name at the top than its first. -/
theorem mem_tops_add (h : name ∈ (outline.add names).tops) :
    names.head? = some name ∨ name ∈ outline.tops := by
  induction outline generalizing names with
  | nil =>
    cases names with
    | nil => exact Or.inr h
    | cons first names => exact Or.inl (congrArg some (List.mem_singleton.mp h).symm)
  | entry first below next _ ih =>
    cases names with
    | nil => exact Or.inr h
    | cons other names =>
      rw [add] at h
      split at h
      · exact Or.inr h
      · rcases List.mem_cons.mp h with rfl | h
        · exact Or.inr List.mem_cons_self
        · exact (ih h).imp_right (List.mem_cons_of_mem _)

/-- Paths are compared by their first names and then by what follows. -/
theorem cons_le_cons_iff {first second : Text} {rest more : List Text} :
    first :: rest ≤ second :: more ↔ first < second ∨ first = second ∧ rest ≤ more := by
  rw [le_iff_lt_or_eq, List.cons_lt_cons_iff, List.cons.injEq, or_assoc, ← and_or_left,
    ← le_iff_lt_or_eq]

/-- A path that comes after all branches is added at the end, and the siblings stay in order. -/
theorem IsOrdered.add (h : outline.IsOrdered (· < ·))
    (hlast : ∀ branch ∈ outline.branches, branch ≤ names) :
    (outline.add names).IsOrdered (· < ·) := by
  induction outline generalizing names with
  | nil =>
    cases names with
    | nil => exact trivial
    | cons name names => exact isOrdered_ofNames _ _
  | entry first below next ihbelow ihnext =>
    cases names with
    | nil => exact h
    | cons name names =>
      obtain ⟨hfirst, hbelow, hnext⟩ := h
      have hthrough : ∀ ending ∈ endings below, first :: ending ≤ name :: names :=
        fun ending hending => hlast _ (mem_branches_of_ending hending)
      rw [Outline.add]
      split
      · rename_i hname
        subst hname
        refine ⟨hfirst, ihbelow hbelow fun branch hbranch => ?_, hnext⟩
        have hne : below ≠ nil := fun hnil => by
          rw [hnil] at hbranch
          cases hbranch
        have hending : branch ∈ endings below := by rwa [endings, if_neg hne]
        exact ((cons_le_cons_iff.mp (hthrough branch hending)).resolve_left (lt_irrefl first)).2
      · rename_i hname
        have hlt : first < name := by
          obtain ⟨ending, hending⟩ := List.exists_mem_of_ne_nil _ (endings_ne_nil below)
          rcases cons_le_cons_iff.mp (hthrough ending hending) with hlt | ⟨hsame, -⟩
          · exact hlt
          · exact absurd hsame hname
        refine ⟨fun other hother => ?_, hbelow, ihnext hnext fun branch hbranch =>
          hlast branch (mem_branches_of_next hbranch)⟩
        rcases mem_tops_add hother with hhead | htop
        · exact Option.some_inj.mp hhead ▸ hlt
        · exact hfirst other htop

/-- Paths that come in increasing order, none of them the beginning of another, become the branches
of an outline whose siblings come in increasing order. -/
theorem foldl_add {paths : List (List Text)} (hne : ∀ path ∈ paths, path ≠ [])
    (hsorted : paths.Pairwise (· ≤ ·))
    (hapart : ∀ path ∈ paths, IsApart path paths) :
    (paths.foldl Outline.add nil).IsOrdered (· < ·) ∧
      ∀ branch, branch ∈ (paths.foldl Outline.add nil).branches ↔ branch ∈ paths := by
  induction paths using List.reverseRecOn with
  | nil => exact ⟨trivial, fun _ => Iff.rfl⟩
  | append_singleton paths path ih =>
    obtain ⟨hbefore, -, hlast⟩ := List.pairwise_append.mp hsorted
    obtain ⟨hordered, hbranches⟩ := ih
      (fun other hother => hne other (List.mem_append_left _ hother)) hbefore
      fun other hother branch hbranch =>
        hapart other (List.mem_append_left _ hother) branch (List.mem_append_left _ hbranch)
    have hpath : path ∈ paths ++ [path] := List.mem_append_right _ List.mem_cons_self
    rw [List.foldl_concat]
    constructor
    · refine hordered.add fun branch hbranch => ?_
      exact hlast branch ((hbranches branch).mp hbranch) path (List.mem_singleton_self path)
    · intro branch
      have happart : IsApart path (paths.foldl Outline.add nil).branches := fun branch hbranch =>
        hapart path hpath branch (List.mem_append_left _ ((hbranches branch).mp hbranch))
      rw [mem_branches_add (hne path hpath) happart, hbranches, List.mem_append,
        List.mem_singleton]
      exact or_comm

end Adding

end SourceLoom.Outline
