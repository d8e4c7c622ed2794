import SourceLoom.Proofs.Path.Normal

/-!
# Leading slashes

A path that begins with exactly two slashes is not the one that begins with a single slash and has
the same names. Joining, cancelling and climbing never make two slashes out of one: they come from
a text that begins with them, or from an ending that begins with one.
-/

namespace SourceLoom.Path

/-- An absolute path begins with a single slash or with two. -/
theorem start_of_isAbsolute {path : Path} (h : path.isAbsolute = true)
    (hsingle : path.start ≠ .doubleRoot) : path.start = .root := by
  cases hstart : path.start with
  | here =>
    rw [isAbsolute, hstart] at h
    cases h
  | root => rfl
  | doubleRoot => exact absurd hstart hsingle

/-- A path is where it starts and its names. -/
theorem eq_of_start_names {p q : Path} (hstart : p.start = q.start) (hnames : p.names = q.names) :
    p = q := by
  obtain ⟨start, names⟩ := p
  cases hstart
  cases hnames
  rfl

/-- A path seen from one that begins with a single slash begins with a single slash, unless it
begins with two itself. -/
theorem start_append {base path : Path} (hb : base.start = .root) (hp : path.start ≠ .doubleRoot) :
    (base.append path).start = .root := by
  unfold Path.append
  split
  · rename_i habsolute
    exact start_of_isAbsolute habsolute hp
  · exact hb

/-- What a text names inside a directory begins like the directory, unless the text begins with two
slashes. -/
theorem start_child {base : Path} (hb : base.start = .root) {text : Text}
    (ht : Start.ofText text ≠ .doubleRoot) : (base.child text).start = .root :=
  start_append hb ht

/-- The same holds of the absolute form of a path. -/
theorem start_absolute {path cwd : Path} (hcwd : cwd.start = .root)
    (hp : path.start ≠ .doubleRoot) : (path.absolute cwd).start = .root :=
  start_append hcwd hp

/-- The absolute form of a path that begins with a single slash begins with one. -/
theorem start_absolute_of_root {path cwd : Path} (hcwd : cwd.start = .root)
    (hp : path.start = .root) : (path.absolute cwd).start = .root := by
  refine start_absolute hcwd ?_
  rw [hp]
  decide

/-- Every directory above one begins like it. -/
theorem start_of_mem_upwardFrom {start : Start} {names : List Name} {path : Path}
    (h : path ∈ upwardFrom start names) : path.start = start := by
  induction names with
  | nil =>
    rw [List.mem_singleton.mp h]
  | cons last above ih =>
    rcases List.mem_cons.mp h with rfl | h
    · rfl
    · exact ih h

/-- The text of clean names with an ending does not begin with a slash if the ending does not. -/
theorem join_append_ne_slash {names : List Name}
    (h : ∀ name ∈ names, name ≠ [] ∧ name ≠ dot ∧ '/' ∉ name) {ending : Text}
    (hending : ending.head? ≠ some '/') (rest : Text) :
    Text.join ['/'] names ++ ending ≠ '/' :: rest := by
  intro heq
  cases hjoin : Text.join ['/'] names with
  | nil =>
    rw [hjoin, List.nil_append] at heq
    exact hending (congrArg List.head? heq)
  | cons c joined =>
    rw [hjoin, List.cons_append] at heq
    obtain ⟨rfl, -⟩ := List.cons.inj heq
    exact join_ne_slash h joined hjoin

/-- The text of a clean path that begins with a single slash still does with an ending after it,
unless the ending begins with a slash. -/
theorem start_ofText_append {path : Path} (hp : path.start = .root) (hclean : path.IsClean)
    {ending : Text} (hending : ending.head? ≠ some '/') :
    (ofText (path.toText ++ ending)).start = .root := by
  have htext : path.toText = '/' :: Text.join ['/'] path.names := by
    unfold toText
    rw [hp]
    rfl
  rw [htext]
  exact (start_ofText (join_append_ne_slash hclean hending)).1

end SourceLoom.Path
