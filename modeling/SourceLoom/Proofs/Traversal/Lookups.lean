import SourceLoom.Proofs.Reference.Enclosed
import SourceLoom.Proofs.Traversal.Ledger

/-!
# Which references are looked up

A reference is looked up only if it spells a path: it is not empty, it has a slash, and no quote is
in it. The first two come from the test for local references, whatever the mark of an alias may be,
and the last from the forms in which references are found. So the resolution of a reference is never
misused while imports are followed, and a bare name is recorded without a question being asked.
-/

namespace SourceLoom.Traversal

open Reference

/-- A reference spells a path: it is not empty, it has a slash, and no quote is in it. -/
def SpellsPath (reference : Text) : Prop := reference ≠ [] ∧ '/' ∈ reference ∧ QuoteFree reference

/-- A local reference has a slash. -/
theorem mem_slash_of_isLocal {conventions : Conventions} {reference : Text}
    (h : isLocal conventions reference = true) : '/' ∈ reference := by
  have hlead : ∀ lead : Text, '/' ∈ lead → lead.isPrefixOf reference = true → '/' ∈ reference :=
    fun lead hslash hprefix => (List.isPrefixOf_iff_prefix.mp hprefix).subset hslash
  by_contra hnone
  have hrelative : ("./".toList.isPrefixOf reference || "../".toList.isPrefixOf reference) =
      false := by
    rw [Bool.or_eq_false_iff]
    exact ⟨Bool.eq_false_iff.mpr fun h => hnone (hlead _ (by decide) h),
      Bool.eq_false_iff.mpr fun h => hnone (hlead _ (by decide) h)⟩
  have habsolute : "/".toList.isPrefixOf reference = false :=
    Bool.eq_false_iff.mpr fun h => hnone (hlead _ (by decide) h)
  rw [isLocal, hrelative, habsolute, if_neg Bool.false_ne_true, if_neg Bool.false_ne_true,
    if_pos hnone] at h
  cases h

/-- A local reference of a text spells a path. -/
theorem spellsPath_of_isLocal {conventions : Conventions} {text reference : Text}
    (h : reference ∈ extract text) (hlocal : isLocal conventions reference = true) :
    SpellsPath reference := by
  obtain ⟨-, hne, hfree, -⟩ := standsQuoted_of_mem_extract h
  exact ⟨hne, mem_slash_of_isLocal hlocal, hfree⟩

section Effects

variable {m : Type → Type} [Monad m] [LawfulMonad m]

/-- What is asked and told while the references of a file are accounted for, and which files they
import, does not depend on those that are not local. -/
theorem expand_filter (around : Surroundings m) (conventions : Conventions) (root : Option Path)
    (file : Path) {keep : Text → Bool} {references : List Text}
    (hkeep : ∀ reference ∈ references, isLocal conventions reference = true → keep reference = true)
    (children : List Path) {session other : Session} (hvisited : other.visited = session.visited) :
    Prod.fst <$> expand around conventions root file (references.filter keep) children other =
      Prod.fst <$> expand around conventions root file references children session := by
  induction references generalizing children session other with
  | nil => simp only [List.filter_nil, expand, map_pure]
  | cons reference references ih =>
    obtain ⟨hfirst, hrest⟩ := List.forall_mem_cons.mp hkeep
    have hlater := ih hrest
    cases hlocal : isLocal conventions reference with
    | false =>
      have hexternal (references : List Text) (session : Session) :
          expand around conventions root file (reference :: references) children session =
            expand around conventions root file references children
              { session with graph := session.graph.addExternal file reference } := by
        rw [expand, hlocal]
        rfl
      rw [hexternal, List.filter_cons]
      split
      · rw [hexternal]
        exact hlater children hvisited
      · exact hlater children hvisited
    | true =>
      rw [List.filter_cons_of_pos (hfirst hlocal), expand, expand, hlocal]
      simp only [Bool.not_true, Bool.false_eq_true, if_false, map_bind]
      refine bind_congr fun answer => ?_
      obtain (cause | fault) | _ | target := answer
      · simp only [map_pure]
      · simp only [warn, bind_assoc, pure_bind, map_bind]
        exact bind_congr fun _ => hlater children hvisited
      · simp only [map_bind]
        exact bind_congr fun _ => hlater children hvisited
      · rw [hvisited]
        exact hlater _ rfl

end Effects

/-- Of the references of a text only those that spell a path are resolved: what a resolver says of
others makes no difference. Without the bare names the same is asked and told, and the same files
are imported. Whatever a world answers, and whatever texts it gives, following an entry never comes
to a misuse of the resolution. -/
theorem lookups_spell_paths (conventions : Conventions) (root : Option Path) (file : Path)
    (text : Text) :
    (∀ {m : Type → Type} [Monad m] (around : Surroundings m)
      (resolver : Text → m (Except Trouble (Option Path))),
      (∀ reference, SpellsPath reference → resolver reference =
        (resolve conventions around.isFile around.cwd reference file.toText root).run) →
      ∀ children session,
        expandBy around conventions file resolver (extract text) children session =
          expand around conventions root file (extract text) children session) ∧
    (∀ {m : Type → Type} [Monad m] [LawfulMonad m] (around : Surroundings m) children session,
      Prod.fst <$> expand around conventions root file
          ((extract text).filter fun reference => '/' ∈ reference) children session =
        Prod.fst <$> expand around conventions root file (extract text) children session) ∧
    ∀ world plan lists session history, Reached world plan lists session history →
      ∀ entry cause, ((follow world.surroundings plan entry session).run history).1.1 ≠
        .error (.misuse cause) := by
  refine ⟨?_, ?_, ?_⟩
  · intro m _ around resolver h children session
    exact expandBy_eq_of_mem
      (fun reference hmem hlocal => h reference (spellsPath_of_isLocal hmem hlocal)) children session
  · intro m _ _ around children session
    exact expand_filter around conventions root file
      (fun reference _ hlocal => decide_eq_true (mem_slash_of_isLocal hlocal)) children rfl
  · intro world plan lists session history h entry cause
    obtain ⟨answer, later, steps, after, hfollows, -, hrun⟩ :=
      follow_run world plan h.invariant.1 entry history
    rw [hrun]
    cases hfollows with
    | skipped | known | rootless | searched => exact nofun

/-- A resolver that takes every bare name for a misuse. -/
def strictResolver (conventions : Conventions) (root : Option Path) (file : Path)
    (reference : Text) : StateM History (Except Trouble (Option Path)) :=
  if '/' ∈ reference then
    (resolve conventions assorted.world.surroundings.isFile assorted.cwd reference file.toText
      root).run
  else pure (.error (.misuse .noReference))

/-- With this resolver the references of the assorted text, one of which is a bare name, come to
the same. -/
theorem lookups_spell_paths_assorted :
    "react".toList ∈ extract assortedText ∧ '/' ∉ "react".toList ∧
      (∀ reference, SpellsPath reference →
        strictResolver {} none (assorted.place "a.js".toList) reference =
          (resolve {} assorted.world.surroundings.isFile assorted.cwd reference
            (assorted.place "a.js".toList).toText none).run) ∧
      expandBy assorted.world.surroundings {} (assorted.place "a.js".toList)
          (strictResolver {} none (assorted.place "a.js".toList)) (extract assortedText) [] {} =
        expand assorted.world.surroundings {} none (assorted.place "a.js".toList)
          (extract assortedText) [] {} ∧
      Reached assorted.world {} [] {} [] ∧
      ((follow assorted.world.surroundings {} "a.js".toList {}).run []).1.1 ≠
        .error (.misuse .noReference) := by
  have hbare : "react".toList ∈ extract assortedText ∧ '/' ∉ "react".toList := by decide +kernel
  have hresolver : ∀ reference, SpellsPath reference →
      strictResolver {} none (assorted.place "a.js".toList) reference =
        (resolve {} assorted.world.surroundings.isFile assorted.cwd reference
          (assorted.place "a.js".toList).toText none).run :=
    fun reference hspells => if_pos hspells.2.1
  have hfresh : Reached assorted.world {} [] {} [] := .fresh
  obtain ⟨hresolved, -, hfollow⟩ :=
    lookups_spell_paths {} none (assorted.place "a.js".toList) assortedText
  exact ⟨hbare.1, hbare.2, hresolver, hresolved _ _ hresolver [] {}, hfresh,
    hfollow _ {} _ {} [] hfresh "a.js".toList .noReference⟩

end SourceLoom.Traversal
