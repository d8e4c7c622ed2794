import Mathlib.Data.List.Basic
import SourceLoom.Pattern.Match

/-!
# What regular patterns describe

A pattern that looks neither around nor back describes pieces of text without regard to what is
around them, and with each piece what is remembered of it. The ways of such a pattern from a place
lead exactly to the ends of the pieces that it describes and that stand there. The order of the
ways, and the repetitions that do not move, make no difference to which places are reached.
-/

namespace SourceLoom.Pattern

/-- What is remembered, newest first. -/
abbrev Memory := List (Nat × Text)

/-- A pattern describes a piece of text, of which something is remembered. -/
def Describes : Pattern → Text → Memory → Prop
  | empty, piece, memory => piece = [] ∧ memory = []
  | char set, piece, memory => ∃ c, set.has c = true ∧ piece = [c] ∧ memory = []
  | seq p q, piece, memory =>
    ∃ first old second new, Describes p first old ∧ Describes q second new ∧
      piece = first ++ second ∧ memory = new ++ old
  | alt p q, piece, memory => Describes p piece memory ∨ Describes q piece memory
  | loop _ least most p, piece, memory =>
    memory = [] ∧ ∃ pieces : List Text, (∀ round ∈ pieces, Describes p round []) ∧
      piece = pieces.flatten ∧ least ≤ pieces.length ∧ ∀ n ∈ most, pieces.length ≤ n
  | group index p, piece, memory => ∃ old, Describes p piece old ∧ memory = (index, piece) :: old
  | _, _, _ => False

/-- Whether a pattern looks neither around nor back, and remembers nothing. -/
def isSilent : Pattern → Bool
  | empty | char _ => true
  | seq p q | alt p q => isSilent p && isSilent q
  | loop _ least most p => most.all (least ≤ ·) && isSilent p
  | _ => false

/-- Whether a pattern looks neither around nor back, and remembers nothing of repeated pieces. -/
def isRegular : Pattern → Bool
  | empty | char _ => true
  | seq p q | alt p q => isRegular p && isRegular q
  | loop _ least most p => most.all (least ≤ ·) && isSilent p
  | group _ p => isRegular p
  | _ => false

/-- A silent pattern is regular. -/
theorem isRegular_of_isSilent {p : Pattern} (h : p.isSilent = true) : p.isRegular = true := by
  induction p with
  | empty | char => rfl
  | seq p q ihp ihq | alt p q ihp ihq =>
    rw [isSilent, Bool.and_eq_true] at h
    rw [isRegular, ihp h.1, ihq h.2]
    rfl
  | loop greedy least most p ih => exact h
  | _ => cases h

/-- Of a piece of a silent pattern nothing is remembered. -/
theorem memory_eq_nil {p : Pattern} (h : p.isSilent = true) {piece : Text} {memory : Memory}
    (hpiece : p.Describes piece memory) : memory = [] := by
  induction p generalizing piece memory with
  | empty => exact hpiece.2
  | char set =>
    obtain ⟨c, -, -, hmemory⟩ := hpiece
    exact hmemory
  | seq p q ihp ihq =>
    rw [isSilent, Bool.and_eq_true] at h
    obtain ⟨first, old, second, new, hfirst, hsecond, -, rfl⟩ := hpiece
    rw [ihp h.1 hfirst, ihq h.2 hsecond]
    rfl
  | alt p q ihp ihq =>
    rw [isSilent, Bool.and_eq_true] at h
    rcases hpiece with hpiece | hpiece
    · exact ihp h.1 hpiece
    · exact ihq h.2 hpiece
  | loop greedy least most p ih => exact hpiece.1
  | _ => cases h

namespace Cursor

variable {here there last : Cursor} {piece other : Text} {memory more : Memory}

/-- From one place a piece leads to another, and something more is remembered there. -/
structure Reads (here : Cursor) (piece : Text) (memory : Memory) (there : Cursor) : Prop where
  /-- The piece stands after the first place. -/
  after : here.after = piece ++ there.after
  /-- And it stands before the second. -/
  before : there.before = piece.reverse ++ here.before
  /-- What is remembered is added to what was. -/
  groups : there.groups = memory ++ here.groups

/-- Places are the same if they have the same text around them and the same memory. -/
theorem ext_iff' : here = there ↔
    here.before = there.before ∧ here.after = there.after ∧ here.groups = there.groups := by
  refine ⟨fun h => h ▸ ⟨rfl, rfl, rfl⟩, fun ⟨hbefore, hafter, hgroups⟩ => ?_⟩
  obtain ⟨before, after, left, left_eq, groups⟩ := here
  obtain ⟨_, _, _, other_eq, _⟩ := there
  cases hbefore
  cases hafter
  cases hgroups
  cases left_eq
  cases other_eq
  rfl

/-- The empty piece leads nowhere else. -/
theorem Reads.refl (here : Cursor) : here.Reads [] [] here := ⟨rfl, rfl, rfl⟩

/-- Pieces that stand one after the other lead as far as the whole. -/
theorem Reads.trans (hfirst : here.Reads piece memory there)
    (hsecond : there.Reads other more last) :
    here.Reads (piece ++ other) (more ++ memory) last := by
  refine ⟨?_, ?_, ?_⟩
  · rw [hfirst.after, hsecond.after, List.append_assoc]
  · rw [hsecond.before, hfirst.before, List.reverse_append, List.append_assoc]
  · rw [hsecond.groups, hfirst.groups, List.append_assoc]

/-- A piece leads to one place only. -/
theorem Reads.unique (hfirst : here.Reads piece memory there)
    (hsecond : here.Reads piece memory last) : there = last := by
  refine ext_iff'.mpr ⟨?_, ?_, ?_⟩
  · rw [hfirst.before, hsecond.before]
  · exact List.append_cancel_left (hfirst.after.symm.trans hsecond.after)
  · rw [hfirst.groups, hsecond.groups]

/-- Where one piece and then another stand, there is a place between them. -/
theorem Reads.split (memory more : Memory) (h : here.Reads (piece ++ other) (more ++ memory) last) :
    ∃ there, here.Reads piece memory there ∧ there.Reads other more last := by
  refine ⟨⟨piece.reverse ++ here.before, other ++ last.after, _, rfl, memory ++ here.groups⟩,
    ⟨?_, rfl, rfl⟩, ⟨rfl, ?_, ?_⟩⟩
  · rw [h.after, List.append_assoc]
  · rw [h.before, List.reverse_append, List.append_assoc]
  · rw [h.groups, List.append_assoc]

/-- A piece that leads on takes away as many characters as it has. -/
theorem Reads.left_eq (h : here.Reads piece memory there) :
    here.left = piece.length + there.left := by
  rw [here.left_eq, there.left_eq, h.after, List.length_append]

/-- A step is a piece of one character. -/
theorem step?_eq_some_iff {set : CharSet} :
    here.step? set = some there ↔ ∃ c, set.has c = true ∧ here.Reads [c] [] there := by
  obtain ⟨before, after, left, left_eq, groups⟩ := here
  cases after with
  | nil =>
    refine ⟨nofun, fun ⟨c, _, hreads⟩ => ?_⟩
    cases hreads.after
  | cons c after =>
    simp only [step?, next?]
    constructor
    · intro h
      split at h
      · rename_i hset
        cases h
        exact ⟨c, hset, rfl, rfl, rfl⟩
      · cases h
    · rintro ⟨d, hset, hreads⟩
      obtain ⟨rfl, hafter⟩ := List.cons.inj hreads.after
      rw [if_pos hset]
      exact congrArg some (ext_iff'.mpr ⟨hreads.before.symm, hafter, hreads.groups.symm⟩)

/-- Remembering the piece that leads to a place. -/
theorem Reads.remember (h : here.Reads piece memory there) (index : Nat) :
    here.Reads piece ((index, piece) :: memory) (here.remember there index) := by
  have hpiece : here.after.take (here.left - there.left) = piece := by
    rw [h.left_eq, Nat.add_sub_cancel, h.after, List.take_left]
  refine ⟨h.after, h.before, ?_⟩
  unfold Cursor.remember
  rw [hpiece, h.groups]
  rfl

end Cursor

section Rounds

variable {body : Cursor → List Cursor} {language : Text → Prop} {here there : Cursor}

/-- A body whose ways from every place lead to the ends of the pieces of a language. -/
def Follows (body : Cursor → List Cursor) (language : Text → Prop) : Prop :=
  ∀ here there, there ∈ body here ↔ ∃ piece, language piece ∧ here.Reads piece [] there

/-- So many rounds lead to the ends of so many pieces. -/
theorem mem_rounds_iff (h : Follows body language) {n : Nat} :
    there ∈ rounds body n here ↔ ∃ pieces : List Text, (∀ round ∈ pieces, language round) ∧
      pieces.length = n ∧ here.Reads pieces.flatten [] there := by
  induction n generalizing here with
  | zero =>
    rw [rounds, List.mem_singleton]
    constructor
    · rintro rfl
      exact ⟨[], List.forall_mem_nil language, rfl, .refl _⟩
    · rintro ⟨pieces, -, hlength, hreads⟩
      rw [List.length_eq_zero_iff.mp hlength] at hreads
      exact hreads.unique (.refl here)
  | succ n ih =>
    rw [rounds, List.mem_flatMap]
    constructor
    · rintro ⟨next, hnext, hrest⟩
      obtain ⟨piece, hpiece, hread⟩ := (h here next).mp hnext
      obtain ⟨pieces, hpieces, hlength, hreads⟩ := ih.mp hrest
      exact ⟨piece :: pieces, List.forall_mem_cons.mpr ⟨hpiece, hpieces⟩,
        congrArg (· + 1) hlength, hread.trans hreads⟩
    · rintro ⟨pieces, hpieces, hlength, hreads⟩
      cases pieces with
      | nil => cases hlength
      | cons piece pieces =>
        obtain ⟨hpiece, hpieces⟩ := List.forall_mem_cons.mp hpieces
        obtain ⟨next, hread, hrest⟩ := Cursor.Reads.split [] [] hreads
        exact ⟨next, (h here next).mpr ⟨piece, hpiece, hread⟩,
          ih.mpr ⟨pieces, hpieces, Nat.succ.inj hlength, hrest⟩⟩

/-- No further round is needed to stay at a place. -/
theorem mem_furtherRounds_self (greedy : Bool) (fuel : Nat) (limit last : Option Nat) :
    here ∈ furtherRounds body greedy fuel limit last here := by
  cases fuel with
  | zero => exact List.mem_singleton_self here
  | succ fuel =>
    rw [furtherRounds]
    split
    · exact List.mem_singleton_self here
    · cases greedy with
      | true => exact List.mem_append_right _ (List.mem_singleton_self here)
      | false => exact List.mem_cons_self

/-- The ways of further rounds that move are among the further rounds. -/
theorem mem_furtherRounds_of_mem {greedy : Bool} {fuel : Nat} {limit last : Option Nat}
    (hlimit : limit ≠ some 0) (hlast : last ≠ some here.left) {next : Cursor}
    (hnext : next ∈ body here)
    (h : there ∈ furtherRounds body greedy fuel (limit.map (· - 1)) (some here.left) next) :
    there ∈ furtherRounds body greedy (fuel + 1) limit last here := by
  rw [furtherRounds, if_neg (not_or.mpr ⟨hlimit, hlast⟩)]
  have hmore := List.mem_flatMap.mpr ⟨next, hnext, h⟩
  cases greedy with
  | true => exact List.mem_append_left _ hmore
  | false => exact List.mem_cons_of_mem _ hmore

/-- Further rounds lead to the ends of some pieces, no more than the limit allows. -/
theorem exists_of_mem_furtherRounds (h : Follows body language) {greedy : Bool} {fuel : Nat}
    {limit last : Option Nat} (hthere : there ∈ furtherRounds body greedy fuel limit last here) :
    ∃ pieces : List Text, (∀ round ∈ pieces, language round) ∧
      (∀ n ∈ limit, pieces.length ≤ n) ∧ here.Reads pieces.flatten [] there := by
  induction fuel generalizing limit last here with
  | zero =>
    rw [List.mem_singleton.mp hthere]
    exact ⟨[], nofun, fun n _ => Nat.zero_le n, .refl here⟩
  | succ fuel ih =>
    rw [furtherRounds] at hthere
    have hstay : there = here → ∃ pieces : List Text, (∀ round ∈ pieces, language round) ∧
        (∀ n ∈ limit, pieces.length ≤ n) ∧ here.Reads pieces.flatten [] there := by
      rintro rfl
      exact ⟨[], nofun, fun n _ => Nat.zero_le n, .refl there⟩
    split at hthere
    · exact hstay (List.mem_singleton.mp hthere)
    · rename_i hgoes
      have hcases : there = here ∨ there ∈ (body here).flatMap
          (furtherRounds body greedy fuel (limit.map (· - 1)) (some here.left)) := by
        cases greedy with
        | true =>
          rcases List.mem_append.mp hthere with hmore | hself
          · exact Or.inr hmore
          · exact Or.inl (List.mem_singleton.mp hself)
        | false => exact List.mem_cons.mp hthere
      rcases hcases with hself | hmore
      · exact hstay hself
      · obtain ⟨next, hnext, hrest⟩ := List.mem_flatMap.mp hmore
        obtain ⟨piece, hpiece, hread⟩ := (h here next).mp hnext
        obtain ⟨pieces, hpieces, hlength, hreads⟩ := ih hrest
        refine ⟨piece :: pieces, List.forall_mem_cons.mpr ⟨hpiece, hpieces⟩, ?_,
          hread.trans hreads⟩
        intro n hn
        have hn0 : n ≠ 0 := by
          rintro rfl
          exact hgoes (Or.inl hn)
        have hle := hlength (n - 1) (Option.mem_map_of_mem _ hn)
        rw [List.length_cons]
        omega

/-- Pieces that are not empty, no more than the limit allows, are read by further rounds. -/
theorem mem_furtherRounds (h : Follows body language) {greedy : Bool} {fuel : Nat}
    {limit last : Option Nat} {pieces : List Text} (hpieces : ∀ round ∈ pieces, language round)
    (hmoves : ∀ round ∈ pieces, round ≠ []) (hlimit : ∀ n ∈ limit, pieces.length ≤ n)
    (hfuel : pieces.length ≤ fuel) (hlast : last ≠ some here.left)
    (hreads : here.Reads pieces.flatten [] there) :
    there ∈ furtherRounds body greedy fuel limit last here := by
  induction pieces generalizing fuel limit last here with
  | nil =>
    rw [hreads.unique (.refl here)]
    exact mem_furtherRounds_self greedy fuel limit last
  | cons piece pieces ih =>
    cases fuel with
    | zero => cases hfuel
    | succ fuel =>
      obtain ⟨hpiece, hrest⟩ := List.forall_mem_cons.mp hpieces
      obtain ⟨hmove, hmoves⟩ := List.forall_mem_cons.mp hmoves
      obtain ⟨next, hread, hreads⟩ := Cursor.Reads.split [] [] hreads
      refine mem_furtherRounds_of_mem ?_ hlast ((h here next).mpr ⟨piece, hpiece, hread⟩)
        (ih hrest hmoves ?_ (Nat.le_of_succ_le_succ hfuel) ?_ hreads)
      · intro hzero
        exact absurd (hlimit 0 hzero) (by simp)
      · intro n hn
        obtain ⟨k, hk, rfl⟩ := Option.map_eq_some_iff.mp hn
        have hle := hlimit k hk
        rw [List.length_cons] at hle
        omega
      · intro hsame
        have hleft := hread.left_eq
        have hpositive := List.length_pos_iff.mpr hmove
        have hequal := Option.some.inj hsame
        omega

/-- Pieces that are empty may be left out of a row of pieces. -/
theorem flatten_filter_ne_nil (pieces : List Text) :
    (pieces.filter (· ≠ [])).flatten = pieces.flatten := by
  induction pieces with
  | nil => rfl
  | cons piece pieces ih =>
    by_cases hpiece : piece = []
    · rw [List.filter_cons_of_neg (by simpa using hpiece), ih, hpiece]
      rfl
    · rw [List.filter_cons_of_pos (by simpa using hpiece), List.flatten_cons, List.flatten_cons, ih]

/-- Pieces that are not empty are no more than their characters. -/
theorem length_le_of_ne_nil {pieces : List Text} (h : ∀ round ∈ pieces, round ≠ []) :
    pieces.length ≤ pieces.flatten.length := by
  induction pieces with
  | nil => exact Nat.le_refl 0
  | cons piece pieces ih =>
    obtain ⟨hpiece, hpieces⟩ := List.forall_mem_cons.mp h
    have hpositive := List.length_pos_iff.mpr hpiece
    have hle := ih hpieces
    rw [List.length_cons, List.flatten_cons, List.length_append]
    omega

/-- A repetition leads to the ends of rows of pieces whose number is within its bounds. -/
theorem mem_repetition_iff (h : Follows body language) {greedy : Bool} {least : Nat}
    {most : Option Nat} (hbounds : ∀ n ∈ most, least ≤ n) :
    there ∈ (rounds body least here).flatMap
        (furtherRounds body greedy (here.left + 2) (most.map (· - least)) none) ↔
      ∃ pieces : List Text, (∀ round ∈ pieces, language round) ∧ least ≤ pieces.length ∧
        (∀ n ∈ most, pieces.length ≤ n) ∧ here.Reads pieces.flatten [] there := by
  rw [List.mem_flatMap]
  constructor
  · rintro ⟨mid, hmid, hrest⟩
    obtain ⟨first, hfirst, hlength, hread⟩ := (mem_rounds_iff h).mp hmid
    obtain ⟨second, hsecond, hlimit, hreads⟩ := exists_of_mem_furtherRounds h hrest
    refine ⟨first ++ second, List.forall_mem_append.mpr ⟨hfirst, hsecond⟩, ?_, ?_, ?_⟩
    · rw [List.length_append, hlength]
      exact Nat.le_add_right _ _
    · intro n hn
      have hle := hlimit (n - least) (Option.mem_map_of_mem _ hn)
      have hbound := hbounds n hn
      rw [List.length_append, hlength]
      omega
    · rw [List.flatten_append]
      exact hread.trans hreads
  · rintro ⟨pieces, hpieces, hleast, hmost, hreads⟩
    -- Rounds that do not move are left out of those beyond the least number.
    have hflatten : pieces.flatten =
        (pieces.take least).flatten ++ ((pieces.drop least).filter (· ≠ [])).flatten := by
      rw [flatten_filter_ne_nil, ← List.flatten_append, List.take_append_drop]
    have hmoves : ∀ round ∈ (pieces.drop least).filter (· ≠ []), round ≠ [] := fun round hround =>
      of_decide_eq_true (List.mem_filter.mp hround).2
    rw [hflatten] at hreads
    obtain ⟨mid, hread, hreads⟩ := Cursor.Reads.split [] [] hreads
    have hfew := length_le_of_ne_nil hmoves
    have hcount : ((pieces.drop least).filter (· ≠ [])).length ≤ pieces.length - least := by
      rw [← List.length_drop]
      exact List.length_filter_le _ _
    refine ⟨mid, (mem_rounds_iff h).mpr ⟨pieces.take least, ?_, ?_, hread⟩,
      mem_furtherRounds h ?_ hmoves ?_ ?_ nofun hreads⟩
    · exact fun round hround => hpieces round (List.mem_of_mem_take hround)
    · rw [List.length_take, Nat.min_eq_left hleast]
    · exact fun round hround =>
        hpieces round (List.mem_of_mem_drop (List.mem_filter.mp hround).1)
    · intro n hn
      obtain ⟨k, hk, rfl⟩ := Option.map_eq_some_iff.mp hn
      have hle := hmost k hk
      omega
    · have hleft := hread.left_eq
      have hmore := hreads.left_eq
      omega

end Rounds

/-- The ways of a regular pattern lead to the ends of the pieces that it describes. -/
theorem mem_ways_iff {p : Pattern} (hp : p.isRegular = true) {here there : Cursor} :
    there ∈ ways p here ↔ ∃ piece memory, p.Describes piece memory ∧
      here.Reads piece memory there := by
  induction p generalizing here there with
  | empty =>
    rw [ways, List.mem_singleton]
    constructor
    · rintro rfl
      exact ⟨[], [], ⟨rfl, rfl⟩, .refl there⟩
    · rintro ⟨piece, memory, ⟨rfl, rfl⟩, hreads⟩
      exact hreads.unique (.refl here)
  | char set =>
    rw [ways, Option.mem_toList, Cursor.step?_eq_some_iff]
    constructor
    · rintro ⟨c, hset, hreads⟩
      exact ⟨[c], [], ⟨c, hset, rfl, rfl⟩, hreads⟩
    · rintro ⟨piece, memory, ⟨c, hset, rfl, rfl⟩, hreads⟩
      exact ⟨c, hset, hreads⟩
  | seq p q ihp ihq =>
    rw [isRegular, Bool.and_eq_true] at hp
    rw [ways, List.mem_flatMap]
    constructor
    · rintro ⟨mid, hmid, hthere⟩
      obtain ⟨first, old, hfirst, hread⟩ := (ihp hp.1).mp hmid
      obtain ⟨second, new, hsecond, hreads⟩ := (ihq hp.2).mp hthere
      exact ⟨first ++ second, new ++ old, ⟨first, old, second, new, hfirst, hsecond, rfl, rfl⟩,
        hread.trans hreads⟩
    · rintro ⟨piece, memory, ⟨first, old, second, new, hfirst, hsecond, rfl, rfl⟩, hreads⟩
      obtain ⟨mid, hread, hreads⟩ := hreads.split old new
      exact ⟨mid, (ihp hp.1).mpr ⟨first, old, hfirst, hread⟩,
        (ihq hp.2).mpr ⟨second, new, hsecond, hreads⟩⟩
  | alt p q ihp ihq =>
    rw [isRegular, Bool.and_eq_true] at hp
    rw [ways, List.mem_append, ihp hp.1, ihq hp.2]
    constructor
    · rintro (⟨piece, memory, hpiece, hreads⟩ | ⟨piece, memory, hpiece, hreads⟩)
      · exact ⟨piece, memory, Or.inl hpiece, hreads⟩
      · exact ⟨piece, memory, Or.inr hpiece, hreads⟩
    · rintro ⟨piece, memory, hpiece | hpiece, hreads⟩
      · exact Or.inl ⟨piece, memory, hpiece, hreads⟩
      · exact Or.inr ⟨piece, memory, hpiece, hreads⟩
  | loop greedy least most p ih =>
    rw [isRegular, Bool.and_eq_true] at hp
    have hbounds : ∀ n ∈ most, least ≤ n := by
      intro n hn
      rw [hn] at hp
      exact of_decide_eq_true hp.1
    have hfollows : Follows (ways p) fun piece => p.Describes piece [] := by
      intro here there
      rw [ih (isRegular_of_isSilent hp.2)]
      constructor
      · rintro ⟨piece, memory, hpiece, hreads⟩
        cases memory_eq_nil hp.2 hpiece
        exact ⟨piece, hpiece, hreads⟩
      · rintro ⟨piece, hpiece, hreads⟩
        exact ⟨piece, [], hpiece, hreads⟩
    rw [ways, mem_repetition_iff hfollows hbounds]
    constructor
    · rintro ⟨pieces, hpieces, hleast, hmost, hreads⟩
      exact ⟨pieces.flatten, [], ⟨rfl, pieces, hpieces, rfl, hleast, hmost⟩, hreads⟩
    · rintro ⟨piece, memory, ⟨rfl, pieces, hpieces, rfl, hleast, hmost⟩, hreads⟩
      exact ⟨pieces, hpieces, hleast, hmost, hreads⟩
  | group index p ih =>
    rw [ways, List.mem_map]
    constructor
    · rintro ⟨found, hfound, rfl⟩
      obtain ⟨piece, memory, hpiece, hreads⟩ := (ih hp).mp hfound
      exact ⟨piece, (index, piece) :: memory, ⟨memory, hpiece, rfl⟩, hreads.remember index⟩
    · rintro ⟨piece, memory, ⟨old, hpiece, rfl⟩, hreads⟩
      have hfound : here.Reads piece old { there with groups := old ++ here.groups } :=
        ⟨hreads.after, hreads.before, rfl⟩
      exact ⟨_, (ih hp).mpr ⟨piece, old, hpiece, hfound⟩, (hfound.remember index).unique hreads⟩
  | _ => cases hp

end SourceLoom.Pattern
