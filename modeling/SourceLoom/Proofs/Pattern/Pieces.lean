import SourceLoom.Proofs.Pattern.Language

/-!
# The pieces of simple patterns

What the patterns of fixed texts, of rows of characters and of optional pieces describe, and how
pieces of patterns that stand one after the other are put together.
-/

namespace SourceLoom.Pattern

variable {p q : Pattern} {piece first second w : Text} {memory old new : Memory}

/-- A piece of one pattern and a piece of another. -/
theorem Describes.seq (hp : p.Describes first old) (hq : q.Describes second new) :
    (Pattern.seq p q).Describes (first ++ second) (new ++ old) :=
  ⟨first, old, second, new, hp, hq, rfl, rfl⟩

/-- What is remembered of the second piece is all, if nothing is of the first. -/
theorem Describes.then (hp : p.Describes first []) (hq : q.Describes second new) :
    (Pattern.seq p q).Describes (first ++ second) new := by
  have h := hp.seq hq
  rwa [List.append_nil] at h

/-- A piece of a silent pattern and one of another, of which everything is remembered. -/
theorem describes_seq_iff (hp : p.isSilent = true) :
    (Pattern.seq p q).Describes piece memory ↔
      ∃ first second, p.Describes first [] ∧ q.Describes second memory ∧
        piece = first ++ second := by
  constructor
  · rintro ⟨first, old, second, new, hfirst, hsecond, rfl, rfl⟩
    cases memory_eq_nil hp hfirst
    exact ⟨first, second, hfirst, by rwa [List.append_nil], rfl⟩
  · rintro ⟨first, second, hfirst, hsecond, rfl⟩
    exact hfirst.then hsecond

/-- A piece of the first of two patterns to choose from. -/
theorem Describes.left (hp : p.Describes piece memory) : (alt p q).Describes piece memory :=
  Or.inl hp

/-- A piece of the second of two patterns to choose from. -/
theorem Describes.right (hq : q.Describes piece memory) : (alt p q).Describes piece memory :=
  Or.inr hq

/-- A pattern for one character describes it. -/
theorem describes_one_iff {c : Char} :
    (char (.one c)).Describes piece memory ↔ piece = [c] ∧ memory = [] := by
  have hset (d : Char) : (CharSet.one c).has d = true ↔ d = c :=
    (CharSet.has_of [c] d).trans List.mem_singleton
  constructor
  · rintro ⟨d, hd, rfl, rfl⟩
    exact ⟨congrArg (fun e => [e]) ((hset d).mp hd), rfl⟩
  · rintro ⟨rfl, rfl⟩
    exact ⟨c, (hset c).mpr rfl, rfl, rfl⟩

/-- A pattern for listed characters describes each of them. -/
theorem describes_of_iff {members : List Char} :
    (char (.of members)).Describes piece memory ↔ (∃ c ∈ members, piece = [c]) ∧ memory = [] := by
  constructor
  · rintro ⟨c, hc, rfl, rfl⟩
    exact ⟨⟨c, (CharSet.has_of members c).mp hc, rfl⟩, rfl⟩
  · rintro ⟨⟨c, hc, rfl⟩, rfl⟩
    exact ⟨c, (CharSet.has_of members c).mpr hc, rfl, rfl⟩

/-- The pattern of a fixed text describes that text. -/
theorem describes_text_iff : (text w).Describes piece memory ↔ piece = w ∧ memory = [] := by
  induction w generalizing piece memory with
  | nil => rfl
  | cons c w ih =>
    constructor
    · rintro ⟨first, old, second, new, hfirst, hsecond, rfl, rfl⟩
      obtain ⟨rfl, rfl⟩ := describes_one_iff.mp hfirst
      obtain ⟨rfl, rfl⟩ := ih.mp hsecond
      exact ⟨rfl, rfl⟩
    · rintro ⟨rfl, rfl⟩
      exact (describes_one_iff.mpr ⟨rfl, rfl⟩).then (ih.mpr ⟨rfl, rfl⟩)

/-- A repetition of single characters describes the rows of such characters whose length is within
its bounds. -/
theorem describes_loop_char_iff {greedy : Bool} {least : Nat} {most : Option Nat} {set : CharSet} :
    (loop greedy least most (char set)).Describes piece memory ↔
      memory = [] ∧ (∀ c ∈ piece, set.has c = true) ∧ least ≤ piece.length ∧
        ∀ n ∈ most, piece.length ≤ n := by
  have hsingle : ∀ pieces : List Text, (∀ round ∈ pieces, (char set).Describes round []) →
      pieces = pieces.flatten.map (fun c => [c]) ∧ ∀ c ∈ pieces.flatten, set.has c = true := by
    intro pieces hpieces
    induction pieces with
    | nil => exact ⟨rfl, nofun⟩
    | cons round pieces ih =>
      obtain ⟨⟨c, hc, rfl, -⟩, hrest⟩ := List.forall_mem_cons.mp hpieces
      obtain ⟨heq, hall⟩ := ih hrest
      refine ⟨congrArg (List.cons [c]) heq, List.forall_mem_cons.mpr ⟨hc, hall⟩⟩
  constructor
  · rintro ⟨rfl, pieces, hpieces, rfl, hleast, hmost⟩
    obtain ⟨heq, hall⟩ := hsingle pieces hpieces
    have hlength : pieces.length = pieces.flatten.length := by
      have h := congrArg List.length heq
      rwa [List.length_map] at h
    exact ⟨rfl, hall, hlength ▸ hleast, fun n hn => hlength ▸ hmost n hn⟩
  · rintro ⟨rfl, hall, hleast, hmost⟩
    refine ⟨rfl, piece.map fun c => [c], ?_, ?_, ?_, ?_⟩
    · intro round hround
      obtain ⟨c, hc, rfl⟩ := List.mem_map.mp hround
      exact ⟨c, hall c hc, rfl, rfl⟩
    · rw [← List.flatMap_def, List.flatMap_singleton']
    · rwa [List.length_map]
    · intro n hn
      rw [List.length_map]
      exact hmost n hn

/-- Any number of single characters, as many as possible. -/
theorem describes_many_char_iff {set : CharSet} :
    (many (char set)).Describes piece memory ↔ memory = [] ∧ ∀ c ∈ piece, set.has c = true := by
  rw [many, describes_loop_char_iff]
  simp

/-- Any number of single characters, as few as possible. -/
theorem describes_few_char_iff {set : CharSet} :
    (few (char set)).Describes piece memory ↔ memory = [] ∧ ∀ c ∈ piece, set.has c = true := by
  rw [few, describes_loop_char_iff]
  simp

/-- One single character or more. -/
theorem describes_many1_char_iff {set : CharSet} :
    (many1 (char set)).Describes piece memory ↔
      memory = [] ∧ (∀ c ∈ piece, set.has c = true) ∧ piece ≠ [] := by
  rw [many1, describes_loop_char_iff, ← List.length_pos_iff]
  simp [Nat.succ_le_iff]

/-- No piece at all is a number of pieces. -/
theorem describes_many_nil : (many p).Describes [] [] := ⟨rfl, [], nofun, rfl, Nat.le_refl 0, nofun⟩

/-- One piece is a number of pieces. -/
theorem Describes.many (h : p.Describes piece []) : (many p).Describes piece [] := by
  refine ⟨rfl, [piece], ?_, ?_, Nat.zero_le 1, nofun⟩
  · exact List.forall_mem_singleton.mpr h
  · exact (List.append_nil piece).symm

/-- A piece is a piece if possible. -/
theorem Describes.optional (h : p.Describes piece []) : (optional p).Describes piece [] := by
  refine ⟨rfl, [piece], ?_, ?_, Nat.zero_le 1, ?_⟩
  · exact List.forall_mem_singleton.mpr h
  · exact (List.append_nil piece).symm
  · rintro n hn
    cases hn
    exact Nat.le_refl 1

/-- No piece at all is a piece if possible. -/
theorem describes_optional_nil : (optional p).Describes [] [] :=
  ⟨rfl, [], nofun, rfl, Nat.le_refl 0, fun _ _ => Nat.zero_le _⟩

/-- What is a piece if possible is no piece at all or a piece. -/
theorem describes_optional (h : (Pattern.optional p).Describes piece memory) :
    piece = [] ∨ p.Describes piece [] := by
  obtain ⟨-, pieces, hpieces, rfl, -, hmost⟩ := h
  match pieces, hmost 1 rfl with
  | [], _ => exact Or.inl rfl
  | [round], _ =>
    rw [List.flatten_singleton]
    exact Or.inr (hpieces round (List.mem_singleton_self round))

end SourceLoom.Pattern
