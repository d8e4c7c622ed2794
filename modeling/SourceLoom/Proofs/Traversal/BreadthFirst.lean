import Mathlib.Data.Finset.Card
import Mathlib.Logic.Function.Iterate
import Mathlib.Order.Bounds.Defs

/-!
# Breadth-first sweeps

A sweep takes items from a queue and puts their neighbours at its end, each item once, down to a
bound on the depth. Some items may be known beforehand; the sweep then goes around them. At its
end it has taken exactly the items within the bound, each at its distance. A sweep that goes
around a set which no step leaves takes what the full sweep takes outside of it, in the same
order.
-/

namespace SourceLoom.BreadthFirst

variable {α : Type}

/-- A chain of so many steps of a relation. -/
inductive Hops (Step : α → α → Prop) (x : α) : Nat → α → Prop
  /-- No step is needed to stay. -/
  | here : Hops Step x 0 x
  /-- One more step. -/
  | hop {n : Nat} {y z : α} : Hops Step x n y → Step y z → Hops Step x (n + 1) z

/-- What every step keeps, a chain keeps. -/
theorem Hops.induct {Step : α → α → Prop} {x y : α} {n : Nat} (h : Hops Step x n y)
    {P : α → Prop} (hx : P x) (hstep : ∀ y z, P y → Step y z → P z) : P y := by
  induction h with
  | here => exact hx
  | hop _ hs ih => exact hstep _ _ ih hs

/-- A chain is one of every relation that has its steps. -/
theorem Hops.mono {Step Other : α → α → Prop} (hstep : ∀ y z, Step y z → Other y z) {x y : α}
    {n : Nat} (h : Hops Step x n y) : Hops Other x n y := by
  induction h with
  | here => exact .here
  | hop _ hs ih => exact ih.hop (hstep _ _ hs)

/-- Whether a depth respects a bound, if there is one. -/
def Within (bound : Option Nat) (depth : Nat) : Prop := ∀ limit ∈ bound, depth ≤ limit

/-- A bound is a limit that is not exceeded. -/
theorem within_some {limit depth : Nat} : Within (some limit) depth ↔ depth ≤ limit := by
  constructor
  · intro h
    exact h limit rfl
  · rintro h other ⟨⟩
    exact h

/-- Without a bound every depth will do. -/
theorem within_none (depth : Nat) : Within none depth := nofun

/-- One more step is within the bound if the bound was not reached. -/
theorem within_succ {bound : Option Nat} {depth : Nat} (h : bound.any (· ≤ depth) = false) :
    Within bound (depth + 1) := by
  rintro limit ⟨⟩
  exact Nat.lt_of_not_le (of_decide_eq_false h)

/-- Items that were taken or are queued come by their depths, and none is more than one deeper than
the next one to take. -/
structure Tiered (taken queue : List (α × Nat)) : Prop where
  /-- Items come by their depths. -/
  sorted : (taken ++ queue).Pairwise fun y z => y.2 ≤ z.2
  /-- No item is more than one deeper than the next one to take. -/
  spread : ∀ y ∈ queue.head?, ∀ z ∈ taken ++ queue, z.2 ≤ y.2 + 1

/-- The next item may be taken or dropped, and others queued one deeper. -/
theorem Tiered.next {taken queue kept : List (α × Nat)} {x : α} {depth : Nat}
    (h : Tiered taken ((x, depth) :: queue)) (hkept : kept.Sublist [(x, depth)]) (new : List α) :
    Tiered (taken ++ kept) (queue ++ new.map (·, depth + 1)) := by
  have hold : (taken ++ kept ++ queue).Sublist (taken ++ (x, depth) :: queue) := by
    rw [List.append_assoc]
    exact (List.Sublist.refl taken).append (hkept.append (List.Sublist.refl queue))
  have hspread : ∀ z ∈ taken ++ (x, depth) :: queue, z.2 ≤ depth + 1 := h.spread (x, depth) rfl
  have hnext : ∀ y ∈ queue ++ new.map (·, depth + 1), depth ≤ y.2 := by
    intro y hy
    rcases List.mem_append.mp hy with hy | hy
    · exact List.rel_of_pairwise_cons (List.pairwise_append.mp h.sorted).2.1 hy
    · obtain ⟨w, -, rfl⟩ := List.mem_map.mp hy
      exact Nat.le_succ depth
  constructor
  · rw [← List.append_assoc, List.pairwise_append]
    refine ⟨h.sorted.sublist hold, ?_, ?_⟩
    · exact List.pairwise_map.mpr (List.pairwise_of_forall fun _ _ => Nat.le_refl _)
    · intro z hz w hw
      obtain ⟨v, -, rfl⟩ := List.mem_map.mp hw
      exact hspread z (hold.subset hz)
  · intro y hy z hz
    have hle := hnext y (List.mem_of_mem_head? hy)
    rw [← List.append_assoc, List.mem_append] at hz
    rcases hz with hz | hz
    · have hdeep := hspread z (hold.subset hz)
      omega
    · obtain ⟨v, -, rfl⟩ := List.mem_map.mp hz
      exact Nat.succ_le_succ hle

/-- A sweep under way: the items taken and those in the queue, with their depths, and every item
that is known. -/
structure Sweep (α : Type) where
  /-- The items taken so far. -/
  taken : List (α × Nat)
  /-- The items to take. -/
  queue : List (α × Nat)
  /-- The items that were ever queued, and those known beforehand. -/
  known : List α

/-- The neighbours to be looked at from an item; at the bound there are none. -/
def offspring (next : α → List α) (bound : Option Nat) (x : α) (depth : Nat) : List α :=
  if bound.any (· ≤ depth) then [] else next x

variable {next : α → List α} {bound : Option Nat}

/-- An item at the bound leads to nothing that is to be looked at. -/
theorem offspring_at_bound {depth : Nat} (h : bound.any (· ≤ depth) = true)
    (next : α → List α) (x : α) : offspring next bound x depth = [] := if_pos h

/-- An item short of the bound leads to all its neighbours. -/
theorem offspring_short {depth : Nat} (h : bound.any (· ≤ depth) = false)
    (next : α → List α) (x : α) : offspring next bound x depth = next x :=
  if_neg (Bool.eq_false_iff.mp h)

/-- Only an item short of the bound has neighbours to be looked at, and these are its own. -/
theorem of_mem_offspring {y z : α} {depth : Nat} (h : z ∈ offspring next bound y depth) :
    z ∈ next y ∧ Within bound (depth + 1) := by
  unfold offspring at h
  split at h
  · exact absurd h List.not_mem_nil
  · rename_i hb
    exact ⟨h, within_succ (Bool.not_eq_true _ ▸ hb)⟩

/-- Every neighbour of an item short of the bound is to be looked at. -/
theorem mem_offspring {y z : α} {depth : Nat} (hz : z ∈ next y)
    (hw : Within bound (depth + 1)) : z ∈ offspring next bound y depth := by
  unfold offspring
  split
  · rename_i hb
    obtain ⟨limit, hl, hd⟩ := Option.any_eq_true .. |>.mp hb
    have hle := hw limit hl
    rw [decide_eq_true_eq] at hd
    omega
  · exact hz

namespace Sweep

/-- All items of a sweep, taken or queued. -/
def items (s : Sweep α) : List (α × Nat) := s.taken ++ s.queue

/-- The sweep that begins at an item and goes around others. -/
def start (around : List α) (x : α) : Sweep α := ⟨[], [(x, 0)], around ++ [x]⟩

/-- What a sweep that began at an item and goes around others has achieved so far. -/
structure Sound (next : α → List α) (bound : Option Nat) (around : List α) (x : α)
    (s : Sweep α) : Prop where
  /-- Known are the items to go around and all that were queued. -/
  known_eq : s.known = around ++ s.items.map Prod.fst
  /-- Nothing was queued twice. -/
  nodup : s.known.Nodup
  /-- The sweep began at its start. -/
  first : (x, 0) ∈ s.items
  /-- Items come by their depths. -/
  sorted : s.items.Pairwise fun y z => y.2 ≤ z.2
  /-- No item is more than one deeper than the next one to take. -/
  spread : ∀ y ∈ s.queue.head?, ∀ z ∈ s.items, z.2 ≤ y.2 + 1
  /-- A chain as long as its depth leads to each item. -/
  hops : ∀ y ∈ s.items, Hops (fun a b => b ∈ next a ∧ b ∉ around) x y.2 y.1
  /-- Every item is within the bound. -/
  within : ∀ y ∈ s.items, Within bound y.2
  /-- The neighbours of what was taken were queued, one deeper at most. -/
  closed : ∀ y ∈ s.taken, ∀ z ∈ offspring next bound y.1 y.2,
    z ∈ around ∨ ∃ depth, (z, depth) ∈ s.items ∧ depth ≤ y.2 + 1

variable {around : List α} {x : α}

/-- A sweep has achieved something at its start. -/
theorem start_sound (next : α → List α) (bound : Option Nat) (hn : around.Nodup)
    (hx : x ∉ around) : Sound next bound around x (start around x) where
  known_eq := rfl
  nodup := List.nodup_append.mpr ⟨hn, List.nodup_singleton x, by
    rintro y hy z hz rfl
    exact hx (List.mem_singleton.mp hz ▸ hy)⟩
  first := List.mem_singleton_self _
  sorted := List.pairwise_singleton _ _
  spread := by
    intro y hy z hz
    have he := List.mem_singleton.mp hz
    rw [he]
    exact Nat.zero_le _
  hops := by
    intro y hy
    rw [List.mem_singleton.mp hy]
    exact .here
  within := by
    intro y hy limit _
    rw [List.mem_singleton.mp hy]
    exact Nat.zero_le limit
  closed := by
    intro y hy
    exact absurd hy List.not_mem_nil

/-- The items of a sweep are distinct and none of those to go around. -/
theorem Sound.items_nodup {s : Sweep α} (h : Sound next bound around x s) :
    (s.items.map Prod.fst).Nodup ∧ ∀ y ∈ s.items, y.1 ∉ around := by
  have hn := h.nodup
  rw [h.known_eq, List.nodup_append] at hn
  refine ⟨hn.2.1, fun y hy ha => ?_⟩
  exact hn.2.2 _ ha _ (List.mem_map_of_mem hy) rfl

/-- An item has one depth. -/
theorem Sound.depth_unique {s : Sweep α} (h : Sound next bound around x s) {y : α}
    {d e : Nat} (hd : (y, d) ∈ s.items) (he : (y, e) ∈ s.items) : d = e := by
  have heq := List.inj_on_of_nodup_map h.items_nodup.1 hd he rfl
  exact congrArg Prod.snd heq

/-- A sweep that is over has taken what a chain within the bound leads to, and not deeper. -/
theorem Sound.exists_taken {s : Sweep α} (h : Sound next bound around x s)
    (hq : s.queue = []) {y : α} {n : Nat}
    (hops : Hops (fun a b => b ∈ next a ∧ b ∉ around) x n y) (hn : Within bound n) :
    ∃ depth ≤ n, (y, depth) ∈ s.taken := by
  have hall : s.items = s.taken := by rw [items, hq, List.append_nil]
  induction hops with
  | here => exact ⟨0, Nat.le_refl 0, hall ▸ h.first⟩
  | @hop n y z _ hs ih =>
    obtain ⟨d, hd, hy⟩ := ih fun limit hl => (Nat.le_succ n).trans (hn limit hl)
    have hz : z ∈ offspring next bound y d :=
      mem_offspring hs.1 fun limit hl => (Nat.succ_le_succ hd).trans (hn limit hl)
    obtain ⟨e, he, hle⟩ := (h.closed _ hy z hz).resolve_left hs.2
    exact ⟨e, hle.trans (Nat.succ_le_succ hd), hall ▸ he⟩

/-- A sweep that is over has taken exactly the items within the bound, each at the length of the
shortest chain that leads to it. -/
theorem Sound.mem_taken_iff {s : Sweep α} (h : Sound next bound around x s)
    (hq : s.queue = []) {y : α} {depth : Nat} :
    (y, depth) ∈ s.taken ↔ Within bound depth ∧
      IsLeast {n | Hops (fun a b => b ∈ next a ∧ b ∉ around) x n y} depth := by
  have hall : s.items = s.taken := by rw [items, hq, List.append_nil]
  constructor
  · intro hy
    have hi : (y, depth) ∈ s.items := hall ▸ hy
    refine ⟨h.within _ hi, h.hops _ hi, fun n hn => ?_⟩
    by_contra hlt
    have hw : Within bound n := fun limit hl => by
      have := h.within _ hi limit hl
      omega
    obtain ⟨e, he, hm⟩ := h.exists_taken hq hn hw
    have heq := h.depth_unique hi (hall ▸ hm)
    omega
  · rintro ⟨hw, hops, hleast⟩
    obtain ⟨d, hd, hm⟩ := h.exists_taken hq hops hw
    have hle := hleast (h.hops _ (hall ▸ hm))
    have he : d = depth := Nat.le_antisymm hd hle
    exact he ▸ hm

end Sweep

variable [DecidableEq α]

/-- The candidates that are not known, each once, in their order. -/
def fresh (known : List α) : List α → List α
  | [] => []
  | x :: xs => if x ∈ known then fresh known xs else x :: fresh (known ++ [x]) xs

/-- Fresh are exactly the candidates that are not known. -/
theorem mem_fresh {known xs : List α} {y : α} :
    y ∈ fresh known xs ↔ y ∈ xs ∧ y ∉ known := by
  induction xs generalizing known with
  | nil => simp only [fresh, List.not_mem_nil, false_and]
  | cons x xs ih =>
    rw [fresh]
    split
    · rename_i hx
      rw [ih, List.mem_cons]
      constructor
      · rintro ⟨hy, hn⟩
        exact ⟨Or.inr hy, hn⟩
      · rintro ⟨rfl | hy, hn⟩
        · exact absurd hx hn
        · exact ⟨hy, hn⟩
    · rename_i hx
      rw [List.mem_cons, ih, List.mem_cons, List.mem_append, List.mem_singleton]
      constructor
      · rintro (rfl | ⟨hy, hn⟩)
        · exact ⟨Or.inl rfl, hx⟩
        · exact ⟨Or.inr hy, fun h => hn (Or.inl h)⟩
      · rintro ⟨hy, hn⟩
        by_cases he : y = x
        · exact Or.inl he
        · exact Or.inr ⟨hy.resolve_left he, fun h => h.elim hn he⟩

/-- No fresh item comes twice. -/
theorem fresh_nodup (known xs : List α) : (fresh known xs).Nodup := by
  induction xs generalizing known with
  | nil => exact List.nodup_nil
  | cons x xs ih =>
    rw [fresh]
    split
    · exact ih known
    · refine List.nodup_cons.mpr ⟨fun h => ?_, ih _⟩
      exact (mem_fresh.mp h).2 (List.mem_append_right _ List.mem_cons_self)

/-- Known items stay distinct when fresh ones join them. -/
theorem append_fresh_nodup {known : List α} (h : known.Nodup) (xs : List α) :
    (known ++ fresh known xs).Nodup := by
  refine List.nodup_append.mpr ⟨h, fresh_nodup known xs, ?_⟩
  rintro y hy z hz rfl
  exact (mem_fresh.mp hz).2 hy

/-- Where more is known, those candidates are fresh that were fresh before and are not among it. -/
theorem fresh_eq_filter {known more all : List α} (h : ∀ y, y ∈ all ↔ y ∈ more ∨ y ∈ known)
    (xs : List α) : fresh all xs = (fresh known xs).filter (· ∉ more) := by
  induction xs generalizing known all with
  | nil => rfl
  | cons x xs ih =>
    by_cases hk : x ∈ known
    · rw [fresh, fresh, if_pos hk, if_pos ((h x).mpr (Or.inr hk)), ih h]
    · have hs : ∀ y, y ∈ all ++ [x] ↔ y ∈ more ∨ y ∈ known ++ [x] := by
        intro y
        rw [List.mem_append, List.mem_append, h y, or_assoc]
      by_cases hm : x ∈ more
      · rw [fresh, fresh, if_neg hk, if_pos ((h x).mpr (Or.inl hm)),
          List.filter_cons_of_neg (by simpa only [decide_eq_true_eq, not_not] using hm)]
        apply ih
        intro y
        rw [h y, List.mem_append, List.mem_singleton]
        constructor
        · rintro (hy | hy)
          · exact Or.inl hy
          · exact Or.inr (Or.inl hy)
        · rintro (hy | hy | rfl)
          · exact Or.inl hy
          · exact Or.inr hy
          · exact Or.inl hm
      · rw [fresh, fresh, if_neg hk, if_neg fun hx => ((h x).mp hx).elim hm hk,
          List.filter_cons_of_pos (by simpa only [decide_eq_true_eq] using hm), ih hs]

namespace Sweep

variable {around : List α} {x : α}

/-- Takes one item from the queue, if there is one. -/
def step (next : α → List α) (bound : Option Nat) (s : Sweep α) : Sweep α :=
  match s.queue with
  | [] => s
  | (x, depth) :: queue =>
    let new := fresh s.known (offspring next bound x depth)
    ⟨s.taken ++ [(x, depth)], queue ++ new.map (·, depth + 1), s.known ++ new⟩

/-- A sweep whose queue is empty is over. -/
theorem step_of_queue_nil {s : Sweep α} (h : s.queue = []) : s.step next bound = s := by
  rw [step, h]

/-- A sweep that is over stays as it is. -/
theorem iterate_of_queue_nil {s : Sweep α} (h : s.queue = []) (n : Nat) :
    (step next bound)^[n] s = s :=
  Function.iterate_fixed (step_of_queue_nil h) n

/-- Two sweeps from one start that are both over are the same. -/
theorem iterate_eq_of_queue_nil {s : Sweep α} {m n : Nat}
    (hm : ((step next bound)^[m] s).queue = []) (hn : ((step next bound)^[n] s).queue = []) :
    (step next bound)^[m] s = (step next bound)^[n] s := by
  rcases Nat.le_total m n with h | h
  · obtain ⟨k, rfl⟩ := Nat.exists_eq_add_of_le' h
    rw [Function.iterate_add_apply, iterate_of_queue_nil hm]
  · obtain ⟨k, rfl⟩ := Nat.exists_eq_add_of_le' h
    rw [Function.iterate_add_apply, iterate_of_queue_nil hn]

/-- A step that takes an item puts its fresh neighbours behind all others. -/
theorem step_items (next : α → List α) (bound : Option Nat) {s : Sweep α} {x : α} {depth : Nat}
    {queue : List (α × Nat)} (h : s.queue = (x, depth) :: queue) :
    (s.step next bound).items =
      s.items ++ (fresh s.known (offspring next bound x depth)).map (·, depth + 1) := by
  simp only [items, step, h, List.append_assoc, List.cons_append,
    List.nil_append]

/-- A step keeps what a sweep has achieved. -/
theorem Sound.step {s : Sweep α} (h : Sound next bound around x s) :
    Sound next bound around x (s.step next bound) := by
  cases hq : s.queue with
  | nil => rwa [step_of_queue_nil hq]
  | cons head queue =>
    obtain ⟨y, depth⟩ := head
    have hitems := step_items next bound hq
    have hknown : (s.step next bound).known =
        s.known ++ fresh s.known (offspring next bound y depth) := by
      simp only [Sweep.step, hq]
    have hqueue : (s.step next bound).queue =
        queue ++ (fresh s.known (offspring next bound y depth)).map (·, depth + 1) := by
      simp only [Sweep.step, hq]
    have htaken : (s.step next bound).taken = s.taken ++ [(y, depth)] := by
      simp only [Sweep.step, hq]
    generalize hnew : fresh s.known (offspring next bound y depth) = new at *
    have hhead : (y, depth) ∈ s.items := by
      rw [items, hq]
      exact List.mem_append_right _ List.mem_cons_self
    have hspread : ∀ z ∈ s.items, z.2 ≤ depth + 1 := h.spread (y, depth) (by rw [hq]; rfl)
    have htiered : Tiered (s.step next bound).taken (s.step next bound).queue := by
      have hbefore : Tiered s.taken s.queue := ⟨h.sorted, h.spread⟩
      rw [hq] at hbefore
      rw [htaken, hqueue]
      exact hbefore.next (List.Sublist.refl _) new
    have hadded : ∀ z ∈ (s.step next bound).items, z ∈ s.items ∨
        (z.2 = depth + 1 ∧ z.1 ∈ offspring next bound y depth ∧ z.1 ∉ s.known) := by
      intro z hz
      rw [hitems, List.mem_append, List.mem_map] at hz
      rcases hz with hz | ⟨w, hw, rfl⟩
      · exact Or.inl hz
      · exact Or.inr ⟨rfl, mem_fresh.mp (hnew ▸ hw)⟩
    exact {
      known_eq := by
        rw [hknown, hitems, h.known_eq, List.map_append, List.map_map, List.append_assoc]
        congr 2
        exact (List.map_id new).symm
      nodup := by
        rw [hknown, ← hnew]
        exact append_fresh_nodup h.nodup _
      first := by
        rw [hitems]
        exact List.mem_append_left _ h.first
      sorted := htiered.sorted
      spread := htiered.spread
      hops := by
        intro z hz
        rcases hadded z hz with hz | ⟨hz, hmem, hnot⟩
        · exact h.hops z hz
        · rw [hz]
          refine (h.hops _ hhead).hop ⟨(of_mem_offspring hmem).1, fun ha => hnot ?_⟩
          rw [h.known_eq]
          exact List.mem_append_left _ ha
      within := by
        intro z hz
        rcases hadded z hz with hz | ⟨hz, hmem, -⟩
        · exact h.within z hz
        · rw [hz]
          exact (of_mem_offspring hmem).2
      closed := by
        intro z hz w hw
        rw [htaken, List.mem_append, List.mem_singleton] at hz
        rw [hitems]
        rcases hz with hz | rfl
        · rcases h.closed z hz w hw with ha | ⟨e, he, hle⟩
          · exact Or.inl ha
          · exact Or.inr ⟨e, List.mem_append_left _ he, hle⟩
        · by_cases hk : w ∈ s.known
          · rw [h.known_eq, List.mem_append, List.mem_map] at hk
            rcases hk with ha | ⟨v, hv, rfl⟩
            · exact Or.inl ha
            · exact Or.inr ⟨v.2, List.mem_append_left _ hv, hspread v hv⟩
          · refine Or.inr ⟨depth + 1, List.mem_append_right _ ?_, Nat.le_refl _⟩
            exact List.mem_map.mpr ⟨w, hnew ▸ mem_fresh.mpr ⟨hw, hk⟩, rfl⟩ }

/-- A sweep keeps what it has achieved over any number of steps. -/
theorem Sound.iterate {s : Sweep α} (h : Sound next bound around x s) (n : Nat) :
    Sound next bound around x ((Sweep.step next bound)^[n] s) := by
  induction n generalizing s with
  | zero => exact h
  | succ n ih =>
    rw [Function.iterate_succ_apply]
    exact ih h.step

/-- A sweep that is not over has taken as many items as it took steps. -/
theorem taken_length {s : Sweep α} {n : Nat} (h : ((step next bound)^[n] s).queue ≠ []) :
    ((step next bound)^[n] s).taken.length = s.taken.length + n := by
  induction n generalizing s with
  | zero => rfl
  | succ n ih =>
    rw [Function.iterate_succ_apply] at h ⊢
    rw [ih h]
    cases hq : s.queue with
    | nil =>
      rw [step_of_queue_nil hq, iterate_of_queue_nil hq] at h
      exact absurd hq h
    | cons head queue =>
      simp only [step, hq, List.length_append, List.length_singleton]
      omega

/-- A sweep among finitely many items is over after as many steps. -/
theorem queue_eq_nil {s : Sweep α} {all : Finset α} {n : Nat} (hn : all.card ≤ n)
    (h : Sound next bound around x ((step next bound)^[n] s))
    (hall : ∀ y ∈ ((step next bound)^[n] s).items, y.1 ∈ all) :
    ((step next bound)^[n] s).queue = [] := by
  by_contra hq
  have htaken := taken_length hq
  generalize (step next bound)^[n] s = t at *
  have hnodup : (t.items.map Prod.fst).Nodup := by
    have := h.nodup
    rw [h.known_eq] at this
    exact (List.nodup_append.mp this).2.1
  have hcard : (t.items.map Prod.fst).toFinset.card ≤ all.card := by
    apply Finset.card_le_card
    intro y hy
    obtain ⟨z, hz, rfl⟩ := List.mem_map.mp (List.mem_toFinset.mp hy)
    exact hall z hz
  rw [List.toFinset_card_of_nodup hnodup, List.length_map, items, List.length_append] at hcard
  have hpos := List.length_pos_of_ne_nil hq
  omega

/-- The items outside of a set. -/
def outside (around : List α) (items : List (α × Nat)) : List (α × Nat) :=
  items.filter fun y => y.1 ∉ around

/-- Outside of a set one looks piece by piece. -/
theorem outside_append (around : List α) (l m : List (α × Nat)) :
    outside around (l ++ m) = outside around l ++ outside around m := List.filter_append ..

/-- A member of the set is passed over. -/
theorem outside_cons_of_mem {around : List α} {y : α} (hy : y ∈ around) (depth : Nat)
    (items : List (α × Nat)) : outside around ((y, depth) :: items) = outside around items :=
  List.filter_cons_of_neg (by simpa only [decide_eq_true_eq, not_not] using hy)

/-- What is no member of the set stays. -/
theorem outside_cons_of_not_mem {around : List α} {y : α} (hy : y ∉ around) (depth : Nat)
    (items : List (α × Nat)) :
    outside around ((y, depth) :: items) = (y, depth) :: outside around items :=
  List.filter_cons_of_pos (by simpa only [decide_eq_true_eq] using hy)

/-- Items of one depth are passed over by themselves. -/
theorem outside_map (around : List α) (xs : List α) (depth : Nat) :
    outside around (xs.map (·, depth)) = (xs.filter (· ∉ around)).map (·, depth) := by
  rw [outside, List.filter_map]
  rfl

/-- No step leaves a set. -/
def Closed (next : α → List α) (around : List α) : Prop :=
  ∀ y ∈ around, ∀ z ∈ next y, z ∈ around

/-- One sweep may enter a set that the other goes around, and otherwise they are equally far. -/
structure Beside (around : List α) (full part : Sweep α) : Prop where
  /-- Outside of the set the same was taken. -/
  taken_eq : part.taken = outside around full.taken
  /-- Outside of the set the same is queued. -/
  queue_eq : part.queue = outside around full.queue
  /-- Outside of the set the same is known. -/
  mem_known : ∀ y, y ∈ part.known ↔ y ∈ around ∨ y ∈ full.known

/-- Two sweeps that begin at one item outside of the set are equally far. -/
theorem start_beside {around : List α} {x : α} (hx : x ∉ around) :
    Beside around (start [] x) (start around x) where
  taken_eq := rfl
  queue_eq := (outside_cons_of_not_mem hx 0 []).symm
  mem_known := by
    intro y
    rw [start, start, List.mem_append, List.nil_append]

/-- If no step leaves the set, then after a step of the full sweep the sweep around the set is
equally far at once or after a step of its own. -/
theorem Beside.step {around : List α} (hc : Closed next around)
    {full part : Sweep α} (h : Beside around full part) :
    Beside around (full.step next none) part ∨
      Beside around (full.step next none) (part.step next none) := by
  cases hq : full.queue with
  | nil =>
    rw [step_of_queue_nil hq]
    exact Or.inl h
  | cons head queue =>
    obtain ⟨y, depth⟩ := head
    have hnext : offspring next none y depth = next y := rfl
    by_cases hy : y ∈ around
    · -- The sweep around the set never queued this item, nor what the item leads to.
      have hnew : (fresh full.known (next y)).filter (· ∉ around) = [] := by
        rw [List.filter_eq_nil_iff]
        intro z hz
        simpa only [decide_eq_true_eq, not_not] using hc y hy z (mem_fresh.mp hz).1
      left
      constructor
      · simp only [Sweep.step, hq, outside_append, outside_cons_of_mem hy, h.taken_eq]
        exact (List.append_nil _).symm
      · simp only [Sweep.step, hq, hnext, outside_append, outside_map, hnew, List.map_nil,
          List.append_nil, h.queue_eq, outside_cons_of_mem hy]
      · intro z
        simp only [Sweep.step, hq, hnext, List.mem_append, h.mem_known z]
        constructor
        · rintro (hz | hz)
          · exact Or.inl hz
          · exact Or.inr (Or.inl hz)
        · rintro (hz | hz | hz)
          · exact Or.inl hz
          · exact Or.inr hz
          · exact Or.inl (hc y hy z (mem_fresh.mp hz).1)
    · have hpart : part.queue = (y, depth) :: outside around queue := by
        rw [h.queue_eq, hq, outside_cons_of_not_mem hy]
      have hnew : fresh part.known (next y) = (fresh full.known (next y)).filter (· ∉ around) :=
        fresh_eq_filter h.mem_known _
      right
      constructor
      · simp only [Sweep.step, hq, hpart, outside_append, outside_cons_of_not_mem hy, h.taken_eq]
        rfl
      · simp only [Sweep.step, hq, hpart, hnext, hnew, outside_append, outside_map]
      · intro z
        simp only [Sweep.step, hq, hpart, hnext, List.mem_append, h.mem_known z, mem_fresh]
        tauto

/-- Whenever the full sweep rests, the sweep around a set that no step leaves has been equally
far. -/
theorem Beside.iterate {around : List α} (hc : Closed next around)
    {full part : Sweep α} (h : Beside around full part) (n : Nat) :
    ∃ m, Beside around ((Sweep.step next none)^[n] full) ((Sweep.step next none)^[m] part) := by
  induction n generalizing full part with
  | zero => exact ⟨0, h⟩
  | succ n ih =>
    rcases h.step hc with hs | hs
    · exact ih hs
    · obtain ⟨m, hm⟩ := ih hs
      exact ⟨m + 1, hm⟩

/-- If no step leaves a set, then the sweep around it takes what the full sweep takes outside of
it, in the same order. -/
theorem taken_around_eq {around : List α} (hc : Closed next around)
    {x : α} (hx : x ∉ around) {m n : Nat}
    (hfull : ((step next none)^[m] (start [] x)).queue = [])
    (hpart : ((step next none)^[n] (start around x)).queue = []) :
    ((step next none)^[n] (start around x)).taken =
      outside around ((step next none)^[m] (start [] x)).taken := by
  obtain ⟨k, hk⟩ := (start_beside hx).iterate hc m
  have hover : ((step next none)^[k] (start around x)).queue = [] := by
    rw [hk.queue_eq, hfull]
    rfl
  rw [iterate_eq_of_queue_nil hpart hover, hk.taken_eq]

end Sweep

end SourceLoom.BreadthFirst
