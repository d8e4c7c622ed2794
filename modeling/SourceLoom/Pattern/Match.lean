import SourceLoom.Pattern.Basic

/-!
# Matching

The matcher tries the ways of a pattern one at a time and goes on with what must follow before it
looks for another way. The main statement says that it finds the first way, in the order of the
list of all ways, from which what follows succeeds.
-/

namespace SourceLoom.Pattern

/-- What is to follow a piece: where it leads from the end of the piece, if anywhere. -/
abbrev Next := Cursor → Option Cursor

/-- So many rounds of a body, and then what follows. -/
def runRounds (body : Next → Cursor → Option Cursor) : Nat → Next → Cursor → Option Cursor
  | 0, next, here => next here
  | n + 1, next, here => body (runRounds body n next) here

/-- Further rounds of a body, and then what follows. -/
def runFurther (body : Next → Cursor → Option Cursor) (greedy : Bool) :
    (fuel : Nat) → (limit last : Option Nat) → Next → Cursor → Option Cursor
  | 0, _, _, next, here => next here
  | fuel + 1, limit, last, next, here =>
    if limit = some 0 ∨ last = some here.left then next here
    else if greedy then
      match body (runFurther body greedy fuel (limit.map (· - 1)) (some here.left) next) here with
      | some found => some found
      | none => next here
    else
      match next here with
      | some found => some found
      | none =>
        body (runFurther body greedy fuel (limit.map (· - 1)) (some here.left) next) here

/-- Matches a piece of the pattern at a place, and then what follows. -/
def run : Pattern → Next → Cursor → Option Cursor
  | empty, next, here => next here
  | char set, next, here => (here.step? set).bind next
  | anchor place, next, here => if here.meets place then next here else none
  | seq p q, next, here => run p (run q next) here
  | alt p q, next, here =>
    match run p next here with
    | some found => some found
    | none => run q next here
  | loop greedy least most p, next, here =>
    runRounds (run p) least
      (runFurther (run p) greedy (here.left + 2) (most.map (· - least)) none next) here
  | group index p, next, here => run p (fun found => next (here.remember found index)) here
  | atomic p, next, here => (run p some here).bind next
  | ahead negated p, next, here =>
    match run p some here with
    | some found => if negated then none else next { here with groups := found.groups }
    | none => if negated then next here else none
  | behind negated width p, next, here =>
    match (here.back? width).bind (run p some) with
    | some found => if negated then none else next { here with groups := found.groups }
    | none => if negated then next here else none
  | again rule index, next, here => (againAt rule index here).bind next
  | ifGroup index p q, next, here =>
    if (here.group? index).isSome then run p next here else run q next here

/-- The preferred piece of a pattern at a place. -/
def matchAt (p : Pattern) (here : Cursor) : Option Cursor := run p some here

/-- Where the first piece of a pattern at or after a place ends, at most so many characters on;
pieces are sought from left to right. -/
def findFrom (p : Pattern) : (distance : Nat) → Cursor → Option Cursor
  | 0, here => matchAt p here
  | distance + 1, here =>
    match matchAt p here with
    | some found => some found
    | none =>
      match here.next? with
      | some (_, there) => findFrom p distance there
      | none => none

/-- Whether a piece of a pattern is anywhere in a text. -/
def occursIn (p : Pattern) (text : Text) : Bool := (findFrom p text.length (.start text)).isSome

/-- The pieces of a pattern from a place on, from left to right and without overlap; `skip`
characters still belong to the piece before, and pieces are sought at so many places. -/
def findAllFrom (p : Pattern) : (places skip : Nat) → Cursor → List Cursor
  | 0, _, _ => []
  | places + 1, skip, here =>
    match here.next?, skip with
    | none, _ => []
    | some (_, there), skip + 1 => findAllFrom p places skip there
    | some (_, there), 0 =>
      match matchAt p here with
      | some found => found :: findAllFrom p places (there.left - found.left) there
      | none => findAllFrom p places 0 there

/-- The pieces of a pattern in a text, from left to right and without overlap, for a pattern
without empty pieces. -/
def findAll (p : Pattern) (text : Text) : List Cursor :=
  findAllFrom p text.length 0 (.start text)

/-- A search through the lists that a list leads to is a search through the list. -/
theorem findSome?_flatMap {α β γ : Type} (l : List α) (f : α → List β) (g : β → Option γ) :
    (l.flatMap f).findSome? g = l.findSome? fun x => (f x).findSome? g := by
  induction l with
  | nil => rfl
  | cons x l ih =>
    rw [List.flatMap_cons, List.findSome?_append, List.findSome?_cons, ih]
    cases (f x).findSome? g <;> rfl

/-- Rounds find the first way that leads on. -/
theorem runRounds_eq {body : Next → Cursor → Option Cursor} {all : Cursor → List Cursor}
    (h : ∀ next here, body next here = (all here).findSome? next) (n : Nat) (next : Next)
    (here : Cursor) : runRounds body n next here = (rounds all n here).findSome? next := by
  induction n generalizing here with
  | zero => simp [runRounds, rounds]
  | succ n ih =>
    rw [runRounds, h, rounds, findSome?_flatMap]
    congr 1
    funext x
    exact ih x

/-- Further rounds find the first way that leads on. -/
theorem runFurther_eq {body : Next → Cursor → Option Cursor} {all : Cursor → List Cursor}
    (h : ∀ next here, body next here = (all here).findSome? next) (greedy : Bool) (fuel : Nat)
    (limit last : Option Nat) (next : Next) (here : Cursor) :
    runFurther body greedy fuel limit last next here =
      (furtherRounds all greedy fuel limit last here).findSome? next := by
  induction fuel generalizing limit last here with
  | zero => simp [runFurther, furtherRounds]
  | succ fuel ih =>
    have more : body (runFurther body greedy fuel (limit.map (· - 1)) (some here.left) next)
        here = ((all here).flatMap (furtherRounds all greedy fuel (limit.map (· - 1))
          (some here.left))).findSome? next := by
      rw [h, findSome?_flatMap]
      congr 1
      funext x
      exact ih _ _ x
    simp only [runFurther, furtherRounds]
    split
    · simp
    · cases greedy with
      | true =>
        simp only [if_true, List.findSome?_append, more]
        cases (((all here).flatMap (furtherRounds all true fuel (limit.map (· - 1))
          (some here.left))).findSome? next) <;> simp
      | false =>
        simp only [List.findSome?_cons, more, Bool.false_eq_true, if_false]
        cases next here <;> rfl

/-- The matcher finds the first of all ways from which what follows succeeds. -/
theorem run_eq_findSome? (p : Pattern) (next : Next) (here : Cursor) :
    run p next here = (ways p here).findSome? next := by
  have first : ∀ l : List Cursor, l.findSome? some = l.head? := by
    intro l
    cases l <;> rfl
  induction p generalizing next here with
  | empty => simp [run, ways]
  | char set => cases h : here.step? set <;> simp [run, ways, h]
  | anchor place => by_cases h : here.meets place <;> simp [run, ways, h]
  | seq p q ihp ihq =>
    rw [run, ways, ihp, findSome?_flatMap]
    congr 1
    funext x
    exact ihq next x
  | alt p q ihp ihq =>
    rw [run, ways, List.findSome?_append, ← ihp, ← ihq]
    cases run p next here <;> rfl
  | loop greedy least most p ih =>
    rw [run, ways, runRounds_eq ih, findSome?_flatMap]
    congr 1
    funext x
    exact runFurther_eq ih greedy _ _ _ next x
  | group index p ih =>
    rw [run, ways, ih, List.findSome?_map]
    rfl
  | atomic p ih =>
    rw [run, ways, ih, first]
    cases (ways p here).head? <;> simp
  | ahead negated p ih =>
    rw [run, ways, ih, first]
    cases (ways p here).head? <;> cases negated <;> simp
  | behind negated width p ih =>
    have earlier : (here.back? width).bind (run p some) =
        (here.back? width).bind fun x => (ways p x).head? := by
      congr 1
      funext x
      rw [ih, first]
    rw [run, ways, earlier]
    cases (here.back? width).bind fun x => (ways p x).head? <;> cases negated <;> simp
  | again rule index => cases h : againAt rule index here <;> simp [run, ways, h]
  | ifGroup index p q ihp ihq =>
    rw [run, ways, ihp, ihq]
    split <;> rfl

/-- A pattern matches at a place exactly by its first way. -/
theorem matchAt_eq_head? (p : Pattern) (here : Cursor) : matchAt p here = (ways p here).head? := by
  rw [matchAt, run_eq_findSome?]
  cases ways p here <;> rfl

end SourceLoom.Pattern
