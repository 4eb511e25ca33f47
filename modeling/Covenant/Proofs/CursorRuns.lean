import Covenant.Proofs.ScreenedReading
import Covenant.Proofs.TypePlaces

/-!
# Runs of cursor operations

A cursor may be moved by any operations in any order, over a list of tokens that may be cut short
and lack its end, and also after a reading that failed. Whatever an operation does, it passes a
run of tokens and never the end; so positions grow, and the end of the list bounds them. The loops
of the readers pass at least one token in each round and therefore come to an end within the
tokens that are left.

## Main definitions

* `Cursor.Operation`, `Cursor.after`: the operations, and a run of them.
* `Cursor.position`, `Cursor.limit`: how far a cursor is, and how far it can get.
* `Cursor.Moves`: what every operation does.
* `Cursor.Loop`, `Cursor.bracketRound`, `Cursor.typeRound`: loops that go from cursor to cursor,
  and the two of the readers.

## Main statements

* `Cursor.Operation.moves`, `Cursor.moves_after`: an operation and a run of operations.
* `Cursor.Within.atEnd_iff`: a cursor is at the end exactly if it cannot get further.
* `Cursor.exists_loop`: loops that make progress come to an end.
* `Cursor.operations_stay_within_tokens`: what holds after any run of operations.
-/

namespace Covenant

/-! ## The tokens of a type -/

/-- A type takes a token for its name and two for each bracket around it. -/
theorem TypeTokens.length_eq {tokens : List Token} {ty : Ty} (h : TypeTokens tokens ty) :
    tokens.length = 2 * ty.depth + 1 := by
  cases h with
  | intro name depth =>
      simp only [List.length_append, List.length_replicate, List.length_cons]
      omega

/-- The tokens of a type that is not finished: opening brackets, or these, a name and fewer
closing brackets. -/
def UnfinishedType (tokens : List Token) : Prop :=
  ∃ n, tokens = List.replicate n .openBracket ∨
    ∃ name m, m < n ∧
      tokens = List.replicate n .openBracket ++ .ident name :: List.replicate m .closeBracket

theorem PartOfType.item_ne_eof {run : List (Located Token)} {depth : Nat}
    (h : PartOfType (run.map (·.item)) depth) : ∀ t ∈ run, t.item ≠ .eof := by
  intro t ht heof
  have hmem : Token.eof ∈ run.map (·.item) := heof ▸ List.mem_map_of_mem ht
  generalize run.map (·.item) = items at h hmem
  cases h with
  | opening => simp at hmem
  | closing => simp at hmem

namespace Cursor

variable {c c' c'' : Cursor} {tokens : List (Located Token)}

/-! ## Moves -/

/-- How many tokens a cursor has passed. -/
def position (c : Cursor) : Nat := c.passed.length

/-- How far a cursor over some tokens can get: to the first end token, or after the last token if
there is none. -/
def limit (tokens : List (Located Token)) : Nat := tokens.findIdx fun t => t.item = .eof

/-- One cursor is another one after it has passed some tokens, none of which is the end. -/
def Moves (c c' : Cursor) : Prop := ∃ run, c.Passes run c' ∧ ∀ t ∈ run, t.item ≠ .eof

/-- A cursor stands somewhere in a list of tokens, and has not passed the end. -/
structure Within (c : Cursor) (tokens : List (Located Token)) : Prop where
  tokens_eq : c.passed.reverse ++ c.rest = tokens
  before_end : ∀ t ∈ c.passed, t.item ≠ .eof

theorem Passes.position_eq {run : List (Located Token)} (h : c.Passes run c') :
    c'.position = c.position + run.length := by
  rw [position, h.passed, List.length_append, List.length_reverse, Nat.add_comm, position]

namespace Moves

theorem refl (c : Cursor) : c.Moves c := ⟨[], .refl c, by simp⟩

theorem trans (h : c.Moves c') (h' : c'.Moves c'') : c.Moves c'' := by
  obtain ⟨run, hrun, hend⟩ := h
  obtain ⟨run', hrun', hend'⟩ := h'
  exact ⟨run ++ run', hrun.trans hrun', List.forall_mem_append.2 ⟨hend, hend'⟩⟩

theorem position_le (h : c.Moves c') : c.position ≤ c'.position := by
  obtain ⟨run, hrun, _⟩ := h
  rw [hrun.position_eq]
  omega

theorem position_add_length (h : c.Moves c') :
    c'.position + c'.rest.length = c.position + c.rest.length := by
  obtain ⟨run, hrun, _⟩ := h
  rw [hrun.position_eq, hrun.rest, List.length_append]
  omega

end Moves

theorem next_of_eof (h : c.token = .eof) : c.next = c := by
  cases hrest : c.rest with
  | nil => simp [next, hrest]
  | cons t rest =>
      have ht : t.item = .eof := by simpa [token, hrest] using h
      simp [next, hrest, ht]

theorem moves_next (c : Cursor) : c.Moves c.next := by
  by_cases hend : c.token = .eof
  · rw [next_of_eof hend]
    exact .refl c
  · obtain ⟨x, hx, hpass⟩ := passes_next hend
    exact ⟨[x], hpass, by simpa [hx] using hend⟩

theorem position_next (h : c.token ≠ .eof) : c.next.position = c.position + 1 := by
  obtain ⟨x, _, hpass⟩ := passes_next h
  exact hpass.position_eq

namespace Within

theorem ofTokens (tokens : List (Located Token)) : (Cursor.ofTokens tokens).Within tokens :=
  ⟨rfl, by simp [Cursor.ofTokens]⟩

theorem moves (h : c.Within tokens) (hmoves : c.Moves c') : c'.Within tokens := by
  obtain ⟨run, hrun, hend⟩ := hmoves
  exact ⟨hrun.tokens_eq.trans h.tokens_eq, hrun.before_end h.before_end hend⟩

/-- The limit is as many tokens ahead as stand before the next end. -/
theorem limit_eq (h : c.Within tokens) : limit tokens = c.position + limit c.rest := by
  have hpassed : c.passed.reverse.findIdx (fun t => decide (t.item = .eof)) = c.position := by
    rw [List.findIdx_eq_length_of_false, List.length_reverse, position]
    intro t ht
    exact decide_eq_false (h.before_end t (List.mem_reverse.1 ht))
  rw [limit, ← h.tokens_eq, List.findIdx_append, hpassed, List.length_reverse, ← position, limit]
  simp [Nat.add_comm]

theorem position_le (h : c.Within tokens) : c.position ≤ limit tokens := by
  rw [h.limit_eq]
  omega

theorem atEnd_iff (h : c.Within tokens) : c.atEnd = true ↔ c.position = limit tokens := by
  have hnext : c.atEnd = true ↔ limit c.rest = 0 := by
    cases hrest : c.rest with
    | nil => simp [atEnd, token, limit, hrest]
    | cons t rest => simp [atEnd, token, limit, hrest, List.findIdx_cons, Bool.cond_eq_ite]
  rw [hnext, h.limit_eq]
  omega

end Within

/-! ## Loops -/

/-- A loop that goes from cursor to cursor as long as there is a next one: how many rounds it
makes, and where it ends. -/
inductive Loop (round : Cursor → Option Cursor) : Nat → Cursor → Cursor → Prop
  | stop {c : Cursor} (h : round c = none) : Loop round 0 c c
  | again {n : Nat} {c c' last : Cursor} (h : round c = some c') (hrest : Loop round n c' last) :
      Loop round (n + 1) c last

/-- A loop that passes a token in each round, and never the end, comes to an end, after at most as
many rounds as tokens are passed. -/
theorem exists_loop {round : Cursor → Option Cursor}
    (hround : ∀ c c', round c = some c' → c.Moves c' ∧ c.position < c'.position) (c : Cursor) :
    ∃ n last, Loop round n c last ∧ c.Moves last ∧ c.position + n ≤ last.position := by
  -- each round leaves fewer tokens
  induction hlength : c.rest.length using Nat.strongRecOn generalizing c with
  | ind length ih =>
      subst hlength
      cases hnext : round c with
      | none => exact ⟨0, c, .stop hnext, .refl c, Nat.le_refl _⟩
      | some c' =>
          obtain ⟨hmoves, hfurther⟩ := hround c c' hnext
          have hleft := hmoves.position_add_length
          obtain ⟨n, last, hloop, hlast, hrounds⟩ := ih c'.rest.length (by omega) c' rfl
          exact ⟨n + 1, last, .again hnext hloop, hmoves.trans hlast, by omega⟩

/-! ## Readers -/

/-- A type that is read, or refused, is passed up to where reading stops. -/
theorem moves_readType (c : Cursor) : c.Moves (readType c).2 := by
  cases hread : readType c with
  | mk result stopped =>
      cases result with
      | ok ty =>
          obtain ⟨run, hrun, htokens⟩ := (readType_eq_ok_iff c stopped ty.item).1 ⟨ty.span, hread⟩
          exact ⟨run, hrun, htokens.item_ne_eof⟩
      | error e =>
          obtain ⟨_, run, depth, hrun, hpart, _⟩ := readType_eq_error hread
          exact ⟨run, hrun, hpart.item_ne_eof⟩

/-- A type that is refused has taken the tokens of one that is not finished. -/
theorem exists_unfinished_of_readType {e : Refusal} (h : readType c = (.error e, c')) :
    ∃ run, c.Passes run c' ∧ UnfinishedType (run.map (·.item)) := by
  obtain ⟨_, run, depth, hrun, hpart, hopen⟩ := readType_eq_error h
  refine ⟨run, hrun, ?_⟩
  generalize hitems : run.map (·.item) = items at hpart
  cases hpart with
  | opening => exact ⟨depth, .inl rfl⟩
  | closing name depth closed =>
      have hpassed : run ≠ [] := by
        intro hnil
        simp [hnil] at hitems
      have hdepth := hopen (.inr hpassed)
      exact ⟨depth + closed, .inr ⟨name, closed, by omega, rfl⟩⟩

def bracketRound (c : Cursor) : Option Cursor :=
  if c.token = .openBracket then some c.next else none

/-- One round of reading types: a type, and the arrow after it. -/
def typeRound (c : Cursor) : Option Cursor :=
  match readType c with
  | (.ok _, after) => if after.token = .arrow then some after.next else none
  | (.error _, _) => none

theorem bracketRound_progress (h : bracketRound c = some c') :
    c.Moves c' ∧ c.position < c'.position := by
  rw [bracketRound] at h
  split at h
  · next hopen =>
      obtain rfl := Option.some.inj h
      have hfurther := position_next (c := c) (by simp [hopen])
      exact ⟨c.moves_next, by omega⟩
  · cases h

theorem typeRound_eq_some_iff :
    typeRound c = some c' ↔ ∃ ty after, readType c = (.ok ty, after) ∧ after.token = .arrow ∧
      c' = after.next := by
  rw [typeRound]
  split
  · next ty after hread => grind
  · next e stopped hread => grind

theorem typeRound_progress (h : typeRound c = some c') : c.Moves c' ∧ c.position < c'.position := by
  obtain ⟨ty, after, hread, harrow, rfl⟩ := typeRound_eq_some_iff.1 h
  have hmoves : c.Moves after := by
    have hstopped := c.moves_readType
    rwa [hread] at hstopped
  have hleft := hmoves.position_add_length
  have htaken := length_rest_readType_lt hread
  have hfurther := position_next (c := after) (by simp [harrow])
  exact ⟨hmoves.trans after.moves_next, by omega⟩

theorem Loop.passOpenBrackets_eq {n : Nat} {last : Cursor} (h : Loop bracketRound n c last) :
    c.passOpenBrackets.2 = last := by
  induction h with
  | @stop c hstop =>
      have htoken : c.token ≠ .openBracket := by simpa [bracketRound] using hstop
      rcases c with ⟨passed, _ | ⟨t, rest⟩⟩
      · rfl
      · have ht : t.item ≠ .openBracket := htoken
        simp [passOpenBrackets, ht]
  | @again n c c' last hround _ ih =>
      rw [bracketRound] at hround
      split at hround
      · next hopen =>
          rw [← ih, ← Option.some.inj hround]
          rcases c with ⟨passed, _ | ⟨t, rest⟩⟩
          · cases hopen
          · have ht : t.item = .openBracket := hopen
            simp [passOpenBrackets, next, ht]
      · cases hround

/-- Types are read round by round, up to one that is refused or that no arrow follows. -/
theorem Loop.readTypes_eq {n : Nat} {last : Cursor} (h : Loop typeRound n c last) :
    (readTypes c).2 = (readType last).2 := by
  induction h with
  | @stop c hstop =>
      rw [Covenant.readTypes_eq]
      cases hread : readType c with
      | mk result after =>
          cases result with
          | error e => rfl
          | ok ty =>
              have harrow : after.token ≠ .arrow := by simpa [typeRound, hread] using hstop
              cases htoken : after.token <;> simp_all
  | @again n c c' last hround _ ih =>
      obtain ⟨ty, after, hread, harrow, rfl⟩ := typeRound_eq_some_iff.1 hround
      rw [Covenant.readTypes_eq, hread]
      simp only [harrow, ih]

theorem moves_readTypes (c : Cursor) : c.Moves (readTypes c).2 := by
  obtain ⟨n, last, hloop, hmoves, _⟩ := exists_loop (fun _ _ => typeRound_progress) c
  rw [hloop.readTypes_eq]
  exact hmoves.trans last.moves_readType

/-- A type list is read as types, from the cursor or from after the unit and its arrow; or it is
refused after the unit. -/
theorem readTypeList_cases (c : Cursor) :
    (∃ start, c.Moves start ∧ (readTypeList c).2 = (readTypes start).2 ∧
      ∀ located, (readTypeList c).1 = .ok located → (readTypes start).1 = .ok located) ∨
    (readTypeList c).2 = c.next ∧ ∃ e, (readTypeList c).1 = .error e := by
  by_cases hunit : c.token = .unit
  · by_cases harrow : c.next.token = .arrow
    · refine .inl ⟨c.next.next, c.moves_next.trans c.next.moves_next, ?_, ?_⟩
      · simp [readTypeList, hunit, harrow]
      · exact fun located h => ((readTypeList_of_unit hunit located).1 h).2
    · exact .inr (by simp [readTypeList, hunit, harrow])
  · refine .inl ⟨c, .refl c, ?_, ?_⟩
    · rw [readTypeList, if_neg hunit]
      split
      · next hread => rw [hread]
      · rfl
    · exact fun located h => ((readTypeList_of_ne_unit hunit located).1 h).1

theorem moves_readTypeList (c : Cursor) : c.Moves (readTypeList c).2 := by
  rcases c.readTypeList_cases with ⟨start, hstart, hstopped, _⟩ | ⟨hstopped, _⟩
  · rw [hstopped]
    exact hstart.trans start.moves_readTypes
  · rw [hstopped]
    exact c.moves_next

theorem atEnd_of_readTypeList {types : List (Located Ty)}
    (h : readTypeList c = (.ok types, c')) : c'.atEnd = true := by
  rcases c.readTypeList_cases with ⟨start, _, hstopped, hread⟩ | ⟨_, e, hfails⟩
  · rw [h] at hstopped hread
    have hend := (arrowTypes_of_readTypes (Prod.ext (hread types rfl) hstopped.symm)).1
    simp [atEnd, hend]
  · rw [h] at hfails
    cases hfails

/-! ## Operations -/

/-- What can be asked of a cursor. -/
inductive Operation where
  | next
  | check (t : Token)
  /-- Pass the current token if it is the given one. -/
  | accept (t : Token)
  | readType
  | readTypeList
  /-- Refuse the current token. -/
  | wanted (expected : String)

/-- The cursor after an operation. It stays where it is if the current token is only compared or
refused, and where the reading stopped if a reading fails. -/
def Operation.perform : Operation → Cursor → Cursor
  | .next, c => c.next
  | .check _, c => c
  | .accept t, c => (c.accept t).2
  | .readType, c => (Covenant.readType c).2
  | .readTypeList, c => (Covenant.readTypeList c).2
  | .wanted _, c => c

/-- The cursor after one operation after the other. -/
def after (c : Cursor) (operations : List Operation) : Cursor :=
  operations.foldl (fun c operation => operation.perform c) c

/-- Every operation passes tokens, and never the end. -/
theorem Operation.moves (operation : Operation) (c : Cursor) : c.Moves (operation.perform c) := by
  cases operation with
  | next => exact c.moves_next
  | check t => exact .refl c
  | accept t =>
      change c.Moves (c.accept t).2
      rw [Cursor.accept]
      split
      · exact c.moves_next
      · exact .refl c
  | readType => exact c.moves_readType
  | readTypeList => exact c.moves_readTypeList
  | wanted expected => exact .refl c

theorem moves_after (c : Cursor) (operations : List Operation) : c.Moves (c.after operations) := by
  induction operations generalizing c with
  | nil => exact .refl c
  | cons operation operations ih => exact (operation.moves c).trans (ih _)

/-- Any run of operations, over the tokens of a text from which some at the end may have been
dropped. The cursor stands in the list, not after its first end token, and is at the end exactly
if it can get no further; no operation takes it back. Each loop of the readers comes to an end
within the tokens that are left, and it is there that the readers stop. A type of depth `d` is
read from `2 * d + 1` tokens and stands from the first of them to the last. A type that is refused
has taken opening brackets, or these, a name and fewer closing brackets. A type list is read up to
the end. -/
theorem operations_stay_within_tokens {start : Nat} {text : String}
    {all tokens : List (Located Token)} (hall : tokenize start text = .ok all)
    (hcut : tokens <+: all) (operations : List Operation) :
    let c := (ofTokens tokens).after operations
    (c.passed.reverse ++ c.rest = tokens ∧ c.position ≤ limit tokens ∧
      (c.atEnd = true ↔ c.position = limit tokens)) ∧
    (∀ operation : Operation, c.position ≤ (operation.perform c).position ∧
      (operation.perform c).position ≤ limit tokens) ∧
    (∃ n, Loop bracketRound n c c.passOpenBrackets.2 ∧ c.position + n ≤ limit tokens) ∧
    (∃ n last, Loop typeRound n c last ∧ (readTypes c).2 = (readType last).2 ∧
      c.position + n ≤ limit tokens) ∧
    (∀ ty c', readType c = (.ok ty, c') →
      c'.position = c.position + (2 * ty.item.depth + 1) ∧
      ∃ run first last, c.Passes run c' ∧ TypeTokens (run.map (·.item)) ty.item ∧
        run.head? = some first ∧
        run.getLast? = some last ∧ ty.span = ⟨first.span.start, last.span.stop⟩) ∧
    (∀ e c', readType c = (.error e, c') → ∃ run, c.Passes run c' ∧
      UnfinishedType (run.map (·.item))) ∧
    ∀ types c', readTypeList c = (.ok types, c') → c'.atEnd = true := by
  intro c
  have hmoves : (ofTokens tokens).Moves c := moves_after _ operations
  have hwithin : c.Within tokens := (Within.ofTokens tokens).moves hmoves
  -- the text matters for the spans of types only: its tokens stand one after the other
  have horder : c.InOrder := by
    obtain ⟨run, hrun, _⟩ := hmoves
    exact (InOrder.ofTokens (renders_of_tokenizeFrom hall) hcut).passes hrun
  refine ⟨⟨hwithin.tokens_eq, hwithin.position_le, hwithin.atEnd_iff⟩, ?_, ?_, ?_, ?_, ?_, ?_⟩
  · intro operation
    have hnext := operation.moves c
    exact ⟨hnext.position_le, (hwithin.moves hnext).position_le⟩
  · obtain ⟨n, last, hloop, hlast, hrounds⟩ := exists_loop (fun _ _ => bracketRound_progress) c
    rw [hloop.passOpenBrackets_eq]
    exact ⟨n, hloop, Nat.le_trans hrounds (hwithin.moves hlast).position_le⟩
  · obtain ⟨n, last, hloop, hlast, hrounds⟩ := exists_loop (fun _ _ => typeRound_progress) c
    exact ⟨n, last, hloop, hloop.readTypes_eq,
      Nat.le_trans hrounds (hwithin.moves hlast).position_le⟩
  · intro ty c' hread
    obtain ⟨run, first, last, hrun, htokens, hends⟩ := exists_run_of_readType horder hread
    refine ⟨?_, run, first, last, hrun, htokens, hends⟩
    rw [hrun.position_eq, ← htokens.length_eq, List.length_map]
  · exact fun e c' => exists_unfinished_of_readType
  · exact fun types c' => atEnd_of_readTypeList

/-- A list that is cut before its end. The first type is refused at the arrow; after the arrow a
type is read, and then the cursor is at the end. -/
theorem operations_stay_within_tokens_sample :
    let all : List (Located Token) :=
      [⟨.openBracket, ⟨0, 1⟩⟩, ⟨.openBracket, ⟨1, 2⟩⟩, ⟨.ident "a", ⟨2, 3⟩⟩,
      ⟨.closeBracket, ⟨3, 4⟩⟩, ⟨.arrow, ⟨5, 7⟩⟩, ⟨.ident "b", ⟨8, 9⟩⟩, ⟨.eof, ⟨9, 9⟩⟩]
    let first := ofTokens (all.take 6)
    let refused := first.after [.readType]
    let second := first.after [.readType, .next]
    let last := first.after [.readType, .next, .readType]
    tokenize 0 "[[a] -> b" = .ok all ∧
      readType first = (.error ⟨.malformedBrackets, ⟨0, 7⟩⟩, refused) ∧
      (∃ run, first.Passes run refused ∧ UnfinishedType (run.map (·.item))) ∧
      readType second = (.ok ⟨⟨.var "b", 0⟩, ⟨8, 9⟩⟩, last) ∧ last.position = second.position + 1 ∧
      last.position = limit (all.take 6) ∧ last.atEnd = true := by
  intro all first refused second last
  have hall : tokenize 0 "[[a] -> b" = .ok all := eq_ok_of_toOption (by decide +kernel)
  have hrun := operations_stay_within_tokens hall (List.take_prefix 6 all)
  have hrefused : readType first = (.error ⟨.malformedBrackets, ⟨0, 7⟩⟩, refused) := rfl
  have hread : readType second = (.ok ⟨⟨.var "b", 0⟩, ⟨8, 9⟩⟩, last) := rfl
  obtain ⟨_, _, _, _, _, hunfinished, _⟩ := hrun []
  obtain ⟨_, _, _, _, htype, _, _⟩ := hrun [.readType, .next]
  obtain ⟨⟨_, _, hend⟩, _⟩ := hrun [.readType, .next, .readType]
  have hlimit : last.position = limit (all.take 6) := by decide
  exact ⟨hall, hrefused, hunfinished _ _ hrefused, hread, (htype _ _ hread).1,
    hlimit, hend.2 hlimit⟩

end Cursor

end Covenant
