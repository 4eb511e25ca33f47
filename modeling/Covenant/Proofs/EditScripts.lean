import Mathlib.Data.List.Infix
import Covenant.EditDistance

/-!
# Edit scripts

An edit script is a list of insertions, deletions and substitutions of single characters, each at
a position of the text that the edits before it have left. The distance of two texts is the length
of the shortest script that turns one into the other.

Between scripts and rows stands a recurrence on the first characters of two texts. No script beats
it, since one edit changes it by one at most, and some script attains it. Rows grow at the end of
a text, not at its front. Scripts can be read from the back, so the recurrence holds for last
characters too, and this is what a row is extended by.

## Main definitions

* `Edit`, `Edit.apply`, `Edit.run`: edits, and what a script makes of a text.
* `Edit.Reaches n a b`: a script of `n` edits turns `a` into `b`.
* `Text.distance`: the recurrence on first characters.

## Main statements

* `Edit.distance_le_of_run`, `Edit.reaches_distance`: the recurrence is the length of a shortest
  script.
* `Text.distance_concat_concat`: the recurrence on last characters.
* `distanceRow_eq`: the entries of a row are the distances to the initial parts of a text.
* `editDistance_least_script`: the distance is the length of a shortest script, and rows have
  every entry that is read.
-/

namespace Covenant

/-! ## Scripts -/

/-- A change of one character. -/
inductive Change where
  | insert (c : Char)
  | delete
  | substitute (c : Char)
deriving DecidableEq, Repr

/-- A change at the front of a text. At the end of a text there is nothing to delete or to
substitute. -/
def Change.apply : Change → List Char → Option (List Char)
  | .insert c, text => some (c :: text)
  | .delete, _ :: text => some text
  | .substitute c, _ :: text => some (c :: text)
  | _, [] => none

theorem Change.apply_cases {change : Change} {rest rest' : List Char}
    (h : change.apply rest = some rest') :
    (∃ c, change = .insert c ∧ rest' = c :: rest) ∨ (∃ d, change = .delete ∧ rest = d :: rest') ∨
      ∃ c d more, change = .substitute c ∧ rest = d :: more ∧ rest' = c :: more := by
  cases change with
  | insert c => exact .inl ⟨c, rfl, (Option.some.inj h).symm⟩
  | delete =>
      cases rest with
      | nil => cases h
      | cons d rest => exact .inr (.inl ⟨d, rfl, by rw [Option.some.inj h]⟩)
  | substitute c =>
      cases rest with
      | nil => cases h
      | cons d rest => exact .inr (.inr ⟨c, d, rest, rfl, rfl, (Option.some.inj h).symm⟩)

/-- A change at a position, which counts characters from zero. -/
structure Edit where
  position : Nat
  change : Change
deriving DecidableEq, Repr

namespace Edit

/-- The text after an edit. There is none if the position is outside of the text. -/
def apply (e : Edit) (text : List Char) : Option (List Char) :=
  if e.position ≤ text.length then
    (e.change.apply (text.drop e.position)).map (text.take e.position ++ ·)
  else none

def run (script : List Edit) (text : List Char) : Option (List Char) :=
  script.foldlM (fun text e => e.apply text) text

/-- A script of `n` edits turns `a` into `b`. -/
def Reaches (n : Nat) (a b : List Char) : Prop :=
  ∃ script, run script a = some b ∧ script.length = n

/-- An edit changes what stands after its position. -/
theorem apply_eq_some_iff {e : Edit} {text text' : List Char} :
    e.apply text = some text' ↔
      ∃ before rest rest', text = before ++ rest ∧ before.length = e.position ∧
        e.change.apply rest = some rest' ∧ text' = before ++ rest' := by
  constructor
  · intro h
    unfold apply at h
    split at h
    · next hle =>
        obtain ⟨rest', hrest, htext'⟩ := Option.map_eq_some_iff.1 h
        exact ⟨text.take e.position, text.drop e.position, rest', (List.take_append_drop _ _).symm,
          List.length_take_of_le hle, hrest, htext'.symm⟩
    · cases h
  · intro h
    obtain ⟨before, rest, rest', htext, hposition, hrest, htext'⟩ := h
    have hle : e.position ≤ text.length := by
      rw [htext, List.length_append]
      omega
    rw [apply, if_pos hle, htext, ← hposition, List.drop_left, List.take_left, hrest, htext']
    rfl

theorem run_cons_eq_some_iff {e : Edit} {script : List Edit} {a c : List Char} :
    run (e :: script) a = some c ↔ ∃ b, e.apply a = some b ∧ run script b = some c := by
  rw [run, List.foldlM_cons]
  exact Option.bind_eq_some_iff

theorem Reaches.cons {e : Edit} {n : Nat} {a b c : List Char} (he : e.apply a = some b)
    (h : Reaches n b c) :
    Reaches (n + 1) a c := by
  obtain ⟨script, hrun, hlength⟩ := h
  exact ⟨e :: script, run_cons_eq_some_iff.2 ⟨b, he, hrun⟩, by rw [List.length_cons, hlength]⟩

/-- A map of texts under which edits stay edits keeps the lengths of scripts. -/
theorem Reaches.of_apply {n : Nat} {a b : List Char} (h : Reaches n a b) {f : List Char → List Char}
    (hf : ∀ e : Edit, ∀ x y, e.apply x = some y → ∃ e' : Edit, e'.apply (f x) = some (f y)) :
    Reaches n (f a) (f b) := by
  obtain ⟨script, hrun, hlength⟩ := h
  induction script generalizing a n with
  | nil =>
      obtain rfl : a = b := Option.some.inj hrun
      exact ⟨[], rfl, hlength⟩
  | cons e script ih =>
      obtain ⟨c, he, hrest⟩ := run_cons_eq_some_iff.1 hrun
      obtain ⟨e', he'⟩ := hf e a c he
      rw [← hlength]
      exact .cons he' (ih hrest rfl)

theorem Reaches.keep {n : Nat} {a b : List Char} (h : Reaches n a b) (c : Char) :
    Reaches n (c :: a) (c :: b) := by
  refine h.of_apply fun e x y he => ⟨⟨e.position + 1, e.change⟩, ?_⟩
  obtain ⟨before, rest, rest', rfl, hposition, hrest, rfl⟩ := apply_eq_some_iff.1 he
  exact apply_eq_some_iff.2 ⟨c :: before, rest, rest', rfl, by rw [List.length_cons, hposition],
    hrest, rfl⟩

/-- Read from the back, an edit is an edit. -/
theorem exists_apply_reverse {e : Edit} {text text' : List Char} (h : e.apply text = some text') :
    ∃ e' : Edit, e'.apply text.reverse = some text'.reverse := by
  obtain ⟨before, rest, rest', rfl, -, hrest, rfl⟩ := apply_eq_some_iff.1 h
  rcases Change.apply_cases hrest with ⟨c, _, rfl⟩ | ⟨d, _, rfl⟩ | ⟨c, d, more, _, rfl, rfl⟩
  · exact ⟨⟨rest.reverse.length, .insert c⟩,
      apply_eq_some_iff.2 ⟨rest.reverse, before.reverse, c :: before.reverse,
      by simp, rfl, rfl, by simp⟩⟩
  · exact ⟨⟨rest'.reverse.length, .delete⟩,
      apply_eq_some_iff.2 ⟨rest'.reverse, d :: before.reverse, before.reverse,
      by simp, rfl, rfl, by simp⟩⟩
  · exact ⟨⟨more.reverse.length, .substitute c⟩,
      apply_eq_some_iff.2 ⟨more.reverse, d :: before.reverse,
      c :: before.reverse, by simp, rfl, rfl, by simp⟩⟩

theorem Reaches.reverse {n : Nat} {a b : List Char} (h : Reaches n a b) :
    Reaches n a.reverse b.reverse :=
  h.of_apply fun _ _ _ => exists_apply_reverse

end Edit

/-! ## The recurrence on first characters -/

namespace Text

/-- The distances from a text with one more character `c` at its front, given those from the
text. -/
def distanceCons (c : Char) (fromRest : List Char → Nat) : List Char → Nat
  | [] => fromRest [] + 1
  | d :: b =>
    min (min (fromRest (d :: b) + 1) (distanceCons c fromRest b + 1))
      (fromRest b + if c = d then 0 else 1)

/-- The distance of two texts, by their first characters: the first one is deleted, the other one
is inserted, or the two are matched. -/
def distance : List Char → List Char → Nat
  | [] => List.length
  | c :: a => distanceCons c (distance a)

theorem distance_nil_left (b : List Char) : distance [] b = b.length := rfl

theorem distance_nil_right (a : List Char) : distance a [] = a.length := by
  induction a with
  | nil => rfl
  | cons c a ih => rw [distance, distanceCons, ih, List.length_cons]

theorem distance_cons_cons (c d : Char) (a b : List Char) :
    distance (c :: a) (d :: b) =
      min (min (distance a (d :: b) + 1) (distance (c :: a) b + 1))
        (distance a b + if c = d then 0 else 1) := rfl

theorem distance_self (a : List Char) : distance a a = 0 := by
  induction a with
  | nil => rfl
  | cons c a ih =>
      rw [distance_cons_cons, ih, if_pos rfl]
      omega

theorem distance_cons_left_le (c : Char) (a b : List Char) :
    distance (c :: a) b ≤ distance a b + 1 := by
  cases b with
  | nil => rw [distance_nil_right, distance_nil_right, List.length_cons]
  | cons d b =>
      rw [distance_cons_cons]
      omega

/-! ## One edit changes a distance by one at most -/

theorem distance_insert_le (d : Char) (a b : List Char) :
    distance a (d :: b) ≤ distance a b + 1 := by
  cases a with
  | nil => rw [distance_nil_left, distance_nil_left, List.length_cons]
  | cons c a =>
      rw [distance_cons_cons]
      omega

theorem distance_delete_le (d : Char) (a b : List Char) :
    distance a b ≤ distance a (d :: b) + 1 := by
  induction a with
  | nil =>
      rw [distance_nil_left, distance_nil_left, List.length_cons]
      omega
  | cons c a ih =>
      have hleft := distance_cons_left_le c a b
      rw [distance_cons_cons]
      omega

theorem distance_substitute_le (d e : Char) (a b : List Char) :
    distance a (e :: b) ≤ distance a (d :: b) + 1 := by
  induction a with
  | nil =>
      rw [distance_nil_left, distance_nil_left, List.length_cons, List.length_cons]
      omega
  | cons c a ih =>
      rw [distance_cons_cons, distance_cons_cons]
      split <;> omega

/-- A character in front of both texts makes no difference. -/
theorem distance_keep_le {b b' : List Char} (h : ∀ a, distance a b' ≤ distance a b + 1) (d : Char)
    (a : List Char) :
    distance a (d :: b') ≤ distance a (d :: b) + 1 := by
  induction a with
  | nil =>
      have hnil := h []
      simp only [distance_nil_left, List.length_cons] at hnil ⊢
      omega
  | cons c a ih =>
      have hcons := h (c :: a)
      have hrest := h a
      rw [distance_cons_cons, distance_cons_cons]
      omega

end Text

namespace Edit

open Text

theorem distance_le_of_apply {e : Edit} {b b' : List Char} (h : e.apply b = some b')
    (a : List Char) :
    distance a b' ≤ distance a b + 1 := by
  obtain ⟨before, rest, rest', rfl, -, hrest, rfl⟩ := apply_eq_some_iff.1 h
  clear h
  -- the characters before the position are kept, one after the other
  induction before generalizing a with
  | nil =>
      rcases Change.apply_cases hrest with ⟨c, _, rfl⟩ | ⟨d, _, rfl⟩ | ⟨c, d, more, _, rfl, rfl⟩
      · exact distance_insert_le c a rest
      · exact distance_delete_le d a rest'
      · exact distance_substitute_le d c a more
  | cons d before ih => exact distance_keep_le ih d a

/-- No script is shorter than the recurrence says. -/
theorem distance_le_of_run {n : Nat} {a b : List Char} (h : Reaches n a b) : distance a b ≤ n := by
  obtain ⟨script, hrun, rfl⟩ := h
  suffices general : ∀ start, distance start b ≤ distance start a + script.length by
    have hself := distance_self a
    have hle := general a
    omega
  induction script generalizing a with
  | nil =>
      intro start
      obtain rfl : a = b := Option.some.inj hrun
      omega
  | cons e script ih =>
      intro start
      obtain ⟨c, he, hrest⟩ := run_cons_eq_some_iff.1 hrun
      have hone := distance_le_of_apply he start
      have hmore := ih hrest start
      rw [List.length_cons]
      omega

/-! ## A script that attains the recurrence -/

theorem Reaches.delete {n : Nat} {a b : List Char} (h : Reaches n a b) (c : Char) :
    Reaches (n + 1) (c :: a) b :=
  have hdelete : (⟨0, .delete⟩ : Edit).apply (c :: a) = some a :=
    apply_eq_some_iff.2 ⟨[], c :: a, a, rfl, rfl, rfl, rfl⟩
  .cons hdelete h

theorem Reaches.insert {n : Nat} {a b : List Char} (h : Reaches n a b) (d : Char) :
    Reaches (n + 1) a (d :: b) :=
  have hinsert : (⟨0, .insert d⟩ : Edit).apply a = some (d :: a) :=
    apply_eq_some_iff.2 ⟨[], a, d :: a, rfl, rfl, rfl, rfl⟩
  .cons hinsert (h.keep d)

theorem Reaches.substitute {n : Nat} {a b : List Char} (h : Reaches n a b) (c d : Char) :
    Reaches (n + 1) (c :: a) (d :: b) :=
  .cons (apply_eq_some_iff.2 ⟨[], c :: a, d :: a, rfl, rfl, rfl, rfl⟩ :
    (⟨0, .substitute d⟩ : Edit).apply (c :: a) = some (d :: a)) (h.keep d)

/-- Some script is as long as the recurrence says. -/
theorem reaches_distance (a b : List Char) : Reaches (distance a b) a b := by
  induction a generalizing b with
  | nil =>
      induction b with
      | nil => exact ⟨[], rfl, rfl⟩
      | cons d b ih => exact ih.insert d
  | cons c a ih =>
      induction b with
      | nil => exact (ih []).delete c
      | cons d b ihb =>
          rw [distance_cons_cons]
          rcases Nat.le_total (min (distance a (d :: b) + 1) (distance (c :: a) b + 1))
            (distance a b + if c = d then 0 else 1) with hle | hle
          · rw [Nat.min_eq_left hle]
            rcases Nat.le_total (distance a (d :: b) + 1) (distance (c :: a) b + 1) with hle | hle
            · rw [Nat.min_eq_left hle]
              exact (ih (d :: b)).delete c
            · rw [Nat.min_eq_right hle]
              exact ihb.insert d
          · rw [Nat.min_eq_right hle]
            by_cases hsame : c = d
            · rw [if_pos hsame, ← hsame]
              exact (ih b).keep c
            · rw [if_neg hsame]
              exact (ih b).substitute c d

end Edit

/-! ## The recurrence on last characters -/

namespace Text

theorem distance_reverse_le (a b : List Char) : distance a.reverse b.reverse ≤ distance a b :=
  Edit.distance_le_of_run (Edit.reaches_distance a b).reverse

theorem distance_reverse (a b : List Char) : distance a.reverse b.reverse = distance a b := by
  refine Nat.le_antisymm (distance_reverse_le a b) ?_
  have hback := distance_reverse_le a.reverse b.reverse
  rwa [List.reverse_reverse, List.reverse_reverse] at hback

theorem distance_concat_concat (a b : List Char) (c d : Char) :
    distance (a ++ [c]) (b ++ [d]) =
      min (min (distance a (b ++ [d]) + 1) (distance (a ++ [c]) b + 1))
        (distance a b + if c = d then 0 else 1) := by
  rw [← distance_reverse (a ++ [c]) (b ++ [d]), ← distance_reverse a (b ++ [d]),
    ← distance_reverse (a ++ [c]) b, ← distance_reverse a b, List.reverse_concat,
      List.reverse_concat, distance_cons_cons]

end Text

/-! ## Rows -/

theorem map_tail_inits_cons (f : List Char → Nat) (d : Char) (b : List Char) :
    (d :: b).inits.tail.map f = f [d] :: b.inits.tail.map fun p => f (d :: p) := by
  cases b <;> simp

/-- The entries after the first, from left to right: each follows from its neighbours as the
recurrence says. -/
theorem extendRowFrom_inits {c : Char} (old new : List Char → Nat)
    (h : ∀ p d, new (p ++ [d]) =
      min (min (old (p ++ [d]) + 1) (new p + 1)) (old p + if c = d then 0 else 1))
    (b : List Char) :
    extendRowFrom c (new []) (old []) b (b.inits.tail.map old) = b.inits.tail.map new := by
  induction b generalizing old new with
  | nil => rfl
  | cons d b ih =>
      have hhere := h [] d
      have hrest := ih (fun p => old (d :: p)) (fun p => new (d :: p)) fun p e => h (d :: p) e
      rw [List.nil_append] at hhere
      rw [map_tail_inits_cons, map_tail_inits_cons, extendRowFrom, ← hhere, hrest]

/-- A row is extended to that of a text with one more character. -/
theorem extendRow_inits (a b : List Char) (c : Char) :
    extendRow b (b.inits.map (Text.distance a)) c = b.inits.map (Text.distance (a ++ [c])) := by
  have hinits : ∀ f : List Char → Nat, b.inits.map f = f [] :: b.inits.tail.map f := by
    intro f
    cases b <;> rfl
  have hfirst : Text.distance (a ++ [c]) [] = Text.distance a [] + 1 := by
    rw [Text.distance_nil_right, Text.distance_nil_right, List.length_append, List.length_singleton]
  have hrest := extendRowFrom_inits _ _ (fun p d => Text.distance_concat_concat a p c d) b
  rw [hinits, hinits, extendRow, ← hfirst, hrest]

/-- A row holds the distances to the initial parts of a text. -/
theorem distanceRow_eq (a b : List Char) : distanceRow a b = b.inits.map (Text.distance a) := by
  suffices general : ∀ read, a.foldl (extendRow b) (b.inits.map (Text.distance read)) =
      b.inits.map (Text.distance (read ++ a)) by
    have hstart : List.range (b.length + 1) = b.inits.map (Text.distance []) := by
      refine List.ext_getElem (by simp) ?_
      intro j hj _
      rw [List.length_range] at hj
      rw [List.getElem_range, List.getElem_map, List.getElem_inits, Text.distance_nil_left,
        List.length_take_of_le (Nat.le_of_lt_succ hj)]
    rw [distanceRow, hstart]
    exact general []
  induction a with
  | nil =>
      intro read
      rw [List.foldl_nil, List.append_nil]
  | cons c a ih =>
      intro read
      rw [List.foldl_cons, extendRow_inits, ih, List.append_assoc, List.singleton_append]

/-- A row has an entry for every initial part. -/
theorem getElem?_distanceRow (a b : List Char) {j : Nat} (hj : j ≤ b.length) :
    (distanceRow a b)[j]? = some (Text.distance a (b.take j)) := by
  have hlt : j < b.inits.length := by
    rw [List.length_inits]
    omega
  rw [distanceRow_eq, List.getElem?_map, List.getElem?_eq_getElem hlt, List.getElem_inits,
    Option.map_some]

theorem editDistance_eq_distance (a b : String) :
    editDistance a b = Text.distance a.toList b.toList := by
  have hlast := getElem?_distanceRow a.toList b.toList (Nat.le_refl _)
  have hlength : (distanceRow a.toList b.toList).length = b.toList.length + 1 := by
    rw [distanceRow_eq, List.length_map, List.length_inits]
  rw [editDistance, List.getLastD_eq_getLast?, List.getLast?_eq_getElem?, hlength,
    Nat.add_sub_cancel, hlast, List.take_length, Option.getD_some]

/-! ## Main statement -/

/-- The distance of two texts is the length of a shortest script that turns one into the other. It
is the last entry of the last row, and each row is computed from the row before it, entry by
entry: the entry above, the one to the left and the one between them are there, and so are the two
characters that are compared. -/
theorem editDistance_least_script (a b : String) :
    (∃ script, Edit.run script a.toList = some b.toList ∧ script.length = editDistance a b) ∧
    (∀ script, Edit.run script a.toList = some b.toList → editDistance a b ≤ script.length) ∧
    (distanceRow a.toList b.toList)[b.toList.length]? = some (editDistance a b) ∧
    ∀ i j, i < a.toList.length → j < b.toList.length →
      ∃ c d above left diagonal, a.toList[i]? = some c ∧ b.toList[j]? = some d ∧
        (distanceRow (a.toList.take i) b.toList)[j + 1]? = some above ∧
        (distanceRow (a.toList.take (i + 1)) b.toList)[j]? = some left ∧
        (distanceRow (a.toList.take i) b.toList)[j]? = some diagonal ∧
        (distanceRow (a.toList.take (i + 1)) b.toList)[j + 1]? =
          some (min (min (above + 1) (left + 1)) (diagonal + if c = d then 0 else 1)) := by
  have hdistance := editDistance_eq_distance a b
  refine ⟨?_, ?_, ?_, ?_⟩
  · rw [hdistance]
    exact Edit.reaches_distance a.toList b.toList
  · intro script hrun
    rw [hdistance]
    exact Edit.distance_le_of_run ⟨script, hrun, rfl⟩
  · rw [getElem?_distanceRow _ _ (Nat.le_refl _), List.take_length, hdistance]
  · intro i j hi hj
    refine ⟨a.toList[i], b.toList[j], _, _, _, List.getElem?_eq_getElem hi,
      List.getElem?_eq_getElem hj,
      getElem?_distanceRow _ _ hj, getElem?_distanceRow _ _ (Nat.le_of_lt hj),
      getElem?_distanceRow _ _ (Nat.le_of_lt hj), ?_⟩
    rw [getElem?_distanceRow _ _ hj, List.take_succ_eq_append_getElem hi,
      List.take_succ_eq_append_getElem hj, Text.distance_concat_concat]

/-- Two substitutions and an insertion turn one word into the other, and no two edits do. The last
entry of the last row follows from three others. -/
theorem editDistance_least_script_sample :
    let script : List Edit := [⟨0, .substitute 's'⟩, ⟨4, .substitute 'i'⟩, ⟨6, .insert 'g'⟩]
    Edit.run script "kitten".toList = some "sitting".toList ∧
      editDistance "kitten" "sitting" = script.length ∧
      (∀ e e' : Edit, Edit.run [e, e'] "kitten".toList ≠ some "sitting".toList) ∧
      ∃ above left diagonal, (distanceRow "kitte".toList "sitting".toList)[7]? = some above ∧
        (distanceRow "kitten".toList "sitting".toList)[6]? = some left ∧
        (distanceRow "kitte".toList "sitting".toList)[6]? = some diagonal ∧
        (distanceRow "kitten".toList "sitting".toList)[7]? =
          some (min (min (above + 1) (left + 1)) (diagonal + 1)) := by
  intro script
  obtain ⟨-, hleast, hlast, hentries⟩ := editDistance_least_script "kitten" "sitting"
  have hrun : Edit.run script "kitten".toList = some "sitting".toList := by decide +kernel
  have hdistance : 3 ≤ editDistance "kitten" "sitting" := by decide +kernel
  have hscript : editDistance "kitten" "sitting" ≤ 3 := hleast script hrun
  refine ⟨hrun, Nat.le_antisymm hscript hdistance, ?_, ?_⟩
  · intro e e' hshort
    have hle := hleast [e, e'] hshort
    rw [List.length_cons, List.length_singleton] at hle
    omega
  · obtain ⟨c, d, above, left, diagonal, hc, hd, habove, hleft, hdiagonal, hentry⟩ :=
      hentries 5 6 (by decide) (by decide)
    obtain rfl : 'n' = c := Option.some.inj hc
    obtain rfl : 'g' = d := Option.some.inj hd
    exact ⟨above, left, diagonal, habove, hleft, hdiagonal, hentry⟩

end Covenant
