/-!
# Byte offsets into a text

Texts are lists of characters, and places in them are byte offsets of their UTF-8 form. An offset
that falls inside a character, or past the end, names no place: cutting there yields `none`.
-/

namespace Covenant.Text

/-- The number of bytes of a text in UTF-8. -/
def bytes : List Char → Nat
  | [] => 0
  | c :: cs => c.utf8Size + bytes cs

/-- The text before and after byte offset `n`, if `n` lies between two characters. -/
def splitAt? : Nat → List Char → Option (List Char × List Char)
  | 0, cs => some ([], cs)
  | _ + 1, [] => none
  | n + 1, c :: cs =>
    if c.utf8Size ≤ n + 1 then
      (splitAt? (n + 1 - c.utf8Size) cs).map fun (before, after) => (c :: before, after)
    else none

/-- The text from byte `start` up to byte `stop`, if both lie between two characters. -/
def slice? (start stop : Nat) (cs : List Char) : Option (List Char) := do
  let (_, after) ← splitAt? start cs
  if start ≤ stop then
    let (middle, _) ← splitAt? (stop - start) after
    return middle
  else none

@[simp] theorem bytes_nil : bytes [] = 0 := rfl

@[simp] theorem bytes_cons (c : Char) (cs : List Char) : bytes (c :: cs) = c.utf8Size + bytes cs :=
  rfl

@[simp] theorem bytes_append (cs ds : List Char) : bytes (cs ++ ds) = bytes cs + bytes ds := by
  induction cs with
  | nil => simp
  | cons c cs ih => simp [ih, Nat.add_assoc]

theorem bytes_pos {cs : List Char} (h : cs ≠ []) : 0 < bytes cs := by
  cases cs with
  | nil => contradiction
  | cons c cs => simpa using Nat.add_pos_left c.utf8Size_pos _

@[simp] theorem splitAt?_zero (cs : List Char) : splitAt? 0 cs = some ([], cs) := by
  simp [splitAt?]

/-- Cutting after a part of a text gives that part back. -/
@[simp] theorem splitAt?_bytes_append (cs ds : List Char) :
    splitAt? (bytes cs) (cs ++ ds) = some (cs, ds) := by
  induction cs with
  | nil => simp
  | cons c cs ih =>
    obtain ⟨n, hn⟩ : ∃ n, bytes (c :: cs) = n + 1 := ⟨bytes (c :: cs) - 1, by
      have := c.utf8Size_pos; simp; omega⟩
    rw [hn, List.cons_append, splitAt?, ← hn]
    simp [ih]

/-- A cut loses nothing: the two parts make up the text, and the first ends at the offset. -/
theorem eq_append_of_splitAt? {n : Nat} {cs before after : List Char}
    (h : splitAt? n cs = some (before, after)) : cs = before ++ after ∧ bytes before = n := by
  induction cs generalizing n before with
  | nil =>
    cases n with
    | zero => simp_all
    | succ n => simp [splitAt?] at h
  | cons c cs ih =>
    cases n with
    | zero => simp_all
    | succ n =>
      rw [splitAt?] at h
      split at h
      · obtain ⟨⟨b, a⟩, hba, heq⟩ := Option.map_eq_some_iff.1 h
        obtain ⟨rfl, rfl⟩ := Prod.mk.inj heq
        obtain ⟨rfl, hb⟩ := ih hba
        exact ⟨rfl, by simp [hb]; omega⟩
      · simp at h

end Covenant.Text
