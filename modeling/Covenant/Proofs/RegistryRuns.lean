import Covenant.Class.Stock
import Covenant.Proofs.Outcome
import Mathlib.Data.List.Induction

/-!
# Runs of registrations

Classes are registered one after the other, and an attempt may fail. What a registry holds is told
by the attempts alone: under each name stands the class of the first attempt at it, and the names
are those that were attempted. Every later attempt at a name fails, and nothing changes. Entries
that are registered all or none fail at the first name that occurred before; without such a name
their order does not matter.
-/

namespace Covenant

namespace Registry

variable {registry : Registry} {name : String} {c : Class} {entry : String × Class}
    {entries : List (String × Class)}

/-! ## Names -/

theorem pairwise_names (registry : Registry) : registry.names.Pairwise (· < ·) := by
  refine List.Pairwise.imp ?_ Std.TreeMap.ordered_keys
  intro a b h
  exact compareOfLessAndEq_eq_lt.1 h

theorem mem_names_iff : name ∈ registry.names ↔ registry.contains name = true := by
  rw [names, Std.TreeMap.mem_keys, contains, Std.TreeMap.mem_iff_contains]

theorem length_names (registry : Registry) : registry.names.length = registry.size :=
  Std.TreeMap.length_keys

/-- The names of a registry are those that are registered, each once. -/
theorem perm_names {names : List String} (hnodup : names.Nodup)
    (hnames : ∀ name, name ∈ names ↔ registry.contains name = true) :
    registry.names.Perm names := by
  rw [Registry.names, List.perm_ext_iff_of_nodup Std.TreeMap.nodup_keys hnodup]
  intro name
  rw [hnames]
  exact mem_names_iff

/-- Registries that have the same names list them in the same order. -/
theorem names_eq_of_contains_eq {other : Registry}
    (h : ∀ name, registry.contains name = other.contains name) :
    registry.names = other.names := by
  have hperm : registry.names.Perm other.names :=
    perm_names Std.TreeMap.nodup_keys fun name => by rw [mem_names_iff, h]
  refine List.Perm.eq_of_pairwise ?_ registry.pairwise_names other.pairwise_names hperm
  intro a b _ _ hab hba
  exact absurd (String.lt_trans hab hba) (String.lt_irrefl a)

/-! ## Attempts -/

/-- Try to register a class: whether this was done, and the registry from then on. If the name is
taken, the registry stays as it is. -/
def attempt (registry : Registry) (entry : String × Class) : Except RegistryError Unit × Registry :=
  match registry.register entry.1 entry.2 with
  | .ok larger => (.ok (), larger)
  | .error e => (.error e, registry)

/-- The registry after one attempt after the other, whether they fail or not. -/
def attemptAll (registry : Registry) (entries : List (String × Class)) : Registry :=
  entries.foldl (fun registry entry => (registry.attempt entry).2) registry

theorem register_eq_error_iff {e : RegistryError} :
    registry.register name c = .error e ↔ registry.contains name = true ∧ e = .duplicate name := by
  rw [register]
  split
  · next htaken => simp [htaken, eq_comm]
  · next hfree => simp [hfree]

theorem exists_register_iff :
    (∃ larger, registry.register name c = .ok larger) ↔ registry.contains name = false := by
  rw [register]
  split <;> simp_all

theorem attempt_of_contains (h : registry.contains entry.1 = true) :
    registry.attempt entry = (.error (.duplicate entry.1), registry) := by
  rw [attempt, register_eq_error_iff.2 ⟨h, rfl⟩]

theorem attempt_of_register {larger : Registry}
    (h : registry.register entry.1 entry.2 = .ok larger) :
    registry.attempt entry = (.ok (), larger) := by
  rw [attempt, h]

/-- An attempt gives a class to its name, unless the name has one. -/
theorem get?_attempt (registry : Registry) (entry : String × Class) (name : String) :
    (registry.attempt entry).2.get? name = (registry.get? name).or ([entry].lookup name) := by
  have hsingle : [entry].lookup name = if name = entry.1 then some entry.2 else none := by
    obtain ⟨key, c⟩ := entry
    by_cases hname : name = key
    · simp [hname]
    · simp [List.lookup_cons, beq_eq_false_iff_ne.2 hname, hname]
  rw [hsingle]
  cases htaken : registry.contains entry.1 with
  | true =>
      rw [attempt_of_contains htaken]
      rw [contains_eq_isSome_get?] at htaken
      by_cases hname : name = entry.1
      · obtain ⟨c, hc⟩ := Option.isSome_iff_exists.1 htaken
        simp [hname, hc]
      · simp [hname]
  | false =>
      obtain ⟨larger, hlarger⟩ := exists_register_iff (c := entry.2).2 htaken
      rw [attempt_of_register hlarger, get?_of_register hlarger]
      rw [contains_eq_isSome_get?, Option.isSome_eq_false_iff, Option.isNone_iff_eq_none] at htaken
      by_cases hname : name = entry.1
      · simp [hname, htaken]
      · simp [hname]

/-- Under each name, a run of attempts leaves the class that was there, or the one that was
attempted first. -/
theorem get?_attemptAll (registry : Registry) (entries : List (String × Class)) (name : String) :
    (registry.attemptAll entries).get? name = (registry.get? name).or (entries.lookup name) := by
  induction entries generalizing registry with
  | nil => simp [attemptAll]
  | cons entry entries ih =>
      calc (registry.attemptAll (entry :: entries)).get? name
        _ = ((registry.attempt entry).2.attemptAll entries).get? name := rfl
        _ = ((registry.get? name).or ([entry].lookup name)).or (entries.lookup name) := by
          rw [ih, get?_attempt]
        _ = (registry.get? name).or ((entry :: entries).lookup name) := by
          rw [Option.or_assoc, ← List.lookup_append, List.singleton_append]

/-- A registry that starts empty has the names that were attempted. -/
theorem contains_attemptAll_empty :
    (empty.attemptAll entries).contains name = true ↔ name ∈ entries.map (·.1) := by
  rw [contains_eq_isSome_get?, get?_attemptAll, get?_empty, Option.none_or,
    List.lookup_isSome_iff, List.mem_map]
  simp only [beq_iff_eq, eq_comm (a := name)]

/-! ## Entries -/

theorem ofEntries_concat (entries : List (String × Class)) (entry : String × Class) :
    ofEntries (entries ++ [entry]) = ofEntries entries >>= fun registry =>
      registry.register entry.1 entry.2 := by
  simp [ofEntries]

/-- Entries make a registry if no name occurs twice, and it is the one that attempts make. -/
theorem ofEntries_eq_ok_iff {made : Registry} :
    ofEntries entries = .ok made ↔ (entries.map (·.1)).Nodup ∧ made = empty.attemptAll entries := by
  -- an entry meets the registry of all entries before it, so the induction is from the end of the
  -- list
  induction entries using List.reverseRecOn generalizing made with
  | nil => simp [ofEntries, attemptAll, pure, Except.pure, eq_comm]
  | append_singleton entries entry ih =>
      have hfree : (empty.attemptAll entries).contains entry.1 = false ↔
          entry.1 ∉ entries.map (·.1) := by
        rw [← contains_attemptAll_empty, Bool.not_eq_true]
      have hrun : empty.attemptAll (entries ++ [entry]) =
          ((empty.attemptAll entries).attempt entry).2 := by
        simp [attemptAll]
      have hnodup : ((entries ++ [entry]).map (·.1)).Nodup ↔
          (entries.map (·.1)).Nodup ∧ entry.1 ∉ entries.map (·.1) := by
        rw [List.map_append, List.nodup_append]
        grind
      rw [ofEntries_concat, bind_eq_ok_iff, hrun, hnodup, ← hfree,
        ← exists_register_iff (c := entry.2)]
      constructor
      · rintro ⟨registry, hentries, hregister⟩
        obtain ⟨hdistinct, rfl⟩ := ih.1 hentries
        exact ⟨⟨hdistinct, made, hregister⟩, by rw [attempt_of_register hregister]⟩
      · rintro ⟨⟨hdistinct, larger, hregister⟩, rfl⟩
        rw [attempt_of_register hregister]
        exact ⟨_, ih.2 ⟨hdistinct, rfl⟩, hregister⟩

/-- Otherwise the first name that occurred before is reported. -/
theorem ofEntries_eq_error_iff {e : RegistryError} :
    ofEntries entries = .error e ↔
      ∃ before entry after, entries = before ++ entry :: after ∧ (before.map (·.1)).Nodup ∧
        entry.1 ∈ before.map (·.1) ∧ e = .duplicate entry.1 := by
  rw [ofEntries, foldlM_eq_error_iff]
  constructor
  · rintro ⟨before, entry, after, registry, hentries, hbefore, hfails⟩
    obtain ⟨hdistinct, rfl⟩ := ofEntries_eq_ok_iff.1 hbefore
    obtain ⟨htaken, he⟩ := register_eq_error_iff.1 hfails
    exact ⟨before, entry, after, hentries, hdistinct, contains_attemptAll_empty.1 htaken, he⟩
  · rintro ⟨before, entry, after, hentries, hdistinct, hrepeated, he⟩
    have htaken := contains_attemptAll_empty.2 hrepeated
    exact ⟨before, entry, after, _, hentries, ofEntries_eq_ok_iff.2 ⟨hdistinct, rfl⟩,
      register_eq_error_iff.2 ⟨htaken, he⟩⟩

/-- Where no name occurs twice, each entry is the first of its name. -/
theorem lookup_eq_some_iff_mem (hdistinct : (entries.map (·.1)).Nodup) :
    entries.lookup name = some c ↔ (name, c) ∈ entries := by
  rw [List.lookup_eq_some_iff]
  constructor
  · rintro ⟨before, after, rfl, -⟩
    simp
  · intro hmem
    obtain ⟨before, after, rfl⟩ := List.append_of_mem hmem
    refine ⟨before, after, rfl, ?_⟩
    intro other hother
    rw [List.map_append, List.nodup_append] at hdistinct
    have hne := hdistinct.2.2 other.1 (List.mem_map_of_mem hother) name (by simp)
    simpa using hne.symm

/-- The order of entries does not matter for what is found under a name. -/
theorem lookup_eq_of_perm {reordered : List (String × Class)}
    (hdistinct : (entries.map (·.1)).Nodup) (hperm : reordered.Perm entries) (name : String) :
    reordered.lookup name = entries.lookup name := by
  have hreordered := (hperm.map (·.1)).nodup_iff.2 hdistinct
  ext c
  rw [lookup_eq_some_iff_mem hreordered, lookup_eq_some_iff_mem hdistinct, hperm.mem_iff]

/-- Entries in another order make a registry too, with the same classes and the same names. -/
theorem ofEntries_of_perm {reordered : List (String × Class)} {made : Registry}
    (h : ofEntries entries = .ok made) (hperm : reordered.Perm entries) :
    ∃ made', ofEntries reordered = .ok made' ∧ (∀ name, made'.get? name = made.get? name) ∧
      made'.names = made.names := by
  obtain ⟨hdistinct, rfl⟩ := ofEntries_eq_ok_iff.1 h
  have hreordered := (hperm.map (·.1)).nodup_iff.2 hdistinct
  have hget : ∀ name, (empty.attemptAll reordered).get? name =
      (empty.attemptAll entries).get? name := by
    intro name
    rw [get?_attemptAll, get?_attemptAll, lookup_eq_of_perm hdistinct hperm]
  refine ⟨_, ofEntries_eq_ok_iff.2 ⟨hreordered, rfl⟩, hget, names_eq_of_contains_eq ?_⟩
  intro name
  rw [contains_eq_isSome_get?, contains_eq_isSome_get?, hget]

/-- What a registry is after any run of attempts, some of which may have failed. Under each name
stands the class of the first attempt at it. A further attempt at the name is refused as a
duplicate and changes nothing; an attempt at another name succeeds. The names are those that were
attempted, in strictly increasing order of code points, and the size counts them. Entries make a
registry, the same as attempts, if their names are distinct; otherwise the first name that
occurred before is reported. The order of such entries does not matter. -/
theorem attempts_keep_first_class (entries : List (String × Class)) :
    let registry := empty.attemptAll entries
    (∀ name, registry.get? name = entries.lookup name) ∧
    (∀ name, registry.contains name = true ↔ name ∈ entries.map (·.1)) ∧
    (∀ entry,
      (entry.1 ∈ entries.map (·.1) →
        registry.attempt entry = (.error (.duplicate entry.1), registry)) ∧
      (entry.1 ∉ entries.map (·.1) → (registry.attempt entry).1 = .ok ())) ∧
    (registry.names.Pairwise (· < ·) ∧ (∀ name, name ∈ registry.names ↔ name ∈ entries.map (·.1)) ∧
      registry.size = registry.names.length) ∧
    ((∃ made, ofEntries entries = .ok made) ↔ (entries.map (·.1)).Nodup) ∧
    (∀ e, ofEntries entries = .error e ↔
      ∃ before entry after, entries = before ++ entry :: after ∧ (before.map (·.1)).Nodup ∧
        entry.1 ∈ before.map (·.1) ∧ e = .duplicate entry.1) ∧
    ∀ made, ofEntries entries = .ok made →
      made = registry ∧ ∀ reordered : List (String × Class), reordered.Perm entries →
        ∃ made', ofEntries reordered = .ok made' ∧ (∀ name, made'.get? name = made.get? name) ∧
          made'.names = made.names := by
  intro registry
  have hcontains : ∀ name, registry.contains name = true ↔ name ∈ entries.map (·.1) :=
    fun _ => contains_attemptAll_empty
  refine ⟨?_, hcontains, ?_, ⟨registry.pairwise_names, ?_, registry.length_names.symm⟩, ?_, ?_, ?_⟩
  · intro name
    rw [get?_attemptAll, get?_empty, Option.none_or]
  · intro entry
    refine ⟨fun hattempted => attempt_of_contains ((hcontains _).2 hattempted), ?_⟩
    intro hnew
    rw [← hcontains, Bool.not_eq_true] at hnew
    obtain ⟨larger, hlarger⟩ := exists_register_iff (c := entry.2).2 hnew
    rw [attempt_of_register hlarger]
  · intro name
    rw [mem_names_iff, hcontains]
  · simp [ofEntries_eq_ok_iff]
  · exact fun e => ofEntries_eq_error_iff
  · intro made hmade
    exact ⟨(ofEntries_eq_ok_iff.1 hmade).2, fun reordered => ofEntries_of_perm hmade⟩

/-- Three attempts, the last one at a name that is taken. The entries before it can be registered
in both orders. -/
theorem attempts_keep_first_class_sample :
    let entries : List (String × Class) :=
      [("Show", .any), ("Eq", .never), ("Show", .shape ["show"])]
    let registry := empty.attemptAll entries
    registry.get? "Show" = some .any ∧
      registry.attempt ("Eq", .any) = (.error (.duplicate "Eq"), registry) ∧
      (registry.attempt ("Ord", .any)).1 = .ok () ∧ ofEntries entries = .error (.duplicate "Show") ∧
      ∃ made made', ofEntries (entries.take 2) = .ok made ∧
        ofEntries (entries.take 2).reverse = .ok made' ∧
        made'.get? "Show" = some .any ∧ made'.names = made.names := by
  intro entries registry
  obtain ⟨hget, _, hattempt, _, _, hrepeat, _⟩ := attempts_keep_first_class entries
  obtain ⟨_, _, _, _, hdistinct, _, hmade⟩ := attempts_keep_first_class (entries.take 2)
  obtain ⟨made, hentries⟩ := hdistinct.2 (by decide)
  obtain ⟨rfl, hreordered⟩ := hmade made hentries
  obtain ⟨made', hreversed, hget', hnames⟩ := hreordered _ (List.reverse_perm _)
  refine ⟨hget "Show", (hattempt ("Eq", .any)).1 (by decide),
    (hattempt ("Ord", .any)).2 (by decide), ?_, _, made', hentries, hreversed, hget' "Show", hnames⟩
  exact (hrepeat _).2 ⟨entries.take 2, ("Show", .shape ["show"]), [],
    rfl, by decide, by decide, rfl⟩

end Registry

end Covenant
