import FilterEncoding.Layer.Schema
import Mathlib.Data.List.Induction

/-!
# Tables of a schema

A table is filled by setting keys one after another.  What it holds then does not depend on where
its entries are kept: each key that was ever set has one entry, with the value it was given last
(`mem_assigned_iff`).  A look-up that does not regard letter case may meet several keys, and its
answer is settled only where all of them that it may meet agree.
-/

namespace FilterEncoding

variable {α : Type}

/-- The table after keys have been set one after another. -/
def assigned (entries : List (String × α)) : List (String × α) :=
  entries.foldl (fun table entry => assign entry.1 entry.2 table) []

/-- The value that a key was given last. -/
def lastValue? (key : String) (entries : List (String × α)) : Option α :=
  entries.reverse.lookup key

theorem lookup_entry_cons (key k : String) (value : α) (table : List (String × α)) :
    List.lookup key ((k, value) :: table) = if key = k then some value else table.lookup key := by
  rw [List.lookup_cons]
  by_cases h : key = k
  · rw [if_pos h, beq_iff_eq.2 h]
  · rw [if_neg h, beq_eq_false_iff_ne.2 h]

theorem lastValue?_append_one (key k : String) (value : α) (entries : List (String × α)) :
    lastValue? key (entries ++ [(k, value)]) =
      if key = k then some value else lastValue? key entries := by
  rw [lastValue?, List.reverse_append, List.reverse_singleton, List.singleton_append,
    lookup_entry_cons]
  rfl

theorem lookup_eq_none_iff_notMem {key : String} {table : List (String × α)} :
    table.lookup key = none ↔ key ∉ table.map Prod.fst := by
  rw [List.lookup_eq_none_iff]
  simp only [bne_iff_ne, ne_eq, List.mem_map, not_exists, not_and]
  exact forall₂_congr fun entry _ => not_congr eq_comm

theorem lastValue?_eq_none_iff {key : String} {entries : List (String × α)} :
    lastValue? key entries = none ↔ key ∉ entries.map Prod.fst := by
  rw [lastValue?, lookup_eq_none_iff_notMem, List.map_reverse, List.mem_reverse]

/-! ## Setting a key -/

theorem keys_assign (key : String) (value : α) (table : List (String × α)) :
    (assign key value table).map Prod.fst =
      if key ∈ table.map Prod.fst then table.map Prod.fst else table.map Prod.fst ++ [key] := by
  induction table with
  | nil => rfl
  | cons entry table ih =>
      obtain ⟨k, v⟩ := entry
      by_cases hk : k = key
      · simp [assign, hk]
      · have hne : key ≠ k := Ne.symm hk
        rw [assign, if_neg hk, List.map_cons, List.map_cons, ih]
        by_cases hmem : key ∈ table.map Prod.fst
        · rw [if_pos hmem, if_pos (List.mem_cons_of_mem k hmem)]
        · rw [if_neg hmem, if_neg (List.not_mem_cons_of_ne_of_not_mem hne hmem), List.cons_append]

theorem nodup_append_one {names : List String} {name : String} (h : names.Nodup)
    (hname : name ∉ names) : (names ++ [name]).Nodup := by
  rw [List.nodup_append]
  refine ⟨h, List.pairwise_singleton _ name, ?_⟩
  intro other hother last hlast
  rw [List.mem_singleton.1 hlast]
  exact ne_of_mem_of_not_mem hother hname

theorem nodup_keys_assign {key : String} (value : α) {table : List (String × α)}
    (h : (table.map Prod.fst).Nodup) : ((assign key value table).map Prod.fst).Nodup := by
  rw [keys_assign]
  split
  · exact h
  · next hmem => exact nodup_append_one h hmem

theorem lookup_assign (key k : String) (value : α) (table : List (String × α)) :
    (assign k value table).lookup key = if key = k then some value else table.lookup key := by
  induction table with
  | nil => exact lookup_entry_cons key k value []
  | cons entry table ih =>
      obtain ⟨l, v⟩ := entry
      by_cases hl : l = k
      · rw [assign, if_pos hl, lookup_entry_cons, lookup_entry_cons, hl]
        by_cases h : key = k
        · rw [if_pos h, if_pos h]
        · rw [if_neg h, if_neg h, if_neg h]
      · rw [assign, if_neg hl, lookup_entry_cons, lookup_entry_cons, ih]
        by_cases h : key = l
        · have hk : key ≠ k := h ▸ hl
          rw [if_pos h, if_neg hk, if_pos h]
        · rw [if_neg h, if_neg h]

/-! ## Tables as they are filled -/

theorem assigned_append_one (entry : String × α) (entries : List (String × α)) :
    assigned (entries ++ [entry]) = assign entry.1 entry.2 (assigned entries) :=
  List.foldl_append

theorem nodup_keys_assigned (entries : List (String × α)) :
    ((assigned entries).map Prod.fst).Nodup := by
  induction entries using List.reverseRecOn with
  | nil => exact List.nodup_nil
  | append_singleton entries entry ih =>
      rw [assigned_append_one]
      exact nodup_keys_assign entry.2 ih

theorem lookup_assigned (key : String) (entries : List (String × α)) :
    (assigned entries).lookup key = lastValue? key entries := by
  induction entries using List.reverseRecOn with
  | nil => rfl
  | append_singleton entries entry ih =>
      rw [assigned_append_one, lookup_assign, ih, lastValue?_append_one]

theorem lookup_eq_some_iff_mem {table : List (String × α)} (h : (table.map Prod.fst).Nodup)
    {key : String} {value : α} : table.lookup key = some value ↔ (key, value) ∈ table := by
  constructor
  · intro hlookup
    obtain ⟨before, after, rfl, -⟩ := List.lookup_eq_some_iff.1 hlookup
    exact List.mem_append_right before List.mem_cons_self
  · intro hmem
    obtain ⟨before, after, rfl⟩ := List.append_of_mem hmem
    rw [List.map_append, List.map_cons, List.nodup_append] at h
    refine List.lookup_eq_some_iff.2 ⟨before, after, rfl, fun entry hentry => bne_iff_ne.2 ?_⟩
    exact (h.2.2 entry.1 (List.mem_map_of_mem hentry) key List.mem_cons_self).symm

/-- Each key that was set has one entry, with the value it was given last. -/
theorem mem_assigned_iff {entries : List (String × α)} {key : String} {value : α} :
    (key, value) ∈ assigned entries ↔ lastValue? key entries = some value := by
  rw [← lookup_eq_some_iff_mem (nodup_keys_assigned entries), lookup_assigned]

/-! ## Look-ups in any order -/

/-- The value that a search without regard to letter case comes to first. -/
def firstValue? (key : String) (table : List (String × α)) : Option α :=
  (table.find? fun entry => Text.same entry.1 key).map (·.2)

theorem exists_of_firstValue? {table : List (String × α)} {key : String} {value : α}
    (h : firstValue? key table = some value) :
    ∃ k, (k, value) ∈ table ∧ Text.same k key = true := by
  obtain ⟨⟨k, v⟩, hfind, rfl⟩ := Option.map_eq_some_iff.1 h
  have hsame := List.find?_some (p := fun entry : String × α => Text.same entry.1 key) hfind
  exact ⟨k, List.mem_of_find?_eq_some hfind, hsame⟩

theorem firstValue?_eq_none_iff {table : List (String × α)} {key : String} :
    firstValue? key table = none ↔ ∀ k ∈ table.map Prod.fst, Text.same k key = false := by
  rw [firstValue?, Option.map_eq_none_iff, List.find?_eq_none, List.forall_mem_map]
  simp only [Bool.not_eq_true]

/-- A search that may meet an entry comes to one. -/
theorem exists_firstValue?_of_mem {table : List (String × α)} {key k : String} {value : α}
    (hmem : (k, value) ∈ table) (hsame : Text.same k key = true) :
    ∃ v, firstValue? key table = some v := by
  rw [← Option.ne_none_iff_exists']
  intro hnone
  have hdiffers := firstValue?_eq_none_iff.1 hnone k (List.mem_map_of_mem (f := Prod.fst) hmem)
  rw [hsame] at hdiffers
  cases hdiffers

/-- In a suitable order the search comes first to any entry that it may meet. -/
theorem exists_perm_firstValue? {table : List (String × α)} {key k : String} {value : α}
    (hmem : (k, value) ∈ table) (hsame : Text.same k key = true) :
    ∃ order, order.Perm table ∧ firstValue? key order = some value := by
  obtain ⟨before, after, rfl⟩ := List.append_of_mem hmem
  refine ⟨(k, value) :: (before ++ after), List.perm_middle.symm, ?_⟩
  have hfind := List.find?_cons_of_pos (p := fun entry : String × α => Text.same entry.1 key)
    (a := (k, value)) (l := before ++ after) hsame
  rw [firstValue?, hfind]
  rfl

section

variable {entries table : List (String × α)} {key : String} {value : α}

theorem mem_iff_of_perm (h : table.Perm (assigned entries)) :
    (key, value) ∈ table ↔ lastValue? key entries = some value :=
  h.mem_iff.trans mem_assigned_iff

theorem lookup_of_perm (h : table.Perm (assigned entries)) (key : String) :
    table.lookup key = lastValue? key entries := by
  have hnodup : (table.map Prod.fst).Nodup :=
    (h.map Prod.fst).nodup_iff.2 (nodup_keys_assigned entries)
  apply Option.ext
  intro value
  rw [lookup_eq_some_iff_mem hnodup, mem_iff_of_perm h]

theorem mem_keys_iff_of_perm (h : table.Perm (assigned entries)) :
    key ∈ table.map Prod.fst ↔ key ∈ entries.map Prod.fst := by
  rw [← not_iff_not, ← lookup_eq_none_iff_notMem, lookup_of_perm h, lastValue?_eq_none_iff]

/-- A key that was set is found as it is spelled. -/
theorem lookupIgnoringCase_of_lastValue? (h : table.Perm (assigned entries))
    (hvalue : lastValue? key entries = some value) :
    lookupIgnoringCase key table = some value := by
  rw [lookupIgnoringCase, lookup_of_perm h, hvalue]
  rfl

/-- A key that was not set is found in its only other spelling. -/
theorem lookupIgnoringCase_of_only {spelling : String} (h : table.Perm (assigned entries))
    (hunset : lastValue? key entries = none)
    (hvalue : lastValue? spelling entries = some value) (hsame : Text.same spelling key = true)
    (honly : ∀ other ∈ entries.map Prod.fst, Text.same other key = true → other = spelling) :
    lookupIgnoringCase key table = some value := by
  rw [lookupIgnoringCase, lookup_of_perm h, hunset, Option.none_or]
  show firstValue? key table = some value
  -- Whatever entry the search comes to, its key is the only spelling.
  obtain ⟨v, hfirst⟩ := exists_firstValue?_of_mem ((mem_iff_of_perm h).2 hvalue) hsame
  obtain ⟨k, hmem, hk⟩ := exists_of_firstValue? hfirst
  have hkey := (mem_keys_iff_of_perm h).1 (List.mem_map_of_mem (f := Prod.fst) hmem)
  have hlast := (mem_iff_of_perm h).1 hmem
  rw [honly k hkey hk, hvalue] at hlast
  rw [hfirst, hlast]

theorem lookupIgnoringCase_eq_none_iff (h : table.Perm (assigned entries)) :
    lookupIgnoringCase key table = none ↔
      ∀ other ∈ entries.map Prod.fst, Text.same other key = false := by
  have hkeys : firstValue? key table = none ↔
      ∀ other ∈ entries.map Prod.fst, Text.same other key = false := by
    rw [firstValue?_eq_none_iff]
    exact forall_congr' fun other => imp_congr (mem_keys_iff_of_perm h) Iff.rfl
  rw [lookupIgnoringCase, Option.or_eq_none_iff, lookup_of_perm h, lastValue?_eq_none_iff]
  refine Iff.trans (and_iff_right_of_imp fun hfirst hmem => ?_) hkeys
  have hdiffers := hkeys.1 hfirst key hmem
  rw [Text.same_refl] at hdiffers
  cases hdiffers

end

end FilterEncoding
