/-!
# Cutting a text at a character or at a pattern

`cutFirst` and `cutLast` cut at one occurrence of a character, `through` cuts behind the first
occurrence of a pattern, and `splitAround` cuts at every occurrence of a pattern, from left to
right and without overlap.
-/

namespace FilterEncoding.Chars

/-- What stands before and behind the first `c`, if there is one. -/
def cutFirst (c : Char) : List Char → Option (List Char × List Char)
  | [] => none
  | x :: xs => if x = c then some ([], xs) else (cutFirst c xs).map fun (a, b) => (x :: a, b)

/-- What stands before and behind the last `c`, if there is one. -/
def cutLast (c : Char) : List Char → Option (List Char × List Char)
  | [] => none
  | x :: xs =>
      match cutLast c xs with
      | some (a, b) => some (x :: a, b)
      | none => if x = c then some ([], xs) else none

/-- What stands behind the last `c`; the whole text when it has none. -/
def afterLast (c : Char) (cs : List Char) : List Char :=
  match cutLast c cs with
  | some (_, after) => after
  | none => cs

/-- Whether `pattern` occurs somewhere. -/
def occurs (pattern : List Char) : List Char → Bool
  | [] => pattern.isEmpty
  | x :: xs => pattern.isPrefixOf (x :: xs) || occurs pattern xs

/-- Cut behind the first occurrence of `pattern`.  Without an occurrence the first part is the
whole text. -/
def through (pattern : List Char) : List Char → List Char × List Char
  | [] => ([], [])
  | x :: xs =>
      if pattern.isPrefixOf (x :: xs) then (pattern, (x :: xs).drop pattern.length)
      else (x :: (through pattern xs).1, (through pattern xs).2)

/-- What stands before and behind the first occurrence of `pattern`, if there is one. -/
def cutAround (pattern : List Char) : List Char → Option (List Char × List Char)
  | [] => if pattern.isEmpty then some ([], []) else none
  | x :: xs =>
      if pattern.isPrefixOf (x :: xs) then some ([], (x :: xs).drop pattern.length)
      else (cutAround pattern xs).map fun (a, b) => (x :: a, b)

/-- Put `c` in front of the first piece. -/
def extendFirst (c : Char) : List (List Char) → List (List Char)
  | [] => [[c]]
  | piece :: pieces => (c :: piece) :: pieces

/-- The pieces between the occurrences of `pattern`, where `skip` characters in front still belong
to the occurrence found last. -/
def splitSkipping (pattern : List Char) : Nat → List Char → List (List Char)
  | _, [] => [[]]
  | skip + 1, _ :: xs => splitSkipping pattern skip xs
  | 0, x :: xs =>
      if pattern.isPrefixOf (x :: xs) then
        [] :: splitSkipping pattern (pattern.length - 1) xs
      else extendFirst x (splitSkipping pattern 0 xs)

/-- The pieces between the occurrences of a pattern that is not empty. -/
def splitAround (pattern : List Char) (cs : List Char) : List (List Char) :=
  splitSkipping pattern 0 cs

theorem eq_append_of_cutFirst {c : Char} {cs before after : List Char}
    (h : cutFirst c cs = some (before, after)) : cs = before ++ c :: after := by
  induction cs generalizing before after with
  | nil => simp [cutFirst] at h
  | cons x xs ih =>
      by_cases hx : x = c
      · simp [cutFirst, hx] at h
        obtain ⟨rfl, rfl⟩ := h
        simp [hx]
      · simp only [cutFirst, hx, if_false, Option.map_eq_some_iff] at h
        obtain ⟨⟨a, b⟩, hab, heq⟩ := h
        cases heq
        rw [ih hab]
        rfl

theorem eq_append_of_cutAround {pattern cs before after : List Char}
    (h : cutAround pattern cs = some (before, after)) : cs = before ++ pattern ++ after := by
  induction cs generalizing before after with
  | nil =>
      simp only [cutAround] at h
      split at h
      · cases h
        simp_all
      · cases h
  | cons x xs ih =>
      simp only [cutAround] at h
      split at h
      · next hp =>
        cases h
        obtain ⟨tail, htail⟩ := List.isPrefixOf_iff_prefix.1 hp
        simp [← htail]
      · simp only [Option.map_eq_some_iff] at h
        obtain ⟨⟨a, b⟩, hab, heq⟩ := h
        cases heq
        rw [ih hab]
        rfl

@[simp]
theorem through_append (pattern cs : List Char) :
    (through pattern cs).1 ++ (through pattern cs).2 = cs := by
  induction cs with
  | nil => rfl
  | cons x xs ih =>
      simp only [through]
      split
      · next hp =>
        obtain ⟨tail, htail⟩ := List.isPrefixOf_iff_prefix.1 hp
        simp [← htail]
      · simp [ih]

/-- The second part of `through` is shorter than a text that is not empty. -/
theorem length_through_lt {pattern : List Char} (hp : pattern ≠ []) (c : Char) (cs : List Char) :
    (through pattern (c :: cs)).2.length < (c :: cs).length := by
  have hall : ∀ cs : List Char, (through pattern cs).2.length ≤ cs.length := by
    intro cs
    have := congrArg List.length (through_append pattern cs)
    rw [List.length_append] at this
    omega
  simp only [through]
  split
  · have := List.length_pos_iff.2 hp
    simp
    omega
  · have := hall cs
    simp
    omega

end FilterEncoding.Chars
