import FilterEncoding.LayerFilter
import Mathlib.Data.List.Basic

/-!
# Expressions installed one after another

An expression that is installed on a layer becomes part of the layer's filter, so that the next one
finds it there.  A source that wants a keyword in front of its conditions gets it from one of them,
and every later one has to recognise it, take it off and put it back.

* `install_eq` — one step: the text in front, and the conditions behind it.
* `joined_eq` — conditions joined one by one stand in the text in their order, each one once.
* `installAll_joined` — any number of steps: the text in front is decided by the filter that the
  layer had at first, and all conditions are joined.
-/

namespace FilterEncoding.LayerFilter

/-- The filter of a layer after expressions have been installed one after another. -/
def installAll (connection : Connection) (existing : Option LayerFilter) (texts : List String) :
    Option LayerFilter :=
  texts.foldl (fun filter text => some (.expression (install connection filter text))) existing

/-! ## The keyword -/

/-- A text begins with the keyword, in any letter case. -/
def StartsWithKeyword (text : String) : Prop :=
  ∃ keyword rest, Text.same keyword "WHERE " = true ∧ text = keyword ++ rest

/-- Taking off the keyword leaves what stands behind it. -/
theorem withoutWhere?_eq_some_iff {text rest : String} :
    withoutWhere? text = some rest ↔
      ∃ keyword, Text.same keyword "WHERE " = true ∧ text = keyword ++ rest := by
  unfold withoutWhere?
  dsimp only
  rw [Option.ite_none_right_eq_some, Chars.same_iff]
  constructor
  · rintro ⟨hsame, hrest⟩
    refine ⟨String.ofList (text.toList.take whereKeyword.toList.length), ?_, ?_⟩
    · rw [Text.same_iff, String.toList_ofList]
      exact hsame.symm
    · apply String.toList_inj.1
      rw [← Option.some.inj hrest, String.toList_append, String.toList_ofList,
        String.toList_ofList, List.take_append_drop]
  · rintro ⟨keyword, hsame, rfl⟩
    rw [Text.same_iff] at hsame
    -- Letter case does not change the length, so that the cut is where the keyword ends.
    have hlength : keyword.toList.length = whereKeyword.toList.length := by
      have hlower := congrArg List.length hsame
      rwa [Chars.length_lower, Chars.length_lower] at hlower
    rw [String.toList_append, ← hlength, List.take_left, List.drop_left, String.ofList_toList]
    exact ⟨hsame.symm, rfl⟩

theorem startsWithKeyword_iff {text : String} :
    StartsWithKeyword text ↔ (withoutWhere? text).isSome = true := by
  rw [Option.isSome_iff_exists]
  simp only [withoutWhere?_eq_some_iff]
  exact exists_comm

instance (text : String) : Decidable (StartsWithKeyword text) :=
  decidable_of_iff _ startsWithKeyword_iff.symm

/-- The conditions of a text that begins with the keyword stand behind it. -/
theorem withoutWhere?_eq (text : String) :
    withoutWhere? text =
      if StartsWithKeyword text then some (String.ofList (text.toList.drop "WHERE ".length))
      else none := by
  by_cases h : StartsWithKeyword text
  · obtain ⟨rest, hrest⟩ := Option.isSome_iff_exists.1 (startsWithKeyword_iff.1 h)
    rw [if_pos h, hrest]
    unfold withoutWhere? at hrest
    dsimp only at hrest
    rw [Option.ite_none_right_eq_some] at hrest
    exact hrest.2.symm
  · rw [if_neg h]
    rw [startsWithKeyword_iff, Option.not_isSome_iff_eq_none] at h
    exact h

theorem startsWithKeyword_append (text : String) : StartsWithKeyword ("WHERE " ++ text) :=
  ⟨"WHERE ", text, Text.same_refl _, rfl⟩

/-! ## One expression -/

/-- A condition as a source wants it. -/
def condition (connection : Connection) (text : String) : String :=
  if connection ∈ [.postGis, .oracleSpatial, .plugin, .sqlPlugin] then "(" ++ text ++ ")" else text

/-- The text in front of the conditions. -/
def front (connection : Connection) : Option LayerFilter → String
  | some (.expression text) =>
      if connection = .ogr ∧ StartsWithKeyword text then "WHERE " else ""
  | _ => if connection = .ogr then "WHERE " else ""

/-- The condition that a filter has already, if it is an expression. -/
def earlier? (connection : Connection) : Option LayerFilter → Option String
  | some (.expression text) =>
      if connection = .ogr ∧ StartsWithKeyword text then
        some (String.ofList (text.toList.drop "WHERE ".length))
      else some text
  | _ => none

/-- Two conditions that both have to hold. -/
def beside (earlier text : String) : String :=
  "((" ++ earlier ++ ") and " ++ text ++ ")"

/-- Two conditions begin with a parenthesis, and the keyword contains none. -/
theorem not_startsWithKeyword_beside (earlier text : String) :
    ¬StartsWithKeyword (beside earlier text) := by
  rintro ⟨keyword, rest, hsame, htext⟩
  rw [Text.same_iff] at hsame
  have hchars := congrArg String.toList htext
  simp only [beside, String.toList_append] at hchars
  cases hkeyword : keyword.toList with
  | nil =>
      rw [hkeyword] at hsame
      cases hsame
  | cons c cs =>
      rw [hkeyword] at hsame hchars
      have hc : c = '(' := (List.cons.inj hchars).1.symm
      rw [hc] at hsame
      exact absurd (List.cons.inj hsame).1 (by decide)

theorem body_eq_condition (connection : Connection) (text : String) :
    body connection text = condition connection text := by
  cases connection <;> rfl

/-- The filter gives the text in front, and its condition stands beside the new one. -/
theorem install_eq (connection : Connection) (existing : Option LayerFilter) (text : String) :
    install connection existing text = front connection existing ++
      match earlier? connection existing with
      | none => condition connection text
      | some earlier => beside earlier (condition connection text) := by
  unfold install
  dsimp only
  rw [body_eq_condition]
  match existing with
  | none =>
      by_cases hogr : connection = .ogr
      · simp [prior?, front, earlier?, hogr, whereKeyword]
      · simp [prior?, front, earlier?, hogr, conjunction]
  | some (.plain other) =>
      by_cases hogr : connection = .ogr
      · simp [prior?, front, earlier?, hogr, whereKeyword]
      · simp [prior?, front, earlier?, hogr, conjunction]
  | some (.expression other) =>
      by_cases hogr : connection = .ogr
      · by_cases hkeyword : StartsWithKeyword other
        · simp [prior?, front, earlier?, hogr, hkeyword, withoutWhere?_eq, conjunction, beside,
            whereKeyword]
        · simp [prior?, front, earlier?, hogr, hkeyword, withoutWhere?_eq, conjunction, beside]
      · simp [prior?, front, earlier?, hogr, conjunction, beside]

/-! ## One after another -/

/-- Conditions joined one by one, each one with all before it. -/
def joined (first : String) (others : List String) : String :=
  others.foldl beside first

/-- A text in front and conditions that are told apart again when the next expression comes. -/
inductive Installed (connection : Connection) : String → String → Prop
  | keyword {conditions : String} (hogr : connection = .ogr) :
      Installed connection "WHERE " conditions
  | bare {conditions : String} (h : connection = .ogr → ¬StartsWithKeyword conditions) :
      Installed connection "" conditions

namespace Installed

variable {connection : Connection} {front conditions : String}

theorem front_eq (h : Installed connection front conditions) :
    LayerFilter.front connection (some (.expression (front ++ conditions))) = front := by
  cases h with
  | keyword hogr => exact if_pos ⟨hogr, startsWithKeyword_append conditions⟩
  | bare h =>
      rw [String.empty_append]
      exact if_neg fun hboth => h hboth.1 hboth.2

theorem earlier_eq (h : Installed connection front conditions) :
    earlier? connection (some (.expression (front ++ conditions))) = some conditions := by
  cases h with
  | keyword hogr =>
      have hrest : ("WHERE " ++ conditions).toList.drop "WHERE ".length = conditions.toList := by
        rw [String.toList_append]
        exact List.drop_left
      show (if _ then some (String.ofList _) else _) = _
      rw [if_pos ⟨hogr, startsWithKeyword_append conditions⟩, hrest, String.ofList_toList]
  | bare h =>
      rw [String.empty_append]
      exact if_neg fun hboth => h hboth.1 hboth.2

theorem beside (h : Installed connection front conditions) (earlier text : String) :
    Installed connection front (beside earlier text) := by
  cases h with
  | keyword hogr => exact .keyword hogr
  | bare h =>
      exact .bare fun _ => not_startsWithKeyword_beside earlier text

/-- The next expression finds the text in front and the conditions. -/
theorem install_eq (h : Installed connection front conditions) (text : String) :
    install connection (some (.expression (front ++ conditions))) text =
      front ++ LayerFilter.beside conditions (condition connection text) := by
  rw [LayerFilter.install_eq, h.front_eq, h.earlier_eq]

theorem installAll_eq (h : Installed connection front conditions) (texts : List String) :
    installAll connection (some (.expression (front ++ conditions))) texts =
      some (.expression (front ++ joined conditions (texts.map (condition connection)))) := by
  induction texts generalizing conditions with
  | nil => rfl
  | cons text texts ih =>
      have hnext := ih (h.beside conditions (condition connection text))
      rw [← h.install_eq text] at hnext
      exact hnext

end Installed

/-- A new expression cannot be taken for one with the keyword if there was another before it. -/
theorem installed_front (connection : Connection) (existing : Option LayerFilter)
    {conditions : String}
    (h : earlier? connection existing ≠ none → ¬StartsWithKeyword conditions) :
    Installed connection (front connection existing) conditions := by
  unfold front
  split
  · next text =>
    split
    · next hboth => exact .keyword hboth.1
    · next hnot =>
      refine .bare fun _ => h ?_
      show (if _ then some _ else some text) ≠ none
      rw [if_neg hnot]
      exact Option.some_ne_none text
  · split
    · next hogr => exact .keyword hogr
    · next hogr => exact .bare fun h => absurd h hogr

/-- Every condition is in the text once and in its order, in parentheses that also hold all before
it. -/
theorem joined_eq (first : String) (others : List String) :
    joined first others = String.join (List.replicate others.length "((") ++ first ++
      String.join (others.map fun text => ") and " ++ text ++ ")") := by
  induction others generalizing first with
  | nil => simp [joined]
  | cons text others ih =>
      have hstep : joined first (text :: others) = joined (beside first text) others := rfl
      rw [hstep, ih, List.length_cons, List.replicate_succ']
      simp [beside, String.append_assoc]

/-- After any number of expressions the text in front is the one that the filter of the layer asked
for at first.  Behind it the condition of that filter, if it had one, and those of the expressions
are joined, each one once. -/
theorem installAll_joined (connection : Connection) (existing : Option LayerFilter) (text : String)
    (texts : List String) :
    ∃ first others,
      (earlier? connection existing).toList ++ (text :: texts).map (condition connection) =
        first :: others ∧
      installAll connection existing (text :: texts) =
        some (.expression (front connection existing ++ joined first others)) ∧
      joined first others = String.join (List.replicate others.length "((") ++ first ++
        String.join (others.map fun text => ") and " ++ text ++ ")") := by
  have hstep := install_eq connection existing text
  have hrun : installAll connection existing (text :: texts) =
      installAll connection (some (.expression (install connection existing text))) texts := rfl
  cases hearlier : earlier? connection existing with
  | none =>
      refine ⟨condition connection text, texts.map (condition connection), rfl, ?_, joined_eq _ _⟩
      rw [hearlier] at hstep
      rw [hrun, hstep]
      exact (installed_front connection existing fun h => absurd hearlier h).installAll_eq texts
  | some earlier =>
      refine ⟨earlier, (text :: texts).map (condition connection), rfl, ?_, joined_eq _ _⟩
      rw [hearlier] at hstep
      rw [hrun, hstep]
      have hfirst := installed_front connection existing
        fun _ => not_startsWithKeyword_beside earlier (condition connection text)
      exact hfirst.installAll_eq texts

example :
    installAll .ogr (some (.expression "where b > 2")) ["a = 1", "c = 3"] =
      some (.expression "WHERE ((((b > 2) and a = 1)) and c = 3)") := by
  decide

end FilterEncoding.LayerFilter
