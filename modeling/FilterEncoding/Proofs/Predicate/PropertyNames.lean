import FilterEncoding.Layer.Schema
import FilterEncoding.Predicate.Boxes
import FilterEncoding.Predicate.Names
import FilterEncoding.Proofs.Chars.Cut
import FilterEncoding.Proofs.Readers
import Mathlib.Data.List.Basic

/-!
# Ways to write a property name

A property may be named with a namespace prefix, and with the group that it belongs to.  All ways to
write one name come to the same attribute of a layer.  The exception is a name with a prefix alone
inside a comparison with a property of GML, where prefixes are kept: it is looked up among the
aliases with its prefix.

* `spellings` — the ways to write a name.
* `attributeName_unqualifiedName`, `attributeName_of_mem_spellings` — what they come to, without
  their prefix and with it.
* `Predicate.at?_unqualified`, `Predicate.at?_unqualified_of_keepsPrefixes` — the positions of a
  predicate where prefixes are dropped, and those where they are kept.
* `Predicate.at?_normalized_spelling` — what stands where a property was named, and when that is the
  attribute of the name alone.
-/

namespace FilterEncoding

/-- Names without the characters that divide a property name. -/
def IsUndivided (name : String) : Prop :=
  ':' ∉ name.toList ∧ '/' ∉ name.toList

instance (name : String) : Decidable (IsUndivided name) :=
  inferInstanceAs (Decidable (_ ∧ _))

/-- A name with a namespace prefix or without. -/
def qualifiedName : Option String → String → String
  | none, name => name
  | some qualifier, name => qualifier ++ ":" ++ name

/-- A name behind its group.  Both may have a prefix. -/
def groupedName (outer : Option String) (group : String) (inner : Option String) (base : String) :
    String :=
  qualifiedName outer (group ++ "/" ++ qualifiedName inner base)

/-- The ways to write the name of a property. -/
def spellings (qualifier group inner base : String) : List String :=
  [base, qualifiedName (some qualifier) base, groupedName none group none base,
   groupedName (some qualifier) group none base, groupedName none group (some inner) base,
   groupedName (some qualifier) group (some inner) base]

example : spellings "p" "g" "q" "a" = ["a", "p:a", "g/a", "p:g/a", "g/q:a", "p:g/q:a"] := by
  decide

/-! ## Characters of names -/

theorem toList_qualifiedName (qualifier name : String) :
    (qualifiedName (some qualifier) name).toList = qualifier.toList ++ ':' :: name.toList := by
  simp [qualifiedName]

theorem toList_groupedName (outer : Option String) (group : String) (inner : Option String)
    (base : String) : (groupedName outer group inner base).toList =
      (qualifiedName outer group).toList ++ '/' :: (qualifiedName inner base).toList := by
  cases outer <;> simp [groupedName, qualifiedName]

theorem slash_notMem_qualifiedName {qualifier : Option String} {name : String}
    (hqualifier : ∀ q ∈ qualifier, IsUndivided q) (hname : IsUndivided name) :
    '/' ∉ (qualifiedName qualifier name).toList := by
  cases qualifier with
  | none => exact hname.2
  | some q =>
      have hq := (hqualifier q rfl).2
      simp [toList_qualifiedName, hq, hname.2]

/-- Letter case does not matter to the characters that divide a name. -/
theorem IsUndivided.of_same {name written : String} (h : IsUndivided name)
    (hsame : Text.same name written = true) : IsUndivided written := by
  have hmem : ∀ d : Char, d.toNat < 65 → (d ∈ written.toList ↔ d ∈ name.toList) := by
    intro d hd
    rw [← Chars.mem_lower_iff hd, ← (Text.same_iff _ _).1 hsame, Chars.mem_lower_iff hd]
  exact ⟨mt (hmem ':' (by decide)).1 h.1, mt (hmem '/' (by decide)).1 h.2⟩

/-! ## Prefixes -/

theorem unqualifiedName_of_notMem {name : String} (h : ':' ∉ name.toList) :
    unqualifiedName name = name := by
  rw [unqualifiedName, Text.cutFirst, Chars.cutFirst_eq_none_iff.2 h]
  rfl

/-- A prefix is dropped unless there is a colon behind it too. -/
theorem unqualifiedName_qualifiedName {qualifier : String} (h : ':' ∉ qualifier.toList)
    (name : String) : unqualifiedName (qualifiedName (some qualifier) name) =
      if ':' ∈ name.toList then qualifiedName (some qualifier) name else name := by
  rw [unqualifiedName, Text.cutFirst, toList_qualifiedName, Chars.cutFirst_of_notMem h]
  simp

/-- What stands behind a prefix, if there is one. -/
theorem behindFirst_qualifiedName {qualifier : Option String} {name : String}
    (hqualifier : ∀ q ∈ qualifier, IsUndivided q) (hname : IsUndivided name) :
    behindFirst ':' (qualifiedName qualifier name).toList = name.toList := by
  cases qualifier with
  | none => rw [qualifiedName, behindFirst, Chars.cutFirst_eq_none_iff.2 hname.1]
  | some q =>
      rw [toList_qualifiedName, behindFirst, Chars.cutFirst_of_notMem (hqualifier q rfl).1]

/-- A prefix behind a group is behind the group's slash too. -/
theorem groupedName_none_some (group inner base : String) :
    groupedName none group (some inner) base =
      qualifiedName (some (group ++ "/" ++ inner)) base := by
  simp [groupedName, qualifiedName, String.append_assoc]

/-! ## Groups -/

/-- In front of the only slash of a text, an opening is found exactly if it is all that stands
there. -/
theorem dropOpening?_eq_some_iff {opening before after rest : List Char} (hbefore : '/' ∉ before)
    (hafter : '/' ∉ after) : dropOpening? opening (before ++ '/' :: after) = some ('/' :: rest) ↔
      Chars.same opening before = true ∧ rest = after := by
  unfold dropOpening?
  rw [Option.ite_none_right_eq_some]
  constructor
  · rintro ⟨hsame, hdrop⟩
    -- The text is cut at its slash, and in only one way.
    have htext := List.take_append_drop opening.length (before ++ '/' :: after)
    rw [Option.some.inj hdrop, eq_comm, List.append_cons_inj_of_notMem hbefore hafter] at htext
    obtain ⟨htake, -, rfl⟩ := htext
    rw [← htake] at hsame
    exact ⟨hsame, rfl⟩
  · rintro ⟨hsame, rfl⟩
    have hlength : opening.length = before.length := by
      rw [← Chars.length_lower, (Chars.same_iff _ _).1 hsame, Chars.length_lower]
    rw [hlength, List.take_left, List.drop_left]
    exact ⟨hsame, rfl⟩

/-- A group is taken away from a name, whatever other groups there are. -/
theorem ungroupedName?_groupedName {groups : List String} {group written base : String}
    {outer inner : Option String} (hgroup : group ∈ groups)
    (hsame : Text.same group written = true) (hwritten : IsUndivided written)
    (houter : ∀ q ∈ outer, IsUndivided q) (hinner : ∀ q ∈ inner, IsUndivided q)
    (hbase : IsUndivided base) :
    ungroupedName? groups (groupedName outer written inner base) = some base := by
  have hbefore := slash_notMem_qualifiedName houter hwritten
  have hafter := slash_notMem_qualifiedName hinner hbase
  -- What stands in front of the slash tells whether there is a prefix to be left out.
  have hgrouped : (if (qualifiedName outer written).toList.contains ':' then
      behindFirst ':' (groupedName outer written inner base).toList
      else (groupedName outer written inner base).toList) =
        written.toList ++ '/' :: (qualifiedName inner base).toList := by
    cases outer with
    | none => simp [qualifiedName, hwritten.1, toList_groupedName]
    | some q =>
        simp [toList_groupedName, toList_qualifiedName, behindFirst,
          Chars.cutFirst_of_notMem (houter q rfl).1]
  have hopening := fun opening rest =>
    @dropOpening?_eq_some_iff opening _ _ rest hwritten.2 hafter
  have hbehind := behindFirst_qualifiedName hinner hbase
  unfold ungroupedName?
  rw [toList_groupedName, Chars.cutFirst_of_notMem hbefore, ← toList_groupedName]
  dsimp only
  rw [hgrouped, findSome?_eq_some_iff_of_forall]
  · refine ⟨group, hgroup, ?_⟩
    rw [(hopening _ _).2 ⟨hsame, rfl⟩]
    exact Option.some_ne_none _
  · intro other
    split
    · next rest hrest =>
      rw [((hopening _ _).1 hrest).2, hbehind, String.ofList_toList]
      exact .inr rfl
    · exact .inl rfl

/-! ## Attributes -/

theorem attributeName_of_notMem (layer : Layer) {name : String} (h : '/' ∉ name.toList) :
    attributeName layer name = (layer.resolveAlias name).getD name := by
  rw [attributeName, ungroupedName?, Chars.cutFirst_eq_none_iff.2 h]
  rfl

section Attributes

variable {layer : Layer} {qualifier group written inner base : String}
  (hgroup : group ∈ layer.groups) (hsame : Text.same group written = true)
  (hnames : ∀ name ∈ [qualifier, group, inner, base], IsUndivided name)
include hgroup hsame hnames

theorem attributeName_groupedName {outer? inner? : Option String}
    (houter : ∀ q ∈ outer?, q = qualifier) (hinner : ∀ q ∈ inner?, q = inner) :
    attributeName layer (groupedName outer? written inner? base) =
      (layer.resolveAlias base).getD base := by
  have hungrouped : ungroupedName? layer.groups (groupedName outer? written inner? base) =
      some base := by
    refine ungroupedName?_groupedName hgroup hsame ((hnames group (by simp)).of_same hsame) ?_ ?_
      (hnames base (by simp))
    · exact fun q hq => houter q hq ▸ hnames qualifier (by simp)
    · exact fun q hq => hinner q hq ▸ hnames inner (by simp)
  rw [attributeName, hungrouped]
  rfl

/-- Whether a name is looked up with its prefix or without is no difference, unless the prefix is
all that stands in front of the base. -/
theorem attributeName_of_mem_spellings {name : String}
    (hname : name ∈ spellings qualifier written inner base)
    (halone : name ≠ qualifiedName (some qualifier) base) :
    attributeName layer name = (layer.resolveAlias base).getD base := by
  have hbase := hnames base (by simp)
  simp only [spellings, List.mem_cons, List.not_mem_nil, or_false] at hname
  obtain rfl | rfl | rfl | rfl | rfl | rfl := hname
  · exact attributeName_of_notMem layer hbase.2
  · exact absurd rfl halone
  all_goals exact attributeName_groupedName hgroup hsame hnames (by simp) (by simp)

theorem attributeName_unqualifiedName {name : String}
    (hname : name ∈ spellings qualifier written inner base) :
    attributeName layer (unqualifiedName name) = (layer.resolveAlias base).getD base := by
  have hqualifier := (hnames qualifier (by simp)).1
  have hwritten := (hnames group (by simp)).of_same hsame
  have hinner := hnames inner (by simp)
  have hbase := hnames base (by simp)
  have hplain : ':' ∉ (groupedName none written none base).toList := by
    simp [toList_groupedName, qualifiedName, hwritten.1, hbase.1]
  have hungrouped := attributeName_of_notMem layer hbase.2
  simp only [spellings, List.mem_cons, List.not_mem_nil, or_false] at hname
  obtain rfl | rfl | rfl | rfl | rfl | rfl := hname
  · rw [unqualifiedName_of_notMem hbase.1, hungrouped]
  · rw [unqualifiedName_qualifiedName hqualifier, if_neg hbase.1, hungrouped]
  · rw [unqualifiedName_of_notMem hplain]
    exact attributeName_groupedName hgroup hsame hnames (by simp) (by simp)
  · have hoccurs := unqualifiedName_qualifiedName hqualifier (groupedName none written none base)
    rw [if_neg hplain] at hoccurs
    exact hoccurs.symm ▸ attributeName_groupedName hgroup hsame hnames (by simp) (by simp)
  · -- The group and the slash are taken for a part of the prefix.
    have hfront : ':' ∉ (written ++ "/" ++ inner).toList := by
      simp [hwritten.1, hinner.1]
    have hoccurs := unqualifiedName_qualifiedName hfront base
    rw [if_neg hbase.1] at hoccurs
    rw [groupedName_none_some, hoccurs, hungrouped]
  · have hoccurs :=
      unqualifiedName_qualifiedName hqualifier (groupedName none written (some inner) base)
    rw [if_pos (by simp [toList_groupedName, toList_qualifiedName])] at hoccurs
    exact hoccurs.symm ▸ attributeName_groupedName hgroup hsame hnames (by simp) (by simp)

end Attributes

/-! ## Positions in a predicate -/

namespace Predicate

/-- Whether a node is a comparison with a property of GML. -/
def comparesGml (p : Predicate) : Bool :=
  p.comparedProperty?.any gmlProperties.contains

/-- The positions inside a comparison with a property of GML. -/
def KeepsPrefixes (p : Predicate) (position : Position) : Prop :=
  ∃ above side below node, position = above ++ side :: below ∧ p.at? above = some node ∧
    node.comparesGml = true

theorem not_keepsPrefixes_nil (p : Predicate) : ¬ p.KeepsPrefixes [] := by
  rintro ⟨above, side, below, node, hposition, -⟩
  exact List.append_ne_nil_of_right_ne_nil above (List.cons_ne_nil side below) hposition.symm

theorem keepsPrefixes_cons_iff {p : Predicate} {side : Side} {rest : Position} :
    p.KeepsPrefixes (side :: rest) ↔ p.comparesGml = true ∨
      ∃ child, p.child? side = some child ∧ child.KeepsPrefixes rest := by
  constructor
  · rintro ⟨above, side', below, node, hposition, hnode, hgml⟩
    cases above with
    | nil =>
        cases hnode
        exact .inl hgml
    | cons first above =>
        obtain ⟨rfl, rfl⟩ := List.cons.inj hposition
        obtain ⟨child, hchild, hnode⟩ := Option.bind_eq_some_iff.1 hnode
        exact .inr ⟨child, hchild, above, side', below, node, rfl, hnode, hgml⟩
  · rintro (hgml | ⟨child, hchild, above, side', below, node, rfl, hnode, hgml⟩)
    · exact ⟨[], side, rest, p, rfl, rfl, hgml⟩
    · refine ⟨side :: above, side', below, node, rfl, ?_, hgml⟩
      rw [at?, hchild]
      exact hnode

instance decidableKeepsPrefixes :
    ∀ (p : Predicate) (position : Position), Decidable (p.KeepsPrefixes position)
  | p, [] => isFalse p.not_keepsPrefixes_nil
  | p, side :: rest =>
      have (child : Predicate) : Decidable (child.KeepsPrefixes rest) :=
        decidableKeepsPrefixes child rest
      have : Decidable (∃ child, p.child? side = some child ∧ child.KeepsPrefixes rest) :=
        inferInstanceAs (Decidable (∃ child ∈ p.child? side, child.KeepsPrefixes rest))
      decidable_of_iff _ keepsPrefixes_cons_iff.symm

theorem child?_rename (f : String → String) (p : Predicate) (side : Side) :
    (p.rename f).child? side = (p.child? side).map (rename f) := by
  cases p <;> cases side <;> rfl

theorem at?_rename (f : String → String) (p : Predicate) (position : Position) :
    (p.rename f).at? position = (p.at? position).map (rename f) := by
  induction position generalizing p with
  | nil => rfl
  | cons side rest ih =>
      rw [at?, at?, child?_rename]
      cases p.child? side with
      | none => rfl
      | some child => exact ih child

theorem unqualified_comparison (op : ComparisonOperator) (left right : Predicate)
    (like : Option LikeOptions) : (comparison op left right like).unqualified =
      if (comparison op left right like).comparesGml = true then comparison op left right like
      else comparison op left.unqualified right.unqualified like :=
  rfl

theorem unqualified_of_comparesGml {p : Predicate} (h : p.comparesGml = true) :
    p.unqualified = p := by
  cases p with
  | comparison op left right like => rw [unqualified_comparison, if_pos h]
  | _ => cases h

theorem child?_unqualified {p : Predicate} (h : ¬ p.comparesGml = true) (side : Side) :
    p.unqualified.child? side = (p.child? side).map unqualified := by
  cases p with
  | comparison op left right like =>
      rw [unqualified_comparison, if_neg h]
      cases side <;> rfl
  | _ => cases side <;> rfl

/-- A comparison with a property of GML stays as it is. -/
theorem at?_unqualified_of_keepsPrefixes {p : Predicate} {position : Position}
    (h : p.KeepsPrefixes position) : p.unqualified.at? position = p.at? position := by
  induction position generalizing p with
  | nil => exact absurd h p.not_keepsPrefixes_nil
  | cons side rest ih =>
      by_cases hgml : p.comparesGml = true
      · rw [unqualified_of_comparesGml hgml]
      · obtain ⟨child, hchild, hkeeps⟩ := (keepsPrefixes_cons_iff.1 h).resolve_left hgml
        rw [at?, at?, child?_unqualified hgml, hchild]
        exact ih hkeeps

/-- At all other positions the prefix is dropped. -/
theorem at?_unqualified {p : Predicate} {position : Position} (h : ¬ p.KeepsPrefixes position) :
    p.unqualified.at? position = (p.at? position).map unqualified := by
  induction position generalizing p with
  | nil => rfl
  | cons side rest ih =>
      rw [keepsPrefixes_cons_iff, not_or] at h
      rw [at?, at?, child?_unqualified h.1]
      cases hchild : p.child? side with
      | none => rfl
      | some child => exact ih fun hkeeps => h.2 ⟨child, hchild, hkeeps⟩

/-- A property's name is looked up with its prefix where prefixes are kept, and without it
elsewhere. -/
theorem at?_normalized_property (layer : Layer) {p : Predicate} {position : Position}
    {name : String} (hat : p.at? position = some (property name)) :
    (p.normalized layer).at? position = some (property
      (attributeName layer (if p.KeepsPrefixes position then name else unqualifiedName name))) := by
  rw [normalized, at?_rename]
  by_cases hkeeps : p.KeepsPrefixes position
  · rw [at?_unqualified_of_keepsPrefixes hkeeps, hat, if_pos hkeeps]
    rfl
  · rw [at?_unqualified hkeeps, hat, if_neg hkeeps]
    rfl

/-- Wherever a name stands, and however it is written, the attribute of the layer takes its place.
Only a prefix alone where prefixes are kept is looked up with the name, so that the name comes to
the attribute only if an alias with that prefix does. -/
theorem at?_normalized_spelling {layer : Layer} {qualifier group written inner base : String}
    (hgroup : group ∈ layer.groups) (hsame : Text.same group written = true)
    (hnames : ∀ name ∈ [qualifier, group, inner, base], IsUndivided name) {p : Predicate}
    {position : Position} {name : String} (hname : name ∈ spellings qualifier written inner base)
    (hat : p.at? position = some (property name)) :
    (p.normalized layer).at? position = some (property
        (if name = qualifiedName (some qualifier) base ∧ p.KeepsPrefixes position then
          (layer.resolveAlias name).getD name
        else (layer.resolveAlias base).getD base)) ∧
      ((p.normalized layer).at? position =
          some (property ((layer.resolveAlias base).getD base)) ↔
        (name = qualifiedName (some qualifier) base → p.KeepsPrefixes position →
          (layer.resolveAlias name).getD name = (layer.resolveAlias base).getD base)) := by
  have hfound : (p.normalized layer).at? position = some (property
      (if name = qualifiedName (some qualifier) base ∧ p.KeepsPrefixes position then
        (layer.resolveAlias name).getD name
      else (layer.resolveAlias base).getD base)) := by
    rw [at?_normalized_property layer hat]
    congr 2
    by_cases hkeeps : p.KeepsPrefixes position
    · rw [if_pos hkeeps]
      by_cases halone : name = qualifiedName (some qualifier) base
      · have hslash : '/' ∉ name.toList := by
          rw [halone]
          refine slash_notMem_qualifiedName ?_ (hnames base (by simp))
          exact fun q hq => Option.some.inj hq ▸ hnames qualifier (by simp)
        rw [attributeName_of_notMem layer hslash, if_pos ⟨halone, hkeeps⟩]
      · rw [attributeName_of_mem_spellings hgroup hsame hnames hname halone,
          if_neg fun h => halone h.1]
    · rw [if_neg hkeeps, attributeName_unqualifiedName hgroup hsame hnames hname,
        if_neg fun h => hkeeps h.2]
  refine ⟨hfound, ?_⟩
  rw [hfound, Option.some.injEq, property.injEq, ite_eq_right_iff, and_imp]

/-- A layer with two groups, and with an alias for one of its attributes. -/
def groupedRoads : Layer :=
  LayerSchema.toLayer { name := "roads", aliases := [("A", "width")], groups := ["h", "g"] }

/-- One comparison next to a comparison with a property of GML and below it. -/
def comparedTwice (name : String) : Predicate :=
  binary .and (compare (.relation .eq) name (some "1"))
    (comparison (.relation .eq) (property "gml:name")
      (compare (.relation .eq) name (some "1")) none)

/-- The prefix alone is dropped in the first comparison and kept in the second one. -/
theorem at?_normalized_comparedTwice :
    "g" ∈ groupedRoads.groups ∧ Text.same "g" "G" = true ∧
      (∀ name ∈ ["p", "g", "q", "a"], IsUndivided name) ∧
      "p:a" ∈ spellings "p" "G" "q" "a" ∧ "p:G/q:a" ∈ spellings "p" "G" "q" "a" ∧
      ((comparedTwice "p:a").normalized groupedRoads).at? [.left, .left] =
        some (property "width") ∧
      ((comparedTwice "p:a").normalized groupedRoads).at? [.right, .right, .left] =
        some (property "p:a") ∧
      ((comparedTwice "p:G/q:a").normalized groupedRoads).at? [.right, .right, .left] =
        some (property "width") := by
  have hgroup : "g" ∈ groupedRoads.groups := by decide
  have hsame : Text.same "g" "G" = true := by decide
  have hnames : ∀ name ∈ ["p", "g", "q", "a"], IsUndivided name := by decide
  have halone : "p:a" ∈ spellings "p" "G" "q" "a" := by decide
  have hgrouped : "p:G/q:a" ∈ spellings "p" "G" "q" "a" := by decide
  refine ⟨hgroup, hsame, hnames, halone, hgrouped, ?_, ?_, ?_⟩
  · exact (at?_normalized_spelling hgroup hsame hnames halone rfl).1
  · exact (at?_normalized_spelling hgroup hsame hnames halone rfl).1
  · exact (at?_normalized_spelling hgroup hsame hnames hgrouped rfl).1

/-- The same prefix alone is kept next to a property of GML. -/
theorem at?_normalized_below_gml :
    "g" ∈ groupedRoads.groups ∧ (∀ name ∈ ["p", "g", "q", "a"], IsUndivided name) ∧
      "p:a" ∉ gmlProperties ∧ "p:a" ∈ spellings "p" "g" "q" "a" ∧
      (comparedTwice "p:a").at? [.right, .right, .left] = some (property "p:a") ∧
      ((comparedTwice "p:a").normalized groupedRoads).at? [.right, .right, .left] ≠
        some (property ((groupedRoads.resolveAlias "a").getD "a")) := by
  have hat : (comparedTwice "p:a").at? [.right, .right, .left] = some (property "p:a") := rfl
  refine ⟨by decide, by decide, by decide, by decide, hat, ?_⟩
  rw [at?_normalized_property groupedRoads hat, ne_eq, Option.some.injEq, property.injEq]
  decide

end Predicate

end FilterEncoding
