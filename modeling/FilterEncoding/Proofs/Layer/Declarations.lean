import FilterEncoding.Proofs.Layer.Tables

/-!
# Schemas as they are declared

A schema is what its declarations make of it, in any order and with any repetitions.  Each kind of
declaration adds to its own collection, so that a collection of the schema is found from the
declarations of that kind alone (`items_ofDeclarations`, `fields_ofDeclarations`,
`aliases_ofDeclarations`).

* `ofDeclarations_describes` — what a schema says about attributes and their types.
* `resolveAlias_settled_iff` — which aliases have an answer that does not depend on the order in
  which they are kept.
-/

namespace FilterEncoding

namespace Declaration

/-- The attribute that a declaration makes visible. -/
def itemName? : Declaration → Option String
  | field name _ => some name
  | item name => some name
  | _ => none

/-- The attribute that a declaration gives a type, with the type. -/
def typing? : Declaration → Option (String × FieldType)
  | field name type => some (name, type)
  | _ => none

/-- The alias that a declaration introduces, with its attribute. -/
def aliasing? : Declaration → Option (String × String)
  | aliasFor target name => some (name, target)
  | _ => none

end Declaration

theorem Text.same_comm (a b : String) : Text.same a b = Text.same b a := by
  rw [Bool.eq_iff_iff, Text.same_iff, Text.same_iff]
  exact eq_comm

namespace LayerSchema

open Declaration

/-! ## One declaration -/

theorem items_declare (s : LayerSchema) (d : Declaration) :
    (s.declare d).items =
      match d.itemName? with
      | some name => if name ∈ s.items then s.items else s.items ++ [name]
      | none => s.items := by
  have hitem : ∀ name, (s.item name).items =
      if name ∈ s.items then s.items else s.items ++ [name] := by
    intro name
    unfold item
    by_cases h : name ∈ s.items
    · simp [h]
    · simp [h]
  cases d with
  | field name type => exact hitem name
  | item name => exact hitem name
  | _ => rfl

theorem fields_declare (s : LayerSchema) (d : Declaration) :
    (s.declare d).fields =
      d.typing?.elim s.fields fun entry => assign entry.1 entry.2 s.fields := by
  cases d with
  | item name =>
      show (s.item name).fields = s.fields
      unfold item
      split <;> rfl
  | _ => rfl

theorem aliases_declare (s : LayerSchema) (d : Declaration) :
    (s.declare d).aliases =
      d.aliasing?.elim s.aliases fun entry => assign entry.1 entry.2 s.aliases := by
  have hitem : ∀ name, (s.item name).aliases = s.aliases := by
    intro name
    unfold item
    split <;> rfl
  cases d with
  | field name type => exact hitem name
  | item name => exact hitem name
  | _ => rfl

/-! ## All declarations -/

theorem ofDeclarations_append_one (name : String) (ds : List Declaration) (d : Declaration) :
    ofDeclarations name (ds ++ [d]) = (ofDeclarations name ds).declare d :=
  List.foldl_append

theorem eraseDups_append_one (names : List String) (name : String) :
    (names ++ [name]).eraseDups =
      if name ∈ names then names.eraseDups else names.eraseDups ++ [name] := by
  rw [List.eraseDups_append, List.removeAll]
  by_cases h : name ∈ names
  · simp [h]
  · simp [h, List.eraseDups_cons]

theorem nodup_eraseDups (names : List String) : names.eraseDups.Nodup := by
  induction names using List.reverseRecOn with
  | nil => exact List.nodup_nil
  | append_singleton names name ih =>
      rw [eraseDups_append_one]
      split
      · exact ih
      · next hname => exact nodup_append_one ih (mt List.mem_eraseDups.1 hname)

/-- The visible attributes are those that were declared, each where it was declared first. -/
theorem items_ofDeclarations (name : String) (ds : List Declaration) :
    (ofDeclarations name ds).items = (ds.filterMap itemName?).eraseDups := by
  induction ds using List.reverseRecOn with
  | nil => rfl
  | append_singleton ds d ih =>
      rw [ofDeclarations_append_one, items_declare, ih, List.filterMap_append]
      cases hd : d.itemName? with
      | none => simp [hd]
      | some item => simp [hd, eraseDups_append_one]

/-- A table that each declaration adds its entry to, if it has one, holds what the entries leave
there. -/
theorem table_ofDeclarations {α : Type} {table : LayerSchema → List (String × α)}
    {added? : Declaration → Option (String × α)} (hnew : ∀ name, table { name } = [])
    (hstep : ∀ s d, table (s.declare d) =
      (added? d).elim (table s) fun entry => assign entry.1 entry.2 (table s))
    (name : String) (ds : List Declaration) :
    table (ofDeclarations name ds) = assigned (ds.filterMap added?) := by
  induction ds using List.reverseRecOn with
  | nil => exact hnew name
  | append_singleton ds d ih =>
      rw [ofDeclarations_append_one, hstep, ih, List.filterMap_append]
      cases hd : added? d with
      | none => simp [hd]
      | some entry => simp [hd, assigned_append_one]

theorem fields_ofDeclarations (name : String) (ds : List Declaration) :
    (ofDeclarations name ds).fields = assigned (ds.filterMap typing?) :=
  table_ofDeclarations (fun _ => rfl) fields_declare name ds

theorem aliases_ofDeclarations (name : String) (ds : List Declaration) :
    (ofDeclarations name ds).aliases = assigned (ds.filterMap aliasing?) :=
  table_ofDeclarations (fun _ => rfl) aliases_declare name ds

/-! ## Attributes and their types -/

theorem mem_typing_keys_iff {ds : List Declaration} {name : String} :
    name ∈ (ds.filterMap typing?).map Prod.fst ↔ ∃ type, .field name type ∈ ds := by
  constructor
  · intro h
    obtain ⟨⟨k, type⟩, hmem, rfl⟩ := List.mem_map.1 h
    obtain ⟨d, hd, htyping⟩ := List.mem_filterMap.1 hmem
    cases d with
    | field other given =>
        cases htyping
        exact ⟨_, hd⟩
    | _ => cases htyping
  · rintro ⟨type, hmem⟩
    have hmem' : (name, type) ∈ ds.filterMap typing? := List.mem_filterMap.2 ⟨_, hmem, rfl⟩
    exact List.mem_map_of_mem (f := Prod.fst) hmem'

/-- What a schema says about attributes, in terms of the declarations that made it.  Nothing depends
on the order in which the types are kept. -/
structure Describes (ds : List Declaration) (s : LayerSchema) : Prop where
  nodup_items : s.items.Nodup
  /-- The visible attributes, each where it was declared first. -/
  items_eq : s.items = (ds.filterMap itemName?).eraseDups
  mem_items_of_field : ∀ name type, .field name type ∈ ds → name ∈ s.items
  hasAttribute_iff : ∀ name,
    s.hasAttribute name = true ↔ ∃ item ∈ s.items, Text.same item name = true
  /-- An attribute that was given a type has the one that it was given last. -/
  attributeType_exact : ∀ fields, fields.Perm s.fields → ∀ name type,
    lastValue? name (ds.filterMap typing?) = some type →
      { s with fields := fields }.attributeType name = some type
  /-- A name in another letter case is that of the only attribute it can mean. -/
  attributeType_respelled : ∀ fields, fields.Perm s.fields → ∀ name spelling type,
    lastValue? name (ds.filterMap typing?) = none →
      lastValue? spelling (ds.filterMap typing?) = some type → Text.same spelling name = true →
      (∀ other given, .field other given ∈ ds → Text.same other name = true → other = spelling) →
      { s with fields := fields }.attributeType name = some type
  attributeType_eq_none_iff : ∀ fields, fields.Perm s.fields → ∀ name,
    { s with fields := fields }.attributeType name = none ↔
      ∀ other type, .field other type ∈ ds → Text.same other name = false

theorem ofDeclarations_describes (name : String) (ds : List Declaration) :
    Describes ds (ofDeclarations name ds) where
  nodup_items := by
    rw [items_ofDeclarations]
    exact nodup_eraseDups _
  items_eq := items_ofDeclarations name ds
  mem_items_of_field := by
    intro name' type hmem
    rw [items_ofDeclarations, List.mem_eraseDups]
    exact List.mem_filterMap.2 ⟨_, hmem, rfl⟩
  hasAttribute_iff := by
    intro n
    simp only [hasAttribute, List.any_eq_true, Text.same_comm n]
  attributeType_exact := by
    intro fields hfields n type hlast
    rw [fields_ofDeclarations] at hfields
    exact lookupIgnoringCase_of_lastValue? hfields hlast
  attributeType_respelled := by
    intro fields hfields n spelling type hunset hlast hsame honly
    rw [fields_ofDeclarations] at hfields
    refine lookupIgnoringCase_of_only hfields hunset hlast hsame fun other hother => ?_
    obtain ⟨given, hmem⟩ := mem_typing_keys_iff.1 hother
    exact honly other given hmem
  attributeType_eq_none_iff := by
    intro fields hfields n
    rw [fields_ofDeclarations] at hfields
    refine (lookupIgnoringCase_eq_none_iff hfields).trans ?_
    simp only [mem_typing_keys_iff, forall_exists_index]

/-! ## Aliases -/

/-- Over all orders in which the aliases can be kept, a name gets the attribute of any alias that it
spells, and no other. -/
theorem exists_perm_resolveAlias_iff {name a target : String} {ds : List Declaration} :
    (∃ aliases, aliases.Perm (ofDeclarations name ds).aliases ∧
        { ofDeclarations name ds with aliases := aliases }.resolveAlias a = some target) ↔
      ∃ other, Text.same other a = true ∧
        lastValue? other (ds.filterMap aliasing?) = some target := by
  rw [aliases_ofDeclarations]
  constructor
  · rintro ⟨aliases, hperm, hresolve⟩
    obtain ⟨other, hmem, hsame⟩ := exists_of_firstValue? hresolve
    exact ⟨other, hsame, (mem_iff_of_perm hperm).1 hmem⟩
  · rintro ⟨other, hsame, hlast⟩
    exact exists_perm_firstValue? (mem_assigned_iff.2 hlast) hsame

/-- An alias is resolved to its own attribute, in whatever order the aliases are kept, exactly if no
other spelling of it stands for another attribute. -/
theorem resolveAlias_settled_iff {name a target : String} {ds : List Declaration}
    (h : lastValue? a (ds.filterMap aliasing?) = some target) :
    (∀ aliases, aliases.Perm (ofDeclarations name ds).aliases →
        { ofDeclarations name ds with aliases := aliases }.resolveAlias a = some target) ↔
      ∀ other given, lastValue? other (ds.filterMap aliasing?) = some given →
        Text.same other a = true → given = target := by
  constructor
  · intro hsettled other given hlast hsame
    obtain ⟨aliases, hperm, hresolve⟩ :=
      (@exists_perm_resolveAlias_iff name _ _ _).2 ⟨other, hsame, hlast⟩
    rw [hsettled aliases hperm] at hresolve
    exact (Option.some.inj hresolve).symm
  · intro hagree aliases hperm
    have hperm' := hperm
    rw [aliases_ofDeclarations] at hperm'
    obtain ⟨given, hresolve⟩ :=
      exists_firstValue?_of_mem ((mem_iff_of_perm hperm').2 h) (Text.same_refl a)
    obtain ⟨other, hsame, hlast⟩ := exists_perm_resolveAlias_iff.1 ⟨aliases, hperm, hresolve⟩
    rw [← hagree other given hlast hsame]
    exact hresolve

/-- An alias that is declared again, and in another letter case for the same attribute. -/
theorem resolveAlias_settled_redeclared :
    let ds : List Declaration :=
      [.aliasFor "LANES" "RoadName", .aliasFor "NAME" "ROADNAME", .aliasFor "NAME" "RoadName"]
    lastValue? "RoadName" (ds.filterMap aliasing?) = some "NAME" ∧
      ∀ aliases, aliases.Perm (ofDeclarations "roads" ds).aliases →
        { ofDeclarations "roads" ds with aliases := aliases }.resolveAlias "RoadName" =
          some "NAME" := by
  intro ds
  have hlast : lastValue? "RoadName" (ds.filterMap aliasing?) = some "NAME" := by decide
  refine ⟨hlast, (resolveAlias_settled_iff hlast).2 fun other given hgiven _ => ?_⟩
  have hlookup : List.lookup other
      [("RoadName", "NAME"), ("ROADNAME", "NAME"), ("RoadName", "LANES")] = some given := hgiven
  simp only [lookup_entry_cons] at hlookup
  split at hlookup
  · exact (Option.some.inj hlookup).symm
  · split at hlookup
    · exact (Option.some.inj hlookup).symm
    · cases hlookup

/-- An alias that is declared in two letter cases is resolved to the attribute of one of them. -/
theorem resolveAlias_other_spelling :
    let ds : List Declaration := [.aliasFor "OTHER" "RoadName", .aliasFor "NAME" "roadname"]
    lastValue? "roadname" (ds.filterMap aliasing?) = some "NAME" ∧
      (ofDeclarations "roads" ds).resolveAlias "roadname" = some "OTHER" := by
  decide

end LayerSchema

end FilterEncoding
